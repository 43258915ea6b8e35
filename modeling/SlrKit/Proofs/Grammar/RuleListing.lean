import SlrKit.Proofs.Grammar.Alternatives
import SlrKit.Proofs.Grammar.Ranks

/-!
# How rules list their productions

The declarations of a rule need not stand together. The rules of a book are in the order in which their
names first come up, and each lists the numbers of all alternatives that were written for it, wherever
they stand, in increasing order. Precedence levels change neither.
-/

set_option autoImplicit false

namespace SlrKit

variable {α π : Type}

theorem Written.rule_is_name {declarations : Declarations α π} {written : Written}
    (member : written ∈ Written.inDeclarations declarations) :
    RuleText.isName written.rule.toList = true := by
  obtain ⟨declared, _, parsed, read, named, _⟩ := Written.exists_declaration member
  obtain ⟨layout, _, _, rfl⟩ := RuleText.exists_layout _ read
  rw [← named]
  simpa [RuleText.Layout.ruleText, RuleText.Layout.ruleName] using layout.named

theorem RuleText.alternatives_ne_nil {terminals : List String} {text : List Char} {parsed : RuleText}
    (read : RuleText.parse terminals text = .ok parsed) : parsed.alternatives ≠ [] := by
  obtain ⟨layout, _, _, rfl⟩ := RuleText.exists_layout _ read
  exact List.cons_ne_nil _ _

theorem Written.rules_in_text {terminals : List String} (declaration : Nat) {text : String}
    {parsed : RuleText} (read : RuleText.parse terminals text.toList = .ok parsed) :
    (Written.inText terminals declaration text).map Written.rule =
      List.replicate parsed.alternatives.length parsed.name := by
  simp only [Written.inText, read, List.map_map]
  exact List.map_const'

namespace RuleBook

/-- The rules are the given names, one for each production, without repetition, and each lists the
places of its name. -/
structure Files (book : RuleBook) (names : List String) : Prop where
  count : book.productions.length = names.length
  rules : book.rules.map Rule.name = names.foldl addNew []
  listed : ∀ rule ∈ book.rules, rule.productions = names.idxsOf rule.name

namespace Files

variable {book : RuleBook} {names : List String}

theorem same {other : RuleBook} (files : book.Files names)
    (productions : other.productions = book.productions) (rules : other.rules = book.rules) :
    other.Files names := by
  constructor
  · rw [productions]
    exact files.count
  · rw [rules]
    exact files.rules
  · rw [rules]
    exact files.listed

theorem rule_isSome_iff (files : book.Files names) (name : String) :
    (book.rule? name).isSome = true ↔ name ∈ names := by
  rw [RuleBook.rule_isSome_iff, files.rules, mem_fold_add_new_iff]
  simp

end Files

theorem idxs_of_replicate (name : String) (count start : Nat) :
    (List.replicate count name).idxsOf name start = List.range' start count := by
  induction count generalizing start with
  | zero => rfl
  | succ count ih => simp [List.replicate_succ, List.range'_succ, ih]

theorem idxs_of_replicate_other {name other : String} (different : other ≠ name)
    (count start : Nat) : (List.replicate count name).idxsOf other start = [] := by
  rw [List.idxsOf_eq_nil_iff]
  intro found member
  rw [List.eq_of_mem_replicate member]
  exact beq_eq_false_iff_ne.mpr different.symm

theorem list_under_names (name : String) (numbers : List Nat) (rules : List Rule) :
    (listUnder name numbers rules).map Rule.name = rules.map Rule.name := by
  simp only [listUnder, List.map_map]
  apply List.map_congr_left
  intro rule _
  simp only [Function.comp_apply]
  split
  · rfl
  · rfl

section Step

variable {book : RuleBook} {names : List String}

/-- What a rule lists once so many more alternatives are written for `name`. -/
theorem idxs_of_more (name other : String) (count : Nat) :
    (names ++ List.replicate count name).idxsOf other =
      names.idxsOf other ++ if other = name then List.range' names.length count else [] := by
  rw [List.idxsOf_append, Nat.zero_add]
  split
  · rename_i same
    rw [same, idxs_of_replicate]
  · rename_i different
    rw [idxs_of_replicate_other different]

theorem add_known_rule_files (files : book.Files names) (declaration : Nat) (text : RuleText)
    (known : (book.rule? text.name).isSome = true) :
    (book.addRuleText declaration text).Files
      (names ++ List.replicate text.alternatives.length text.name) := by
  rw [add_rule_text_eq]
  constructor
  · simp [files.count]
  · have before := (RuleBook.rule_isSome_iff book text.name).mp known
    rw [files.rules] at before
    simp only [rulesWith, if_pos known, list_under_names, files.rules, List.foldl_append,
      fold_add_new_replicate before]
  · intro rule member
    simp only [rulesWith, if_pos known, listUnder] at member
    obtain ⟨earlier, old, rfl⟩ := List.mem_map.mp member
    split
    · rename_i own
      rw [idxs_of_more, if_pos own, files.listed earlier old, files.count]
    · rename_i other
      rw [idxs_of_more, if_neg other, List.append_nil]
      exact files.listed earlier old

theorem add_new_rule_files (files : book.Files names) (declaration : Nat) (text : RuleText)
    (some : text.alternatives ≠ []) (unknown : ¬(book.rule? text.name).isSome = true) :
    (book.addRuleText declaration text).Files
      (names ++ List.replicate text.alternatives.length text.name) := by
  rw [add_rule_text_eq]
  have fresh : text.name ∉ names := (files.rule_isSome_iff text.name).not.mp unknown
  constructor
  · simp [files.count]
  · obtain ⟨count, more⟩ := Nat.exists_eq_succ_of_ne_zero (List.length_pos_iff.mpr some).ne'
    have unlisted : text.name ∉ names.foldl addNew [] := by
      rw [mem_fold_add_new_iff]
      simpa using fresh
    have entered : addNew (names.foldl addNew []) text.name =
        names.foldl addNew [] ++ [text.name] := by
      simp [addNew, unlisted]
    simp only [rulesWith, if_neg unknown, List.map_append, files.rules, List.foldl_append, more,
      List.replicate_succ, List.foldl_cons, entered]
    rw [fold_add_new_replicate (List.mem_append_right _ List.mem_cons_self)]
    rfl
  · intro rule member
    simp only [rulesWith, if_neg unknown] at member
    rw [idxs_of_more]
    rcases List.mem_append.mp member with old | new
    · have other : rule.name ≠ text.name := by
        intro same
        apply unknown
        rw [RuleBook.rule_isSome_iff, ← same]
        exact List.mem_map_of_mem old
      rw [if_neg other, List.append_nil]
      exact files.listed rule old
    · have nowhere : names.idxsOf text.name = [] := by
        rw [List.idxsOf_eq_nil_iff]
        intro found inside
        exact beq_eq_false_iff_ne.mpr fun same => fresh (same ▸ inside)
      rw [List.mem_singleton.mp new, if_pos rfl, nowhere, List.nil_append, files.count]

theorem add_rule_text_files (files : book.Files names) (declaration : Nat) (text : RuleText)
    (some : text.alternatives ≠ []) :
    (book.addRuleText declaration text).Files
      (names ++ List.replicate text.alternatives.length text.name) := by
  by_cases known : (book.rule? text.name).isSome = true
  · exact add_known_rule_files files declaration text known
  · exact add_new_rule_files files declaration text some known

end Step

/-- The names of the rules that alternatives are written for, one for each alternative. -/
def writtenRules (declarations : Declarations α π) : List String :=
  (Written.inDeclarations declarations).map Written.rule

/-- The names of the rules in the order in which they first come up. -/
def ruleNames (declarations : Declarations α π) : List String :=
  (writtenRules declarations).foldl addNew []

theorem entered_files (declarations : Declarations α π) :
    (entered declarations).1.Files (writtenRules declarations) := by
  have start : (addPrecedences 1 declarations.precedence
      ({ tokens := terminalNames declarations }, [])).1.Files [] := by
    apply @add_precedences_keep fun book => book.Files []
    · intro book name precedence files
      exact files.same rfl rfl
    · exact ⟨rfl, rfl, fun _ member => absurd member List.not_mem_nil⟩
  have kept := @add_rule_texts_written (terminalNames declarations)
    fun book written => book.Files (written.map Written.rule)
  refine kept ?_ 0 _ _ [] start
  intro book written declaration text parsed read files
  rw [List.map_append, Written.rules_in_text declaration read]
  exact add_rule_text_files files declaration parsed (RuleText.alternatives_ne_nil read)

theorem of_declarations_files {declarations : Declarations α π} {book : RuleBook}
    (read : ofDeclarations declarations = .ok book) : book.Files (writtenRules declarations) := by
  obtain ⟨first, later, _, _, rfl, _⟩ := completed_of_read read
  exact (entered_files declarations).same rfl rfl

section Filed

theorem filter_map_places (written : List Written) (name : String) :
    ((written.map Written.rule).idxsOf name).filterMap
        (fun place => (written.map Written.production)[place]?) =
      (written.filter fun alternative => alternative.rule == name).map Written.production := by
  induction written with
  | nil => rfl
  | cons first rest ih =>
      have later : ((rest.map Written.rule).idxsOf name 1).filterMap
          (fun place => ((first :: rest).map Written.production)[place]?) =
          (rest.filter fun alternative => alternative.rule == name).map Written.production := by
        rw [← ih, List.idxsOf_start, List.filterMap_map]
        rfl
      have places : ((first :: rest).map Written.rule).idxsOf name =
          if first.rule == name then 0 :: (rest.map Written.rule).idxsOf name 1
          else (rest.map Written.rule).idxsOf name 1 := List.idxsOf_cons
      rw [places, List.filter_cons]
      split
      · rw [List.filterMap_cons, later]
        rfl
      · exact later

variable {book : RuleBook} {written : List Written}

theorem productions_of_filed (lists : book.Lists written)
    (files : book.Files (written.map Written.rule)) {rule : Rule} (member : rule ∈ book.rules) :
    book.productionsOf rule =
      (written.filter fun alternative => alternative.rule == rule.name).map Written.production := by
  rw [productionsOf, files.listed rule member, lists.productions]
  exact filter_map_places written rule.name

theorem exists_rule_of_written (files : book.Files (written.map Written.rule))
    {alternative : Written} (member : alternative ∈ written) :
    ∃ rule ∈ book.rules, rule.name = alternative.rule := by
  apply List.mem_map.mp
  rw [files.rules, mem_fold_add_new_iff]
  exact .inr (List.mem_map_of_mem member)

/-- All rules have their rows once exactly if no two alternatives for one rule have the same. -/
theorem rows_differ_iff (lists : book.Lists written)
    (files : book.Files (written.map Written.rule)) :
    (∀ rule ∈ book.rules, (book.productionsOf rule).Pairwise Differ) ↔
      written.Pairwise fun first second =>
        first.rule = second.rule → Differ first.production second.production := by
  constructor
  · intro all
    rw [List.pairwise_iff_forall_sublist]
    intro first second both same
    obtain ⟨rule, member, named⟩ := exists_rule_of_written files
      (both.subset List.mem_cons_self)
    have differ := all rule member
    rw [productions_of_filed lists files member, List.pairwise_map, List.pairwise_filter] at differ
    have own := List.pairwise_iff_forall_sublist.mp differ both
    exact own (by simp [named]) (by simp [named, same])
  · intro differ rule member
    rw [productions_of_filed lists files member, List.pairwise_map, List.pairwise_filter]
    refine differ.imp ?_
    intro first second apart one other
    exact apart ((beq_iff_eq.mp one).trans (beq_iff_eq.mp other).symm)

end Filed

end RuleBook

namespace Grammar

section Listing

variable {book : RuleBook} {names : List String} (files : book.Files names)

theorem mem_idxs_of_iff (names : List String) (name : String) (place : Nat) :
    place ∈ names.idxsOf name ↔ names[place]? = some name := by
  simp [List.getElem?_eq_some_iff]

include files

theorem rule_names_nodup : (book.rules.map RuleBook.Rule.name).Nodup := by
  rw [files.rules]
  exact RuleBook.fold_add_new_nodup names [] List.nodup_nil

theorem listed_under_written {production : Nat} {name : String}
    (written : names[production]? = some name) :
    listedUnder book production = numberRule book name := by
  have own : ∀ rule ∈ book.rules, rule.productions.contains production = true ↔
      (rule.name == name) = true := by
    intro rule member
    simp only [List.contains_iff_mem, files.listed rule member, mem_idxs_of_iff, written,
      Option.some.injEq, beq_iff_eq]
    exact eq_comm
  have same : book.rules.findIdx (fun rule => rule.productions.contains production) =
      book.rules.findIdx fun rule => rule.name == name :=
    Nat.le_antisymm (List.findIdx_le_findIdx fun rule member => (own rule member).mpr)
      (List.findIdx_le_findIdx fun rule member => (own rule member).mp)
  rw [listedUnder, numberRule, same, List.idxOf, List.findIdx_map]
  rfl

theorem number_rule_at {place : Nat} {rule : RuleBook.Rule}
    (found : book.rules[place]? = some rule) : numberRule book rule.name = 1 + place := by
  obtain ⟨bound, rfl⟩ := List.getElem?_eq_some_iff.mp found
  have distinct := rule_names_nodup files
  have at_place := distinct.idxOf_getElem place (by simpa using bound)
  rw [List.getElem_map] at at_place
  rw [numberRule, at_place]

theorem rule_of_written {production : Nat} {name : String}
    (written : names[production]? = some name) :
    (ofRuleBook book).ruleOf production = numberRule book name := by
  have bound : production < book.productions.length := by
    rw [files.count]
    exact (List.getElem?_eq_some_iff.mp written).1
  rw [ruleOf, production_of_rule_book book production bound]
  exact listed_under_written files written

theorem rule_of_iff {place production : Nat} {rule : RuleBook.Rule}
    (found : book.rules[place]? = some rule) (bound : production < book.productions.length + 1) :
    (ofRuleBook book).ruleOf production = 1 + place ↔ names[production]? = some rule.name := by
  constructor
  · intro own
    -- The start production is nobody's: its rule has no place in the book.
    by_cases last : production = book.productions.length
    · rw [last, ruleOf, last_production_of_rule_book] at own
      exact absurd own (by simp [startOf, startRule]; omega)
    · obtain ⟨name, written⟩ : ∃ name, names[production]? = some name :=
        ⟨_, List.getElem?_eq_getElem (by rw [← files.count]; omega)⟩
      rw [rule_of_written files written, numberRule] at own
      have known : name ∈ book.rules.map RuleBook.Rule.name := by
        rw [files.rules, RuleBook.mem_fold_add_new_iff]
        exact .inr (List.mem_of_getElem? written)
      have named := List.getElem?_idxOf known
      rw [Nat.add_left_cancel own, List.getElem?_map, found] at named
      rw [written, ← named]
      rfl
  · intro written
    rw [rule_of_written files written, number_rule_at files found]

theorem productions_of_listed {place : Nat} {rule : RuleBook.Rule}
    (found : book.rules[place]? = some rule) :
    (ofRuleBook book).productionsOf (1 + place) = rule.productions := by
  rw [files.listed rule (List.mem_of_getElem? found)]
  have increasing : ((ofRuleBook book).productionsOf (1 + place)).Pairwise (· < ·) :=
    List.pairwise_lt_range.filter _
  apply increasing.eq_of_mem_iff List.pairwise_idxsOf
  intro production
  rw [mem_productions_of, production_count_of_rule_book, mem_idxs_of_iff]
  constructor
  · rintro ⟨bound, own⟩
    exact (rule_of_iff files found bound).mp own
  · intro written
    have bound : production < book.productions.length + 1 := by
      rw [files.count]
      exact Nat.lt_succ_of_lt (List.getElem?_eq_some_iff.mp written).1
    exact ⟨bound, (rule_of_iff files found bound).mpr written⟩

end Listing

section Rows

theorem Numbers.same {grammar : Grammar} {left right : NamedSymbol} {symbol : Symbol}
    (one : grammar.Numbers left symbol) (other : grammar.Numbers right symbol) :
    left.same right = true := by
  cases one with
  | rule named =>
      cases other with
      | rule again =>
          rw [named] at again
          cases again
          simp [NamedSymbol.same]
  | token named =>
      cases other with
      | token again =>
          rw [named] at again
          cases again
          simp [NamedSymbol.same]

theorem same_row_of_numbers {grammar : Grammar} {lefts rights : List NamedSymbol}
    {symbols : List Symbol} (one : List.Forall₂ grammar.Numbers lefts symbols)
    (other : List.Forall₂ grammar.Numbers rights symbols) :
    NamedSymbol.sameRow lefts rights = true := by
  induction one generalizing rights with
  | nil =>
      cases other
      rfl
  | cons first later ih =>
      cases other with
      | cons again rest => simp [NamedSymbol.sameRow, first.same again, ih rest]

variable {book : RuleBook} (sound : book.Sound)

include sound

theorem rows_distinct {rule : RuleBook.Rule}
    (rows : (book.productionsOf rule).Pairwise RuleBook.Differ)
    (bounds : ∀ production ∈ rule.productions, production < book.productions.length) :
    rule.productions.Pairwise fun first second =>
      (ofRuleBook book).symbols first ≠ (ofRuleBook book).symbols second := by
  rw [RuleBook.productionsOf, List.pairwise_filterMap] at rows
  refine rows.imp_of_mem ?_
  intro first second one other differ same
  have left := List.getElem?_eq_getElem (bounds first one)
  have right := List.getElem?_eq_getElem (bounds second other)
  have numbered := symbols_numbered sound left
  rw [same] at numbered
  have repeated := same_row_of_numbers numbered (symbols_numbered sound right)
  have apart : NamedSymbol.sameRow _ _ = false := differ _ left _ right
  rw [apart] at repeated
  cases repeated

end Rows

end Grammar

end SlrKit
