import SlrKit.Proofs.Grammar.CheckedBook
import SlrKit.Proofs.Grammar.Consistency
import SlrKit.Proofs.RuleText.Spans

/-!
# Where the names of a book are written

A rule book keeps of every rule, symbol and precedence clause the declaration that it is written in and
its span there. Each span gives its name when it is cut out of the text of that declaration, also when a
rule is spread over several declarations, and the spans of one declaration come one after the other. A
mistake that is told of a declaration has its span in the text of that declaration.
-/

set_option autoImplicit false

namespace SlrKit

namespace RuleBook

open RuleText (Mark Located marksOf)

variable {α π : Type}

def Production.marks (production : Production) : List Mark :=
  marksOf production.symbols production.precedence

/-- The names that a book has from one declaration: that of a rule which is new there, and then those of
its productions. -/
def marksIn (book : RuleBook) (declaration : Nat) : List Mark :=
  (book.rules.filter (·.declaration = declaration)).map (fun rule => (rule.name, rule.span)) ++
    (book.productions.filter (·.declaration = declaration)).flatMap Production.marks

/-- All that a book has is from some declaration, in the text of which the names stand where their spans
say, one after the other. -/
structure TellsPlaces (declarations : Declarations α π) (book : RuleBook) : Prop where
  rules : ∀ rule ∈ book.rules, rule.declaration < declarations.productions.length
  productions : ∀ production ∈ book.productions,
    production.declaration < declarations.productions.length
  located : ∀ number declared, declarations.productions[number]? = some declared →
    Located declared.text.toList 0 (Text.byteLength declared.text.toList) (book.marksIn number)

section Rules

/-- Every rule is named by the text of its declaration, and no two rules by the same text. -/
structure NamedIn (terminals : List String) (texts : List String) (book : RuleBook) : Prop where
  named : ∀ rule ∈ book.rules, ∃ text parsed, texts[rule.declaration]? = some text ∧
    RuleText.parse terminals text.toList = .ok parsed ∧ parsed.name = rule.name ∧
      parsed.span = rule.span
  ordered : (book.rules.map Rule.declaration).Pairwise (· < ·)

variable {terminals texts : List String} {book : RuleBook}

theorem NamedIn.declaration_lt (named : NamedIn terminals texts book) {rule : Rule}
    (member : rule ∈ book.rules) : rule.declaration < texts.length := by
  obtain ⟨text, parsed, found, _⟩ := named.named rule member
  exact (List.getElem?_eq_some_iff.mp found).1

theorem NamedIn.snoc (named : NamedIn terminals texts book) (text : String) :
    NamedIn terminals (texts ++ [text]) book where
  named := by
    intro rule member
    obtain ⟨own, parsed, found, read⟩ := named.named rule member
    refine ⟨own, parsed, ?_, read⟩
    rwa [List.getElem?_append_left (named.declaration_lt member)]
  ordered := named.ordered

theorem list_under_declarations (name : String) (numbers : List Nat) (rules : List Rule) :
    (listUnder name numbers rules).map Rule.declaration = rules.map Rule.declaration := by
  simp only [listUnder, List.map_map]
  apply List.map_congr_left
  intro rule _
  simp only [Function.comp_apply]
  split
  · rfl
  · rfl

theorem NamedIn.add_known_rule (named : NamedIn terminals texts book) (text : RuleText)
    (known : (book.rule? text.name).isSome = true) :
    NamedIn terminals texts (book.addRuleText texts.length text) := by
  rw [add_rule_text_eq, rulesWith, if_pos known]
  constructor
  · intro rule member
    obtain ⟨earlier, old, rfl⟩ := List.mem_map.mp member
    obtain ⟨own, parsed, found⟩ := named.named earlier old
    refine ⟨own, parsed, ?_⟩
    split
    · exact found
    · exact found
  · rw [list_under_declarations]
    exact named.ordered

theorem NamedIn.add_new_rule (named : NamedIn terminals texts book) {text : String}
    {parsed : RuleText} (read : RuleText.parse terminals text.toList = .ok parsed)
    (unknown : ¬(book.rule? parsed.name).isSome = true) :
    NamedIn terminals (texts ++ [text]) (book.addRuleText texts.length parsed) := by
  rw [add_rule_text_eq, rulesWith, if_neg unknown]
  constructor
  · intro rule member
    rcases List.mem_append.mp member with old | new
    · exact (named.snoc text).named rule old
    · rw [List.mem_singleton.mp new]
      exact ⟨text, parsed, List.getElem?_concat_length, read, rfl, rfl⟩
  · rw [List.map_append, List.pairwise_append]
    refine ⟨named.ordered, List.pairwise_singleton _ _, ?_⟩
    intro earlier old later new
    obtain ⟨rule, member, rfl⟩ := List.mem_map.mp old
    rw [List.mem_singleton.mp new]
    exact named.declaration_lt member

theorem NamedIn.add_rule_text (named : NamedIn terminals texts book) {text : String}
    {parsed : RuleText} (read : RuleText.parse terminals text.toList = .ok parsed) :
    NamedIn terminals (texts ++ [text]) (book.addRuleText texts.length parsed) := by
  by_cases known : (book.rule? parsed.name).isSome = true
  · exact (named.add_known_rule parsed known).snoc text
  · exact named.add_new_rule read known

/-- By induction on the texts that are still to be read. -/
theorem add_rule_texts_named (done rest : List String) (state : RuleBook × List GrammarError)
    (named : NamedIn terminals done state.1) :
    NamedIn terminals (done ++ rest) (addRuleTexts terminals done.length rest state).1 := by
  induction rest generalizing done state with
  | nil => simpa [addRuleTexts] using named
  | cons text rest ih =>
      have count : done.length + 1 = (done ++ [text]).length := by simp
      have whole : done ++ text :: rest = (done ++ [text]) ++ rest := by simp
      rw [addRuleTexts, count, whole]
      apply ih
      cases read : RuleText.parse terminals text.toList with
      | ok parsed => exact named.add_rule_text read
      | error problem => exact named.snoc text

theorem entered_named (declarations : Declarations α π) :
    NamedIn (terminalNames declarations) (declarations.productions.map (·.text))
      (entered declarations).1 := by
  have start : (addPrecedences 1 declarations.precedence
      ({ tokens := terminalNames declarations }, [])).1.rules = [] := by
    apply @add_precedences_keep fun book => book.rules = []
    · intro book name precedence none
      exact none
    · rfl
  apply add_rule_texts_named []
  constructor
  · rw [start]
    intro rule member
    cases member
  · rw [start]
    exact List.Pairwise.nil

end Rules

section Productions

theorem le_declaration {terminals : List String} {start : Nat} {texts : List String}
    {written : Written} (member : written ∈ Written.inTexts terminals start texts) :
    start ≤ written.declaration := by
  induction texts generalizing start with
  | nil => cases member
  | cons text rest ih =>
      rcases List.mem_append.mp member with here | later
      · exact Nat.le_of_eq (Written.stands_in_of_mem_text here).1.symm
      · exact Nat.le_of_succ_le (ih later)

/-- What a text has written is found again by the number of its declaration. By induction on the
texts. -/
theorem written_from (terminals : List String) (start place : Nat) (texts : List String) :
    (Written.inTexts terminals start texts).filter (·.declaration = start + place) =
      (texts[place]?).elim [] (Written.inText terminals (start + place)) := by
  induction texts generalizing start place with
  | nil => rfl
  | cons text rest ih =>
      rw [Written.inTexts, List.filter_append]
      cases place with
      | zero =>
          have own : (Written.inText terminals start text).filter (·.declaration = start + 0) =
              Written.inText terminals start text := by
            rw [List.filter_eq_self]
            intro written member
            simpa using (Written.stands_in_of_mem_text member).1
          have others : (Written.inTexts terminals (start + 1) rest).filter
              (·.declaration = start + 0) = [] := by
            rw [List.filter_eq_nil_iff]
            intro written member
            have later := le_declaration member
            simp only [decide_eq_true_eq]
            omega
          rw [own, others, List.append_nil]
          rfl
      | succ place =>
          have others : (Written.inText terminals start text).filter
              (·.declaration = start + (place + 1)) = [] := by
            rw [List.filter_eq_nil_iff]
            intro written member
            have own := (Written.stands_in_of_mem_text member).1
            simp only [decide_eq_true_eq]
            omega
          have moved : start + (place + 1) = start + 1 + place := by omega
          rw [others, List.nil_append, moved, ih (start + 1) place]
          rfl

variable {declarations : Declarations α π} {number : Nat}
  {declared : ProductionDeclaration α π} {parsed : RuleText}

theorem productions_in_text {book : RuleBook} (lists : book.Lists (Written.inDeclarations declarations))
    (found : declarations.productions[number]? = some declared)
    (read : RuleText.parse (terminalNames declarations) declared.text.toList = .ok parsed) :
    book.productions.filter (·.declaration = number) =
      parsed.alternatives.map (productionOf number) := by
  have written := written_from (terminalNames declarations) 0 number
    (declarations.productions.map (·.text))
  rw [Nat.zero_add, List.getElem?_map, found] at written
  have own : (Written.inDeclarations declarations).filter
      ((·.declaration = number) ∘ Written.production) =
        parsed.alternatives.map (⟨number, parsed.name, ·⟩) := by
    refine written.trans ?_
    simp only [Option.map_some, Option.elim_some, Written.inText, read]
  rw [lists.productions, List.filter_map, own, List.map_map]
  rfl

end Productions

section Places

variable {declarations : Declarations α π} {number : Nat}
  {declared : ProductionDeclaration α π} {parsed : RuleText} {book : RuleBook}

/-- At most one rule is new in a declaration, and its text names that rule. -/
theorem rules_in_text
    (named : NamedIn (terminalNames declarations) (declarations.productions.map (·.text)) book)
    (found : declarations.productions[number]? = some declared)
    (read : RuleText.parse (terminalNames declarations) declared.text.toList = .ok parsed) :
    ((book.rules.filter (·.declaration = number)).map fun rule => (rule.name, rule.span)).Sublist
      [(parsed.name, parsed.span)] := by
  have own : ∀ rule ∈ book.rules.filter (·.declaration = number),
      rule.declaration = number ∧ (rule.name, rule.span) = (parsed.name, parsed.span) := by
    intro rule member
    obtain ⟨among, here⟩ := List.mem_filter.mp member
    obtain ⟨text, other, at_place, again, name, span⟩ := named.named rule among
    have place : rule.declaration = number := by simpa using here
    rw [place, List.getElem?_map, found] at at_place
    cases at_place
    rw [read] at again
    cases again
    exact ⟨place, by rw [name, span]⟩
  have ordered : (book.rules.filter (·.declaration = number)).Pairwise
      fun earlier later => earlier.declaration < later.declaration :=
    (List.pairwise_map.mp named.ordered).sublist List.filter_sublist
  cases content : book.rules.filter (·.declaration = number) with
  | nil => exact List.nil_sublist _
  | cons first rest =>
      rw [content] at own ordered
      cases rest with
      | nil =>
          rw [List.map_singleton, (own first List.mem_cons_self).2]
      | cons second rest =>
          -- Two rules of one declaration would have to be in order.
          have before := List.rel_of_pairwise_cons ordered List.mem_cons_self
          rw [(own first (by simp)).1, (own second (by simp)).1] at before
          exact absurd before (Nat.lt_irrefl number)

/-- A book without mistakes in precedence levels and rule texts tells all places. -/
theorem completed_tells_places (clean : (entered declarations).2 = []) (first : Rule) :
    (completed declarations first).TellsPlaces declarations := by
  have texts := ((entered_clean_iff declarations).mp clean).2
  have named : NamedIn (terminalNames declarations) (declarations.productions.map (·.text))
      (completed declarations first) :=
    ⟨(entered_named declarations).named, (entered_named declarations).ordered⟩
  have lists : (completed declarations first).Lists (Written.inDeclarations declarations) :=
    completed_lists first
  constructor
  · intro rule member
    simpa using named.declaration_lt member
  · intro production member
    rw [lists.productions] at member
    obtain ⟨written, among, rfl⟩ := List.mem_map.mp member
    obtain ⟨declared, found, _⟩ := Written.exists_declaration among
    exact (List.getElem?_eq_some_iff.mp found).1
  · intro number declared found
    obtain ⟨parsed, read⟩ := texts declared (List.mem_of_getElem? found)
    apply (RuleText.located_of_parse _ read).sublist
    rw [marksIn, productions_in_text lists found read, List.flatMap_map]
    exact (rules_in_text named found read).append (List.Sublist.refl _)

end Places

section Errors

/-- The place of a mistake that is told of a declaration. -/
def ToldIn (declarations : Declarations α π) (error : GrammarError) : Prop :=
  ∀ number, error.declaration = some number → ∃ declared,
    declarations.productions[number]? = some declared ∧ error.span.LiesIn declared.text.toList

theorem told_of_global (declarations : Declarations α π) (cause : GrammarError.Cause) :
    ToldIn declarations (GrammarError.global cause) := by
  intro number told
  cases told

theorem rank_errors_told (declarations : Declarations α π) (ranks : List (String × Precedence))
    (state : RuleBook × List GrammarError) (told : ∀ error ∈ state.2, ToldIn declarations error) :
    ∀ error ∈ (ranks.foldl enterRank state).2, ToldIn declarations error := by
  induction ranks generalizing state with
  | nil => exact told
  | cons rank rest ih =>
      apply ih
      unfold enterRank
      split
      · rw [List.forall_mem_append]
        exact ⟨told, by simpa using told_of_global declarations _⟩
      · exact told

/-- By induction on the texts that are still to be read. -/
theorem text_errors_told {declarations : Declarations α π} {terminals : List String}
    (done rest : List String) (state : RuleBook × List GrammarError)
    (whole : declarations.productions.map (·.text) = done ++ rest)
    (told : ∀ error ∈ state.2, ToldIn declarations error) :
    ∀ error ∈ (addRuleTexts terminals done.length rest state).2, ToldIn declarations error := by
  induction rest generalizing done state with
  | nil => exact told
  | cons text rest ih =>
      have count : done.length + 1 = (done ++ [text]).length := by simp
      have next : declarations.productions.map (·.text) = (done ++ [text]) ++ rest := by simp [whole]
      rw [addRuleTexts, count]
      apply ih (done ++ [text]) _ next
      cases read : RuleText.parse terminals text.toList with
      | ok parsed => exact told
      | error problem =>
          rw [List.forall_mem_append]
          refine ⟨told, ?_⟩
          intro error last number place
          rw [List.mem_singleton.mp last] at place ⊢
          cases place
          have found : (declarations.productions.map (·.text))[done.length]? = some text := by
            simp [whole]
          rw [List.getElem?_map] at found
          obtain ⟨declared, at_place, same⟩ := Option.map_eq_some_iff.mp found
          refine ⟨declared, at_place, ?_⟩
          rw [same]
          exact RuleText.problem_lies_in terminals read

theorem entered_errors_told (declarations : Declarations α π) :
    ∀ error ∈ (entered declarations).2, ToldIn declarations error := by
  apply text_errors_told [] _ _ rfl
  rw [add_precedences_eq]
  exact rank_errors_told declarations _ _ (by simp)

theorem place_of_symbol_error (book : RuleBook) (production : Production) (symbol : NamedSymbol)
    {error : GrammarError} (wrong : error ∈ book.symbolErrors production symbol) :
    error.declaration = some production.declaration ∧ error.span = symbol.span := by
  unfold symbolErrors at wrong
  split at wrong
  · split at wrong
    · cases wrong
    · rw [List.mem_singleton.mp wrong]
      exact ⟨rfl, rfl⟩
  · split at wrong
    · cases wrong
    · rw [List.mem_singleton.mp wrong]
      exact ⟨rfl, rfl⟩

/-- What is wrong with a production is told of its declaration, with a span of one of its names; only for
a production without symbols it is the beginning of the text. -/
theorem place_of_production_error (book : RuleBook) (name : String) (earlier : List Production)
    (production : Production) {error : GrammarError}
    (wrong : error ∈ book.productionErrors name earlier production) :
    error.declaration = some production.declaration ∧
      (error.span = Span.point 0 ∨ ∃ mark ∈ production.marks, mark.2 = error.span) := by
  have symbol_mark : ∀ symbol ∈ production.symbols, (symbol.name, symbol.span) ∈ production.marks :=
    fun symbol inside => List.mem_append_left _ (List.mem_map_of_mem inside)
  rcases List.mem_append.mp wrong with wrong | repeated
  · rcases List.mem_append.mp wrong with clause | symbols
    · split at clause
      · rename_i token span written
        split at clause
        · cases clause
        · rw [List.mem_singleton.mp clause]
          refine ⟨rfl, .inr ⟨(token, span), List.mem_append_right _ ?_, rfl⟩⟩
          simp [written]
      · cases clause
    · obtain ⟨symbol, inside, wrong⟩ := List.mem_flatMap.mp symbols
      obtain ⟨declaration, span⟩ := place_of_symbol_error book production symbol wrong
      exact ⟨declaration, .inr ⟨_, symbol_mark symbol inside, span.symm⟩⟩
  · split at repeated
    · rw [List.mem_singleton.mp repeated]
      refine ⟨rfl, ?_⟩
      cases content : production.symbols with
      | nil => exact .inl rfl
      | cons symbol rest =>
          exact .inr ⟨_, symbol_mark symbol (by rw [content]; exact List.mem_cons_self), rfl⟩
    · cases repeated

theorem place_of_productions_error (book : RuleBook) (name : String)
    (earlier productions : List Production) {error : GrammarError}
    (wrong : error ∈ book.productionsErrors name earlier productions) :
    ∃ production ∈ productions, error.declaration = some production.declaration ∧
      (error.span = Span.point 0 ∨ ∃ mark ∈ production.marks, mark.2 = error.span) := by
  induction productions generalizing earlier with
  | nil => cases wrong
  | cons first rest ih =>
      rw [productionsErrors] at wrong
      rcases List.mem_append.mp wrong with here | later
      · exact ⟨first, List.mem_cons_self, place_of_production_error book name earlier first here⟩
      · obtain ⟨production, member, place⟩ := ih _ later
        exact ⟨production, List.mem_cons_of_mem first member, place⟩

theorem TellsPlaces.errors_told {declarations : Declarations α π} {book : RuleBook}
    (tells : book.TellsPlaces declarations) : ∀ error ∈ book.errors, ToldIn declarations error := by
  intro error wrong
  rcases List.mem_append.mp wrong with start | wrong
  · split at start
    · split at start
      · cases start
      · rw [List.mem_singleton.mp start]
        exact told_of_global declarations _
    · cases start
  · obtain ⟨rule, _, wrong⟩ := List.mem_flatMap.mp wrong
    obtain ⟨production, listed, declaration, place⟩ := place_of_productions_error book _ _ _ wrong
    intro number told
    rw [declaration] at told
    cases told
    obtain ⟨index, _, found⟩ := List.mem_filterMap.mp listed
    have among : production ∈ book.productions := List.mem_of_getElem? found
    have at_place := List.getElem?_eq_getElem (tells.productions production among)
    refine ⟨_, at_place, ?_⟩
    rcases place with start | ⟨mark, inside, same⟩
    · rw [start]
      exact RuleText.point_lies_in (RuleText.Cursor.start_lies_in _)
    · have shown : mark ∈ book.marksIn production.declaration := by
        apply List.mem_append_right
        exact List.mem_flatMap.mpr ⟨production, List.mem_filter.mpr ⟨among, by simp⟩, inside⟩
      rw [← same]
      exact ⟨_, (tells.located _ _ at_place).spelled mark shown⟩

end Errors

/-- Rule text is read, and the book checked, without cutting a text where it cannot be cut, without a span
that ends before it starts and without looking up what is not there. What is wrong with a declaration is
told with a span in its text. And in a book that is made, the span of every rule, symbol and precedence
clause gives its name when it is cut out of the text of its declaration, with the spans of one declaration
one after the other. -/
theorem spans_tell_what_is_written (declarations : Declarations α π) :
    Checked.ofDeclarations declarations = .ok (ofDeclarations declarations) ∧
      (∀ errors, ofDeclarations declarations = .error errors →
        ∀ error ∈ errors, ToldIn declarations error) ∧
      ∀ book, ofDeclarations declarations = .ok book → book.TellsPlaces declarations := by
  refine ⟨checked_of_declarations_eq declarations, ?_, ?_⟩
  · intro errors refused
    have reads := reads_of_declarations declarations
    rw [refused] at reads
    cases reads with
    | mistaken mistakes => exact entered_errors_told declarations
    | empty clean none => simpa using told_of_global declarations _
    | unsound clean some mistakes => exact (completed_tells_places clean _).errors_told
  · intro book read
    obtain ⟨first, later, clean, _, rfl, _⟩ := completed_of_read read
    exact completed_tells_places clean first

/-! A rule in two declarations, with a blank and a quoted character of three bytes each. -/
namespace Wide

def declarations : Declarations Nat Nat where
  tokens := [⟨"N", "[0-9]+", none⟩]
  literals := ['→']
  precedence := [⟨.right, ["→"]⟩]
  productions := [⟨"\u3000e : e '→' e %prec \"→\"", none⟩, ⟨"e:N", none⟩]

def book : RuleBook where
  start := some "e"
  rules := [⟨"e", Span.ofLength 3 1, 0, [0, 1]⟩]
  productions := [
    ⟨[.rule "e" (Span.ofLength 7 1), .token "→" (Span.ofLength 10 3), .rule "e" (Span.ofLength 15 1)],
      some ("→", Span.ofLength 24 3), 0⟩,
    ⟨[.token "N" (Span.ofLength 2 1)], none, 1⟩]
  tokens := ["N", "→"]
  precedences := [("→", ⟨1, .right⟩)]

theorem names_are_told : ofDeclarations declarations = .ok book ∧ book.TellsPlaces declarations ∧
    (book.marksIn 0).map Prod.fst = ["e", "e", "→", "e", "→"] := by
  have read : ofDeclarations declarations = .ok book := by cbv
  exact ⟨read, (spans_tell_what_is_written declarations).2.2 book read, by decide⟩

end Wide

end RuleBook

end SlrKit
