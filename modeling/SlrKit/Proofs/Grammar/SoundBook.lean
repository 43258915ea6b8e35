import Mathlib
import SlrKit.RuleBook

/-!
# Rule books without mistakes

Whatever is entered in a rule book, every production is listed with a rule and no token is there twice.
A complete book is without mistakes exactly if its start rule is there, its productions refer to what is
there, and no rule has a row twice; such a book is sound.
-/

set_option autoImplicit false

namespace SlrKit

namespace RuleBook

section Names

/-! Names that are entered where they are not known yet: each is there once. -/

theorem add_new_nodup (names : List String) (name : String) (distinct : names.Nodup) :
    (addNew names name).Nodup := by
  unfold addNew
  split
  · exact distinct
  · rename_i absent
    have fresh : name ∉ names := by simpa using absent
    rw [List.nodup_append]
    refine ⟨distinct, by simp, ?_⟩
    intro earlier member other isName
    rw [List.mem_singleton.mp isName]
    exact fun same => fresh (same ▸ member)

theorem fold_add_new_nodup (added names : List String) (distinct : names.Nodup) :
    (added.foldl addNew names).Nodup := by
  induction added generalizing names with
  | nil => exact distinct
  | cons name rest ih => exact ih _ (add_new_nodup names name distinct)

theorem mem_add_new_iff (names : List String) (added name : String) :
    name ∈ addNew names added ↔ name ∈ names ∨ name = added := by
  unfold addNew
  split
  · rename_i known
    have member : added ∈ names := by simpa using known
    constructor
    · exact Or.inl
    · rintro (old | rfl)
      · exact old
      · exact member
  · simp

theorem mem_fold_add_new_iff (added names : List String) (name : String) :
    name ∈ added.foldl addNew names ↔ name ∈ names ∨ name ∈ added := by
  induction added generalizing names with
  | nil => simp
  | cons first rest ih => simp [ih, mem_add_new_iff, or_assoc]

theorem add_new_known {names : List String} {name : String} (known : name ∈ names) :
    addNew names name = names := by
  simp [addNew, known]

theorem fold_add_new_replicate {names : List String} {name : String} (known : name ∈ names)
    (count : Nat) : (List.replicate count name).foldl addNew names = names := by
  induction count with
  | zero => rfl
  | succ count ih => rw [List.replicate_succ, List.foldl_cons, add_new_known known, ih]

theorem head_fold_add_new_of_some {names : List String} {first : String}
    (leads : names.head? = some first) (added : List String) :
    (added.foldl addNew names).head? = some first := by
  induction added generalizing names with
  | nil => exact leads
  | cons name rest ih =>
      apply ih
      unfold addNew
      split
      · exact leads
      · simp [leads]

theorem head_fold_add_new (names : List String) : (names.foldl addNew []).head? = names.head? := by
  cases names with
  | nil => rfl
  | cons name rest => exact head_fold_add_new_of_some rfl rest

end Names

/-- What every operation on a book keeps. -/
structure Tidy (book : RuleBook) : Prop where
  listed : ∀ index, index < book.productions.length →
    ∃ rule ∈ book.rules, index ∈ rule.productions
  tokensDistinct : book.tokens.Nodup

theorem rule_isSome_iff (book : RuleBook) (name : String) :
    (book.rule? name).isSome = true ↔ name ∈ book.rules.map Rule.name := by
  simp [rule?, List.find?_isSome]

theorem terminal_names_nodup {α π : Type} (declarations : Declarations α π) :
    (terminalNames declarations).Nodup :=
  fold_add_new_nodup _ [] List.nodup_nil

theorem add_rule_tidy (book : RuleBook) (name : String) (span : Span) (declaration : Nat)
    (tidy : book.Tidy) : (book.addRule name span declaration).Tidy := by
  unfold addRule
  split
  · exact tidy
  · refine ⟨?_, tidy.tokensDistinct⟩
    intro index bound
    obtain ⟨rule, member, holds⟩ := tidy.listed index bound
    exact ⟨rule, List.mem_append_left _ member, holds⟩

theorem add_rule_known (book : RuleBook) (name : String) (span : Span) (declaration : Nat) :
    name ∈ (book.addRule name span declaration).rules.map Rule.name := by
  unfold addRule
  split
  · rename_i known
    exact (rule_isSome_iff book name).mp known
  · simp

theorem add_production_names (book : RuleBook) (name : String) (production : Production) :
    (book.addProduction name production).rules.map Rule.name = book.rules.map Rule.name := by
  simp only [addProduction, List.map_map]
  apply List.map_congr_left
  intro rule _
  simp only [Function.comp_apply]
  split <;> rfl

theorem add_production_tidy (book : RuleBook) (name : String) (production : Production)
    (tidy : book.Tidy) (known : name ∈ book.rules.map Rule.name) :
    (book.addProduction name production).Tidy := by
  refine ⟨?_, tidy.tokensDistinct⟩
  intro index bound
  simp only [addProduction, List.length_append, List.length_singleton] at bound
  simp only [addProduction, List.mem_map]
  by_cases last : index = book.productions.length
  · obtain ⟨rule, member, named⟩ := List.mem_map.mp known
    refine ⟨_, ⟨rule, member, rfl⟩, ?_⟩
    rw [if_pos named, last]
    simp
  · obtain ⟨rule, member, holds⟩ := tidy.listed index (by omega)
    refine ⟨_, ⟨rule, member, rfl⟩, ?_⟩
    split
    · exact List.mem_append_left _ holds
    · exact holds

theorem add_rule_text_tidy (book : RuleBook) (declaration : Nat) (text : RuleText)
    (tidy : book.Tidy) : (book.addRuleText declaration text).Tidy := by
  unfold addRuleText
  have start := add_rule_tidy book text.name text.span declaration tidy
  have known := add_rule_known book text.name text.span declaration
  generalize book.addRule text.name text.span declaration = current at start known
  induction text.alternatives generalizing current with
  | nil => exact start
  | cons alternative rest ih =>
      apply ih
      · exact add_production_tidy current text.name _ start known
      · rw [add_production_names]
        exact known

section Entering

variable {property : RuleBook → Prop}

theorem add_rule_texts_keep
    (kept : ∀ book declaration text, property book → property (book.addRuleText declaration text))
    (terminals : List String) (declaration : Nat) (texts : List String)
    (state : RuleBook × List GrammarError) (holds : property state.1) :
    property (addRuleTexts terminals declaration texts state).1 := by
  induction texts generalizing declaration state with
  | nil => exact holds
  | cons text rest ih =>
      apply ih
      split
      · exact kept _ _ _ holds
      · exact holds

theorem add_precedences_keep
    (kept : ∀ (book : RuleBook) name precedence, property book →
      property { book with
        precedences := book.precedences ++ [(name, precedence)]
        tokens := addNew book.tokens name })
    (level : Nat) (declared : List PrecedenceDeclaration)
    (state : RuleBook × List GrammarError) (holds : property state.1) :
    property (addPrecedences level declared state).1 := by
  induction declared generalizing level state with
  | nil => exact holds
  | cons first rest ih =>
      apply ih
      generalize first.names = names
      induction names generalizing state with
      | nil => exact holds
      | cons name names inner =>
          apply inner
          simp only [addPrecedence]
          split
          · exact holds
          · exact kept _ _ _ holds

end Entering

/-- A complete book: nothing it refers to is missing. -/
structure Sound (book : RuleBook) : Prop extends book.Tidy where
  start : ∃ name ∈ book.rules.map Rule.name, book.start = some name
  rulesKnown : ∀ production ∈ book.productions, ∀ name span,
    NamedSymbol.rule name span ∈ production.symbols → name ∈ book.rules.map Rule.name
  tokensKnown : ∀ production ∈ book.productions, ∀ name span,
    NamedSymbol.token name span ∈ production.symbols → name ∈ book.tokens

/-- Whatever the production refers to is in the book. -/
structure Refers (book : RuleBook) (production : Production) : Prop where
  clause : ∀ token span, production.precedence = some (token, span) →
    (book.precedence? token).isSome = true
  rules : ∀ name span, NamedSymbol.rule name span ∈ production.symbols →
    name ∈ book.rules.map Rule.name
  tokens : ∀ name span, NamedSymbol.token name span ∈ production.symbols → name ∈ book.tokens

/-- The symbols of the productions are not the same. -/
def Differ (first second : Production) : Prop :=
  NamedSymbol.sameRow first.symbols second.symbols = false

section Errors

variable (book : RuleBook)

theorem symbol_errors_eq_nil_iff (production : Production) (symbol : NamedSymbol) :
    book.symbolErrors production symbol = [] ↔
      (∀ name span, symbol = .rule name span → name ∈ book.rules.map Rule.name) ∧
        ∀ name span, symbol = .token name span → name ∈ book.tokens := by
  cases symbol with
  | rule name span => simp [symbolErrors, ← rule_isSome_iff, Option.isSome_iff_ne_none]
  | token name span => simp [symbolErrors]

theorem production_errors_eq_nil_iff (name : String) (earlier : List Production)
    (production : Production) : book.productionErrors name earlier production = [] ↔
      book.Refers production ∧ ∀ before ∈ earlier, Differ before production := by
  simp only [productionErrors, List.append_eq_nil_iff, List.flatMap_eq_nil_iff,
    symbol_errors_eq_nil_iff]
  constructor
  · rintro ⟨⟨clause, known⟩, fresh⟩
    refine ⟨⟨?_, ?_, ?_⟩, by simpa [Differ] using fresh⟩
    · intro token span written
      simpa [written, Option.isSome_iff_ne_none] using clause
    · intro name span inside
      exact (known _ inside).1 name span rfl
    · intro name span inside
      exact (known _ inside).2 name span rfl
  · rintro ⟨refers, fresh⟩
    refine ⟨⟨?_, ?_⟩, by simpa [Differ] using fresh⟩
    · cases written : production.precedence with
      | none => rfl
      | some clause => exact if_pos (refers.clause _ _ written)
    · intro symbol inside
      constructor
      · rintro name span rfl
        exact refers.rules name span inside
      · rintro name span rfl
        exact refers.tokens name span inside

/-- By induction on the productions: what comes next has another row than all before it. -/
theorem productions_errors_eq_nil_iff (name : String) (earlier productions : List Production)
    (differ : earlier.Pairwise Differ) :
    book.productionsErrors name earlier productions = [] ↔
      (∀ production ∈ productions, book.Refers production) ∧
        (earlier ++ productions).Pairwise Differ := by
  induction productions generalizing earlier with
  | nil => simpa [productionsErrors] using differ
  | cons next rest ih =>
      rw [productionsErrors, List.append_eq_nil_iff, production_errors_eq_nil_iff]
      constructor
      · rintro ⟨⟨refers, fresh⟩, later⟩
        have extended : (earlier ++ [next]).Pairwise Differ :=
          List.pairwise_append.mpr ⟨differ, List.pairwise_singleton _ _, by simpa using fresh⟩
        obtain ⟨all, rows⟩ := (ih _ extended).mp later
        rw [List.append_assoc] at rows
        exact ⟨List.forall_mem_cons.mpr ⟨refers, all⟩, rows⟩
      · rintro ⟨all, rows⟩
        obtain ⟨refers, others⟩ := List.forall_mem_cons.mp all
        have split : ((earlier ++ [next]) ++ rest).Pairwise Differ := by
          rwa [List.append_assoc]
        have extended := (List.pairwise_append.mp split).1
        have fresh := (List.pairwise_append.mp extended).2.2
        exact ⟨⟨refers, fun before member => fresh before member next List.mem_cons_self⟩,
          (ih _ extended).mpr ⟨others, split⟩⟩

/-- A complete book is without mistakes if its start rule is there, all productions refer to what is
there, and no rule has a row twice. -/
theorem errors_eq_nil_iff (name : String) (starts : book.start = some name) :
    book.errors = [] ↔ name ∈ book.rules.map Rule.name ∧
      ∀ rule ∈ book.rules, (∀ production ∈ book.productionsOf rule, book.Refers production) ∧
        (book.productionsOf rule).Pairwise Differ := by
  simp only [errors, starts, List.append_eq_nil_iff, List.flatMap_eq_nil_iff,
    productions_errors_eq_nil_iff book _ [] _ List.Pairwise.nil, List.nil_append,
    ← rule_isSome_iff]
  simp [Option.isSome_iff_ne_none]

end Errors

theorem refers_of_errors_eq_nil (book : RuleBook) (name : String) (tidy : book.Tidy)
    (starts : book.start = some name) (clean : book.errors = []) :
    ∀ production ∈ book.productions, book.Refers production := by
  intro production member
  obtain ⟨index, bound, found⟩ := List.mem_iff_getElem.mp member
  obtain ⟨rule, among, holds⟩ := tidy.listed index bound
  apply (((book.errors_eq_nil_iff name starts).mp clean).2 rule among).1
  exact List.mem_filterMap.mpr ⟨index, holds, by rw [List.getElem?_eq_getElem bound, found]⟩

theorem sound_of_errors_eq_nil (book : RuleBook) (name : String) (tidy : book.Tidy)
    (starts : book.start = some name) (clean : book.errors = []) : book.Sound := by
  have refers := book.refers_of_errors_eq_nil name tidy starts clean
  constructor
  · exact tidy
  · exact ⟨name, ((book.errors_eq_nil_iff name starts).mp clean).1, starts⟩
  · intro production member
    exact (refers production member).rules
  · intro production member
    exact (refers production member).tokens

section Declared

variable {α π : Type} (declarations : Declarations α π)

/-- The book once all precedence levels and rule texts are entered, with the mistakes in them. -/
def entered : RuleBook × List GrammarError :=
  addRuleTexts (terminalNames declarations) 0 (declarations.productions.map (·.text))
    (addPrecedences 1 declarations.precedence ({ tokens := terminalNames declarations }, []))

/-- The book with what is declared about the whole grammar; `first` is its first rule. -/
def completed (first : Rule) : RuleBook :=
  { (entered declarations).1 with
    start := some (declarations.start.getD first.name)
    expectShiftReduce := declarations.expectShiftReduce
    expectReduceReduce := declarations.expectReduceReduce }

/-- What declarations can be read as. -/
inductive Reads : Except (List GrammarError) RuleBook → Prop
  | mistaken (mistakes : (entered declarations).2 ≠ []) : Reads (.error (entered declarations).2)
  | empty (clean : (entered declarations).2 = []) (none : (entered declarations).1.rules = []) :
      Reads (.error [GrammarError.global .emptyGrammar])
  | unsound {first : Rule} {later : List Rule} (clean : (entered declarations).2 = [])
      (some : (entered declarations).1.rules = first :: later)
      (mistakes : (completed declarations first).errors ≠ []) :
      Reads (.error (completed declarations first).errors)
  | sound {first : Rule} {later : List Rule} (clean : (entered declarations).2 = [])
      (some : (entered declarations).1.rules = first :: later)
      (sound : (completed declarations first).errors = []) :
      Reads (.ok (completed declarations first))

theorem reads_of_declarations : Reads declarations (ofDeclarations declarations) := by
  unfold ofDeclarations
  simp only
  rw [← entered]
  split
  · rename_i mistakes
    exact .mistaken mistakes
  · rename_i clean
    have none := not_ne_iff.mp clean
    split
    · rename_i ended
      exact .empty none ended
    · rename_i first later found
      rw [← completed]
      split
      · rename_i sound
        exact .sound none found sound
      · rename_i mistakes
        exact .unsound none found mistakes

variable {declarations} {book : RuleBook}

theorem completed_of_read (read : ofDeclarations declarations = .ok book) :
    ∃ first later, (entered declarations).2 = [] ∧
      (entered declarations).1.rules = first :: later ∧ book = completed declarations first ∧
      book.errors = [] := by
  have reads := reads_of_declarations declarations
  rw [read] at reads
  cases reads with
  | sound clean some sound => exact ⟨_, _, clean, some, rfl, sound⟩

theorem errors_ne_nil_of_read {errors : List GrammarError}
    (read : ofDeclarations declarations = .error errors) : errors ≠ [] := by
  have reads := reads_of_declarations declarations
  rw [read] at reads
  cases reads with
  | mistaken mistakes => exact mistakes
  | empty clean none => exact List.cons_ne_nil _ _
  | unsound clean some mistakes => exact mistakes

end Declared

theorem entered_tidy {α π : Type} (declarations : Declarations α π) :
    (entered declarations).1.Tidy := by
  apply add_rule_texts_keep add_rule_text_tidy
  apply add_precedences_keep
  · intro book name precedence tidy
    exact ⟨tidy.listed, add_new_nodup _ _ tidy.tokensDistinct⟩
  · exact ⟨by simp, terminal_names_nodup declarations⟩

theorem of_declarations_sound {α π : Type} (declarations : Declarations α π) (book : RuleBook)
    (read : ofDeclarations declarations = .ok book) : book.Sound := by
  have tidy := entered_tidy declarations
  obtain ⟨first, later, _, _, rfl, clean⟩ := completed_of_read read
  exact sound_of_errors_eq_nil _ _ ⟨tidy.listed, tidy.tokensDistinct⟩ rfl clean

end RuleBook

end SlrKit
