import SlrKit.Proofs.Grammar.RuleListing

/-!
# Consistent declarations

Declarations are consistent if no name has two precedences, every rule text can be read, the start rule
and all that the alternatives refer to are there, and no rule has an alternative twice. Exactly such
declarations are read as a rule book.
-/

set_option autoImplicit false

namespace SlrKit

variable {α π : Type}

namespace Declarations

variable (declarations : Declarations α π)

/-- The rule that the author starts with: the one declared, or else the first one. -/
def startName? : Option String :=
  declarations.start.or (RuleBook.writtenRules declarations).head?

/-- Whatever the alternative refers to is there. -/
structure Refers (written : Written) : Prop where
  clause : ∀ name span, written.alternative.precedence = some (name, span) →
    (RuleBook.declaredPrecedence? declarations.precedence name).isSome = true
  rules : ∀ name span, NamedSymbol.rule name span ∈ written.alternative.symbols →
    name ∈ RuleBook.ruleNames declarations
  tokens : ∀ name span, NamedSymbol.token name span ∈ written.alternative.symbols →
    name ∈ RuleBook.tokenNames declarations

structure Consistent : Prop where
  levels : (RuleBook.rankedNames declarations.precedence).Nodup
  texts : ∀ declared ∈ declarations.productions, ∃ parsed,
    RuleText.parse (RuleBook.terminalNames declarations) declared.text.toList = .ok parsed
  start : ∃ name ∈ RuleBook.ruleNames declarations, declarations.startName? = some name
  refers : ∀ written ∈ Written.inDeclarations declarations, declarations.Refers written
  rows : (Written.inDeclarations declarations).Pairwise fun first second =>
    first.rule = second.rule →
      NamedSymbol.sameRow first.alternative.symbols second.alternative.symbols = false

end Declarations

namespace RuleBook

variable {declarations : Declarations α π}

theorem completed_files (first : Rule) :
    (completed declarations first).Files (writtenRules declarations) :=
  (entered_files declarations).same rfl rfl

theorem completed_lists (first : Rule) :
    (completed declarations first).Lists (Written.inDeclarations declarations) :=
  (entered_lists declarations).same rfl rfl

theorem start_of_first {first : Rule} {later : List Rule}
    (some : (entered declarations).1.rules = first :: later) :
    (completed declarations first).start = declarations.startName? := by
  have leading : (writtenRules declarations).head? = Option.some first.name := by
    rw [← head_fold_add_new, ← (entered_files declarations).rules, some]
    rfl
  rw [Declarations.startName?, leading, completed]
  cases declarations.start with
  | none => rfl
  | some name => rfl

theorem precedence_of_ranks {book : RuleBook} {terminals : List String}
    (ranks : Ranks terminals (ranksFrom 1 declarations.precedence) book) (name : String) :
    book.precedence? name = declaredPrecedence? declarations.precedence name := by
  rw [precedence?, ranks.precedences, declaredPrecedence?]

theorem refers_iff (clean : (entered declarations).2 = []) (first : Rule) (written : Written) :
    (completed declarations first).Refers written.production ↔ declarations.Refers written := by
  have ranks := completed_ranks declarations clean first
  have rules : (completed declarations first).rules.map Rule.name = ruleNames declarations :=
    (completed_files first).rules
  have tokens : (completed declarations first).tokens = tokenNames declarations := ranks.tokens
  have precedences := precedence_of_ranks ranks
  constructor
  · intro refers
    constructor
    · intro name span clause
      rw [← precedences]
      exact refers.clause name span clause
    · rw [← rules]
      exact refers.rules
    · rw [← tokens]
      exact refers.tokens
  · intro refers
    constructor
    · intro name span clause
      rw [precedences]
      exact refers.clause name span clause
    · rw [rules]
      exact refers.rules
    · rw [tokens]
      exact refers.tokens

/-- Every alternative is a production of its rule, and there are no others. -/
theorem forall_productions_iff (first : Rule) (property : Production → Prop) :
    (∀ rule ∈ (completed declarations first).rules,
        ∀ production ∈ (completed declarations first).productionsOf rule, property production) ↔
      ∀ written ∈ Written.inDeclarations declarations, property written.production := by
  have lists : (completed declarations first).Lists (Written.inDeclarations declarations) :=
    completed_lists first
  have files : (completed declarations first).Files
      ((Written.inDeclarations declarations).map Written.rule) := completed_files first
  constructor
  · intro all written member
    obtain ⟨rule, among, named⟩ := exists_rule_of_written files member
    apply all rule among
    rw [productions_of_filed lists files among]
    exact List.mem_map_of_mem (List.mem_filter.mpr ⟨member, by simp [named]⟩)
  · intro all rule among production inside
    rw [productions_of_filed lists files among] at inside
    obtain ⟨written, member, rfl⟩ := List.mem_map.mp inside
    exact all written (List.mem_of_mem_filter member)

theorem completed_clean_iff (clean : (entered declarations).2 = []) {first : Rule}
    {later : List Rule} (some : (entered declarations).1.rules = first :: later) :
    (completed declarations first).errors = [] ↔ declarations.Consistent := by
  have starts := start_of_first some
  obtain ⟨levels, texts⟩ := (entered_clean_iff declarations).mp clean
  obtain ⟨name, named⟩ : ∃ name, declarations.startName? = Option.some name := ⟨_, starts.symm⟩
  have files : (completed declarations first).Files (writtenRules declarations) :=
    completed_files first
  have rows := rows_differ_iff (completed_lists first) files
  rw [errors_eq_nil_iff _ name (starts.trans named), files.rules, ← ruleNames]
  constructor
  · rintro ⟨start, fine⟩
    refine ⟨levels, texts, ⟨name, start, named⟩, ?_, rows.mp fun rule member => (fine rule member).2⟩
    intro written member
    apply (refers_iff clean first written).mp
    exact (forall_productions_iff first _).mp (fun rule among => (fine rule among).1) written member
  · intro consistent
    obtain ⟨other, start, same⟩ := consistent.start
    rw [named] at same
    cases same
    have refers := (forall_productions_iff first (completed declarations first).Refers).mpr
      fun written among => (refers_iff clean first written).mpr (consistent.refers written among)
    refine ⟨start, ?_⟩
    intro rule member
    exact ⟨refers rule member, rows.mpr consistent.rows rule member⟩

/-- The consistent declarations are the ones that are read as a book. -/
theorem exists_book_iff :
    (∃ book, ofDeclarations declarations = .ok book) ↔ declarations.Consistent := by
  have reads := reads_of_declarations declarations
  constructor
  · rintro ⟨book, read⟩
    rw [read] at reads
    cases reads with
    | sound clean some sound => exact (completed_clean_iff clean some).mp sound
  · intro consistent
    have clean := (entered_clean_iff declarations).mpr ⟨consistent.levels, consistent.texts⟩
    cases read : ofDeclarations declarations with
    | ok book => exact ⟨book, rfl⟩
    | error errors =>
        rw [read] at reads
        cases reads with
        | mistaken mistakes => exact absurd clean mistakes
        | empty _ none =>
            obtain ⟨name, known, _⟩ := consistent.start
            rw [ruleNames, ← (entered_files declarations).rules, none] at known
            cases known
        | unsound _ some mistakes =>
            exact absurd ((completed_clean_iff clean some).mpr consistent) mistakes

end RuleBook

end SlrKit
