import SlrKit.Proofs.Grammar.Alternatives
import SlrKit.Proofs.Grammar.Ranks

/-!
# Which tokens productions hold

A token in a production is a declared terminal, or else a quoted character that has a precedence, since
such a character is a token of the book even if nothing declares it. Any other token is reported.
-/

set_option autoImplicit false

namespace SlrKit

variable {α π : Type}

namespace RuleBook

section Errors

theorem mem_productions_errors (book : RuleBook) (name : String)
    (earlier productions : List Production) {production : Production}
    (member : production ∈ productions) {symbol : NamedSymbol} (inside : symbol ∈ production.symbols)
    {error : GrammarError} (wrong : error ∈ book.symbolErrors production symbol) :
    error ∈ book.productionsErrors name earlier productions := by
  induction productions generalizing earlier with
  | nil => cases member
  | cons first rest ih =>
      rw [productionsErrors]
      rcases List.mem_cons.mp member with rfl | later
      · apply List.mem_append_left
        apply List.mem_append_left
        apply List.mem_append_right
        exact List.mem_flatMap.mpr ⟨symbol, inside, wrong⟩
      · exact List.mem_append_right _ (ih _ later)

theorem mem_errors_of_symbol (book : RuleBook) (tidy : book.Tidy) {production : Production}
    (member : production ∈ book.productions) {symbol : NamedSymbol}
    (inside : symbol ∈ production.symbols) {error : GrammarError}
    (wrong : error ∈ book.symbolErrors production symbol) : error ∈ book.errors := by
  obtain ⟨index, bound, found⟩ := List.mem_iff_getElem.mp member
  obtain ⟨rule, among, holds⟩ := tidy.listed index bound
  apply List.mem_append_right
  refine List.mem_flatMap.mpr ⟨rule, among, ?_⟩
  apply mem_productions_errors book rule.name [] _ _ inside wrong
  exact List.mem_filterMap.mpr ⟨index, holds, by rw [List.getElem?_eq_getElem bound, found]⟩

end Errors

end RuleBook

namespace RuleText

theorem token_of_row {terminals : List String} {row : Row} {offset : Nat} {name : String}
    {span : Span} (inside : NamedSymbol.token name span ∈ row.symbols terminals offset) :
    name ∈ terminals ∨ ∃ c : Char, name = c.toString := by
  induction row generalizing offset with
  | done => cases inside
  | clause space apart word after => cases inside
  | symbol spelling after rest ih =>
      rcases List.mem_cons.mp inside with same | later
      · cases spelling with
        | quoted mark c marks other =>
            have named : name = String.ofList [c] := by
              simpa [Spelling.symbol, Spelling.isBare, Spelling.name, Spelling.content,
                NamedSymbol.name] using congrArg NamedSymbol.name same
            exact .inr ⟨c, named⟩
        | bare chars fit =>
            by_cases known : String.ofList chars ∈ terminals
            · have named : name = String.ofList chars := by
                simpa [Spelling.symbol, Spelling.isBare, Spelling.name, Spelling.content, known,
                  NamedSymbol.name] using congrArg NamedSymbol.name same
              exact .inl (named ▸ known)
            · simp [Spelling.symbol, Spelling.isBare, Spelling.name, Spelling.content, known] at same
      · exact ih later

theorem mem_alternatives {terminals : List String} {branches : List Branch} {offset : Nat}
    {alternative : Alternative}
    (member : alternative ∈ Branch.alternatives terminals offset branches) :
    ∃ branch ∈ branches, ∃ place, alternative = branch.alternative terminals place := by
  induction branches generalizing offset with
  | nil => cases member
  | cons branch rest ih =>
      rcases List.mem_cons.mp member with same | later
      · exact ⟨branch, List.mem_cons_self, offset, same⟩
      · obtain ⟨found, among, place, same⟩ := ih later
        exact ⟨found, List.mem_cons_of_mem _ among, place, same⟩

end RuleText

theorem Written.token_cases {declarations : Declarations α π} {written : Written}
    (member : written ∈ Written.inDeclarations declarations) {name : String} {span : Span}
    (inside : NamedSymbol.token name span ∈ written.alternative.symbols) :
    declarations.Names name ∨ ∃ c : Char, name = c.toString := by
  obtain ⟨declared, _, parsed, read, _, among⟩ := Written.exists_declaration member
  obtain ⟨layout, _, _, rfl⟩ := RuleText.exists_layout _ read
  obtain ⟨branch, _, place, same⟩ := RuleText.mem_alternatives among
  rw [same] at inside
  rw [← RuleBook.mem_terminal_names_iff]
  exact RuleText.token_of_row inside

namespace RuleBook

/-- A token that is nothing the book knows is among the mistakes of the complete book. -/
theorem unknown_token_reported {declarations : Declarations α π}
    (clean : (entered declarations).2 = []) {written : Written}
    (member : written ∈ Written.inDeclarations declarations) {name : String} {span : Span}
    (inside : NamedSymbol.token name span ∈ written.alternative.symbols)
    (undeclared : ¬declarations.Names name)
    (unranked : name ∉ rankedNames declarations.precedence) (first : Rule) :
    ⟨.unknownToken name, some written.declaration, span⟩ ∈ (completed declarations first).errors := by
  have ranks := entered_ranks declarations clean
  have lists := entered_lists declarations
  have tidy := entered_tidy declarations
  have among : written.production ∈ (completed declarations first).productions := by
    rw [completed, lists.productions]
    exact List.mem_map_of_mem member
  refine mem_errors_of_symbol (completed declarations first) ⟨tidy.listed, tidy.tokensDistinct⟩
    among inside ?_
  have unknown : name ∉ (entered declarations).1.tokens := by
    rw [ranks.mem_tokens_iff, mem_terminal_names_iff]
    exact not_or.mpr ⟨undeclared, unranked⟩
  simp [symbolErrors, completed, unknown, Written.production]

theorem rules_ne_nil_of_written {declarations : Declarations α π} {written : Written}
    (member : written ∈ Written.inDeclarations declarations) :
    (entered declarations).1.rules ≠ [] := by
  have among : written.production ∈ (entered declarations).1.productions := by
    rw [(entered_lists declarations).productions]
    exact List.mem_map_of_mem member
  obtain ⟨index, bound, _⟩ := List.mem_iff_getElem.mp among
  obtain ⟨rule, known, _⟩ := (entered_tidy declarations).listed index bound
  exact List.ne_nil_of_mem known

end RuleBook

namespace Grammar

theorem compile_of_mistakes {width : IndexWidth} {declarations : Declarations α π}
    {errors : List GrammarError} (read : RuleBook.ofDeclarations declarations = .error errors) :
    compile width declarations = .error (.invalid errors) := by
  simp [compile, read]

theorem exists_written_token {width : IndexWidth} {declarations : Declarations α π}
    {grammar : Grammar} (compiled : compile width declarations = .ok grammar)
    {production token : Nat} (inside : Symbol.token token ∈ grammar.symbols production) :
    ∃ written ∈ Written.inDeclarations declarations, ∃ name span,
      NamedSymbol.token name span ∈ written.alternative.symbols ∧
        grammar.tokenName? token = some name := by
  have wellFormed := compile_well_formed width declarations grammar compiled
  have bound := grammar.bound_of_symbols_ne_nil production (List.ne_nil_of_mem inside)
  have inner : production ≠ grammar.startProduction := by
    rintro rfl
    rw [wellFormed.start_symbols_eq] at inside
    simp at inside
  obtain ⟨written, found, shown⟩ :=
    compile_written width declarations grammar compiled production bound inner
  obtain ⟨⟨place, inBound⟩, same⟩ := List.mem_iff_get.mp inside
  obtain ⟨count, numbers⟩ := List.forall₂_iff_get.mp shown.symbols
  have number := numbers place (count ▸ inBound) inBound
  rw [same] at number
  generalize at_place : written.alternative.symbols.get ⟨place, count ▸ inBound⟩ = symbol at number
  have among : symbol ∈ written.alternative.symbols := at_place ▸ List.get_mem _ _
  cases number with
  | token named => exact ⟨written, List.mem_of_getElem? found, _, _, among, named⟩

/-- A token of a compiled grammar's productions is declared, or it is a character with a precedence.
A token that is neither makes compilation fail, and is reported unless the precedence levels and the
rule texts have mistakes of their own. -/
theorem undeclared_tokens_have_ranks (width : IndexWidth) (declarations : Declarations α π) :
    (∀ grammar, compile width declarations = .ok grammar →
      ∀ production token, Symbol.token token ∈ grammar.symbols production →
        ∃ name, grammar.tokenName? token = some name ∧
          (declarations.Names name ∨
            name ∈ RuleBook.rankedNames declarations.precedence ∧ ∃ c : Char, name = c.toString)) ∧
    ∀ written ∈ Written.inDeclarations declarations, ∀ name span,
      NamedSymbol.token name span ∈ written.alternative.symbols → ¬declarations.Names name →
      name ∉ RuleBook.rankedNames declarations.precedence →
      ∃ errors, compile width declarations = .error (.invalid errors) ∧
        ((RuleBook.entered declarations).2 = [] →
          ⟨.unknownToken name, some written.declaration, span⟩ ∈ errors) := by
  constructor
  · intro grammar compiled production token inside
    obtain ⟨written, member, name, span, among, named⟩ := exists_written_token compiled inside
    refine ⟨name, named, ?_⟩
    rcases Written.token_cases member among with declared | single
    · exact .inl declared
    · obtain ⟨book, read, _, rfl⟩ := rule_book_of_compile compiled
      obtain ⟨first, later, clean, _, rfl, _⟩ := RuleBook.completed_of_read read
      have known : name ∈ (RuleBook.entered declarations).1.tokens := by
        rw [token_name_of_rule_book] at named
        exact List.mem_of_getElem? named
      rw [(RuleBook.entered_ranks declarations clean).mem_tokens_iff,
        RuleBook.mem_terminal_names_iff] at known
      exact known.imp_right fun ranked => ⟨ranked, single⟩
  · intro written member name span inside undeclared unranked
    have reported := fun clean =>
      RuleBook.unknown_token_reported clean member inside undeclared unranked
    have reads := RuleBook.reads_of_declarations declarations
    cases read : RuleBook.ofDeclarations declarations with
    | ok book =>
        rw [read] at reads
        cases reads with
        | @sound first later clean some sound =>
            have wrong := reported clean first
            rw [sound] at wrong
            cases wrong
    | error errors =>
        refine ⟨errors, compile_of_mistakes read, ?_⟩
        intro clean
        rw [read] at reads
        cases reads with
        | mistaken mistakes => exact absurd clean mistakes
        | empty _ none => exact absurd none (RuleBook.rules_ne_nil_of_written member)
        | @unsound first later _ some mistakes => exact reported clean first

end Grammar

/-! Sums whose sign has a precedence but is no literal. -/
namespace Undeclared

def declarations : Declarations Nat Nat where
  tokens := [⟨"N", "[0-9]+", none⟩]
  precedence := [⟨.left, ["+"]⟩]
  productions := [⟨"e : e '+' e | N", none⟩]

def grammar : Grammar where
  ruleNames := #["^", "e"]
  namedTokens := #[⟨"N", none⟩, ⟨"+", some ⟨1, .left⟩⟩]
  productions := #[
    ⟨1, [.rule 1, .token 1, .rule 1], some ⟨1, .left⟩, some 0⟩,
    ⟨1, [.token 0], none, some 0⟩,
    ⟨0, [.rule 1], none, none⟩]
  expectShiftReduce := none
  expectReduceReduce := none

/-- The sign is accepted in a production, though no input can contain it. -/
theorem undeclared_sign_is_compiled :
    Grammar.compile .bits32 declarations = .ok grammar ∧ Symbol.token 1 ∈ grammar.symbols 0 ∧
      grammar.tokenName? 1 = some "+" ∧ ¬declarations.Names "+" := by
  refine ⟨by cbv, by decide, by decide, ?_⟩
  simp [Declarations.Names, declarations]

end Undeclared

end SlrKit
