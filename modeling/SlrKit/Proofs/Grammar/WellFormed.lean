import SlrKit.Grammar.Compile
import SlrKit.Proofs.Grammar.SoundBook

/-!
# What compilation guarantees

In a sound rule book every production is listed with a rule, and whatever a production names is
a rule or a token of the book. Hence every number in a compiled grammar is in range, the start
production is the only one of the start rule, and neither the start rule nor the end of the
input occurs in a production.
-/

set_option autoImplicit false

namespace SlrKit

namespace Grammar

theorem mem_productions_of (grammar : Grammar) (rule production : Nat) :
    production ∈ grammar.productionsOf rule ↔
      production < grammar.productionCount ∧ grammar.ruleOf production = rule := by
  simp [productionsOf]

theorem bound_of_symbols_ne_nil (grammar : Grammar) (production : Nat)
    (nonempty : grammar.symbols production ≠ []) : production < grammar.productionCount := by
  unfold symbols at nonempty
  split at nonempty
  · rename_i found
    exact (Array.getElem?_eq_some_iff.mp found).1
  · exact absurd rfl nonempty

/-- The symbols that productions may hold. -/
def Occurs (grammar : Grammar) : Symbol → Prop
  | .rule rule => startRule < rule ∧ rule < grammar.ruleCount
  | .token token => token < grammar.endToken

/-- What compilation guarantees about the numbers in a grammar. -/
structure WellFormed (grammar : Grammar) : Prop where
  nonempty : 0 < grammar.productionCount
  startSymbols : ∃ rule, grammar.symbols grammar.startProduction = [.rule rule]
  startsAtStartRule : grammar.ruleOf grammar.startProduction = startRule
  startAlone : ∀ production, production < grammar.productionCount →
    grammar.ruleOf production = startRule → production = grammar.startProduction
  ruleBound : ∀ production, grammar.ruleOf production < grammar.ruleCount
  symbolsOccur : ∀ production, ∀ symbol ∈ grammar.symbols production, grammar.Occurs symbol
  namesDistinct : (grammar.namedTokens.toList.map NamedToken.name).Nodup

theorem rule_count_of_rule_book (book : RuleBook) :
    (ofRuleBook book).ruleCount = book.rules.length + 1 := by
  simp [ruleCount, ofRuleBook]

theorem end_token_of_rule_book (book : RuleBook) :
    (ofRuleBook book).endToken = book.tokens.length := by
  simp [endToken, ofRuleBook]

theorem production_count_of_rule_book (book : RuleBook) :
    (ofRuleBook book).productionCount = book.productions.length + 1 := by
  simp [productionCount, ofRuleBook, numberProductions]

theorem start_production_of_rule_book (book : RuleBook) :
    (ofRuleBook book).startProduction = book.productions.length := by
  simp [startProduction, production_count_of_rule_book]

theorem production_of_rule_book (book : RuleBook) (index : Nat)
    (bound : index < book.productions.length) :
    (ofRuleBook book).productions[index]? =
      some { rule := listedUnder book index
             symbols := book.productions[index].symbols.map (numberSymbol book)
             precedence := precedenceOf book book.productions[index]
             declaration := some book.productions[index].declaration } := by
  simp [ofRuleBook, numberProductions, List.getElem?_append, bound]

theorem last_production_of_rule_book (book : RuleBook) :
    (ofRuleBook book).productions[book.productions.length]? = some (startOf book) := by
  simp [ofRuleBook, numberProductions]

theorem no_production_of_rule_book (book : RuleBook) (index : Nat)
    (beyond : book.productions.length < index) :
    (ofRuleBook book).productions[index]? = none := by
  have count := production_count_of_rule_book book
  rw [productionCount] at count
  rw [Array.getElem?_eq_none_iff, count]
  exact beyond

theorem number_rule_bounds (book : RuleBook) (name : String)
    (known : name ∈ book.rules.map RuleBook.Rule.name) :
    startRule < numberRule book name ∧ numberRule book name < book.rules.length + 1 := by
  have bound : (book.rules.map (·.name)).idxOf name < book.rules.length := by
    simpa only [List.length_map] using List.idxOf_lt_length_of_mem known
  simp only [startRule, numberRule]
  omega

theorem listed_under_bounds (book : RuleBook) (tidy : book.Tidy) (index : Nat)
    (bound : index < book.productions.length) :
    startRule < listedUnder book index ∧ listedUnder book index < book.rules.length + 1 := by
  obtain ⟨rule, member, holds⟩ := tidy.listed index bound
  have found : book.rules.findIdx (fun rule => rule.productions.contains index) <
      book.rules.length :=
    List.findIdx_lt_length_of_exists ⟨rule, member, by simpa using holds⟩
  simp only [startRule, listedUnder]
  omega

theorem number_symbol_occurs (book : RuleBook) (sound : book.Sound)
    (production : RuleBook.Production) (member : production ∈ book.productions)
    (symbol : NamedSymbol) (inside : symbol ∈ production.symbols) :
    (ofRuleBook book).Occurs (numberSymbol book symbol) := by
  cases symbol with
  | rule name span =>
      have known := sound.rulesKnown production member name span inside
      have bounds := number_rule_bounds book name known
      simpa only [numberSymbol, Occurs, rule_count_of_rule_book] using bounds
  | token name span =>
      have known := sound.tokensKnown production member name span inside
      simpa only [numberSymbol, Occurs, end_token_of_rule_book, numberToken] using
        List.idxOf_lt_length_of_mem known

theorem of_rule_book_well_formed (book : RuleBook) (sound : book.Sound) :
    (ofRuleBook book).WellFormed := by
  obtain ⟨name, known, starts⟩ := sound.start
  have count := production_count_of_rule_book book
  have start := start_production_of_rule_book book
  have last := last_production_of_rule_book book
  have startSymbols : (startOf book).symbols = [.rule (numberRule book name)] := by
    simp [startOf, starts]
  constructor
  · rw [count]
    exact Nat.succ_pos _
  · refine ⟨numberRule book name, ?_⟩
    rw [start, symbols, last]
    exact startSymbols
  · rw [start, ruleOf, last]
    rfl
  · intro production bound ofStart
    rw [start]
    by_cases earlier : production < book.productions.length
    · have bounds := listed_under_bounds book sound.toTidy production earlier
      rw [ruleOf, production_of_rule_book book production earlier] at ofStart
      dsimp only at ofStart
      omega
    · omega
  · intro production
    rw [rule_count_of_rule_book]
    by_cases earlier : production < book.productions.length
    · rw [ruleOf, production_of_rule_book book production earlier]
      exact (listed_under_bounds book sound.toTidy production earlier).2
    · by_cases same : production = book.productions.length
      · rw [ruleOf, same, last]
        exact Nat.succ_pos _
      · rw [ruleOf, no_production_of_rule_book book production (by omega)]
        exact Nat.succ_pos _
  · intro production symbol inside
    by_cases earlier : production < book.productions.length
    · rw [symbols, production_of_rule_book book production earlier] at inside
      obtain ⟨named, member, numbered⟩ := List.mem_map.mp inside
      rw [← numbered]
      exact number_symbol_occurs book sound _ (List.getElem_mem earlier) named member
    · by_cases same : production = book.productions.length
      · rw [symbols, same, last] at inside
        dsimp only at inside
        rw [startSymbols, List.mem_singleton] at inside
        rw [inside, Occurs, rule_count_of_rule_book]
        exact number_rule_bounds book name known
      · rw [symbols, no_production_of_rule_book book production (by omega)] at inside
        cases inside
  · have names : (ofRuleBook book).namedTokens.toList.map NamedToken.name = book.tokens := by
      simp [ofRuleBook, Function.comp_def]
    rw [names]
    exact sound.tokensDistinct

theorem rule_book_of_compile {α π : Type} {width : IndexWidth} {declarations : Declarations α π}
    {grammar : Grammar} (compiled : compile width declarations = .ok grammar) :
    ∃ book, RuleBook.ofDeclarations declarations = .ok book ∧ checkWidth width book = .ok () ∧
      grammar = ofRuleBook book := by
  unfold compile at compiled
  split at compiled
  · cases compiled
  · rename_i book read
    split at compiled
    · cases compiled
    · rename_i fits
      cases compiled
      exact ⟨book, read, fits, rfl⟩

theorem compile_well_formed {α π : Type} (width : IndexWidth) (declarations : Declarations α π)
    (grammar : Grammar) (compiled : compile width declarations = .ok grammar) :
    grammar.WellFormed := by
  obtain ⟨book, read, _, rfl⟩ := rule_book_of_compile compiled
  exact of_rule_book_well_formed book (RuleBook.of_declarations_sound declarations book read)

/-- The rule the author starts with. -/
def userStart (grammar : Grammar) : Nat :=
  match grammar.symbols grammar.startProduction with
  | .rule rule :: _ => rule
  | _ => startRule

variable {grammar : Grammar}

theorem WellFormed.start_symbols_eq (wellFormed : grammar.WellFormed) :
    grammar.symbols grammar.startProduction = [.rule grammar.userStart] := by
  rcases wellFormed.startSymbols with ⟨rule, starts⟩
  rw [userStart, starts]

theorem WellFormed.user_start_bounds (wellFormed : grammar.WellFormed) :
    startRule < grammar.userStart ∧ grammar.userStart < grammar.ruleCount := by
  apply wellFormed.symbolsOccur grammar.startProduction (.rule grammar.userStart)
  rw [wellFormed.start_symbols_eq]
  exact List.mem_cons_self

theorem token_name_of_index (name : String) (terminal : Nat)
    (found : grammar.tokenIndex? name = some terminal) :
    grammar.tokenName? terminal = some name := by
  obtain ⟨bound, same, _⟩ := Array.findIdx?_eq_some_iff_getElem.mp found
  rw [tokenName?, Array.getElem?_eq_getElem bound, Option.map_some, beq_iff_eq.mp same]

theorem token_index_of_name (wellFormed : grammar.WellFormed) (terminal : Nat) (name : String)
    (named : grammar.tokenName? terminal = some name) :
    grammar.tokenIndex? name = some terminal := by
  obtain ⟨token, at_terminal, own⟩ := Option.map_eq_some_iff.mp named
  obtain ⟨bound, here⟩ := Array.getElem?_eq_some_iff.mp at_terminal
  apply Array.findIdx?_eq_some_iff_getElem.mpr
  refine ⟨bound, ?_, ?_⟩
  · rw [here, own]
    exact beq_self_eq_true name
  · intro earlier before
    have distinct := List.pairwise_iff_getElem.mp wellFormed.namesDistinct earlier terminal
      (by simp; omega) (by simpa using bound) before
    simp only [List.getElem_map, Array.getElem_toList, here, own] at distinct
    simpa using distinct

theorem token_index_bound (name : String) (terminal : Nat)
    (found : grammar.tokenIndex? name = some terminal) : terminal < grammar.endToken :=
  (Array.findIdx?_eq_some_iff_getElem.mp found).1

end Grammar

/-! A small language to try things on: sums, which are ambiguous but for the precedence of their
sign. The value of a sum is its length, and the parameter counts the calls of its action. -/

namespace Sums

def weigh : Operand Nat → Nat
  | .lexeme _ => 1
  | .value weight => weight

def sum (operands : List (Operand Nat)) : Nat :=
  operands.foldr (fun operand total => weigh operand + total) 0

def declarations : Declarations Nat Nat where
  literals := ['+', 'n']
  precedence := [⟨.left, ["+"]⟩]
  productions := [⟨"E : E '+' E | 'n'",
    some fun calls operands => (sum operands, calls + 1)⟩]

def grammar : Grammar where
  ruleNames := #["^", "E"]
  namedTokens := #[⟨"+", some ⟨1, .left⟩⟩, ⟨"n", none⟩]
  productions := #[
    ⟨1, [.rule 1, .token 0, .rule 1], some ⟨1, .left⟩, some 0⟩,
    ⟨1, [.token 1], none, some 0⟩,
    ⟨0, [.rule 1], none, none⟩]
  expectShiftReduce := none
  expectReduceReduce := none

theorem compiled : Grammar.compile .bits32 declarations = .ok grammar := by cbv

end Sums

end SlrKit
