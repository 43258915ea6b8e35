import SlrKit.Grammar.First
import SlrKit.Proofs.Grammar.DerivationTree
import SlrKit.Proofs.Grammar.FixedPoint
import SlrKit.Proofs.Grammar.WellFormed

/-!
# FIRST sets are closed

The rounds over the productions end in sets that no production adds to. Hence whatever a row of
symbols derives begins with a token of its FIRST set, or the row can be empty.
-/

set_option autoImplicit false

namespace SlrKit

/-- One of several index sets. -/
def rowOf (rows : Array IndexSet) (rule : Nat) : IndexSet := (rows[rule]?).getD .empty

theorem contains_modify_iff (rows : Array IndexSet) (rule other token : Nat)
    (added : IndexSet) :
    (rowOf (rows.modify rule (·.union added)) other).contains token = true ↔
      (rowOf rows other).contains token = true ∨
        (rule = other ∧ other < rows.size ∧ added.contains token = true) := by
  rw [rowOf, rowOf, Array.getElem?_modify]
  by_cases same : rule = other
  · rw [if_pos same]
    by_cases bound : other < rows.size
    · rw [Array.getElem?_eq_getElem bound]
      simp [same, bound]
    · rw [Array.getElem?_eq_none (Nat.not_lt.mp bound)]
      simp [bound]
  · rw [if_neg same]
    simp [same]

theorem rows_ext (left right : Array IndexSet) (size : left.size = right.size)
    (same : ∀ rule token, (rowOf left rule).contains token = true ↔
      (rowOf right rule).contains token = true) : left = right := by
  apply Array.ext size
  intro rule leftBound rightBound
  apply IndexSet.ext_contains
  intro token
  have agree := same rule token
  rw [rowOf, rowOf, Array.getElem?_eq_getElem leftBound,
    Array.getElem?_eq_getElem rightBound] at agree
  exact Bool.eq_iff_iff.mpr agree

theorem row_bound (rows : Array IndexSet) (rule token : Nat)
    (held : (rowOf rows rule).contains token = true) : rule < rows.size := by
  by_cases bound : rule < rows.size
  · exact bound
  · rw [rowOf, Array.getElem?_eq_none (Nat.not_lt.mp bound)] at held
    simp at held

namespace Grammar

variable {grammar : Grammar} {index : Nat} {production : Production}

theorem rule_of_get (found : grammar.productions[index]? = some production) :
    grammar.ruleOf index = production.rule := by
  rw [ruleOf, found]

theorem symbols_of_get (found : grammar.productions[index]? = some production) :
    grammar.symbols index = production.symbols := by
  rw [symbols, found]

theorem exists_index (member : production ∈ grammar.productions.toList) :
    ∃ index : Nat, grammar.productions[index]? = some production :=
  Array.getElem?_of_mem (Array.mem_toList_iff.mp member)

end Grammar

namespace Firsts

/-- Only rules and named tokens of the grammar occur. -/
structure Within (grammar : Grammar) (firsts : Firsts) : Prop where
  size : firsts.tokens.size = grammar.ruleCount
  tokens : ∀ rule token, (firsts.ofRule rule).contains token = true → token < grammar.endToken
  nullable : ∀ rule, firsts.nullable.contains rule = true → rule < grammar.ruleCount

/-- A rule can begin with a token, or be empty. -/
def Knows (firsts : Firsts) : Nat × Option Nat → Prop
  | (rule, some token) => (firsts.ofRule rule).contains token = true
  | (rule, Option.none) => firsts.nullable.contains rule = true

/-- What is known of FIRST sets. -/
def facts (grammar : Grammar) : Facts Firsts (Nat × Option Nat) where
  valid := Within grammar
  holds := Knows
  ext := by
    intro left right leftWithin rightWithin same
    have tokens : left.tokens = right.tokens := by
      apply rows_ext _ _ (leftWithin.size.trans rightWithin.size.symm)
      intro rule token
      exact same (rule, some token)
    have nullable : left.nullable = right.nullable := by
      apply IndexSet.ext_contains
      intro rule
      exact Bool.eq_iff_iff.mpr (same (rule, Option.none))
    cases left
    cases right
    simp only [mk.injEq]
    exact ⟨tokens, nullable⟩

variable {grammar : Grammar}

theorem of_symbols_within {firsts : Firsts} (within : Within grammar firsts)
    (symbols : List Symbol) (occur : ∀ symbol ∈ symbols, grammar.Occurs symbol) (token : Nat)
    (held : (firsts.ofSymbols symbols).1.contains token = true) : token < grammar.endToken := by
  induction symbols with
  | nil => simp [ofSymbols] at held
  | cons symbol rest ih =>
      cases symbol with
      | token terminal =>
          have same : terminal = token := by simpa [ofSymbols] using held
          rw [← same]
          exact occur (.token terminal) List.mem_cons_self
      | rule rule =>
          simp only [ofSymbols] at held
          split at held
          · rw [IndexSet.contains_union, Bool.or_eq_true] at held
            rcases held with own | later
            · exact within.tokens rule token own
            · exact ih (fun other member => occur other (List.mem_cons_of_mem _ member)) later
          · exact within.tokens rule token held

theorem knows_add_production (firsts : Firsts) (production : Production)
    (bound : production.rule < firsts.tokens.size) (fact : Nat × Option Nat) :
    Knows (firsts.addProduction production) fact ↔ Knows firsts fact ∨
      (fact.1 = production.rule ∧ match fact.2 with
        | some token => (firsts.ofSymbols production.symbols).1.contains token = true
        | Option.none => (firsts.ofSymbols production.symbols).2 = true) := by
  obtain ⟨rule, token⟩ := fact
  cases token with
  | some token =>
      have modified := contains_modify_iff firsts.tokens production.rule rule token
        (firsts.ofSymbols production.symbols).1
      simp only [Knows, addProduction, ofRule]
      rw [rowOf, rowOf] at modified
      rw [modified]
      constructor
      · rintro (old | ⟨same, _, added⟩)
        · exact Or.inl old
        · exact Or.inr ⟨same.symm, added⟩
      · rintro (old | ⟨same, added⟩)
        · exact Or.inl old
        · exact Or.inr ⟨same.symm, by rw [same]; exact bound, added⟩
  | none =>
      simp only [Knows, addProduction]
      split
      · rename_i empty
        rw [IndexSet.contains_insert, Bool.or_eq_true, decide_eq_true_eq]
        constructor
        · rintro (old | same)
          · exact Or.inl old
          · exact Or.inr ⟨same.symm, empty⟩
        · rintro (old | ⟨same, _⟩)
          · exact Or.inl old
          · exact Or.inr same.symm
      · rename_i full
        constructor
        · exact Or.inl
        · rintro (old | ⟨_, empty⟩)
          · exact old
          · exact absurd empty full

theorem add_production_grows (wellFormed : grammar.WellFormed) (index : Nat)
    (production : Production) (found : grammar.productions[index]? = some production) :
    (facts grammar).Grows fun firsts => firsts.addProduction production := by
  have ruleBound := wellFormed.ruleBound index
  have symbolsOccur := wellFormed.symbolsOccur index
  rw [Grammar.rule_of_get found] at ruleBound
  rw [Grammar.symbols_of_get found] at symbolsOccur
  intro firsts within
  have size : (firsts.addProduction production).tokens.size = firsts.tokens.size :=
    Array.size_modify
  have knows := knows_add_production firsts production (by rw [within.size]; exact ruleBound)
  refine ⟨⟨size.trans within.size, ?_, ?_⟩, ?_⟩
  · intro other token held
    rcases (knows (other, some token)).mp held with old | ⟨_, added⟩
    · exact within.tokens other token old
    · exact of_symbols_within within _ symbolsOccur token added
  · intro other held
    rcases (knows (other, Option.none)).mp held with old | ⟨same, _⟩
    · exact within.nullable other old
    · dsimp only at same
      rw [same]
      exact ruleBound
  · intro fact holds
    exact (knows fact).mpr (Or.inl holds)

theorem round_eq_foldl (grammar : Grammar) (firsts : Firsts) :
    round grammar firsts = grammar.productions.toList.foldl addProduction firsts := by
  rw [round, Array.foldl_toList]

theorem part_grows (wellFormed : grammar.WellFormed) (production : Production)
    (member : production ∈ grammar.productions.toList) :
    (facts grammar).Grows fun firsts => firsts.addProduction production := by
  obtain ⟨index, found⟩ := Grammar.exists_index member
  exact add_production_grows wellFormed index production found

theorem round_grows (wellFormed : grammar.WellFormed) :
    (facts grammar).Grows (round grammar) := by
  have folded : round grammar =
      fun firsts => grammar.productions.toList.foldl addProduction firsts := by
    funext firsts
    exact round_eq_foldl grammar firsts
  rw [folded]
  exact Facts.Grows.foldl addProduction _ (part_grows wellFormed)

theorem of_rule_none (grammar : Grammar) (rule : Nat) : (none grammar).ofRule rule = .empty := by
  simp only [none, ofRule, Array.getElem?_replicate]
  split <;> rfl

theorem none_within (grammar : Grammar) : Within grammar (none grammar) where
  size := Array.size_replicate
  tokens := by
    intro rule token held
    simp [of_rule_none] at held
  nullable := by
    intro rule held
    simp [none] at held

/-- All facts about FIRST sets that can hold. -/
def allFacts (grammar : Grammar) : Finset (Nat × Option Nat) :=
  Finset.range grammar.ruleCount ×ˢ (Finset.range grammar.tokenCount).insertNone

theorem knows_mem_all_facts (firsts : Firsts) (fact : Nat × Option Nat)
    (within : Within grammar firsts) (knows : Knows firsts fact) : fact ∈ allFacts grammar := by
  obtain ⟨rule, token⟩ := fact
  apply Finset.mem_product.mpr
  cases token with
  | some token =>
      have bound := row_bound firsts.tokens rule token knows
      rw [within.size] at bound
      have tokenBound := within.tokens rule token knows
      refine ⟨Finset.mem_range.mpr bound, ?_⟩
      apply Finset.some_mem_insertNone.mpr
      apply Finset.mem_range.mpr
      simp only [Grammar.endToken, Grammar.tokenCount] at tokenBound ⊢
      omega
  | none =>
      exact ⟨Finset.mem_range.mpr (within.nullable rule knows), Finset.none_mem_insertNone⟩

theorem of_grammar_fixed (wellFormed : grammar.WellFormed) :
    Within grammar (ofGrammar grammar) ∧
      round grammar (ofGrammar grammar) = ofGrammar grammar := by
  have size : (allFacts grammar).card = grammar.ruleCount * (grammar.tokenCount + 1) := by
    rw [allFacts, Finset.card_product, Finset.card_range, Finset.card_insertNone,
      Finset.card_range]
  have stable := (round_grows wellFormed).until_stable (allFacts grammar) knows_mem_all_facts
    (grammar.ruleCount * (grammar.tokenCount + 1) + 1) (none grammar) (none_within grammar)
    (by omega)
  exact ⟨stable.1, stable.2.2⟩

theorem of_grammar_closed (wellFormed : grammar.WellFormed) (production : Nat)
    (bound : production < grammar.productionCount) :
    (∀ token, ((ofGrammar grammar).ofSymbols (grammar.symbols production)).1.contains token =
        true → ((ofGrammar grammar).ofRule (grammar.ruleOf production)).contains token = true) ∧
      (((ofGrammar grammar).ofSymbols (grammar.symbols production)).2 = true →
        (ofGrammar grammar).nullable.contains (grammar.ruleOf production) = true) := by
  obtain ⟨within, fixed⟩ := of_grammar_fixed wellFormed
  have found := Array.getElem?_eq_getElem bound
  have rule := Grammar.rule_of_get found
  have symbols := Grammar.symbols_of_get found
  rw [round_eq_foldl] at fixed
  have alone := Facts.Grows.fixed_of_foldl addProduction _ (part_grows wellFormed) _ within fixed
    grammar.productions[production] (Array.getElem_mem_toList bound)
  have ruleBound := wellFormed.ruleBound production
  rw [rule, ← within.size] at ruleBound
  have knows := knows_add_production (ofGrammar grammar) grammar.productions[production] ruleBound
  rw [alone] at knows
  rw [rule, symbols]
  constructor
  · intro token held
    exact (knows (_, some token)).mpr (Or.inr ⟨rfl, held⟩)
  · intro held
    exact (knows (_, Option.none)).mpr (Or.inr ⟨rfl, held⟩)

/-- The tokens may begin what the symbols derive. -/
def Begins (grammar : Grammar) (firsts : Firsts) (symbols : List Symbol) : List Token → Prop
  | [] => (firsts.ofSymbols symbols).2 = true
  | token :: _ => ∃ terminal, grammar.tokenIndex? token.name = some terminal ∧
      (firsts.ofSymbols symbols).1.contains terminal = true

theorem begins_rule_cons {firsts : Firsts} {rule : Nat} {rest : List Symbol}
    {own others : List Token}
    (nullable : own = [] → firsts.nullable.contains rule = true)
    (first : ∀ token tokens, own = token :: tokens → ∃ terminal,
      grammar.tokenIndex? token.name = some terminal ∧
        (firsts.ofRule rule).contains terminal = true)
    (after : Begins grammar firsts rest others) :
    Begins grammar firsts (.rule rule :: rest) (own ++ others) := by
  cases own with
  | nil =>
      have canBeEmpty := nullable rfl
      rw [List.nil_append]
      cases others with
      | nil =>
          simp only [Begins, ofSymbols, canBeEmpty, if_true] at after ⊢
          exact after
      | cons token tokens =>
          obtain ⟨terminal, index, held⟩ := after
          refine ⟨terminal, index, ?_⟩
          simp only [ofSymbols, canBeEmpty, if_true, IndexSet.contains_union, held,
            Bool.or_true]
  | cons token tokens =>
      obtain ⟨terminal, index, held⟩ := first token tokens rfl
      refine ⟨terminal, index, ?_⟩
      simp only [ofSymbols]
      split
      · rw [IndexSet.contains_union, held, Bool.true_or]
      · exact held

mutual

/-- What a rule derives begins with a token of its FIRST set. -/
theorem rule_begins (wellFormed : grammar.WellFormed) {symbol : Symbol} {tree : Tree}
    (derives : Tree.Derives grammar symbol tree) (rest : List Symbol) (others : List Token)
    (after : Begins grammar (ofGrammar grammar) rest others) :
    Begins grammar (ofGrammar grammar) (symbol :: rest) (tree.leaves ++ others) := by
  cases derives with
  | leaf named =>
      refine ⟨_, Grammar.token_index_of_name wellFormed _ _ named, ?_⟩
      simp [ofSymbols]
  | @node production children bound below =>
      have closed := of_grammar_closed wellFormed production bound
      have inner := forest_begins wellFormed below
      apply begins_rule_cons _ _ after
      · intro empty
        rw [Tree.leaves] at empty
        rw [empty] at inner
        exact closed.2 inner
      · intro token tokens starts
        rw [Tree.leaves] at starts
        rw [starts] at inner
        obtain ⟨terminal, index, held⟩ := inner
        exact ⟨terminal, index, closed.1 terminal held⟩

theorem forest_begins (wellFormed : grammar.WellFormed) {symbols : List Symbol}
    {trees : List Tree} (derives : Forest.Derives grammar symbols trees) :
    Begins grammar (ofGrammar grammar) symbols (Forest.leaves trees) := by
  cases derives with
  | nil => rfl
  | cons first rest => exact rule_begins wellFormed first _ _ (forest_begins wellFormed rest)

end

end Firsts

end SlrKit
