import SlrKit.Grammar.Follow
import SlrKit.Proofs.Grammar.FirstSets

/-!
# FOLLOW sets are closed

As with FIRST sets, the rounds end in sets that no production adds to: what can come after a rule
inside a production follows it, and so does what follows the production when the symbols after
the rule can be empty.
-/

set_option autoImplicit false

namespace SlrKit

namespace Follows

/-- Only rules and tokens of the grammar occur. -/
structure Within (grammar : Grammar) (follows : Follows) : Prop where
  size : follows.tokens.size = grammar.ruleCount
  tokens : ∀ rule token, (follows.ofRule rule).contains token = true → token < grammar.tokenCount

/-- What is known of FOLLOW sets. -/
def facts (grammar : Grammar) : Facts Follows (Nat × Nat) where
  valid := Within grammar
  holds := fun follows fact => (follows.ofRule fact.1).contains fact.2 = true
  ext := by
    intro left right leftWithin rightWithin same
    have tokens : left.tokens = right.tokens := by
      apply rows_ext _ _ (leftWithin.size.trans rightWithin.size.symm)
      intro rule token
      exact same (rule, token)
    cases left
    cases right
    simp only [mk.injEq]
    exact tokens

variable {grammar : Grammar}

/-- What a production of `rule` says about a rule in it, given the symbols after that. -/
def contribution (firsts : Firsts) (rule : Nat) (rest : List Symbol) (follows : Follows) :
    IndexSet :=
  if (firsts.ofSymbols rest).2 then (firsts.ofSymbols rest).1.union (follows.ofRule rule)
  else (firsts.ofSymbols rest).1

/-- Adds to what follows one rule. -/
def addAfter (firsts : Firsts) (rule inner : Nat) (rest : List Symbol) (follows : Follows) :
    Follows :=
  ⟨follows.tokens.modify inner (·.union (contribution firsts rule rest follows))⟩

theorem add_symbols_rule (firsts : Firsts) (rule inner : Nat) (rest : List Symbol)
    (follows : Follows) :
    addSymbols firsts rule (.rule inner :: rest) follows =
      addSymbols firsts rule rest (addAfter firsts rule inner rest follows) :=
  rfl

theorem contribution_within {firsts : Firsts} (firstsWithin : Firsts.Within grammar firsts)
    (rule : Nat) (rest : List Symbol) (occur : ∀ symbol ∈ rest, grammar.Occurs symbol)
    (follows : Follows) (within : Within grammar follows) (token : Nat)
    (held : (contribution firsts rule rest follows).contains token = true) :
    token < grammar.tokenCount := by
  have early : (firsts.ofSymbols rest).1.contains token = true → token < grammar.tokenCount := by
    intro first
    have bound := Firsts.of_symbols_within firstsWithin rest occur token first
    simp only [Grammar.endToken, Grammar.tokenCount] at bound ⊢
    omega
  unfold contribution at held
  split at held
  · rw [IndexSet.contains_union, Bool.or_eq_true] at held
    rcases held with first | after
    · exact early first
    · exact within.tokens rule token after
  · exact early held

theorem add_after_grows {firsts : Firsts} (firstsWithin : Firsts.Within grammar firsts)
    (rule inner : Nat) (rest : List Symbol) (occur : ∀ symbol ∈ rest, grammar.Occurs symbol) :
    (facts grammar).Grows (addAfter firsts rule inner rest) := by
  intro follows within
  have modified := fun other token => contains_modify_iff follows.tokens inner other token
    (contribution firsts rule rest follows)
  refine ⟨⟨Array.size_modify.trans within.size, ?_⟩, ?_⟩
  · intro other token held
    rcases (modified other token).mp held with old | ⟨_, _, added⟩
    · exact within.tokens other token old
    · exact contribution_within firstsWithin rule rest occur follows within token added
  · intro fact holds
    exact (modified fact.1 fact.2).mpr (Or.inl holds)

theorem add_symbols_grows {firsts : Firsts} (firstsWithin : Firsts.Within grammar firsts)
    (rule : Nat) (symbols : List Symbol) (occur : ∀ symbol ∈ symbols, grammar.Occurs symbol) :
    (facts grammar).Grows (addSymbols firsts rule symbols) := by
  induction symbols with
  | nil => exact Facts.grows_id
  | cons symbol rest ih =>
      have others := ih fun other member => occur other (List.mem_cons_of_mem _ member)
      cases symbol with
      | token token => exact others
      | rule inner =>
          have first := add_after_grows firstsWithin rule inner rest
            (fun other member => occur other (List.mem_cons_of_mem _ member))
          exact first.comp others

theorem contribution_le_of_fixed {firsts : Firsts} (firstsWithin : Firsts.Within grammar firsts)
    (rule : Nat) (symbols : List Symbol) (occur : ∀ symbol ∈ symbols, grammar.Occurs symbol)
    (follows : Follows) (within : Within grammar follows)
    (fixed : addSymbols firsts rule symbols follows = follows) (front back : List Symbol)
    (inner : Nat) (split : symbols = front ++ .rule inner :: back) (token : Nat)
    (held : (contribution firsts rule back follows).contains token = true) :
    (follows.ofRule inner).contains token = true := by
  induction symbols generalizing front with
  | nil => simp at split
  | cons symbol rest ih =>
      have restOccur : ∀ other ∈ rest, grammar.Occurs other :=
        fun other member => occur other (List.mem_cons_of_mem _ member)
      have others := add_symbols_grows firstsWithin rule rest restOccur
      have restFixed : addSymbols firsts rule rest follows = follows := by
        cases symbol with
        | token terminal => exact fixed
        | rule early =>
            rw [add_symbols_rule] at fixed
            have first := add_after_grows firstsWithin rule early rest restOccur
            have alone := first.fixed_of_comp others follows within fixed
            rw [alone] at fixed
            exact fixed
      cases front with
      | nil =>
          rw [List.nil_append] at split
          cases split
          rw [add_symbols_rule] at fixed
          have first := add_after_grows firstsWithin rule inner back restOccur
          have alone := first.fixed_of_comp others follows within fixed
          have bound : inner < follows.tokens.size := by
            rw [within.size]
            exact (occur (.rule inner) List.mem_cons_self).2
          have modified := contains_modify_iff follows.tokens inner inner token
            (contribution firsts rule back follows)
          rw [← alone]
          exact modified.mpr (Or.inr ⟨rfl, bound, held⟩)
      | cons other front =>
          rw [List.cons_append] at split
          cases split
          exact ih restOccur restFixed front rfl

theorem round_eq_foldl (firsts : Firsts) (follows : Follows) :
    round grammar firsts follows = grammar.productions.toList.foldl
      (fun follows production => addSymbols firsts production.rule production.symbols follows)
      follows := by
  rw [round, Array.foldl_toList]

theorem part_grows (wellFormed : grammar.WellFormed) {firsts : Firsts}
    (firstsWithin : Firsts.Within grammar firsts) (production : Production)
    (member : production ∈ grammar.productions.toList) :
    (facts grammar).Grows
      fun follows => addSymbols firsts production.rule production.symbols follows := by
  obtain ⟨index, found⟩ := Grammar.exists_index member
  have occur := wellFormed.symbolsOccur index
  rw [Grammar.symbols_of_get found] at occur
  exact add_symbols_grows firstsWithin _ _ occur

theorem round_grows (wellFormed : grammar.WellFormed) {firsts : Firsts}
    (firstsWithin : Firsts.Within grammar firsts) :
    (facts grammar).Grows (round grammar firsts) := by
  have folded : round grammar firsts = fun follows => grammar.productions.toList.foldl
      (fun follows production => addSymbols firsts production.rule production.symbols follows)
      follows := by
    funext follows
    exact round_eq_foldl firsts follows
  rw [folded]
  exact Facts.Grows.foldl _ _ (part_grows wellFormed firstsWithin)

theorem contains_initial_iff (wellFormed : grammar.WellFormed) (rule token : Nat) :
    ((initial grammar).ofRule rule).contains token = true ↔
      rule = Grammar.startRule ∧ token = grammar.endToken := by
  have size : 0 < grammar.ruleCount :=
    Nat.lt_of_le_of_lt (Nat.zero_le _) (wellFormed.ruleBound 0)
  have modified := contains_modify_iff (Array.replicate grammar.ruleCount .empty)
    Grammar.startRule rule token (IndexSet.singleton grammar.endToken)
  have empty : (rowOf (Array.replicate grammar.ruleCount .empty) rule).contains token = false := by
    rw [rowOf, Array.getElem?_replicate]
    split
    · exact IndexSet.contains_empty token
    · exact IndexSet.contains_empty token
  rw [empty] at modified
  apply modified.trans
  rw [IndexSet.contains_singleton, decide_eq_true_eq, Array.size_replicate]
  constructor
  · rintro (impossible | ⟨same, _, last⟩)
    · cases impossible
    · exact ⟨same.symm, last.symm⟩
  · rintro ⟨same, last⟩
    rw [same]
    exact Or.inr ⟨rfl, size, last.symm⟩

theorem initial_within (wellFormed : grammar.WellFormed) : Within grammar (initial grammar) where
  size := by
    rw [initial, Array.size_modify, Array.size_replicate]
  tokens := by
    intro rule token held
    rw [((contains_initial_iff wellFormed rule token).mp held).2]
    exact Nat.lt_succ_self _

/-- All facts about FOLLOW sets that can hold. -/
def allFacts (grammar : Grammar) : Finset (Nat × Nat) :=
  Finset.range grammar.ruleCount ×ˢ Finset.range grammar.tokenCount

theorem holds_mem_all_facts (follows : Follows) (fact : Nat × Nat)
    (within : Within grammar follows) (holds : (facts grammar).holds follows fact) :
    fact ∈ allFacts grammar := by
  have bound := row_bound follows.tokens fact.1 fact.2 holds
  rw [within.size] at bound
  exact Finset.mem_product.mpr ⟨Finset.mem_range.mpr bound,
    Finset.mem_range.mpr (within.tokens fact.1 fact.2 holds)⟩

theorem of_grammar_fixed (wellFormed : grammar.WellFormed) :
    Within grammar (ofGrammar grammar) ∧
      ((ofGrammar grammar).ofRule Grammar.startRule).contains grammar.endToken = true ∧
      round grammar (Firsts.ofGrammar grammar) (ofGrammar grammar) = ofGrammar grammar := by
  have firstsWithin := (Firsts.of_grammar_fixed wellFormed).1
  have size : (allFacts grammar).card = grammar.ruleCount * grammar.tokenCount := by
    rw [allFacts, Finset.card_product, Finset.card_range, Finset.card_range]
  have stable := (round_grows wellFormed firstsWithin).until_stable (allFacts grammar)
    holds_mem_all_facts
    (grammar.ruleCount * grammar.tokenCount + 1) (initial grammar) (initial_within wellFormed)
    (by omega)
  refine ⟨stable.1, ?_, stable.2.2⟩
  apply stable.2.1 (Grammar.startRule, grammar.endToken)
  exact (contains_initial_iff wellFormed _ _).mpr ⟨rfl, rfl⟩

theorem of_grammar_closed (wellFormed : grammar.WellFormed) (production inner : Nat)
    (front back : List Symbol)
    (split : grammar.symbols production = front ++ .rule inner :: back) (token : Nat)
    (comes : ((Firsts.ofGrammar grammar).ofSymbols back).1.contains token = true ∨
      ((Firsts.ofGrammar grammar).ofSymbols back).2 = true ∧
        ((ofGrammar grammar).ofRule (grammar.ruleOf production)).contains token = true) :
    ((ofGrammar grammar).ofRule inner).contains token = true := by
  have firstsWithin := (Firsts.of_grammar_fixed wellFormed).1
  obtain ⟨within, _, fixed⟩ := of_grammar_fixed wellFormed
  have bound : production < grammar.productionCount := by
    apply grammar.bound_of_symbols_ne_nil
    rw [split]
    simp
  have found := Array.getElem?_eq_getElem bound
  rw [round_eq_foldl] at fixed
  have alone := Facts.Grows.fixed_of_foldl _ _ (part_grows wellFormed firstsWithin) _ within
    fixed grammar.productions[production] (Array.getElem_mem_toList bound)
  rw [← Grammar.rule_of_get found, ← Grammar.symbols_of_get found] at alone
  apply contribution_le_of_fixed firstsWithin _ _ (wellFormed.symbolsOccur production) _ within
    alone front back inner split token
  unfold contribution
  rcases comes with first | ⟨empty, after⟩
  · split
    · rw [IndexSet.contains_union, first, Bool.true_or]
    · exact first
  · rw [if_pos empty, IndexSet.contains_union, after, Bool.or_true]

/-- The tokens may come after a text of the rule; the end does if there are none. -/
def Admits (grammar : Grammar) (rule : Nat) : List Token → Prop
  | [] => ((ofGrammar grammar).ofRule rule).contains grammar.endToken = true
  | token :: _ => ∃ terminal, grammar.tokenIndex? token.name = some terminal ∧
      ((ofGrammar grammar).ofRule rule).contains terminal = true

theorem start_admits_nil (wellFormed : grammar.WellFormed) :
    Admits grammar Grammar.startRule [] := (of_grammar_fixed wellFormed).2.1

/-- What comes after a rule in a production is what the symbols after it derive, or if that is
empty, what comes after the production. -/
theorem admits_of_derives (wellFormed : grammar.WellFormed) {production inner : Nat}
    {front back : List Symbol}
    (split : grammar.symbols production = front ++ .rule inner :: back) {trees : List Tree}
    (derives : Forest.Derives grammar back trees) {rest : List Token}
    (after : Admits grammar (grammar.ruleOf production) rest) :
    Admits grammar inner (Forest.leaves trees ++ rest) := by
  have closed := of_grammar_closed wellFormed production inner front back split
  have begins := Firsts.forest_begins wellFormed derives
  generalize Forest.leaves trees = own at begins
  cases own with
  | nil =>
      rw [List.nil_append]
      cases rest with
      | nil => exact closed grammar.endToken (Or.inr ⟨begins, after⟩)
      | cons token others =>
          rcases after with ⟨terminal, index, held⟩
          exact ⟨terminal, index, closed terminal (Or.inr ⟨begins, held⟩)⟩
  | cons token others =>
      rcases begins with ⟨terminal, index, held⟩
      exact ⟨terminal, index, closed terminal (Or.inl held)⟩

end Follows

end SlrKit
