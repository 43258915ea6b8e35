import SlrKit.Proofs.Grammar.FirstSets
import SlrKit.Proofs.Grammar.SententialForm

/-!
# What rules begin with

FIRST of a rule holds exactly the tokens that some row produced from the rule begins with, whatever
comes after them, and the nullable rules are exactly those that produce the empty row. No token is
missing, since rewriting a row never lets it begin with anything new; none is there without
reason, since every production adds only what its symbols produce.
-/

set_option autoImplicit false

namespace SlrKit

namespace Firsts

variable {grammar : Grammar} {firsts : Firsts}

theorem first_of_append_iff (firsts : Firsts) (front back : List Symbol) (token : Nat) :
    (firsts.ofSymbols (front ++ back)).1.contains token = true ↔
      (firsts.ofSymbols front).1.contains token = true ∨
        (firsts.ofSymbols front).2 = true ∧ (firsts.ofSymbols back).1.contains token = true := by
  induction front with
  | nil => simp [ofSymbols]
  | cons symbol rest ih =>
      cases symbol with
      | token terminal => simp [ofSymbols]
      | rule rule =>
          simp only [List.cons_append, ofSymbols]
          split
          · simp only [IndexSet.contains_union, Bool.or_eq_true, ih, or_assoc]
          · simp

theorem empty_of_append_iff (firsts : Firsts) (front back : List Symbol) :
    (firsts.ofSymbols (front ++ back)).2 = true ↔
      (firsts.ofSymbols front).2 = true ∧ (firsts.ofSymbols back).2 = true := by
  induction front with
  | nil => simp [ofSymbols]
  | cons symbol rest ih =>
      cases symbol with
      | token terminal => simp [ofSymbols]
      | rule rule =>
          simp only [List.cons_append, ofSymbols]
          split
          · exact ih
          · simp

theorem first_of_rule_iff (firsts : Firsts) (rule token : Nat) :
    (firsts.ofSymbols [.rule rule]).1.contains token = true ↔
      (firsts.ofRule rule).contains token = true := by
  simp only [ofSymbols]
  split <;> simp

theorem empty_of_rule_iff (firsts : Firsts) (rule : Nat) :
    (firsts.ofSymbols [.rule rule]).2 = true ↔ firsts.nullable.contains rule = true := by
  simp only [ofSymbols]
  split <;> simp_all

/-! ## Nothing is missing -/

/-- Whatever the second row can begin with the first one can begin with, and if the second can be
empty, so can the first. -/
structure Allows (firsts : Firsts) (left right : List Symbol) : Prop where
  tokens : ∀ token, (firsts.ofSymbols right).1.contains token = true →
    (firsts.ofSymbols left).1.contains token = true
  empty : (firsts.ofSymbols right).2 = true → (firsts.ofSymbols left).2 = true

theorem Allows.frame {left right : List Symbol} (allows : firsts.Allows left right)
    (front back : List Symbol) :
    firsts.Allows (front ++ left ++ back) (front ++ right ++ back) where
  tokens := by
    intro token
    simp only [first_of_append_iff, empty_of_append_iff]
    have tokens := allows.tokens token
    have empty := allows.empty
    tauto
  empty := by
    simp only [empty_of_append_iff]
    have empty := allows.empty
    tauto

theorem Allows.trans {left middle right : List Symbol} (first : firsts.Allows left middle)
    (second : firsts.Allows middle right) : firsts.Allows left right where
  tokens := fun token held => first.tokens token (second.tokens token held)
  empty := fun held => first.empty (second.empty held)

theorem allows_symbols (wellFormed : grammar.WellFormed) {production : Nat}
    (bound : production < grammar.productionCount) :
    (ofGrammar grammar).Allows [.rule (grammar.ruleOf production)]
      (grammar.symbols production) where
  tokens := by
    intro token held
    rw [first_of_rule_iff]
    exact (of_grammar_closed wellFormed production bound).1 token held
  empty := by
    intro held
    rw [empty_of_rule_iff]
    exact (of_grammar_closed wellFormed production bound).2 held

theorem allows_of_rewrites (wellFormed : grammar.WellFormed) {left right : List Symbol}
    (rewrites : grammar.Rewrites left right) : (ofGrammar grammar).Allows left right := by
  cases rewrites with
  | replace front back bound =>
      have framed := (allows_symbols wellFormed bound).frame front back
      simpa only [List.append_assoc, List.singleton_append] using framed

/-- The FIRST sets allow for all that a row produces; by induction on the rewriting. -/
theorem allows_of_produces (wellFormed : grammar.WellFormed) {left right : List Symbol}
    (produces : grammar.Produces left right) : (ofGrammar grammar).Allows left right := by
  induction produces with
  | refl => exact ⟨fun _ held => held, fun held => held⟩
  | tail _ rewrites ih => exact ih.trans (allows_of_rewrites wellFormed rewrites)

theorem contains_of_produces (wellFormed : grammar.WellFormed) {rule token : Nat}
    {rest : List Symbol} (produces : grammar.Produces [.rule rule] (.token token :: rest)) :
    ((ofGrammar grammar).ofRule rule).contains token = true := by
  have allows := allows_of_produces wellFormed produces
  rw [← first_of_rule_iff]
  apply allows.tokens
  simp [ofSymbols]

theorem nullable_of_produces (wellFormed : grammar.WellFormed) {rule : Nat}
    (produces : grammar.Produces [.rule rule] []) :
    (ofGrammar grammar).nullable.contains rule = true := by
  have allows := allows_of_produces wellFormed produces
  rw [← empty_of_rule_iff]
  exact allows.empty rfl

/-! ## Nothing is there without reason -/

/-- Every entry stands for a row that the rule produces. -/
structure Sound (grammar : Grammar) (firsts : Firsts) : Prop where
  tokens : ∀ rule token, (firsts.ofRule rule).contains token = true →
    ∃ rest, grammar.Produces [.rule rule] (.token token :: rest)
  nullable : ∀ rule, firsts.nullable.contains rule = true → grammar.Produces [.rule rule] []

theorem Sound.of_symbols_empty (sound : Sound grammar firsts) (symbols : List Symbol)
    (empty : (firsts.ofSymbols symbols).2 = true) : grammar.Produces symbols [] := by
  induction symbols with
  | nil => exact .refl
  | cons symbol rest ih =>
      cases symbol with
      | token terminal => simp [ofSymbols] at empty
      | rule rule =>
          rw [← List.singleton_append, empty_of_append_iff, empty_of_rule_iff] at empty
          have vanishes := (sound.nullable rule empty.1).frame [] rest
          exact vanishes.trans (ih empty.2)

theorem Sound.of_symbols_first (sound : Sound grammar firsts) (symbols : List Symbol)
    (token : Nat) (held : (firsts.ofSymbols symbols).1.contains token = true) :
    ∃ rest, grammar.Produces symbols (.token token :: rest) := by
  induction symbols with
  | nil => simp [ofSymbols] at held
  | cons symbol rest ih =>
      cases symbol with
      | token terminal =>
          have same : terminal = token := by simpa [ofSymbols] using held
          rw [same]
          exact ⟨rest, .refl⟩
      | rule rule =>
          rw [← List.singleton_append, first_of_append_iff, first_of_rule_iff,
            empty_of_rule_iff] at held
          rcases held with own | ⟨empty, later⟩
          · obtain ⟨after, begins⟩ := sound.tokens rule token own
            exact ⟨after ++ rest, begins.frame [] rest⟩
          · obtain ⟨after, begins⟩ := ih later
            have vanishes := (sound.nullable rule empty).frame [] rest
            exact ⟨after, vanishes.trans begins⟩

theorem Sound.add_production (wellFormed : grammar.WellFormed) (within : Within grammar firsts)
    (sound : Sound grammar firsts) (index : Nat) (production : Production)
    (found : grammar.productions[index]? = some production) :
    Sound grammar (firsts.addProduction production) := by
  have rule := Grammar.rule_of_get found
  have bound : index < grammar.productionCount := (Array.getElem?_eq_some_iff.mp found).1
  have ruleBound := wellFormed.ruleBound index
  rw [rule, ← within.size] at ruleBound
  have knows := knows_add_production firsts production ruleBound
  have expands := Grammar.produces_symbols bound
  rw [rule, Grammar.symbols_of_get found] at expands
  constructor
  · intro other token held
    rcases (knows (other, some token)).mp held with old | ⟨same, added⟩
    · exact sound.tokens other token old
    · obtain ⟨rest, begins⟩ := sound.of_symbols_first production.symbols token added
      dsimp only at same
      rw [same]
      exact ⟨rest, expands.trans begins⟩
  · intro other held
    rcases (knows (other, Option.none)).mp held with old | ⟨same, added⟩
    · exact sound.nullable other old
    · dsimp only at same
      rw [same]
      exact expands.trans (sound.of_symbols_empty production.symbols added)

theorem none_sound (grammar : Grammar) : Sound grammar (none grammar) where
  tokens := by
    intro rule token held
    simp [of_rule_none] at held
  nullable := by
    intro rule held
    simp [none] at held

theorem round_sound (wellFormed : grammar.WellFormed) (within : Within grammar firsts)
    (sound : Sound grammar firsts) :
    Within grammar (round grammar firsts) ∧ Sound grammar (round grammar firsts) := by
  rw [round_eq_foldl]
  refine List.foldlRecOn grammar.productions.toList addProduction
    (motive := fun current => Within grammar current ∧ Sound grammar current) ⟨within, sound⟩ ?_
  intro current kept production member
  obtain ⟨index, found⟩ := Grammar.exists_index member
  exact ⟨(part_grows wellFormed production member current kept.1).1,
    kept.2.add_production wellFormed kept.1 index production found⟩

theorem of_grammar_sound (wellFormed : grammar.WellFormed) : Sound grammar (ofGrammar grammar) := by
  have kept := until_stable_keeps (fun current => Within grammar current ∧ Sound grammar current)
    (fun current kept => round_sound wellFormed kept.1 kept.2)
    (grammar.ruleCount * (grammar.tokenCount + 1) + 1) (none grammar)
    ⟨none_within grammar, none_sound grammar⟩
  exact kept.2

/-- The rounds come to an end, and what they end in says exactly which tokens stand first in what a
rule produces and which rules produce the empty row. The end of the input is never first. -/
theorem first_sets_are_exact {α π : Type} (width : IndexWidth) (declarations : Declarations α π)
    (grammar : Grammar) (compiled : Grammar.compile width declarations = .ok grammar) :
    Settles (round grammar) (none grammar) (ofGrammar grammar) ∧
      (∀ rule token, ((ofGrammar grammar).ofRule rule).contains token = true ↔
        ∃ rest, grammar.Produces [.rule rule] (.token token :: rest)) ∧
      (∀ rule, (ofGrammar grammar).nullable.contains rule = true ↔
        grammar.Produces [.rule rule] []) ∧
      ∀ rule, ((ofGrammar grammar).ofRule rule).contains grammar.endToken = false := by
  have wellFormed := Grammar.compile_well_formed width declarations grammar compiled
  have sound := of_grammar_sound wellFormed
  obtain ⟨within, fixed⟩ := of_grammar_fixed wellFormed
  refine ⟨settles_until_stable _ _ fixed, ?_, ?_, ?_⟩
  · intro rule token
    constructor
    · exact sound.tokens rule token
    · intro produced
      obtain ⟨rest, produces⟩ := produced
      exact contains_of_produces wellFormed produces
  · intro rule
    exact ⟨sound.nullable rule, nullable_of_produces wellFormed⟩
  · intro rule
    by_contra held
    rw [Bool.not_eq_false] at held
    exact Nat.lt_irrefl _ (within.tokens rule grammar.endToken held)

end Firsts

/-! Words that may have signs in front of them and must have a mark behind them; the last rule is
lost, since nothing leads to it. -/
namespace Marks

def declarations : Declarations Nat Nat where
  literals := ['+', 'x']
  productions :=
    [⟨"Word : Signs 'x'", none⟩, ⟨"Signs : '+' Signs |", none⟩, ⟨"Lost : Word '+'", none⟩]

def grammar : Grammar where
  ruleNames := #["^", "Word", "Signs", "Lost"]
  namedTokens := #[⟨"+", none⟩, ⟨"x", none⟩]
  productions := #[
    ⟨1, [.rule 2, .token 1], none, some 0⟩,
    ⟨2, [.token 0, .rule 2], none, some 1⟩,
    ⟨2, [], none, some 1⟩,
    ⟨3, [.rule 1, .token 0], none, some 2⟩,
    ⟨0, [.rule 1], none, none⟩]
  expectShiftReduce := none
  expectReduceReduce := none

theorem compiled : Grammar.compile .bits32 declarations = .ok grammar := by cbv

/-- A word can begin with its mark, since there may be no signs; signs never begin with it. -/
theorem word_begins_with_mark : Grammar.compile .bits32 declarations = .ok grammar ∧
    (∃ rest, grammar.Produces [.rule 1] (.token 1 :: rest)) ∧ grammar.Produces [.rule 2] [] ∧
      ¬ ∃ rest, grammar.Produces [.rule 2] (.token 1 :: rest) := by
  obtain ⟨_, first, nullable, _⟩ :=
    Firsts.first_sets_are_exact .bits32 declarations grammar compiled
  refine ⟨compiled, (first 1 1).mp (by decide +kernel), (nullable 2).mp (by decide +kernel), ?_⟩
  rw [← first 2 1]
  decide +kernel

end Marks

end SlrKit
