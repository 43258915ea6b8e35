import SlrKit.Proofs.Grammar.Beginnings
import SlrKit.Proofs.Grammar.FollowSets

/-!
# What comes after rules

FOLLOW of a rule holds exactly the tokens that come right after the rule in something that some rule
of the grammar produces, whether or not the start rule leads to it; and the end of the input, if the
start rule produces a row that ends with the rule. The sets grow by one kind of step: a rule in a
production gains what the symbols after it begin with and, if these can be empty, what comes after the
production. In whatever order such steps are taken, they lead to the same sets.
-/

set_option autoImplicit false

namespace SlrKit

namespace Grammar

/-- The token comes right after the rule in what some rule produces; the end of the input comes after
what the start rule produces. -/
inductive ComesAfter (grammar : Grammar) (rule : Nat) : Nat → Prop
  | token {other terminal : Nat} {front back : List Symbol} (bound : other < grammar.ruleCount)
      (produces : grammar.Produces [.rule other]
        (front ++ .rule rule :: .token terminal :: back)) : ComesAfter grammar rule terminal
  | ending {front : List Symbol}
      (produces : grammar.Produces [.rule startRule] (front ++ [.rule rule])) :
      ComesAfter grammar rule grammar.endToken

end Grammar

theorem split_of_append {left right front back : List Symbol} {symbol : Symbol}
    (same : left ++ right = front ++ symbol :: back) :
    (∃ between, left = front ++ symbol :: between ∧ back = between ++ right) ∨
      ∃ between, front = left ++ between ∧ right = between ++ symbol :: back := by
  rcases List.append_eq_append_iff.mp same with ⟨between, split, rest⟩ | ⟨between, split, rest⟩
  · exact Or.inr ⟨between, split, rest⟩
  · cases between with
    | nil =>
        rw [List.append_nil] at split
        exact Or.inr ⟨[], by rw [split, List.append_nil], rest.symm⟩
    | cons first between =>
        cases rest
        exact Or.inl ⟨between, split, rfl⟩

namespace Follows

variable {grammar : Grammar} {follows next : Follows}

theorem contains_contribution_iff (firsts : Firsts) (rule : Nat) (rest : List Symbol)
    (follows : Follows) (token : Nat) :
    (contribution firsts rule rest follows).contains token = true ↔
      (firsts.ofSymbols rest).1.contains token = true ∨
        (firsts.ofSymbols rest).2 = true ∧ (follows.ofRule rule).contains token = true := by
  unfold contribution
  split <;> simp_all

/-! ## Steps -/

/-- A rule in a production gains what the production says about it. -/
inductive Gains (grammar : Grammar) : Follows → Follows → Prop
  | gain {production inner : Nat} {front back : List Symbol} (follows : Follows)
      (split : grammar.symbols production = front ++ .rule inner :: back) :
      Gains grammar follows
        (addAfter (Firsts.ofGrammar grammar) (grammar.ruleOf production) inner back follows)

/-- The sets come from those in which nothing is known, by such steps. -/
def Gained (grammar : Grammar) : Follows → Prop :=
  Relation.ReflTransGen (Gains grammar) (initial grammar)

theorem Gained.add_symbols (gained : Gained grammar follows) {production : Nat}
    {front back : List Symbol} (split : grammar.symbols production = front ++ back) :
    Gained grammar
      (addSymbols (Firsts.ofGrammar grammar) (grammar.ruleOf production) back follows) := by
  induction back generalizing front follows with
  | nil => exact gained
  | cons symbol rest ih =>
      have later : grammar.symbols production = front ++ [symbol] ++ rest := by
        rw [split, List.append_assoc, List.singleton_append]
      cases symbol with
      | token terminal => exact ih gained later
      | rule inner => exact ih (gained.tail (.gain follows split)) later

theorem Gained.round (gained : Gained grammar follows) :
    Gained grammar (round grammar (Firsts.ofGrammar grammar) follows) := by
  rw [round_eq_foldl]
  refine List.foldlRecOn grammar.productions.toList _ (motive := Gained grammar) gained ?_
  intro current reached production member
  obtain ⟨index, found⟩ := Grammar.exists_index member
  rw [← Grammar.rule_of_get found, ← Grammar.symbols_of_get found]
  exact reached.add_symbols (List.nil_append _).symm

theorem of_grammar_gained (grammar : Grammar) : Gained grammar (ofGrammar grammar) :=
  until_stable_keeps (Gained grammar) (fun _ gained => gained.round) _ _ .refl

theorem Gains.exists_step (wellFormed : grammar.WellFormed) (gains : Gains grammar follows next) :
    ∃ step, (facts grammar).Grows step ∧ next = step follows := by
  cases gains with
  | @gain production inner front back _ split =>
      have firstsWithin := (Firsts.of_grammar_fixed wellFormed).1
      have occur : ∀ symbol ∈ back, grammar.Occurs symbol := by
        intro symbol member
        apply wellFormed.symbolsOccur production
        rw [split]
        exact List.mem_append_right _ (List.mem_cons_of_mem _ member)
      exact ⟨_, add_after_grows firstsWithin _ inner back occur, rfl⟩

theorem Gains.within (wellFormed : grammar.WellFormed) (within : Within grammar follows)
    (gains : Gains grammar follows next) : Within grammar next := by
  obtain ⟨step, grows, rfl⟩ := gains.exists_step wellFormed
  exact (grows follows within).1

theorem Gained.within (wellFormed : grammar.WellFormed) (gained : Gained grammar follows) :
    Within grammar follows := by
  induction gained with
  | refl => exact initial_within wellFormed
  | tail _ gains ih => exact gains.within wellFormed ih

/-! ## Nothing is there without reason -/

/-- Every entry stands for something that comes after the rule. -/
def Sound (grammar : Grammar) (follows : Follows) : Prop :=
  ∀ rule token, (follows.ofRule rule).contains token = true → grammar.ComesAfter rule token

theorem produces_around {production inner : Nat} {front back rest : List Symbol}
    (split : grammar.symbols production = front ++ .rule inner :: back)
    (produces : grammar.Produces back rest) :
    grammar.Produces [.rule (grammar.ruleOf production)] (front ++ .rule inner :: rest) := by
  have bound : production < grammar.productionCount := by
    apply grammar.bound_of_symbols_ne_nil
    rw [split]
    simp
  have expands := Grammar.produces_symbols bound
  have framed := produces.frame (front ++ [.rule inner]) []
  rw [split] at expands
  simp only [List.append_nil, List.append_assoc, List.singleton_append] at framed
  exact expands.trans framed

theorem comes_after_of_first (wellFormed : grammar.WellFormed) {production inner token : Nat}
    {front back : List Symbol}
    (split : grammar.symbols production = front ++ .rule inner :: back)
    (first : ((Firsts.ofGrammar grammar).ofSymbols back).1.contains token = true) :
    grammar.ComesAfter inner token := by
  obtain ⟨rest, begins⟩ := (Firsts.of_grammar_sound wellFormed).of_symbols_first back token first
  exact .token (wellFormed.ruleBound production) (produces_around split begins)

theorem comes_after_of_empty (wellFormed : grammar.WellFormed)
    {production inner token : Nat} {front back : List Symbol}
    (split : grammar.symbols production = front ++ .rule inner :: back)
    (empty : ((Firsts.ofGrammar grammar).ofSymbols back).2 = true)
    (after : grammar.ComesAfter (grammar.ruleOf production) token) :
    grammar.ComesAfter inner token := by
  have vanishes := (Firsts.of_grammar_sound wellFormed).of_symbols_empty back empty
  have expands := produces_around split vanishes
  cases after with
  | @token other terminal before later otherBound produces =>
      have framed := expands.frame before (.token token :: later)
      simp only [List.append_assoc, List.singleton_append] at framed
      have produced := produces.trans framed
      rw [← List.append_assoc] at produced
      exact .token otherBound produced
  | @ending before produces =>
      have framed := expands.frame before []
      simp only [List.append_nil] at framed
      have produced := produces.trans framed
      rw [← List.append_assoc] at produced
      exact .ending produced

theorem Gains.sound (wellFormed : grammar.WellFormed) (sound : Sound grammar follows)
    (gains : Gains grammar follows next) : Sound grammar next := by
  cases gains with
  | @gain production inner front back _ split =>
      intro rule token held
      have modified := contains_modify_iff follows.tokens inner rule token
        (contribution (Firsts.ofGrammar grammar) (grammar.ruleOf production) back follows)
      rcases modified.mp held with old | ⟨same, _, added⟩
      · exact sound rule token old
      · rw [← same]
        rcases (contains_contribution_iff _ _ _ _ _).mp added with first | ⟨empty, after⟩
        · exact comes_after_of_first wellFormed split first
        · exact comes_after_of_empty wellFormed split empty (sound _ token after)

theorem Gained.sound (wellFormed : grammar.WellFormed) (gained : Gained grammar follows) :
    Sound grammar follows := by
  induction gained with
  | refl =>
      intro rule token held
      obtain ⟨sameRule, sameToken⟩ := (contains_initial_iff wellFormed rule token).mp held
      rw [sameRule, sameToken]
      exact @Grammar.ComesAfter.ending grammar _ [] .refl
  | tail _ gains ih => exact gains.sound wellFormed ih

/-! ## Nothing is missing -/

/-- The sets hold whatever the row says about the rules in it, if it stands for the rule `outer`. -/
def Heeds (grammar : Grammar) (follows : Follows) (outer : Nat) (row : List Symbol) : Prop :=
  ∀ front inner back, row = front ++ .rule inner :: back → ∀ token,
    (contribution (Firsts.ofGrammar grammar) outer back follows).contains token = true →
      (follows.ofRule inner).contains token = true

/-- The sets heed every production. -/
structure Closed (grammar : Grammar) (follows : Follows) : Prop where
  ending : (follows.ofRule Grammar.startRule).contains grammar.endToken = true
  heeds : ∀ production, Heeds grammar follows (grammar.ruleOf production) (grammar.symbols production)

theorem Heeds.rewrites (wellFormed : grammar.WellFormed) (closed : Closed grammar follows)
    {outer : Nat} {left right : List Symbol} (heeds : Heeds grammar follows outer left)
    (rewrites : grammar.Rewrites left right) : Heeds grammar follows outer right := by
  cases rewrites with
  | @replace before behind production bound =>
      intro front inner back split token held
      rcases split_of_append split with ⟨between, inFront, rfl⟩ | ⟨between, rfl, inBack⟩
      · rcases split_of_append inFront with ⟨tail, rfl, rfl⟩ | ⟨head, rfl, inside⟩
        · -- The rule stands before the one that is replaced: less can come after it than before.
          have allows := (Firsts.allows_symbols wellFormed bound).frame tail behind
          apply heeds front inner (tail ++ .rule (grammar.ruleOf production) :: behind) (by simp)
          rw [contains_contribution_iff] at held ⊢
          simp only [List.append_assoc, List.singleton_append] at allows held
          exact held.imp (allows.tokens token) (And.imp_left allows.empty)
        · -- It has come with the production.
          have own := closed.heeds production head inner between inside token
          have around := heeds before (grammar.ruleOf production) behind rfl token
          rw [contains_contribution_iff] at own around held
          rw [Firsts.first_of_append_iff, Firsts.empty_of_append_iff] at held
          tauto
      · -- It stands behind: what comes after it is the same.
        apply heeds (before ++ .rule (grammar.ruleOf production) :: between) inner back _ token held
        rw [inBack]
        simp

theorem Heeds.produces (wellFormed : grammar.WellFormed) (closed : Closed grammar follows)
    {outer : Nat} {row : List Symbol} (produces : grammar.Produces [.rule outer] row) :
    Heeds grammar follows outer row := by
  induction produces with
  | refl =>
      intro front inner back split token held
      have alone : front = [] ∧ inner = outer ∧ back = [] := by
        cases front with
        | nil =>
            cases split
            exact ⟨rfl, rfl, rfl⟩
        | cons first rest => simp at split
      rw [contains_contribution_iff, alone.2.2] at held
      rw [alone.2.1]
      simpa [Firsts.ofSymbols] using held
  | tail _ rewrites ih => exact ih.rewrites wellFormed closed rewrites

theorem Closed.contains (wellFormed : grammar.WellFormed) (closed : Closed grammar follows)
    {rule token : Nat} (after : grammar.ComesAfter rule token) :
    (follows.ofRule rule).contains token = true := by
  cases after with
  | @token other terminal front back _ produces =>
      apply Heeds.produces wellFormed closed produces front rule (.token token :: back) rfl
      rw [contains_contribution_iff]
      exact Or.inl (by simp [Firsts.ofSymbols])
  | @ending front produces =>
      apply Heeds.produces wellFormed closed produces front rule [] rfl
      rw [contains_contribution_iff]
      exact Or.inr ⟨rfl, closed.ending⟩

theorem of_grammar_closed_sets (wellFormed : grammar.WellFormed) :
    Closed grammar (ofGrammar grammar) where
  ending := (of_grammar_fixed wellFormed).2.1
  heeds := by
    intro production front inner back split token held
    apply of_grammar_closed wellFormed production inner front back split token
    exact (contains_contribution_iff _ _ _ _ _).mp held

/-! ## Order -/

theorem Gained.ending (wellFormed : grammar.WellFormed) (gained : Gained grammar follows) :
    (follows.ofRule Grammar.startRule).contains grammar.endToken = true := by
  induction gained with
  | refl => exact (contains_initial_iff wellFormed _ _).mpr ⟨rfl, rfl⟩
  | tail _ gains ih =>
      cases gains with
      | gain split => exact (contains_modify_iff _ _ _ _ _).mpr (Or.inl ih)

theorem Gained.closed_of_still (wellFormed : grammar.WellFormed) (gained : Gained grammar follows)
    (still : ∀ next, Gains grammar follows next → next = follows) : Closed grammar follows where
  ending := gained.ending wellFormed
  heeds := by
    intro production front inner back split token held
    have occurs : grammar.Occurs (.rule inner) := by
      apply wellFormed.symbolsOccur production
      rw [split]
      simp
    have bound : inner < follows.tokens.size := by
      rw [(gained.within wellFormed).size]
      exact occurs.2
    have same := still _ (.gain follows split)
    rw [← same]
    exact (contains_modify_iff _ _ _ _ _).mpr (Or.inr ⟨rfl, bound, held⟩)

/-- The steps can be taken in any order: once none of them changes anything, the sets are those of
the grammar. -/
theorem Gained.eq_of_grammar (wellFormed : grammar.WellFormed) (gained : Gained grammar follows)
    (still : ∀ next, Gains grammar follows next → next = follows) : follows = ofGrammar grammar := by
  have closed := gained.closed_of_still wellFormed still
  apply (facts grammar).ext _ _ (gained.within wellFormed)
    ((of_grammar_gained grammar).within wellFormed)
  intro fact
  constructor
  · intro held
    exact (of_grammar_closed_sets wellFormed).contains wellFormed
      (gained.sound wellFormed fact.1 fact.2 held)
  · intro held
    exact closed.contains wellFormed
      ((of_grammar_gained grammar).sound wellFormed fact.1 fact.2 held)

/-- Steps that change something cannot be taken for ever. -/
theorem changes_well_founded (wellFormed : grammar.WellFormed) :
    WellFounded fun next follows =>
      Gained grammar follows ∧ Gains grammar follows next ∧ next ≠ follows := by
  -- Every change adds to the facts that are known, and there are only so many.
  refine Subrelation.wf ?_ (measure fun follows =>
    (allFacts grammar).card - ((facts grammar).known (allFacts grammar) follows).card).wf
  intro next follows change
  obtain ⟨gained, gains, changed⟩ := change
  have within := gained.within wellFormed
  obtain ⟨step, grows, rfl⟩ := gains.exists_step wellFormed
  have more := grows.known_lt (allFacts grammar) holds_mem_all_facts follows within changed
  have few : ((facts grammar).known (allFacts grammar) (step follows)).card ≤
      (allFacts grammar).card := by
    apply Finset.card_le_card
    intro fact member
    exact ((Facts.mem_known _ _ fact).mp member).1
  exact Nat.sub_lt_sub_left (Nat.lt_of_lt_of_le more few) more

theorem of_grammar_contains_iff (wellFormed : grammar.WellFormed) (rule token : Nat) :
    ((ofGrammar grammar).ofRule rule).contains token = true ↔ grammar.ComesAfter rule token :=
  ⟨(of_grammar_gained grammar).sound wellFormed rule token,
    (of_grammar_closed_sets wellFormed).contains wellFormed⟩

theorem token_bound_of_produces (wellFormed : grammar.WellFormed) {rule : Nat}
    {row : List Symbol} (produces : grammar.Produces [.rule rule] row) (token : Nat)
    (member : .token token ∈ row) : token < grammar.endToken := by
  induction produces with
  | refl => simp at member
  | tail _ rewrites ih =>
      cases rewrites with
      | @replace front back production _ =>
          simp only [List.mem_append, List.mem_cons, reduceCtorEq, false_or] at member ih
          rcases member with (before | inside) | behind
          · exact ih (Or.inl before)
          · exact wellFormed.symbolsOccur production _ inside
          · exact ih (Or.inr behind)

/-- The rounds come to an end, and what they end in says exactly which named tokens come right after a
rule in anything that any rule produces, and which rules stand last in what the start rule produces. The
steps of the rounds can be taken in any other order: they come to an end, and to the same sets. -/
theorem follow_sets_are_exact {α π : Type} (width : IndexWidth) (declarations : Declarations α π)
    (grammar : Grammar) (compiled : Grammar.compile width declarations = .ok grammar) :
    Settles (round grammar (Firsts.ofGrammar grammar)) (initial grammar) (ofGrammar grammar) ∧
      (∀ rule terminal, terminal < grammar.endToken →
        (((ofGrammar grammar).ofRule rule).contains terminal = true ↔
          ∃ other front back, other < grammar.ruleCount ∧
            grammar.Produces [.rule other] (front ++ .rule rule :: .token terminal :: back))) ∧
      (∀ rule, ((ofGrammar grammar).ofRule rule).contains grammar.endToken = true ↔
        ∃ front, grammar.Produces [.rule Grammar.startRule] (front ++ [.rule rule])) ∧
      (WellFounded fun next follows =>
        Gained grammar follows ∧ Gains grammar follows next ∧ next ≠ follows) ∧
      ∀ follows, Gained grammar follows → (∀ next, Gains grammar follows next → next = follows) →
        follows = ofGrammar grammar := by
  have wellFormed := Grammar.compile_well_formed width declarations grammar compiled
  obtain ⟨_, _, fixed⟩ := of_grammar_fixed wellFormed
  refine ⟨settles_until_stable _ _ fixed, ?_, ?_, changes_well_founded wellFormed, ?_⟩
  · intro rule terminal named
    rw [of_grammar_contains_iff wellFormed]
    constructor
    · intro after
      cases after with
      | token bound produces => exact ⟨_, _, _, bound, produces⟩
      | ending produces => exact absurd named (Nat.lt_irrefl _)
    · intro produced
      obtain ⟨other, front, back, bound, produces⟩ := produced
      exact .token bound produces
  · intro rule
    rw [of_grammar_contains_iff wellFormed]
    constructor
    · intro after
      generalize last : grammar.endToken = token at after
      cases after with
      | token bound produces =>
          have inside := token_bound_of_produces wellFormed produces token (by simp)
          exact absurd last (Nat.ne_of_gt inside)
      | ending produces => exact ⟨_, produces⟩
    · intro produced
      obtain ⟨front, produces⟩ := produced
      exact .ending produces
  · intro follows gained still
    exact gained.eq_of_grammar wellFormed still

end Follows

namespace Marks

/-- A sign comes after a word only in what the lost rule produces; the end comes after words, not
after signs. -/
theorem sign_after_lost_word : Grammar.compile .bits32 declarations = .ok grammar ∧
    (∃ other front back, other < grammar.ruleCount ∧
      grammar.Produces [.rule other] (front ++ .rule 1 :: .token 0 :: back)) ∧
    (∃ front, grammar.Produces [.rule Grammar.startRule] (front ++ [.rule 1])) ∧
    ¬ ∃ front, grammar.Produces [.rule Grammar.startRule] (front ++ [.rule 2]) := by
  obtain ⟨_, named, ending, _⟩ :=
    Follows.follow_sets_are_exact .bits32 declarations grammar compiled
  refine ⟨compiled, (named 1 0 (by decide)).mp (by decide +kernel),
    (ending 1).mp (by decide +kernel), ?_⟩
  rw [← ending 2]
  decide +kernel

end Marks

end SlrKit
