import SlrKit.Proofs.Automaton.Canonical

/-!
# The item automaton

The item automaton starts at the start item; it moves over the symbol after the dot, and where
that is a rule it may also go to any production of the rule without reading anything. The state
graph is its deterministic form: the state reached over a row of symbols holds exactly the items
in which the runs over that row end.
-/

set_option autoImplicit false

namespace SlrKit

/-- Some run of the item automaton over the symbols ends in the item. -/
inductive Item.Reached (grammar : Grammar) : List Symbol → Item → Prop
  | start : Item.Reached grammar [] (Item.start grammar)
  | move {symbols : List Symbol} {item : Item} {symbol : Symbol}
      (before : Item.Reached grammar symbols item) (next : item.next? grammar = some symbol) :
      Item.Reached grammar (symbols ++ [symbol]) item.advance
  | expand {symbols : List Symbol} {item : Item} {rule production : Nat}
      (before : Item.Reached grammar symbols item)
      (next : item.next? grammar = some (.rule rule))
      (produces : production ∈ grammar.productionsOf rule) :
      Item.Reached grammar symbols ⟨production, 0⟩

namespace StateGraph

variable {grammar : Grammar} {graph : StateGraph}

theorem reached_of_closure {kernel : ItemSet} {symbols : List Symbol}
    (reached : ∀ item ∈ kernel, Item.Reached grammar symbols item) (item : Item)
    (held : ItemSet.Closure grammar kernel item) : Item.Reached grammar symbols item := by
  induction held with
  | given member => exact reached _ member
  | expand _ next produces ih => exact .expand ih next produces

theorem reached_nil_iff (item : Item) :
    Item.Reached grammar [] item ↔ ItemSet.Closure grammar [Item.start grammar] item := by
  constructor
  · intro reached
    generalize nothing : ([] : List Symbol) = symbols at reached
    induction reached with
    | start => exact .given List.mem_cons_self
    | move _ _ _ => simp at nothing
    | expand _ next produces ih => exact .expand (ih nothing) next produces
  · apply reached_of_closure
    intro start member
    rw [List.mem_singleton.mp member]
    exact .start

/-- A run over one more symbol moves over it last and then only expands rules. -/
theorem reached_snoc_iff {kernel : ItemSet} {symbols : List Symbol} {symbol : Symbol}
    (moved : ∀ item, item ∈ kernel ↔ ∃ earlier, Item.Reached grammar symbols earlier ∧
      earlier.next? grammar = some symbol ∧ item = earlier.advance) (item : Item) :
    Item.Reached grammar (symbols ++ [symbol]) item ↔ ItemSet.Closure grammar kernel item := by
  constructor
  · intro reached
    generalize whole : symbols ++ [symbol] = all at reached
    induction reached with
    | start => simp at whole
    | move before next _ =>
        obtain ⟨front, last⟩ := List.append_inj' whole rfl
        rw [← front] at before
        rw [← List.singleton_inj.mp last] at next
        exact .given ((moved _).mpr ⟨_, before, next, rfl⟩)
    | expand _ next produces ih => exact .expand (ih whole) next produces
  · apply reached_of_closure
    intro start member
    obtain ⟨earlier, before, next, same⟩ := (moved start).mp member
    rw [same]
    exact .move before next

/-- The state at the end of a walk holds what the runs over the same symbols reach. -/
theorem IsCanonical.mem_closed_iff (canonical : IsCanonical grammar graph)
    (symbols : List Symbol) (state : Nat) (walk : graph.walk? startState symbols = some state)
    (item : Item) : item ∈ graph.closed state ↔ Item.Reached grammar symbols item := by
  induction symbols using List.reverseRecOn generalizing state item with
  | nil =>
      cases walk
      rw [canonical.closure, canonical.startKernel, reached_nil_iff]
  | append_singleton symbols symbol ih =>
      rw [walk_snoc] at walk
      obtain ⟨before, front, edge⟩ := Option.bind_eq_some_iff.mp walk
      rw [canonical.closure]
      apply (reached_snoc_iff _ item).symm
      intro moved
      rw [(canonical.target before symbol state edge).2]
      constructor
      · rintro ⟨earlier, member, next, same⟩
        exact ⟨earlier, (ih before front earlier).mp member, next, same⟩
      · rintro ⟨earlier, reached, next, same⟩
        exact ⟨earlier, (ih before front earlier).mpr reached, next, same⟩

theorem reached_front {symbols : List Symbol} {symbol : Symbol} {item : Item}
    (reached : Item.Reached grammar (symbols ++ [symbol]) item) :
    ∃ earlier, Item.Reached grammar symbols earlier ∧
      earlier.next? grammar = some symbol := by
  generalize whole : symbols ++ [symbol] = all at reached
  induction reached with
  | start => simp at whole
  | move before next _ =>
      obtain ⟨front, last⟩ := List.append_inj' whole rfl
      rw [← front] at before
      rw [← List.singleton_inj.mp last] at next
      exact ⟨_, before, next⟩
  | expand _ _ _ ih => exact ih whole

theorem IsCanonical.walk_iff (canonical : IsCanonical grammar graph) (symbols : List Symbol) :
    (∃ state, graph.walk? startState symbols = some state) ↔
      ∃ item, Item.Reached grammar symbols item := by
  induction symbols using List.reverseRecOn with
  | nil =>
      constructor
      · intro _
        exact ⟨_, .start⟩
      · intro _
        exact ⟨startState, rfl⟩
  | append_singleton symbols symbol ih =>
      constructor
      · rintro ⟨state, walk⟩
        rw [walk_snoc] at walk
        obtain ⟨before, front, edge⟩ := Option.bind_eq_some_iff.mp walk
        obtain ⟨item, member, next⟩ := (canonical.edge before symbol).mp ⟨state, edge⟩
        exact ⟨_, .move ((canonical.mem_closed_iff symbols before front item).mp member) next⟩
      · rintro ⟨item, reached⟩
        obtain ⟨earlier, before, next⟩ := reached_front reached
        obtain ⟨state, front⟩ := ih.mpr ⟨earlier, before⟩
        have member := (canonical.mem_closed_iff symbols state front earlier).mpr before
        obtain ⟨target, edge⟩ := (canonical.edge state symbol).mpr ⟨earlier, member, next⟩
        refine ⟨target, ?_⟩
        rw [walk_snoc, front, Option.bind_some, edge]

/-- The exploration of a compiled grammar ends by itself: a larger bound yields the same graph.
That graph is the canonical collection, and the deterministic form of the item automaton. -/
theorem state_graph_is_canonical_collection {α π : Type} (width : IndexWidth)
    (declarations : Declarations α π) (grammar : Grammar)
    (compiled : Grammar.compile width declarations = .ok grammar) :
    (∀ bound, 2 ^ itemCount grammar + 1 ≤ bound →
        explore grammar bound 0 #[newState grammar [Item.start grammar]] =
          (ofGrammar grammar).states) ∧
      IsCanonical grammar (ofGrammar grammar) ∧
      ∀ symbols,
        ((∃ state, (ofGrammar grammar).walk? startState symbols = some state) ↔
          ∃ item, Item.Reached grammar symbols item) ∧
        ∀ state, (ofGrammar grammar).walk? startState symbols = some state →
          ∀ item, item ∈ (ofGrammar grammar).closed state ↔
            Item.Reached grammar symbols item := by
  have nonempty := (Grammar.compile_well_formed width declarations grammar compiled).nonempty
  have canonical := of_grammar_is_canonical grammar nonempty
  refine ⟨(of_grammar_explored grammar nonempty).2, canonical, ?_⟩
  intro symbols
  exact ⟨canonical.walk_iff symbols, canonical.mem_closed_iff symbols⟩

/-- After a sum and its sign, the sign is before the dot. -/
theorem sign_before_dot_of_sums :
    ∃ state, (ofGrammar Sums.grammar).walk? startState [.rule 1, .token 0] = some state ∧
      ⟨0, 2⟩ ∈ (ofGrammar Sums.grammar).closed state := by
  rcases state_graph_is_canonical_collection .bits32 Sums.declarations Sums.grammar
    Sums.compiled with ⟨_, _, automaton⟩
  have begins : Item.Reached Sums.grammar [] ⟨0, 0⟩ := .expand .start rfl (by decide)
  have reached : Item.Reached Sums.grammar [.rule 1, .token 0] ⟨0, 2⟩ :=
    .move (.move begins rfl) rfl
  rcases (automaton _).1.mpr ⟨_, reached⟩ with ⟨state, walk⟩
  exact ⟨state, walk, ((automaton _).2 state walk _).mpr reached⟩

end StateGraph

end SlrKit
