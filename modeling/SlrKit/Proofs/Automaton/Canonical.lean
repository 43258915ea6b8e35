import SlrKit.Proofs.Automaton.Exploration

/-!
# The canonical collection

The state graph of a grammar is the canonical collection of its item sets: the states are the
closures of the kernels that the start item leads to, every kernel belongs to one state, and an
edge over a symbol advances all items that have it after the dot.
-/

set_option autoImplicit false

namespace SlrKit

namespace StateGraph

/-- The state that the edges over a row of symbols lead to. -/
def walk? (graph : StateGraph) : Nat → List Symbol → Option Nat
  | state, [] => some state
  | state, symbol :: rest => (graph.edge? state symbol).bind fun target => graph.walk? target rest

theorem walk_append (graph : StateGraph) (state : Nat) (front back : List Symbol) :
    graph.walk? state (front ++ back) =
      (graph.walk? state front).bind fun target => graph.walk? target back := by
  induction front generalizing state with
  | nil => rfl
  | cons symbol rest ih =>
      simp only [List.cons_append, walk?, Option.bind_assoc]
      congr 1
      funext target
      exact ih target

theorem walk_snoc (graph : StateGraph) (state : Nat) (front : List Symbol) (symbol : Symbol) :
    graph.walk? state (front ++ [symbol]) =
      (graph.walk? state front).bind fun target => graph.edge? target symbol := by
  rw [walk_append]
  congr 1
  funext target
  rw [walk?]
  exact Option.bind_fun_some _

/-- The states of the graph are the closed item sets of the grammar. -/
structure IsCanonical (grammar : Grammar) (graph : StateGraph) : Prop where
  startKernel : graph.kernel startState = [Item.start grammar]
  distinct : ∀ left right, left < graph.stateCount → right < graph.stateCount →
    (∀ item, item ∈ graph.kernel left ↔ item ∈ graph.kernel right) → left = right
  reached : ∀ state, state < graph.stateCount →
    ∃ symbols, graph.walk? startState symbols = some state
  closure : ∀ state item,
    item ∈ graph.closed state ↔ ItemSet.Closure grammar (graph.kernel state) item
  edge : ∀ state symbol, (∃ target, graph.edge? state symbol = some target) ↔
    ∃ item ∈ graph.closed state, item.next? grammar = some symbol
  target : ∀ state symbol target, graph.edge? state symbol = some target →
    target < graph.stateCount ∧ ∀ item, item ∈ graph.kernel target ↔
      ∃ earlier ∈ graph.closed state, earlier.next? grammar = some symbol ∧
        item = earlier.advance

theorem kernel_of_get (graph : StateGraph) (number : Nat) (state : GraphState)
    (found : graph.states[number]? = some state) : graph.kernel number = state.kernel := by
  rw [kernel, found]

theorem closed_of_get (graph : StateGraph) (number : Nat) (state : GraphState)
    (found : graph.states[number]? = some state) : graph.closed number = state.closed := by
  rw [closed, found]

theorem edge_of_get (graph : StateGraph) (number : Nat) (state : GraphState)
    (found : graph.states[number]? = some state) (symbol : Symbol) :
    graph.edge? number symbol = state.edges.lookup symbol := by
  rw [edge?, edges, found]

theorem kernel_of_kernel_at (graph : StateGraph) (number : Nat) (kernel : ItemSet)
    (found : kernelAt? graph.states number = some kernel) : graph.kernel number = kernel := by
  obtain ⟨state, at_number, own⟩ := Option.map_eq_some_iff.mp found
  rw [kernel_of_get graph number state at_number, own]

theorem not_closure_nil (grammar : Grammar) (item : Item) :
    ¬ItemSet.Closure grammar [] item := by
  intro held
  induction held with
  | given member => cases member
  | expand _ _ _ ih => exact ih

variable {grammar : Grammar} {graph : StateGraph}

theorem reached_of_explored (explored : Explored grammar graph.states.size graph.states)
    (state : Nat) (bound : state < graph.stateCount) :
    ∃ symbols, graph.walk? startState symbols = some state := by
  induction state using Nat.strongRecOn with
  | ind state ih =>
      by_cases first : state = startState
      · exact ⟨[], by rw [first, walk?]⟩
      · obtain ⟨earlier, found, symbol, before, done, at_earlier, edge⟩ :=
          explored.reached state (Nat.pos_of_ne_zero first) bound
        obtain ⟨symbols, leads⟩ := ih earlier before done
        refine ⟨symbols ++ [symbol], ?_⟩
        rw [walk_snoc, leads, Option.bind_some, edge_of_get graph earlier found at_earlier]
        exact edge

theorem is_canonical_of_explored (explored : Explored grammar graph.states.size graph.states) :
    IsCanonical grammar graph where
  startKernel := kernel_of_kernel_at graph _ _ explored.start
  distinct := by
    intro left right leftBound rightBound same
    have leftFound : kernelAt? graph.states left = some graph.states[left].kernel := by
      rw [kernelAt?, Array.getElem?_eq_getElem leftBound, Option.map_some]
    have rightFound : kernelAt? graph.states right = some graph.states[right].kernel := by
      rw [kernelAt?, Array.getElem?_eq_getElem rightBound, Option.map_some]
    rw [kernel_of_kernel_at graph left _ leftFound,
      kernel_of_kernel_at graph right _ rightFound] at same
    have equal := ItemSet.InOrder.ext (explored.collected.kernels left _ leftFound).inOrder
      (explored.collected.kernels right _ rightFound).inOrder same
    rw [← equal] at rightFound
    exact explored.collected.distinct left right _ leftFound rightFound
  reached := reached_of_explored explored
  closure := by
    intro state item
    cases found : graph.states[state]? with
    | none =>
        rw [closed, kernel, found]
        constructor
        · intro member
          cases member
        · intro held
          exact absurd held (not_closure_nil grammar item)
    | some own =>
        rw [closed_of_get graph state own found, kernel_of_get graph state own found,
          explored.collected.closures state own found]
        exact ItemSet.mem_close grammar own.kernel item
  edge := by
    intro state symbol
    rw [← ItemSet.mem_next_symbols grammar (graph.closed state) symbol]
    cases found : graph.states[state]? with
    | none =>
        rw [edge?, edges, closed, found]
        simp [ItemSet.nextSymbols]
    | some own =>
        have bound := (Array.getElem?_eq_some_iff.mp found).1
        have connected := explored.connected state own bound found
        rw [edge_of_get graph state own found, closed_of_get graph state own found]
        constructor
        · rintro ⟨target, edge⟩
          exact (connected.sound symbol target edge).1
        · exact connected.complete symbol
  target := by
    intro state symbol target edge
    cases found : graph.states[state]? with
    | none =>
        rw [edge?, edges, found] at edge
        cases edge
    | some own =>
        have bound := (Array.getElem?_eq_some_iff.mp found).1
        rw [edge_of_get graph state own found] at edge
        have leads := ((explored.connected state own bound found).sound symbol target edge).2
        refine ⟨kernel_at_bound graph.states target _ leads, ?_⟩
        rw [kernel_of_kernel_at graph target _ leads, closed_of_get graph state own found]
        exact ItemSet.mem_goto grammar symbol own.closed

theorem of_grammar_explored (grammar : Grammar) (nonempty : 0 < grammar.productionCount) :
    Explored grammar (ofGrammar grammar).states.size (ofGrammar grammar).states ∧
      ∀ more, 2 ^ itemCount grammar + 1 ≤ more →
        explore grammar more 0 #[newState grammar [Item.start grammar]] =
          (ofGrammar grammar).states :=
  explore_spec (2 ^ itemCount grammar + 1) 0 _ (explored_initial nonempty) (by omega)

theorem of_grammar_is_canonical (grammar : Grammar) (nonempty : 0 < grammar.productionCount) :
    IsCanonical grammar (ofGrammar grammar) :=
  is_canonical_of_explored (of_grammar_explored grammar nonempty).1

theorem of_grammar_closed_nodup (grammar : Grammar) (nonempty : 0 < grammar.productionCount)
    (state : Nat) : ((ofGrammar grammar).closed state).Nodup := by
  have collected := (of_grammar_explored grammar nonempty).1.collected
  cases found : (ofGrammar grammar).states[state]? with
  | none =>
      rw [closed, found]
      exact List.nodup_nil
  | some own =>
      rw [closed_of_get _ state own found, collected.closures state own found]
      apply ItemSet.close_nodup
      apply (collected.kernels state own.kernel _).inOrder.distinct
      rw [kernelAt?, found, Option.map_some]

end StateGraph

end SlrKit
