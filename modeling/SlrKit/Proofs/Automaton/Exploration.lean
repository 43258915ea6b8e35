import SlrKit.Automaton.Graph
import SlrKit.Proofs.Automaton.Closure

/-!
# The exploration of the state graph

The states found so far have different kernels, all written in one order, and the states before
the one at work have all their edges. As a kernel is a set of items of the grammar, only
finitely many states can be found, and the exploration stops before its bound.
-/

set_option autoImplicit false

namespace SlrKit

/-- The production exists and the dot lies within it. -/
def Item.Valid (grammar : Grammar) (item : Item) : Prop :=
  item.production < grammar.productionCount ∧
    item.dot ≤ (grammar.symbols item.production).length

theorem Item.start_valid (grammar : Grammar) (nonempty : 0 < grammar.productionCount) :
    (Item.start grammar).Valid grammar :=
  ⟨Nat.sub_lt nonempty Nat.one_pos, Nat.zero_le _⟩

theorem Item.advance_valid (grammar : Grammar) (item : Item) (symbol : Symbol)
    (next : item.next? grammar = some symbol) : item.advance.Valid grammar := by
  obtain ⟨bound, _⟩ := (next_eq_some_iff grammar item symbol).mp next
  exact ⟨bound_of_next grammar item symbol next, bound⟩

namespace StateGraph

variable (grammar : Grammar)

/-- A kernel as the exploration writes it. -/
structure IsKernel (kernel : ItemSet) : Prop where
  inOrder : ItemSet.InOrder kernel
  valid : ∀ item ∈ kernel, item.Valid grammar

theorem start_is_kernel (nonempty : 0 < grammar.productionCount) :
    IsKernel grammar [Item.start grammar] where
  inOrder := ItemSet.in_order_singleton _
  valid := by
    intro item member
    rw [List.mem_singleton.mp member]
    exact Item.start_valid grammar nonempty

theorem goto_is_kernel (closed : ItemSet) (distinct : closed.Nodup) (symbol : Symbol) :
    IsKernel grammar (closed.goto grammar symbol) where
  inOrder := ItemSet.goto_in_order grammar symbol closed distinct
  valid := by
    intro item member
    obtain ⟨earlier, _, next, same⟩ := (ItemSet.mem_goto grammar symbol closed item).mp member
    rw [same]
    exact Item.advance_valid grammar earlier symbol next

/-- The kernel of a state of an array. -/
def kernelAt? (states : Array GraphState) (number : Nat) : Option ItemSet :=
  (states[number]?).map GraphState.kernel

theorem kernel_at_bound (states : Array GraphState) (number : Nat) (kernel : ItemSet)
    (found : kernelAt? states number = some kernel) : number < states.size := by
  obtain ⟨state, at_number, _⟩ := Option.map_eq_some_iff.mp found
  exact (Array.getElem?_eq_some_iff.mp at_number).1

/-- Different states with the kernels of the grammar, each with its closure. -/
structure Collected (states : Array GraphState) : Prop where
  kernels : ∀ number kernel, kernelAt? states number = some kernel → IsKernel grammar kernel
  distinct : ∀ left right kernel, kernelAt? states left = some kernel →
    kernelAt? states right = some kernel → left = right
  closures : ∀ (number : Nat) (state : GraphState), states[number]? = some state →
    state.closed = state.kernel.close grammar

/-- No state is lost or changed. -/
def Extends (states grown : Array GraphState) : Prop :=
  ∀ (number : Nat) (state : GraphState), states[number]? = some state → grown[number]? = some state

variable {grammar}

theorem Extends.refl (states : Array GraphState) : Extends states states :=
  fun _ _ found => found

theorem Extends.trans {first second third : Array GraphState} (left : Extends first second)
    (right : Extends second third) : Extends first third :=
  fun number state found => right number state (left number state found)

theorem Extends.kernel {states grown : Array GraphState} (larger : Extends states grown)
    (number : Nat) (kernel : ItemSet) (found : kernelAt? states number = some kernel) :
    kernelAt? grown number = some kernel := by
  obtain ⟨state, at_number, own⟩ := Option.map_eq_some_iff.mp found
  exact Option.map_eq_some_iff.mpr ⟨state, larger number state at_number, own⟩

theorem Extends.size_le {states grown : Array GraphState} (larger : Extends states grown) :
    states.size ≤ grown.size := by
  by_cases empty : states.size = 0
  · omega
  · have bound : states.size - 1 < states.size := by omega
    have last := larger _ _ (Array.getElem?_eq_getElem bound)
    have grownBound := (Array.getElem?_eq_some_iff.mp last).1
    omega

theorem extends_push (states : Array GraphState) (state : GraphState) :
    Extends states (states.push state) := by
  intro number found at_number
  have bound := (Array.getElem?_eq_some_iff.mp at_number).1
  rw [Array.getElem?_push, if_neg (Nat.ne_of_lt bound)]
  exact at_number

theorem kernel_at_push (states : Array GraphState) (state : GraphState) (number : Nat) :
    kernelAt? (states.push state) number =
      if number = states.size then some state.kernel else kernelAt? states number := by
  rw [kernelAt?, Array.getElem?_push]
  split
  · rfl
  · rfl

theorem Collected.push {states : Array GraphState} (collected : Collected grammar states)
    (kernel : ItemSet) (isKernel : IsKernel grammar kernel)
    (fresh : ∀ number, kernelAt? states number ≠ some kernel) :
    Collected grammar (states.push (newState grammar kernel)) where
  kernels := by
    intro number other found
    rw [kernel_at_push] at found
    split at found
    · cases found
      exact isKernel
    · exact collected.kernels number other found
  distinct := by
    intro left right other leftFound rightFound
    rw [kernel_at_push] at leftFound rightFound
    split at leftFound
    · cases leftFound
      split at rightFound
      · omega
      · exact absurd rightFound (fresh right)
    · split at rightFound
      · cases rightFound
        exact absurd leftFound (fresh left)
      · exact collected.distinct left right other leftFound rightFound
  closures := by
    intro number state found
    rw [Array.getElem?_push] at found
    split at found
    · cases found
      rfl
    · exact collected.closures number state found

/-- The number of a kernel, found or made, with the states that may have grown by it. -/
theorem locate_spec {states : Array GraphState} (collected : Collected grammar states)
    (kernel : ItemSet) (isKernel : IsKernel grammar kernel) :
    Collected grammar (locate grammar states kernel).2 ∧
      Extends states (locate grammar states kernel).2 ∧
      kernelAt? (locate grammar states kernel).2 (locate grammar states kernel).1 = some kernel ∧
      ∀ number, states.size ≤ number → number < (locate grammar states kernel).2.size →
        number = (locate grammar states kernel).1 := by
  unfold locate
  split
  · rename_i number located
    obtain ⟨bound, same, _⟩ := Array.findIdx?_eq_some_iff_getElem.mp located
    refine ⟨collected, Extends.refl states, ?_, ?_⟩
    · rw [kernelAt?, Array.getElem?_eq_getElem bound, Option.map_some]
      rw [beq_iff_eq.mp same]
    · intro other low high
      exact absurd high (Nat.not_lt.mpr low)
  · rename_i absent
    have fresh : ∀ number, kernelAt? states number ≠ some kernel := by
      intro number found
      obtain ⟨state, at_number, own⟩ := Option.map_eq_some_iff.mp found
      have member := Array.mem_of_getElem? at_number
      have differs := Array.findIdx?_eq_none_iff.mp absent state member
      simp [own] at differs
    refine ⟨collected.push kernel isKernel fresh, extends_push states _, ?_, ?_⟩
    · rw [kernel_at_push, if_pos rfl]
      rfl
    · intro number low high
      rw [Array.size_push] at high
      exact Nat.le_antisymm (by omega) low

/-- The edges lead over the symbols, and the states that were added are where some of them lead. -/
structure Attached (grammar : Grammar) (closed : ItemSet) (symbols : List Symbol)
    (states grown : Array GraphState) (edges : List (Symbol × Nat)) : Prop where
  collected : Collected grammar grown
  larger : Extends states grown
  symbols : edges.map Prod.fst = symbols
  targets : ∀ symbol target, (symbol, target) ∈ edges →
    kernelAt? grown target = some (closed.goto grammar symbol)
  new : ∀ number, states.size ≤ number → number < grown.size →
    ∃ symbol, (symbol, number) ∈ edges

theorem connect_attached {closed : ItemSet} (closedDistinct : closed.Nodup)
    (symbols : List Symbol) {states : Array GraphState} (collected : Collected grammar states) :
    Attached grammar closed symbols states (connect grammar closed symbols states).2
      (connect grammar closed symbols states).1 := by
  induction symbols generalizing states with
  | nil =>
      refine ⟨collected, Extends.refl states, rfl, ?_, ?_⟩
      · intro symbol target member
        cases member
      · intro number low high
        exact absurd high (Nat.not_lt.mpr low)
  | cons symbol rest ih =>
      have located := locate_spec collected (closed.goto grammar symbol)
        (goto_is_kernel grammar closed closedDistinct symbol)
      simp only [connect]
      generalize locate grammar states (closed.goto grammar symbol) = found at located ⊢
      obtain ⟨target, grown⟩ := found
      obtain ⟨grownCollected, larger, own, onlyTarget⟩ := located
      have others := ih grownCollected
      refine ⟨others.collected, larger.trans others.larger, ?_, ?_, ?_⟩
      · rw [List.map_cons, others.symbols]
      · intro other otherTarget member
        rcases List.mem_cons.mp member with same | later
        · cases same
          exact others.larger.kernel target _ own
        · exact others.targets other otherTarget later
      · intro number low high
        by_cases early : number < grown.size
        · rw [onlyTarget number low early]
          exact ⟨symbol, List.mem_cons_self⟩
        · obtain ⟨other, member⟩ := others.new number (Nat.not_lt.mp early) high
          exact ⟨other, List.mem_cons_of_mem _ member⟩

theorem mem_of_lookup {edges : List (Symbol × Nat)} {symbol : Symbol} {target : Nat}
    (found : edges.lookup symbol = some target) : (symbol, target) ∈ edges := by
  obtain ⟨front, back, split, _⟩ := List.lookup_eq_some_iff.mp found
  rw [split]
  exact List.mem_append_right _ List.mem_cons_self

theorem lookup_of_mem_symbols {edges : List (Symbol × Nat)} {symbol : Symbol}
    (member : symbol ∈ edges.map Prod.fst) : ∃ target, edges.lookup symbol = some target := by
  apply Option.isSome_iff_exists.mp
  obtain ⟨pair, inside, own⟩ := List.mem_map.mp member
  exact List.lookup_isSome_iff.mpr ⟨pair, inside, beq_iff_eq.mpr own.symm⟩

/-- The state has an edge over every symbol after a dot and no other, and each leads to the
kernel reached over its symbol. -/
structure Connected (grammar : Grammar) (states : Array GraphState) (state : GraphState) :
    Prop where
  complete : ∀ symbol ∈ state.closed.nextSymbols grammar,
    ∃ target, state.edges.lookup symbol = some target
  sound : ∀ symbol target, state.edges.lookup symbol = some target →
    symbol ∈ state.closed.nextSymbols grammar ∧
      kernelAt? states target = some (state.closed.goto grammar symbol)

/-- The states before number `next` have all their edges. -/
structure Explored (grammar : Grammar) (next : Nat) (states : Array GraphState) : Prop where
  collected : Collected grammar states
  bound : next ≤ states.size
  start : kernelAt? states startState = some [Item.start grammar]
  connected : ∀ (number : Nat) (state : GraphState), number < next →
    states[number]? = some state → Connected grammar states state
  reached : ∀ (number : Nat), 0 < number → number < states.size →
    ∃ (earlier : Nat) (state : GraphState) (symbol : Symbol), earlier < number ∧
      earlier < next ∧ states[earlier]? = some state ∧ state.edges.lookup symbol = some number

theorem explored_initial (nonempty : 0 < grammar.productionCount) :
    Explored grammar 0 #[newState grammar [Item.start grammar]] where
  collected := by
    have empty : Collected grammar #[] := by
      constructor
      · intro number kernel found
        cases found
      · intro left right kernel found
        cases found
      · intro number state found
        cases found
    exact empty.push [Item.start grammar] (start_is_kernel grammar nonempty)
      (fun number found => by cases found)
  bound := Nat.zero_le _
  start := rfl
  connected := by
    intro number state early
    exact absurd early (Nat.not_lt_zero number)
  reached := by
    intro number positive bound
    simp at bound
    omega

/-- The states with the edges of one of them entered. -/
def withEdges (states : Array GraphState) (number : Nat) (edges : List (Symbol × Nat)) :
    Array GraphState :=
  states.modify number fun found => { found with edges }

theorem with_edges_get (states : Array GraphState) (number other : Nat)
    (edges : List (Symbol × Nat)) :
    (withEdges states number edges)[other]? =
      if number = other then (states[other]?).map fun found => { found with edges }
      else states[other]? :=
  Array.getElem?_modify

theorem kernel_at_with_edges (states : Array GraphState) (number other : Nat)
    (edges : List (Symbol × Nat)) :
    kernelAt? (withEdges states number edges) other = kernelAt? states other := by
  rw [kernelAt?, kernelAt?, with_edges_get]
  split
  · rw [Option.map_map]
    rfl
  · rfl

theorem Collected.withEdges {states : Array GraphState} (collected : Collected grammar states)
    (number : Nat) (edges : List (Symbol × Nat)) :
    Collected grammar (withEdges states number edges) where
  kernels := by
    intro other kernel found
    rw [kernel_at_with_edges] at found
    exact collected.kernels other kernel found
  distinct := by
    intro left right kernel leftFound rightFound
    rw [kernel_at_with_edges] at leftFound rightFound
    exact collected.distinct left right kernel leftFound rightFound
  closures := by
    intro other state found
    rw [with_edges_get] at found
    split at found
    · obtain ⟨before, at_other, same⟩ := Option.map_eq_some_iff.mp found
      rw [← same]
      exact collected.closures other before at_other
    · exact collected.closures other state found

theorem Connected.mono {states grown : Array GraphState} {state : GraphState}
    (connected : Connected grammar states state)
    (keeps : ∀ number kernel, kernelAt? states number = some kernel →
      kernelAt? grown number = some kernel) :
    Connected grammar grown state where
  complete := connected.complete
  sound := by
    intro symbol target found
    obtain ⟨member, leads⟩ := connected.sound symbol target found
    exact ⟨member, keeps target _ leads⟩

section Attached

variable {states grown : Array GraphState} {state : GraphState} {edges : List (Symbol × Nat)}
  (attached : Attached grammar state.closed (state.closed.nextSymbols grammar) states grown edges)

include attached

theorem Attached.leads (symbol : Symbol) (target : Nat)
    (found : edges.lookup symbol = some target) :
    kernelAt? grown target = some (state.closed.goto grammar symbol) :=
  attached.targets symbol target (mem_of_lookup found)

theorem Attached.lookup_of_mem (symbol : Symbol) (target : Nat)
    (member : (symbol, target) ∈ edges) : edges.lookup symbol = some target := by
  rcases lookup_of_mem_symbols (List.mem_map.mpr ⟨_, member, rfl⟩) with ⟨found, lookup⟩
  have same := attached.collected.distinct found target _ (attached.leads symbol found lookup)
    (attached.targets symbol target member)
  rw [← same]
  exact lookup

theorem Attached.connected (number : Nat) :
    Connected grammar (withEdges grown number edges) { state with edges } where
  complete := by
    intro symbol member
    rw [← attached.symbols] at member
    exact lookup_of_mem_symbols member
  sound := by
    intro symbol target found
    constructor
    · rw [← attached.symbols]
      exact List.mem_map.mpr ⟨_, mem_of_lookup found, rfl⟩
    · rw [kernel_at_with_edges]
      exact attached.leads symbol target found

theorem Attached.get_other (number other : Nat) (found : GraphState) (differ : other ≠ number)
    (at_other : states[other]? = some found) :
    (withEdges grown number edges)[other]? = some found := by
  rw [with_edges_get, if_neg (Ne.symm differ)]
  exact attached.larger other found at_other

/-- Entering the edges of the next state keeps the invariant of the exploration. -/
theorem Explored.enter {next : Nat} (explored : Explored grammar next states)
    (at_next : states[next]? = some state) :
    Explored grammar (next + 1) (withEdges grown next edges) := by
  have nextBound : next < states.size := (Array.getElem?_eq_some_iff.mp at_next).1
  have keeps : ∀ number kernel, kernelAt? states number = some kernel →
      kernelAt? (withEdges grown next edges) number = some kernel := by
    intro number kernel found
    rw [kernel_at_with_edges]
    exact attached.larger.kernel number kernel found
  have entered : (withEdges grown next edges)[next]? = some { state with edges } := by
    rw [with_edges_get, if_pos rfl, attached.larger next state at_next, Option.map_some]
  have sizeSame : (withEdges grown next edges).size = grown.size := Array.size_modify
  constructor
  · exact attached.collected.withEdges next edges
  · rw [sizeSame]
    exact Nat.lt_of_lt_of_le nextBound attached.larger.size_le
  · exact keeps startState _ explored.start
  · intro number found before at_number
    by_cases same : number = next
    · subst same
      rw [entered] at at_number
      cases at_number
      exact attached.connected number
    · have earlier : number < next := by omega
      have old := Array.getElem?_eq_getElem (Nat.lt_trans earlier nextBound)
      rw [attached.get_other next number _ same old] at at_number
      cases at_number
      exact (explored.connected number _ earlier old).mono keeps
  · intro number positive bound
    rw [sizeSame] at bound
    by_cases known : number < states.size
    · obtain ⟨earlier, found, symbol, before, done, at_earlier, edge⟩ :=
        explored.reached number positive known
      have there := attached.get_other next earlier found (Nat.ne_of_lt done) at_earlier
      exact ⟨earlier, found, symbol, before, by omega, there, edge⟩
    · obtain ⟨symbol, member⟩ := attached.new number (Nat.not_lt.mp known) bound
      have edge := attached.lookup_of_mem symbol number member
      exact ⟨next, _, symbol, by omega, by omega, entered, edge⟩

end Attached

theorem Explored.advance {next : Nat} {states : Array GraphState} {state : GraphState}
    (explored : Explored grammar next states) (at_next : states[next]? = some state) :
    Explored grammar (next + 1)
      (withEdges
        (connect grammar state.closed (state.closed.nextSymbols grammar) states).2 next
        (connect grammar state.closed (state.closed.nextSymbols grammar) states).1) := by
  have own : kernelAt? states next = some state.kernel := by
    rw [kernelAt?, at_next, Option.map_some]
  have distinct : state.closed.Nodup := by
    rw [explored.collected.closures next state at_next]
    exact ItemSet.close_nodup grammar _ (explored.collected.kernels next _ own).inOrder.distinct
  apply Explored.enter _ explored at_next
  exact connect_attached distinct _ explored.collected

/-- All items of a grammar. -/
def allItems (grammar : Grammar) : List Item :=
  (List.range grammar.productionCount).flatMap fun production =>
    (List.range ((grammar.symbols production).length + 1)).map (Item.mk production)

theorem mem_all_items (item : Item) (valid : item.Valid grammar) : item ∈ allItems grammar := by
  apply List.mem_flatMap.mpr
  refine ⟨item.production, List.mem_range.mpr valid.1, ?_⟩
  exact List.mem_map.mpr ⟨item.dot, List.mem_range.mpr (Nat.lt_succ_of_le valid.2), rfl⟩

theorem all_items_length (grammar : Grammar) :
    (allItems grammar).length = itemCount grammar := by
  have lengths : (List.range grammar.productionCount).map
      (fun production => (grammar.symbols production).length + 1) =
        grammar.productions.toList.map fun production => production.symbols.length + 1 := by
    apply List.ext_getElem
    · simp [Grammar.productionCount]
    · intro index low high
      simp only [List.length_map, List.length_range] at low
      have bound : index < grammar.productions.size := low
      simp [Grammar.symbols, Array.getElem?_eq_getElem bound]
  simp only [allItems, List.length_flatMap, List.length_map, List.length_range]
  rw [lengths, itemCount, List.sum_eq_foldr, List.foldr_map]

theorem Collected.size_le {states : Array GraphState} (collected : Collected grammar states) :
    states.size ≤ 2 ^ itemCount grammar := by
  classical
  let itemsAt : Nat → Finset Item := fun number => ((kernelAt? states number).getD []).toFinset
  have present : ∀ number, number < states.size →
      ∃ kernel, kernelAt? states number = some kernel := by
    intro number bound
    rw [kernelAt?, Array.getElem?_eq_getElem bound]
    exact ⟨_, rfl⟩
  have inside : Set.MapsTo itemsAt (Finset.range states.size)
      ((allItems grammar).toFinset.powerset) := by
    intro number member
    obtain ⟨kernel, found⟩ := present number (Finset.mem_range.mp member)
    apply Finset.mem_powerset.mpr
    intro item held
    simp only [itemsAt, found, Option.getD_some, List.mem_toFinset] at held
    exact List.mem_toFinset.mpr
      (mem_all_items item ((collected.kernels number kernel found).valid item held))
  have different : Set.InjOn itemsAt (Finset.range states.size) := by
    intro left leftMember right rightMember same
    obtain ⟨leftKernel, leftFound⟩ := present left (Finset.mem_range.mp leftMember)
    obtain ⟨rightKernel, rightFound⟩ := present right (Finset.mem_range.mp rightMember)
    simp only [itemsAt, leftFound, rightFound, Option.getD_some] at same
    have equal : leftKernel = rightKernel := by
      apply ItemSet.InOrder.ext (collected.kernels left _ leftFound).inOrder
        (collected.kernels right _ rightFound).inOrder
      intro item
      rw [← List.mem_toFinset, same, List.mem_toFinset]
    rw [← equal] at rightFound
    exact collected.distinct left right leftKernel leftFound rightFound
  calc
    states.size = (Finset.range states.size).card := (Finset.card_range _).symm
    _ ≤ (allItems grammar).toFinset.powerset.card :=
      Finset.card_le_card_of_injOn itemsAt inside different
    _ = 2 ^ (allItems grammar).toFinset.card := Finset.card_powerset _
    _ ≤ 2 ^ itemCount grammar := by
      apply Nat.pow_le_pow_right Nat.two_pos
      rw [← all_items_length]
      exact List.toFinset_card_le _

theorem explore_of_none (fuel next : Nat) (states : Array GraphState)
    (done : states[next]? = none) : explore grammar (fuel + 1) next states = states := by
  rw [explore, done]

theorem explore_of_some (fuel next : Nat) (states : Array GraphState) (state : GraphState)
    (found : states[next]? = some state) :
    explore grammar (fuel + 1) next states = explore grammar fuel (next + 1)
      (withEdges (connect grammar state.closed (state.closed.nextSymbols grammar) states).2 next
        (connect grammar state.closed (state.closed.nextSymbols grammar) states).1) := by
  rw [explore, found]
  rfl

/-- The exploration ends with the edges of all states entered, and it does not use up its
bound: a larger one makes no difference. -/
theorem explore_spec (fuel next : Nat) (states : Array GraphState)
    (explored : Explored grammar next states) (enough : 2 ^ itemCount grammar < next + fuel) :
    Explored grammar (explore grammar fuel next states).size
        (explore grammar fuel next states) ∧
      ∀ more, fuel ≤ more →
        explore grammar more next states = explore grammar fuel next states := by
  have limit := explored.collected.size_le
  induction fuel generalizing next states with
  | zero =>
      have bound := explored.bound
      omega
  | succ fuel ih =>
      have positive : ∀ more, fuel + 1 ≤ more → ∃ rest, more = rest + 1 := by
        intro more larger
        exact Nat.exists_eq_add_of_le' (Nat.le_trans (Nat.le_add_left 1 fuel) larger)
      cases at_next : states[next]? with
      | none =>
          have bound := explored.bound
          have outside := Array.getElem?_eq_none_iff.mp at_next
          have all : states.size = next := by omega
          rw [explore_of_none fuel next states at_next]
          constructor
          · rw [all]
            exact explored
          · intro more larger
            rcases positive more larger with ⟨rest, same⟩
            rw [same, explore_of_none rest next states at_next]
      | some state =>
          have advanced := explored.advance at_next
          rcases ih (next + 1) _ advanced (by omega) advanced.collected.size_le with
            ⟨final, stable⟩
          rw [explore_of_some fuel next states state at_next]
          constructor
          · exact final
          · intro more larger
            rcases positive more larger with ⟨rest, same⟩
            rw [same, explore_of_some rest next states state at_next]
            exact stable rest (by omega)

end StateGraph

end SlrKit
