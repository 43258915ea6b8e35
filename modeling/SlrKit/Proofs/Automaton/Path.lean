import SlrKit.Proofs.Automaton.Canonical

/-!
# Paths through the state graph

The states of a parser's stack lie on a path from the start state. What is before the dot of an
item in the last state stands at the end of the path, and the state in which its production began
can go over the rule of the production.
-/

set_option autoImplicit false

namespace SlrKit

namespace StateGraph

/-- The states of a path from the start state and the symbols of its edges, newest first. -/
inductive Path (graph : StateGraph) : List Nat → List Symbol → Prop
  | start : Path graph [startState] []
  | step {state target : Nat} {below : List Nat} {symbol : Symbol} {symbols : List Symbol}
      (path : Path graph (state :: below) symbols)
      (edge : graph.edge? state symbol = some target) :
      Path graph (target :: state :: below) (symbol :: symbols)

variable {grammar : Grammar} {graph : StateGraph}

theorem Path.length_eq {states : List Nat} {symbols : List Symbol}
    (path : Path graph states symbols) : states.length = symbols.length + 1 := by
  induction path with
  | start => rfl
  | step _ _ ih =>
      rw [List.length_cons, ih]
      rfl

theorem Path.top {states : List Nat} {symbols : List Symbol} (path : Path graph states symbols) :
    ∃ top below, states = top :: below := by
  cases path with
  | start => exact ⟨_, _, rfl⟩
  | step _ _ => exact ⟨_, _, rfl⟩

theorem Path.drop {states : List Nat} {symbols : List Symbol} (path : Path graph states symbols)
    (count : Nat) (enough : count ≤ symbols.length) :
    Path graph (states.drop count) (symbols.drop count) := by
  induction count generalizing states symbols with
  | zero => exact path
  | succ count ih =>
      cases path with
      | start => simp at enough
      | step path _ => exact ih path (Nat.le_of_succ_le_succ enough)

theorem Path.extend {state target : Nat} {states below : List Nat} {symbol : Symbol}
    {symbols : List Symbol} (path : Path graph states symbols) (top : states = state :: below)
    (edge : graph.edge? state symbol = some target) :
    Path graph (target :: states) (symbol :: symbols) := by
  rw [top] at path ⊢
  exact .step path edge

theorem path_of_walk (symbols : List Symbol) (state : Nat)
    (walk : graph.walk? startState symbols = some state) :
    ∃ below, graph.Path (state :: below) symbols.reverse := by
  induction symbols using List.reverseRecOn generalizing state with
  | nil =>
      cases walk
      exact ⟨[], .start⟩
  | append_singleton symbols symbol ih =>
      rw [walk_snoc] at walk
      rcases Option.bind_eq_some_iff.mp walk with ⟨before, front, edge⟩
      rcases ih before front with ⟨below, path⟩
      rw [List.reverse_append, List.reverse_singleton]
      exact ⟨before :: below, .step path edge⟩

theorem bound_of_mem_closed (state : Nat) (item : Item) (member : item ∈ graph.closed state) :
    state < graph.stateCount := by
  rw [closed] at member
  split at member
  · rename_i found
    exact (Array.getElem?_eq_some_iff.mp found).1
  · cases member

theorem not_next_start_rule (wellFormed : grammar.WellFormed) (item : Item) :
    item.next? grammar ≠ some (.rule Grammar.startRule) := by
  intro next
  have occurs := wellFormed.symbolsOccur _ _ (Item.next_mem_symbols grammar item _ next)
  exact absurd occurs.1 (Nat.lt_irrefl _)

section Canonical

variable (canonical : IsCanonical grammar graph)

include canonical

theorem IsCanonical.start_mem_closed : Item.start grammar ∈ graph.closed startState := by
  rw [canonical.closure, canonical.startKernel]
  exact .given List.mem_cons_self

theorem IsCanonical.path_bound {states : List Nat} {symbols : List Symbol}
    (path : Path graph states symbols) {top : Nat} {below : List Nat}
    (last : states = top :: below) : top < graph.stateCount := by
  cases path with
  | start =>
      cases last
      exact bound_of_mem_closed _ _ canonical.start_mem_closed
  | step _ edge =>
      cases last
      exact (canonical.target _ _ _ edge).1

theorem IsCanonical.exists_path {state : Nat} (bound : state < graph.stateCount) :
    ∃ below symbols, graph.Path (state :: below) symbols := by
  rcases canonical.reached state bound with ⟨symbols, walk⟩
  rcases path_of_walk symbols state walk with ⟨below, path⟩
  exact ⟨below, _, path⟩

theorem IsCanonical.advance_mem_closed {state target : Nat} {item : Item} {symbol : Symbol}
    (member : item ∈ graph.closed state) (next : item.next? grammar = some symbol)
    (edge : graph.edge? state symbol = some target) : item.advance ∈ graph.closed target := by
  rw [canonical.closure]
  exact .given (((canonical.target _ _ _ edge).2 _).mpr ⟨item, member, next, rfl⟩)

theorem IsCanonical.edge_of_next {state : Nat} {item : Item} {symbol : Symbol}
    (member : item ∈ graph.closed state) (next : item.next? grammar = some symbol) :
    ∃ target, graph.edge? state symbol = some target :=
  (canonical.edge state symbol).mpr ⟨item, member, next⟩

theorem IsCanonical.begin_mem_closed {state : Nat} {item : Item} {rule production : Nat}
    (member : item ∈ graph.closed state) (next : item.next? grammar = some (.rule rule))
    (produces : production ∈ grammar.productionsOf rule) :
    ⟨production, 0⟩ ∈ graph.closed state := by
  rw [canonical.closure] at member ⊢
  exact .expand member next produces

/-- A closed set only gains items with the dot in front, so others stem from before an edge. -/
theorem IsCanonical.retreat {state target : Nat} {production dot : Nat} {symbol : Symbol}
    (edge : graph.edge? state symbol = some target)
    (member : ⟨production, dot + 1⟩ ∈ graph.closed target) :
    ⟨production, dot⟩ ∈ graph.closed state ∧
      Item.next? grammar ⟨production, dot⟩ = some symbol := by
  rw [canonical.closure] at member
  cases member with
  | given inside =>
      obtain ⟨earlier, before, next, same⟩ := ((canonical.target _ _ _ edge).2 _).mp inside
      have same : Item.advance ⟨production, dot⟩ = earlier.advance := same
      rw [Item.advance_injective same]
      exact ⟨before, next⟩

theorem IsCanonical.dot_of_start {production dot : Nat}
    (member : ⟨production, dot⟩ ∈ graph.closed startState) : dot = 0 := by
  rw [canonical.closure, canonical.startKernel] at member
  cases member with
  | given inside =>
      cases List.mem_singleton.mp inside
      rfl
  | expand _ _ _ => rfl

/-- What an item has before its dot stands at the end of every path to its state, and the state
before that holds the production with its dot in front. -/
theorem IsCanonical.path_behind {production dot : Nat} {states : List Nat}
    {symbols : List Symbol} (path : Path graph states symbols) {top : Nat} {below : List Nat}
    (last : states = top :: below) (member : ⟨production, dot⟩ ∈ graph.closed top) :
    dot ≤ symbols.length ∧
      (symbols.take dot).reverse = (grammar.symbols production).take dot ∧
      ∃ prior rest, states.drop dot = prior :: rest ∧
        ⟨production, 0⟩ ∈ graph.closed prior := by
  induction dot generalizing states symbols top below with
  | zero => exact ⟨Nat.zero_le _, rfl, top, below, last, member⟩
  | succ dot ih =>
      cases path with
      | start =>
          cases last
          cases canonical.dot_of_start member
      | @step state target under symbol symbols path edge =>
          cases last
          -- The symbol before the dot is that of the last edge; the others end the path before.
          obtain ⟨before, next⟩ := canonical.retreat edge member
          obtain ⟨enough, same, behind⟩ := ih path rfl before
          refine ⟨Nat.succ_le_succ enough, ?_, behind⟩
          rw [List.take_succ_cons, List.reverse_cons, same, List.take_add_one]
          rw [Item.next?] at next
          rw [next]
          rfl

theorem IsCanonical.path_eq_append {production dot : Nat} {states : List Nat}
    {symbols : List Symbol} (path : Path graph states symbols) {top : Nat} {below : List Nat}
    (last : states = top :: below) (member : ⟨production, dot⟩ ∈ graph.closed top) :
    ∃ older, symbols = ((grammar.symbols production).take dot).reverse ++ older := by
  have behind := (canonical.path_behind path last member).2.1
  refine ⟨symbols.drop dot, ?_⟩
  rw [← behind, List.reverse_reverse, List.take_append_drop]

/-- Where an edge leads, productions begin because of an item there that has moved on. -/
theorem IsCanonical.exists_before_rule {state target production : Nat} {symbol : Symbol}
    (edge : graph.edge? state symbol = some target)
    (member : ⟨production, 0⟩ ∈ graph.closed target) :
    ∃ item ∈ graph.closed target, item.dot ≠ 0 ∧
      ∃ rule, item.next? grammar = some (.rule rule) := by
  rw [canonical.closure] at member
  generalize front : Item.mk production 0 = item at member
  have begins : item.dot = 0 := by rw [← front]
  clear front
  induction member with
  | given inside =>
      rcases ((canonical.target _ _ _ edge).2 _).mp inside with ⟨earlier, _, _, same⟩
      rw [same] at begins
      cases begins
  | @expand item rule _ held next _ ih =>
      by_cases first : item.dot = 0
      · exact ih first
      · exact ⟨item, (canonical.closure target item).mpr held, first, rule, next⟩

theorem IsCanonical.goto_of_begin {production : Nat} {states : List Nat}
    {symbols : List Symbol} (path : Path graph states symbols) {prior : Nat} {below : List Nat}
    (last : states = prior :: below) (inner : production ≠ grammar.startProduction)
    (member : ⟨production, 0⟩ ∈ graph.closed prior) :
    production < grammar.productionCount ∧
      ∃ target, graph.edge? prior (.rule (grammar.ruleOf production)) = some target := by
  rw [canonical.closure] at member
  generalize front : Item.mk production 0 = item at member
  cases member with
  | given inside =>
      rw [← front] at inside
      cases path with
      | start =>
          cases last
          rw [canonical.startKernel, List.mem_singleton] at inside
          exact absurd (congrArg Item.production inside) inner
      | step path edge =>
          cases last
          obtain ⟨earlier, _, _, same⟩ := ((canonical.target _ _ _ edge).2 _).mp inside
          cases congrArg Item.dot same
  | @expand item rule other held next produces =>
      rw [← canonical.closure] at held
      have own := (Grammar.mem_productions_of grammar rule other).mp produces
      have same : production = other := congrArg Item.production front
      rw [same, own.2]
      exact ⟨own.1, canonical.edge_of_next held next⟩

variable (wellFormed : grammar.WellFormed)

include wellFormed

theorem IsCanonical.path_of_start_item {states : List Nat} {symbols : List Symbol}
    (path : Path graph states symbols) {top : Nat} {below : List Nat}
    (last : states = top :: below) (member : Item.start grammar ∈ graph.closed top) :
    states = [startState] ∧ symbols = [] := by
  cases path with
  | start => exact ⟨rfl, rfl⟩
  | step path edge =>
      cases last
      rw [canonical.closure] at member
      generalize front : Item.start grammar = item at member
      cases member with
      | given inside =>
          obtain ⟨earlier, _, _, same⟩ := ((canonical.target _ _ _ edge).2 _).mp inside
          rw [← front] at same
          cases congrArg Item.dot same
      | @expand item rule production held next produces =>
          have own := (Grammar.mem_productions_of grammar rule production).mp produces
          have first : grammar.startProduction = production := congrArg Item.production front
          rw [← first, wellFormed.startsAtStartRule] at own
          rw [← own.2] at next
          exact absurd next (not_next_start_rule wellFormed item)

/-- Only a path over the rule of the author's choice leads to the item a parse ends with. -/
theorem IsCanonical.path_of_finish {states : List Nat} {symbols : List Symbol}
    (path : Path graph states symbols) {top : Nat} {below : List Nat}
    (last : states = top :: below) (member : Item.finish grammar ∈ graph.closed top) :
    symbols = grammar.symbols grammar.startProduction := by
  obtain ⟨rule, starts⟩ := wellFormed.startSymbols
  obtain ⟨enough, same, prior, rest, behind, before⟩ :=
    canonical.path_behind path last member
  have alone := canonical.path_of_start_item wellFormed (path.drop 1 enough) behind before
  rw [starts] at same ⊢
  match symbols, enough with
  | symbol :: others, _ =>
      have nothing : others = [] := alone.2
      rw [nothing] at same ⊢
      exact same

end Canonical

end StateGraph

end SlrKit
