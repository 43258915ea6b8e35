import SlrKit.Proofs.Grammar.WellFormed
import SlrKit.Table.Build

/-!
# What stands in the cells

A cell holds one of its candidates: the shift over an edge, the reduction of a complete item on
a token that follows its rule, or accepting at the end of the input. A cell without candidates
is an error. Where no cell has two candidates nothing has to be decided, and the table is made.
-/

set_option autoImplicit false

namespace SlrKit

namespace Table

variable (grammar : Grammar) (graph : StateGraph)

/-- What a state could do on a token. -/
inductive Candidate (state token : Nat) : Cell → Prop
  | shift {target : Nat} (edge : graph.edge? state (.token token) = some target) :
      Candidate state token (.shift target)
  | reduce {item : Item} (member : item ∈ graph.closed state)
      (complete : item.isComplete grammar = true)
      (inner : item.production ≠ grammar.startProduction)
      (follows : allows grammar (Follows.ofGrammar grammar) token item.production = true) :
      Candidate state token (.reduce item.production)
  | accept (last : token = grammar.endToken) (finished : Item.finish grammar ∈ graph.closed state) :
      Candidate state token .accept

/-- No cell has two candidates. -/
def ConflictFree : Prop :=
  ∀ state, state < graph.stateCount → ∀ token, token < grammar.tokenCount →
    ∀ first second, Candidate grammar graph state token first →
      Candidate grammar graph state token second → first = second

/-- The outcome for a cell of the table. -/
def outcome (state token : Nat) : Resolution :=
  resolution grammar (Follows.ofGrammar grammar) graph
    (reductions grammar (graph.closed state)) state token

theorem mem_reductions (closed : ItemSet) (production : Nat) :
    production ∈ reductions grammar closed ↔ production ≠ grammar.startProduction ∧
      ∃ item ∈ closed, item.isComplete grammar = true ∧ item.production = production := by
  simp only [reductions, ItemSet.completed, List.mem_filter, List.mem_map, bne_iff_ne]
  constructor
  · rintro ⟨⟨item, ⟨member, complete⟩, same⟩, inner⟩
    exact ⟨inner, item, member, complete, same⟩
  · rintro ⟨inner, item, member, complete, same⟩
    exact ⟨⟨item, ⟨member, complete⟩, same⟩, inner⟩

variable {grammar : Grammar} {graph : StateGraph} {state token : Nat}

theorem candidate_reduce_iff (production : Nat) :
    Candidate grammar graph state token (.reduce production) ↔
      production ∈ (reductions grammar (graph.closed state)).filter
        (allows grammar (Follows.ofGrammar grammar) token) := by
  rw [List.mem_filter, mem_reductions]
  constructor
  · rintro (_ | ⟨member, complete, inner, follows⟩)
    exact ⟨⟨inner, _, member, complete, rfl⟩, follows⟩
  · rintro ⟨⟨inner, item, member, complete, same⟩, follows⟩
    rw [← same] at inner follows ⊢
    exact .reduce member complete inner follows

/-- The candidates of a cell as a list. -/
def candidates (grammar : Grammar) (graph : StateGraph) (state token : Nat) : List Cell :=
  ((graph.edge? state (.token token)).map Cell.shift).toList ++
    (((reductions grammar (graph.closed state)).filter
      (allows grammar (Follows.ofGrammar grammar) token)).map Cell.reduce ++
    if token = grammar.endToken ∧ Item.finish grammar ∈ graph.closed state then [.accept] else [])

theorem mem_candidates_iff (cell : Cell) :
    cell ∈ candidates grammar graph state token ↔ Candidate grammar graph state token cell := by
  simp only [candidates, List.mem_append, Option.mem_toList, List.mem_map, List.mem_ite_nil_right,
    List.mem_singleton]
  constructor
  · intro member
    rcases member with edge | ⟨production, reduces, same⟩ | ⟨⟨last, finished⟩, same⟩
    · rcases Option.map_eq_some_iff.mp edge with ⟨target, edge, same⟩
      rw [← same]
      exact .shift edge
    · rw [← same]
      exact (candidate_reduce_iff production).mpr reduces
    · rw [same]
      exact .accept last finished
  · intro candidate
    cases candidate with
    | shift edge =>
        apply Or.inl
        rw [edge]
        rfl
    | @reduce item member complete inner follows =>
        apply Or.inr ∘ Or.inl
        exact ⟨item.production,
          (candidate_reduce_iff item.production).mp (.reduce member complete inner follows), rfl⟩
    | accept last finished => exact Or.inr (Or.inr ⟨⟨last, finished⟩, rfl⟩)

/-- Looks at all cells for two candidates that differ. -/
def isConflictFree (grammar : Grammar) (graph : StateGraph) : Bool :=
  (List.range graph.stateCount).all fun state =>
    (List.range grammar.tokenCount).all fun token =>
      let possible := candidates grammar graph state token
      possible.all fun first => possible.all fun second => first == second

theorem is_conflict_free_iff (grammar : Grammar) (graph : StateGraph) :
    isConflictFree grammar graph = true ↔ ConflictFree grammar graph := by
  simp only [isConflictFree, ConflictFree, List.all_eq_true, List.mem_range, beq_iff_eq,
    mem_candidates_iff]
  constructor
  · intro free state bound token tokenBound first second one other
    exact free state bound token tokenBound first one second other
  · intro free state bound token tokenBound first one second other
    exact free state bound token tokenBound first second one other

instance (grammar : Grammar) (graph : StateGraph) : Decidable (ConflictFree grammar graph) :=
  decidable_of_iff _ (is_conflict_free_iff grammar graph)

theorem candidate_of_shift (cell : Cell) (shift : shift? grammar graph state token = some cell) :
    Candidate grammar graph state token cell ∧ ∀ production, cell ≠ .reduce production := by
  unfold shift? at shift
  split at shift
  · rename_i ends
    cases shift
    exact ⟨.accept ends.1 (by simpa using ends.2), fun _ => Cell.noConfusion⟩
  · obtain ⟨target, edge, same⟩ := Option.map_eq_some_iff.mp shift
    rw [← same]
    exact ⟨.shift edge, fun _ => Cell.noConfusion⟩

/-- Accepting hides an edge over the end of the input, were there one. -/
theorem shift_of_candidate (cell : Cell) (candidate : Candidate grammar graph state token cell)
    (noReduction : ∀ production, cell ≠ .reduce production) :
    (shift? grammar graph state token).isSome = true := by
  unfold shift?
  split
  · rfl
  · rename_i unfinished
    cases candidate with
    | shift edge => rw [edge]; rfl
    | reduce _ _ _ _ => exact absurd rfl (noReduction _)
    | accept last finished => exact absurd ⟨last, by simpa using finished⟩ unfinished

theorem candidate_of_reduction (production : Nat)
    (reduction : reduction? grammar (Follows.ofGrammar grammar)
      (reductions grammar (graph.closed state)) token = some production) :
    Candidate grammar graph state token (.reduce production) :=
  (candidate_reduce_iff production).mpr (List.min?_mem reduction)

theorem no_candidate_of_no_reduction (production : Nat)
    (nothing : reduction? grammar (Follows.ofGrammar grammar)
      (reductions grammar (graph.closed state)) token = none) :
    ¬Candidate grammar graph state token (.reduce production) := by
  rw [candidate_reduce_iff, List.min?_eq_none_iff.mp nothing]
  exact List.not_mem_nil

theorem resolve_cases (grammar : Grammar) (token production : Nat) (shift : Cell) :
    resolve grammar token production shift = .settled shift ∨
      resolve grammar token production shift = .settled (.reduce production) ∨
      resolve grammar token production shift = .byDefault shift production ∨
      resolve grammar token production shift = .forbidden production := by
  unfold resolve
  split
  · split
    · exact Or.inl rfl
    · split
      · exact Or.inr (Or.inl rfl)
      · split
        · exact Or.inr (Or.inl rfl)
        · exact Or.inl rfl
        · exact Or.inr (Or.inr (Or.inr rfl))
  · exact Or.inr (Or.inr (Or.inl rfl))

/-- What becomes of a cell: nothing can be done, or one candidate wins, or precedences forbid
both of two. -/
inductive Decided (grammar : Grammar) (graph : StateGraph) (state token : Nat) : Resolution → Prop
  | nothing (none : ∀ cell, ¬Candidate grammar graph state token cell) :
      Decided grammar graph state token (.settled .error)
  | winner {resolution : Resolution} (allowed : resolution.forbidden? = none)
      (candidate : Candidate grammar graph state token resolution.cell) :
      Decided grammar graph state token resolution
  | forbidden {production : Nat} {shift : Cell}
      (candidate : Candidate grammar graph state token (.reduce production))
      (rival : Candidate grammar graph state token shift)
      (differ : shift ≠ .reduce production) :
      Decided grammar graph state token (.forbidden production)

theorem outcome_decided (grammar : Grammar) (graph : StateGraph) (state token : Nat) :
    Decided grammar graph state token (outcome grammar graph state token) := by
  unfold outcome resolution
  split
  · rename_i noShift noReduction
    apply Decided.nothing
    intro cell candidate
    by_cases reduces : ∃ production, cell = .reduce production
    · obtain ⟨production, same⟩ := reduces
      rw [same] at candidate
      exact no_candidate_of_no_reduction production noReduction candidate
    · have shifts := shift_of_candidate cell candidate fun production same =>
        reduces ⟨production, same⟩
      rw [noShift] at shifts
      cases shifts
  · rename_i production _ reduction
    exact .winner rfl (candidate_of_reduction production reduction)
  · rename_i shift found _
    exact .winner rfl (candidate_of_shift shift found).1
  · rename_i shift production found reduction
    have reduces := candidate_of_reduction production reduction
    obtain ⟨shifts, differ⟩ := candidate_of_shift shift found
    rcases resolve_cases grammar token production shift with
      same | same | same | same
    · rw [same]
      exact .winner rfl shifts
    · rw [same]
      exact .winner rfl reduces
    · rw [same]
      exact .winner rfl shifts
    · rw [same]
      exact .forbidden reduces shifts (differ production)

theorem outcome_of_candidate (cell : Cell) (candidate : Candidate grammar graph state token cell)
    (alone : ∀ first second, Candidate grammar graph state token first →
      Candidate grammar graph state token second → first = second) :
    (outcome grammar graph state token).cell = cell := by
  have decided := outcome_decided grammar graph state token
  generalize outcome grammar graph state token = found at decided
  cases decided with
  | nothing none => exact absurd candidate (none cell)
  | winner _ won => exact alone _ _ won candidate
  | forbidden reduces shifts differ => exact absurd (alone _ _ shifts reduces) differ

theorem outcome_allowed (alone : ∀ first second, Candidate grammar graph state token first →
      Candidate grammar graph state token second → first = second) :
    (outcome grammar graph state token).forbidden? = none := by
  have decided := outcome_decided grammar graph state token
  generalize outcome grammar graph state token = found at decided
  cases decided with
  | nothing _ => rfl
  | winner allowed _ => exact allowed
  | forbidden reduces shifts differ => exact absurd (alone _ _ shifts reduces) differ

section Rows

theorem row_failure_eq_none_iff (grammar : Grammar) (graph : StateGraph) (state : Nat) :
    (row grammar (Follows.ofGrammar grammar) graph state).failure = none ↔
      ∀ token, token < grammar.tokenCount →
        (outcome grammar graph state token).forbidden? = none := by
  simp only [row, List.findSome?_eq_none_iff, Option.map_eq_none_iff, List.mem_append]
  constructor
  · intro clean token bound
    apply clean (token, outcome grammar graph state token)
    rw [or_comm, ← List.mem_append, List.take_append_drop]
    exact List.mem_map.mpr ⟨token, List.mem_range.mpr bound, rfl⟩
  · intro allowed resolved member
    rw [or_comm, ← List.mem_append, List.take_append_drop] at member
    obtain ⟨token, bound, same⟩ := List.mem_map.mp member
    rw [← same]
    exact allowed token (List.mem_range.mp bound)

theorem collect_eq_of_clean (rows : List Row) (clean : ∀ row ∈ rows, row.failure = none) :
    collect rows = (rows, none) := by
  induction rows with
  | nil => rfl
  | cons row rest ih =>
      have others := ih fun other member => clean other (List.mem_cons_of_mem row member)
      rw [collect, clean row List.mem_cons_self, others]

theorem clean_of_collect (rows : List Row) (filled : (collect rows).2 = none) :
    ∀ row ∈ rows, row.failure = none := by
  induction rows with
  | nil => simp
  | cons row rest ih =>
      rw [collect] at filled
      split at filled
      · cases filled
      · rename_i own
        intro other member
        rcases List.mem_cons.mp member with first | later
        · rw [first]
          exact own
        · exact ih filled other later

theorem get_flat_rows {β γ : Type} (rows : List β) (cells : β → List γ) (width : Nat)
    (even : ∀ row ∈ rows, (cells row).length = width) (index column : Nat)
    (inside : column < width) :
    (rows.flatMap cells)[index * width + column]? =
      (rows[index]?).bind fun row => (cells row)[column]? := by
  induction rows generalizing index with
  | nil => simp
  | cons row rest ih =>
      have own := even row List.mem_cons_self
      rw [List.flatMap_cons]
      cases index with
      | zero =>
          rw [Nat.zero_mul, Nat.zero_add, List.getElem?_append_left (by omega)]
          rfl
      | succ index =>
          have place : (index + 1) * width + column =
              (cells row).length + (index * width + column) := by
            rw [own, Nat.succ_mul]
            omega
          rw [place, List.getElem?_append_right (by omega), Nat.add_sub_cancel_left,
            List.getElem?_cons_succ]
          exact ih (fun other member => even other (List.mem_cons_of_mem row member)) index

theorem get_cells (grammar : Grammar) (graph : StateGraph) (state token : Nat)
    (bound : state < graph.stateCount) (tokenBound : token < grammar.tokenCount) :
    (((List.range graph.stateCount).map (row grammar (Follows.ofGrammar grammar) graph)).flatMap
        Row.cells)[state * grammar.tokenCount + token]? =
      some (outcome grammar graph state token).cell := by
  rw [get_flat_rows _ Row.cells grammar.tokenCount _ state token tokenBound]
  · simp [row, bound, tokenBound, outcome]
  · intro filled member
    obtain ⟨number, _, same⟩ := List.mem_map.mp member
    rw [← same]
    simp [row]

theorem get_gotos (grammar : Grammar) (graph : StateGraph) (state rule : Nat)
    (bound : state < graph.stateCount) (ruleBound : rule < grammar.ruleCount) :
    (((List.range graph.stateCount).map (row grammar (Follows.ofGrammar grammar) graph)).flatMap
        Row.gotos)[state * grammar.ruleCount + rule]? = some (graph.edge? state (.rule rule)) := by
  rw [get_flat_rows _ Row.gotos grammar.ruleCount _ state rule ruleBound]
  · simp [row, bound, ruleBound]
  · intro filled member
    obtain ⟨number, _, same⟩ := List.mem_map.mp member
    rw [← same]
    simp [row]

end Rows

/-- The table holds the outcomes for all cells, and the edges over rules. -/
structure Holds (grammar : Grammar) (graph : StateGraph) (table : Table) : Prop where
  start : table.startState = StateGraph.startState
  allowed : ∀ state token, state < graph.stateCount → token < grammar.tokenCount →
    (outcome grammar graph state token).forbidden? = none
  cell : ∀ state token, state < graph.stateCount → token < grammar.tokenCount →
    table.cell state token = (outcome grammar graph state token).cell
  goto : ∀ state rule, state < graph.stateCount → rule < grammar.ruleCount →
    table.goto? state rule = graph.edge? state (.rule rule)

theorem of_graph_holds (table : Table) (made : (ofGraph grammar graph).value = .ok table) :
    Holds grammar graph table := by
  simp only [ofGraph] at made
  split at made
  · cases made
  · rename_i filled
    have clean := clean_of_collect _ filled
    have all := collect_eq_of_clean _ clean
    cases made
    constructor
    · rfl
    · intro state token bound tokenBound
      have own := clean _ (List.mem_map.mpr ⟨state, List.mem_range.mpr bound, rfl⟩)
      exact (row_failure_eq_none_iff grammar graph state).mp own token tokenBound
    · intro state token bound tokenBound
      simp only [cell, all, List.getElem?_toArray]
      rw [get_cells grammar graph state token bound tokenBound, Option.getD_some]
    · intro state rule bound ruleBound
      simp only [goto?, all, List.getElem?_toArray]
      rw [get_gotos grammar graph state rule bound ruleBound, Option.getD_some]

theorem of_graph_unconflicted (table : Table) (made : (ofGraph grammar graph).value = .ok table)
    (settled : ∀ state token, state < graph.stateCount → token < grammar.tokenCount →
      (outcome grammar graph state token).defaulted? = none)
    (alone : ∀ state, state < graph.stateCount →
      clashes grammar (Follows.ofGrammar grammar) [] (reductions grammar (graph.closed state)) =
        []) :
    table.conflicts.isEmpty = true := by
  have quiet : ∀ filled ∈ (List.range graph.stateCount).map
      (row grammar (Follows.ofGrammar grammar) graph),
      filled.conflicts.shiftReduce = [] ∧ filled.conflicts.reduceReduce = [] := by
    intro filled member
    rcases List.mem_map.mp member with ⟨state, inside, same⟩
    have bound := List.mem_range.mp inside
    rw [← same]
    constructor
    · apply List.filterMap_eq_nil_iff.mpr
      intro resolved taken
      have listed := (List.takeWhile_prefix _).subset taken
      rw [List.mem_append, or_comm, ← List.mem_append, List.take_append_drop] at listed
      rcases List.mem_map.mp listed with ⟨token, tokenBound, own⟩
      rw [← own]
      exact Option.map_eq_none_iff.mpr (settled state token bound (List.mem_range.mp tokenBound))
    · simp only [row, alone state bound]
      rfl
  simp only [ofGraph] at made
  split at made
  · cases made
  · rename_i filled
    have all := collect_eq_of_clean _ (clean_of_collect _ filled)
    cases made
    simp only [Conflicts.isEmpty, all, Bool.and_eq_true, List.isEmpty_iff,
      List.flatMap_eq_nil_iff]
    exact ⟨fun filled member => (quiet filled member).1,
      fun filled member => (quiet filled member).2⟩

theorem Holds.candidate {table : Table} (holds : Holds grammar graph table)
    (bound : state < graph.stateCount) (tokenBound : token < grammar.tokenCount)
    (filled : table.cell state token ≠ .error) :
    Candidate grammar graph state token (table.cell state token) := by
  have decided := outcome_decided grammar graph state token
  have allowed := holds.allowed state token bound tokenBound
  rw [holds.cell state token bound tokenBound] at filled ⊢
  generalize outcome grammar graph state token = found at decided allowed filled
  cases decided with
  | nothing _ => exact absurd rfl filled
  | winner _ candidate => exact candidate
  | forbidden _ _ _ => cases allowed

theorem Holds.cell_of_candidate {table : Table} (holds : Holds grammar graph table)
    (free : ConflictFree grammar graph) (bound : state < graph.stateCount)
    (tokenBound : token < grammar.tokenCount) (cell : Cell)
    (candidate : Candidate grammar graph state token cell) : table.cell state token = cell := by
  rw [holds.cell state token bound tokenBound]
  exact outcome_of_candidate cell candidate (free state bound token tokenBound)

theorem of_graph_of_conflict_free (free : ConflictFree grammar graph) :
    ∃ table, (ofGraph grammar graph).value = .ok table := by
  have clean : ∀ filled ∈ (List.range graph.stateCount).map
      (row grammar (Follows.ofGrammar grammar) graph), filled.failure = none := by
    intro filled member
    obtain ⟨state, inside, same⟩ := List.mem_map.mp member
    rw [← same, row_failure_eq_none_iff]
    intro token tokenBound
    exact outcome_allowed (free state (List.mem_range.mp inside) token tokenBound)
  simp only [ofGraph, collect_eq_of_clean _ clean]
  exact ⟨_, rfl⟩

end Table

namespace Sums

def graph : StateGraph := StateGraph.ofGrammar grammar

def table : Table :=
  match (Table.ofGrammar grammar).value with
  | .ok (_, table) => table
  | .error _ => ⟨0, 0, #[], #[], 0, 0, {}⟩

set_option maxRecDepth 4000 in
theorem made : (Table.ofGrammar grammar).value = .ok (graph, table) := by cbv

end Sums

end SlrKit
