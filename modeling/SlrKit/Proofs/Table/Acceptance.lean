import SlrKit.Proofs.Automaton.Path
import SlrKit.Proofs.Table.Filling

/-!
# Where a table accepts

Nothing leads back to the start item, and no production holds the end of the input. So exactly one state
completes the start production, the one over the edge of the author's start rule, and only there, at the
end of the input, a table accepts. With this, filling a table cell by cell never finds a shift or
accepting where something is to be entered and never ends without a final state: it comes to the table,
or to its refusal.
-/

set_option autoImplicit false

namespace SlrKit

namespace StateGraph

variable {grammar : Grammar} {graph : StateGraph} (canonical : IsCanonical grammar graph)

include canonical

/-- What an edge leads to has seen something, and the start item has seen nothing. -/
theorem IsCanonical.no_edge_to_start (state : Nat) (symbol : Symbol) :
    graph.edge? state symbol ≠ some startState := by
  intro edge
  have start : Item.start grammar ∈ graph.kernel startState := by
    rw [canonical.startKernel]
    exact List.mem_cons_self
  rcases ((canonical.target state symbol startState edge).2 _).mp start with
    ⟨earlier, _, _, same⟩
  have dots := congrArg Item.dot same
  cases dots

variable (wellFormed : grammar.WellFormed)

include wellFormed

theorem IsCanonical.no_edge_over_end (state : Nat) :
    graph.edge? state (.token grammar.endToken) = none := by
  cases edge : graph.edge? state (.token grammar.endToken) with
  | none => rfl
  | some target =>
      rcases (canonical.edge state (.token grammar.endToken)).mp ⟨target, edge⟩ with
        ⟨item, _, next⟩
      have occurs := wellFormed.symbolsOccur _ _ (Item.next_mem_symbols grammar item _ next)
      exact absurd occurs (Nat.lt_irrefl _)

theorem IsCanonical.exists_final : ∃ final,
    graph.edge? startState (.rule grammar.userStart) = some final ∧
      ∀ state, Item.finish grammar ∈ graph.closed state ↔ state = final := by
  have next : (Item.start grammar).next? grammar = some (.rule grammar.userStart) := by
    rw [Item.next?, Item.start, wellFormed.start_symbols_eq]
    rfl
  rcases canonical.edge_of_next canonical.start_mem_closed next with ⟨final, edge⟩
  refine ⟨final, edge, ?_⟩
  intro state
  constructor
  · intro finishes
    have bound := bound_of_mem_closed state _ finishes
    rcases canonical.exists_path bound with ⟨below, symbols, path⟩
    have spelled := canonical.path_of_finish wellFormed path rfl finishes
    rw [wellFormed.start_symbols_eq] at spelled
    rw [spelled] at path
    cases path with
    | step path last =>
        cases path with
        | start =>
            rw [edge] at last
            exact (Option.some.inj last).symm
  · intro same
    rw [same]
    exact canonical.advance_mem_closed canonical.start_mem_closed next edge

end StateGraph

namespace Table

section Whole

variable {grammar : Grammar} {graph : StateGraph} (wellFormed : grammar.WellFormed)

include wellFormed

theorem complete_start_iff (state : Nat) :
    CompleteIn grammar graph state grammar.startProduction ↔
      Item.finish grammar ∈ graph.closed state := by
  rw [CompleteIn, wellFormed.start_symbols_eq]
  rfl

theorem outcome_accepts_iff (agree : grammar.LevelsAgree) (state token : Nat) :
    (outcome grammar graph state token).cell = .accept ↔ Accepting grammar graph state token := by
  have filled := outcome_filled wellFormed agree graph state token
  generalize outcome grammar graph state token = found at filled
  cases filled with
  | forbidden forbidden =>
      constructor
      · intro never
        cases never
      · intro accepting
        rw [accepting.1] at forbidden
        exact absurd forbidden (end_not_forbidden state _)
  | entry _ _ entry =>
      constructor
      · intro same
        rw [same] at entry
        cases entry with
        | accept accepting => exact accepting
      · intro accepting
        exact entry.unique (.accept accepting)

omit wellFormed in
theorem find_final (final : Nat)
    (alone : ∀ state, Item.finish grammar ∈ graph.closed state ↔ state = final) :
    graph.states.findIdx? (·.closed.contains (Item.finish grammar)) = some final := by
  have bound := StateGraph.bound_of_mem_closed final _ ((alone final).mpr rfl)
  have closed_at : ∀ state, (inside : state < graph.states.size) →
      graph.states[state].closed = graph.closed state := by
    intro state inside
    exact (StateGraph.closed_of_get graph state _ (Array.getElem?_eq_getElem inside)).symm
  rw [Array.findIdx?_eq_some_iff_getElem]
  refine ⟨bound, ?_, ?_⟩
  · rw [closed_at final bound, List.contains_iff_mem]
    exact (alone final).mpr rfl
  · intro earlier before
    rw [closed_at earlier (Nat.lt_trans before bound), List.contains_iff_mem, alone]
    exact Nat.ne_of_lt before

/-- Where some rows have been filled as the table has them. -/
structure FilledUpTo (grammar : Grammar) (graph : StateGraph) (final : Nat) (states : List Nat)
    (done : PartialTable) : Prop where
  rows : done.rows = states.map fun state =>
    ⟨(row grammar (Follows.ofGrammar grammar) graph state).cells,
      (row grammar (Follows.ofGrammar grammar) graph state).conflicts⟩
  finalState : done.finalState = if final ∈ states then some final else none
  clean : ∀ state ∈ states, (row grammar (Follows.ofGrammar grammar) graph state).failure = none

omit wellFormed in
theorem cell_of_row (state token : Nat) (bound : token < grammar.tokenCount) :
    Filling.cell ⟨(row grammar (Follows.ofGrammar grammar) graph state).cells,
        (row grammar (Follows.ofGrammar grammar) graph state).conflicts⟩ token =
      (outcome grammar graph state token).cell := by
  simp only [Filling.cell, row, List.map_map, List.getElem?_map, List.getElem?_range bound]
  rfl

theorem fill_next_keeps_or_fails (agree : grammar.LevelsAgree) (final : Nat)
    (alone : ∀ state, Item.finish grammar ∈ graph.closed state ↔ state = final)
    (distinct : ∀ state, (graph.closed state).Nodup)
    (endless : ∀ state, graph.edge? state (.token grammar.endToken) = none)
    (states : List Nat) (state : Nat) (done : PartialTable)
    (kept : FilledUpTo grammar graph final states done) :
    (∃ next, PartialTable.fillNext grammar (Follows.ofGrammar grammar) graph done state =
        .ok next ∧
      FilledUpTo grammar graph final (states ++ [state]) next) ∨
    ∃ stop, PartialTable.fillNext grammar (Follows.ofGrammar grammar) graph done state =
        .error stop ∧
      ∃ error, stop = .refused error ∧
        (row grammar (Follows.ofGrammar grammar) graph state).failure = some error := by
  have filled := Filling.of_state_eq (endless state) wellFormed agree (distinct state)
  cases failure : (row grammar (Follows.ofGrammar grammar) graph state).failure with
  | some error =>
      rw [failure] at filled
      refine Or.inr ⟨.refused error, ?_, error, rfl, rfl⟩
      rw [PartialTable.fillNext, filled]
      rfl
  | none =>
      rw [failure] at filled
      refine Or.inl ⟨_, by rw [PartialTable.fillNext, filled]; rfl, ?_⟩
      constructor
      · rw [kept.rows, List.map_append, List.map_singleton]
      · have accepts : (outcome grammar graph state grammar.endToken).cell = .accept ↔
            state = final := by
          rw [outcome_accepts_iff wellFormed agree, Accepting, complete_start_iff wellFormed,
            alone]
          simp
        rw [cell_of_row state grammar.endToken (Nat.lt_succ_self _), kept.finalState]
        by_cases last : state = final
        · rw [if_pos (accepts.mpr last), last, if_pos (by simp)]
        · rw [if_neg fun same => last (accepts.mp same)]
          simp [Ne.symm last]
      · intro other member
        rcases List.mem_append.mp member with before | here
        · exact kept.clean other before
        · rw [List.mem_singleton.mp here]
          exact failure

/-- Filled cell by cell, a table is the one that its candidates tell, and so is a refusal. -/
theorem fill_eq (agree : grammar.LevelsAgree) (final : Nat)
    (alone : ∀ state, Item.finish grammar ∈ graph.closed state ↔ state = final)
    (distinct : ∀ state, (graph.closed state).Nodup)
    (endless : ∀ state, graph.edge? state (.token grammar.endToken) = none) :
    fill grammar graph = (ofGraph grammar graph).value.mapError .refused := by
  have outcome := fold_keeps_or_fails (PartialTable.fillNext grammar (Follows.ofGrammar grammar) graph)
    (FilledUpTo grammar graph final)
    (fun states state stop =>
      (∀ earlier ∈ states,
        (row grammar (Follows.ofGrammar grammar) graph earlier).failure = none) ∧
      ∃ error, stop = .refused error ∧
        (row grammar (Follows.ofGrammar grammar) graph state).failure = some error)
    (List.range graph.stateCount)
    (by
      intro states state back done _ kept
      rcases fill_next_keeps_or_fails wellFormed agree final alone distinct endless states state
        done kept with next | ⟨stop, stopped, why⟩
      · exact Or.inl next
      · exact Or.inr ⟨stop, stopped, kept.clean, why⟩)
    {} ⟨rfl, rfl, by simp⟩
  rcases outcome with ⟨done, folded, kept⟩ | ⟨states, state, back, stop, whole, stopped, why⟩
  · have bound : final < graph.stateCount :=
      StateGraph.bound_of_mem_closed final _ ((alone final).mpr rfl)
    have finalState := kept.finalState
    rw [if_pos (List.mem_range.mpr bound)] at finalState
    have clean : ∀ filled ∈ (List.range graph.stateCount).map
        (row grammar (Follows.ofGrammar grammar) graph), filled.failure = none := by
      intro filled member
      rcases List.mem_map.mp member with ⟨state, inside, same⟩
      rw [← same]
      exact kept.clean state inside
    simp only [fill, folded, bind, Except.bind, finalState, ofGraph, collect_eq_of_clean _ clean,
      find_final final alone, kept.rows, List.flatMap_map, Except.mapError, Option.getD_some, row]
  · rcases why with ⟨earlier, error, same, failed⟩
    have refused : (ofGraph grammar graph).value = .error error := by
      rw [of_graph_error_iff_find, whole, List.findSome?_append, List.findSome?_cons, failed]
      have nothing : states.findSome? (fun state =>
          (row grammar (Follows.ofGrammar grammar) graph state).failure) = none :=
        List.findSome?_eq_none_iff.mpr earlier
      rw [nothing]
      rfl
    simp only [fill, stopped, bind, Except.bind, refused, Except.mapError, same]

end Whole

/-- In the state graph of a compiled grammar, one state completes the start production: the one that the
start state leads to over the author's start rule. No edge leads back to the start state or over the end
of the input. So filling the table cell by cell never meets an occupied cell and never misses the final
state; it comes to the table, or its refusal, and accepts in that state at the end of the input only. -/
theorem one_cell_accepts {α π : Type} (width : IndexWidth) (declarations : Declarations α π)
    (grammar : Grammar) (compiled : Grammar.compile width declarations = .ok grammar) :
    let graph := StateGraph.ofGrammar grammar
    ∃ final, final < graph.stateCount ∧
      graph.edge? StateGraph.startState (.rule grammar.userStart) = some final ∧
      (∀ state, CompleteIn grammar graph state grammar.startProduction ↔ state = final) ∧
      (∀ state symbol, graph.edge? state symbol ≠ some StateGraph.startState) ∧
      (∀ state, graph.edge? state (.token grammar.endToken) = none) ∧
      (∀ state token, fill grammar graph ≠ .error (.occupied state token)) ∧
      fill grammar graph ≠ .error .neverAccepts ∧
      fill grammar graph = (ofGraph grammar graph).value.mapError .refused ∧
      ∀ table, fill grammar graph = .ok table → table.finalState = final ∧
        ∀ state token, state < graph.stateCount → token < grammar.tokenCount →
          (table.cell state token = .accept ↔ state = final ∧ token = grammar.endToken) := by
  intro graph
  have wellFormed := Grammar.compile_well_formed width declarations grammar compiled
  have agree := Grammar.compile_levels_agree width grammar compiled
  have canonical := StateGraph.of_grammar_is_canonical grammar wellFormed.nonempty
  have distinct := StateGraph.of_grammar_closed_nodup grammar wellFormed.nonempty
  have endless := canonical.no_edge_over_end wellFormed
  rcases canonical.exists_final wellFormed with ⟨final, edge, alone⟩
  have filled := fill_eq wellFormed agree final alone distinct endless
  have completes : ∀ state,
      CompleteIn grammar graph state grammar.startProduction ↔ state = final := by
    intro state
    rw [complete_start_iff wellFormed]
    exact alone state
  refine ⟨final, (canonical.target _ _ _ edge).1, edge, completes, canonical.no_edge_to_start,
    endless, ?_, ?_, filled, ?_⟩
  · intro state token
    rw [filled]
    cases (ofGraph grammar graph).value with
    | error error => simp [Except.mapError]
    | ok table => simp [Except.mapError]
  · rw [filled]
    cases (ofGraph grammar graph).value with
    | error error => simp [Except.mapError]
    | ok table => simp [Except.mapError]
  · intro table made
    rw [filled] at made
    cases value : (ofGraph grammar graph).value with
    | error error =>
        rw [value] at made
        cases made
    | ok other =>
        rw [value] at made
        have same : other = table := Except.ok.inj made
        rw [same] at value
        have holds := of_graph_holds table value
        refine ⟨?_, ?_⟩
        · simp only [ofGraph] at value
          split at value
          · cases value
          · cases value
            rw [find_final final alone]
            rfl
        · intro state token bound tokenBound
          rw [holds.cell state token bound tokenBound, outcome_accepts_iff wellFormed agree,
            Accepting, completes, and_comm]

set_option maxRecDepth 12000 in
/-- Where two empty texts and the end of the input compete for one cell, the table still accepts in it,
and nowhere else. -/
theorem competing_end_accepts : ∃ table,
    fill Nothings.grammar (StateGraph.ofGrammar Nothings.grammar) = .ok table ∧
      table.finalState = 1 ∧ ∀ state token, state < 5 → token < 2 →
        (table.cell state token = .accept ↔ state = 1 ∧ token = 1) := by
  have told := one_cell_accepts .bits32 Nothings.declarations Nothings.grammar Nothings.compiled
  rcases told with ⟨final, _, edge, _, _, _, _, _, _, accepts⟩
  have states : (StateGraph.ofGrammar Nothings.grammar).stateCount = 5 := by cbv
  have start : (StateGraph.ofGrammar Nothings.grammar).edge? StateGraph.startState
      (.rule Nothings.grammar.userStart) = some 1 := by cbv
  have same : final = 1 := by
    rw [start] at edge
    exact (Option.some.inj edge).symm
  have filled : (fill Nothings.grammar
      (StateGraph.ofGrammar Nothings.grammar)).toOption.isSome = true := by cbv
  cases made : fill Nothings.grammar (StateGraph.ofGrammar Nothings.grammar) with
  | error stop =>
      rw [made] at filled
      cases filled
  | ok table =>
      have cells := accepts table made
      rw [same, states] at cells
      exact ⟨table, rfl, cells⟩

end Table

end SlrKit
