import SlrKit.Proofs.Distinct
import SlrKit.Proofs.Table.Entries

/-!
# What the recorded conflicts tell

A table keeps two lists of conflicts. A shift against a production is recorded exactly where no two
precedences decide between them, once for each such cell. Two productions are recorded only where both
can be reduced on one token, the earlier as kept; and every production that is not the first of its cell
is recorded as discarded. So both lists are empty exactly if declared precedences decide every cell that
has something to decide.
-/

set_option autoImplicit false

namespace SlrKit

namespace Table

section Clashes

variable {grammar : Grammar} {follows : Follows} {token : Nat}

theorem reduction_of_new_best (earlier : List Nat) (production : Nat)
    (allowed : allows grammar follows token production = true)
    (least : ∀ other ∈ earlier.filter (allows grammar follows token), production ≤ other) :
    reduction? grammar follows (earlier ++ [production]) token = some production := by
  have among : (earlier ++ [production]).filter (allows grammar follows token) =
      earlier.filter (allows grammar follows token) ++ [production] := by
    rw [List.filter_append, List.filter_singleton, allowed, cond_true]
  rw [reduction?, among, List.min?_eq_some_iff]
  refine ⟨List.mem_append_right _ List.mem_cons_self, ?_⟩
  intro other member
  rcases List.mem_append.mp member with before | last
  · exact least other before
  · rw [List.mem_singleton.mp last]

theorem reduction_of_old_best (earlier : List Nat) (production best : Nat)
    (ahead : reduction? grammar follows earlier token = some best)
    (later : allows grammar follows token production = true → best ≤ production) :
    reduction? grammar follows (earlier ++ [production]) token = some best := by
  have least := List.min?_eq_some_iff.mp ahead
  rw [reduction?, List.filter_append, List.min?_eq_some_iff]
  refine ⟨List.mem_append_left _ least.1, ?_⟩
  intro other member
  rcases List.mem_append.mp member with before | last
  · exact least.2 other before
  · have own := List.mem_filter.mp last
    have same := List.mem_singleton.mp own.1
    rw [same] at own ⊢
    exact later own.2

theorem mem_clashes_cons (earlier rest : List Nat) (production : Nat) (clash : Clash) :
    clash ∈ clashes grammar follows earlier (production :: rest) ↔
      (∃ token rival, token < grammar.tokenCount ∧
        allows grammar follows token production = true ∧
        reduction? grammar follows earlier token = some rival ∧
        clash = ⟨min production rival, max production rival, token⟩) ∨
      clash ∈ clashes grammar follows (earlier ++ [production]) rest := by
  simp only [clashes, List.mem_append, List.mem_filterMap, IndexSet.mem_below,
    Option.map_eq_some_iff, allows]
  constructor
  · intro member
    rcases member with ⟨token, ⟨bound, allowed⟩, rival, found, same⟩ | later
    · exact Or.inl ⟨token, rival, bound, allowed, found, same.symm⟩
    · exact Or.inr later
  · intro member
    rcases member with ⟨token, rival, bound, allowed, found, same⟩ | later
    · exact Or.inl ⟨token, ⟨bound, allowed⟩, rival, found, same.symm⟩
    · exact Or.inr later

/-- A clash is between two of the productions that can be reduced on its token. -/
structure Clash.Between (grammar : Grammar) (follows : Follows) (reducible : List Nat)
    (clash : Clash) : Prop where
  ordered : clash.kept < clash.discarded
  token : clash.token < grammar.tokenCount
  kept : clash.kept ∈ reducible.filter (allows grammar follows clash.token)
  discarded : clash.discarded ∈ reducible.filter (allows grammar follows clash.token)

theorem clashes_between (earlier rest : List Nat) (distinct : (earlier ++ rest).Nodup) :
    ∀ clash ∈ clashes grammar follows earlier rest,
      clash.Between grammar follows (earlier ++ rest) := by
  induction rest generalizing earlier with
  | nil => simp [clashes]
  | cons production rest ih =>
      intro clash member
      rcases (mem_clashes_cons earlier rest production clash).mp member with own | later
      · rcases own with ⟨token, rival, bound, allowed, found, same⟩
        have among := List.mem_filter.mp (List.min?_mem found)
        have other : production ≠ rival := by
          intro equal
          have disjoint := (List.nodup_append.mp distinct).2.2 rival among.1 production
            List.mem_cons_self
          exact disjoint equal.symm
        have first : rival ∈ (earlier ++ production :: rest).filter (allows grammar follows token) :=
          List.mem_filter.mpr ⟨List.mem_append_left _ among.1, among.2⟩
        have second : production ∈
            (earlier ++ production :: rest).filter (allows grammar follows token) :=
          List.mem_filter.mpr ⟨List.mem_append_right _ List.mem_cons_self, allowed⟩
        rw [same]
        refine ⟨?_, bound, ?_, ?_⟩
        · change min production rival < max production rival
          omega
        · rcases Nat.le_total production rival with before | behind
          · simpa only [Nat.min_eq_left before] using second
          · simpa only [Nat.min_eq_right behind] using first
        · rcases Nat.le_total production rival with before | behind
          · simpa only [Nat.max_eq_right before] using first
          · simpa only [Nat.max_eq_left behind] using second
      · rw [← List.singleton_append, ← List.append_assoc] at distinct
        have between := ih (earlier ++ [production]) distinct clash later
        rwa [List.append_assoc, List.singleton_append] at between

theorem best_is_discarded (token : Nat) (bound : token < grammar.tokenCount)
    (earlier rest : List Nat) (best other : Nat)
    (ahead : reduction? grammar follows earlier token = some best) (comes : other ∈ rest)
    (allowed : allows grammar follows token other = true) (smaller : other < best) :
    ∃ clash ∈ clashes grammar follows earlier rest, clash.discarded = best := by
  induction rest generalizing earlier with
  | nil => cases comes
  | cons production rest ih =>
      by_cases beats : allows grammar follows token production = true ∧ production < best
      · refine ⟨⟨min production best, max production best, token⟩, ?_, ?_⟩
        · exact (mem_clashes_cons earlier rest production _).mpr
            (Or.inl ⟨token, best, bound, beats.1, ahead, rfl⟩)
        · exact Nat.max_eq_right (Nat.le_of_lt beats.2)
      · have still := reduction_of_old_best earlier production best ahead
          fun own => Nat.le_of_not_lt fun less => beats ⟨own, less⟩
        have later : other ∈ rest := by
          rcases List.mem_cons.mp comes with same | later
          · rw [same] at allowed smaller
            exact absurd ⟨allowed, smaller⟩ beats
          · exact later
        rcases ih (earlier ++ [production]) still later with ⟨clash, member, discarded⟩
        exact ⟨clash, (mem_clashes_cons earlier rest production clash).mpr (Or.inr member),
          discarded⟩

theorem later_is_discarded (token : Nat) (bound : token < grammar.tokenCount)
    (earlier rest : List Nat) (production other : Nat) (comes : production ∈ rest)
    (own : allows grammar follows token production = true)
    (rivals : other ∈ (earlier ++ rest).filter (allows grammar follows token))
    (smaller : other < production) :
    ∃ clash ∈ clashes grammar follows earlier rest, clash.discarded = production := by
  induction rest generalizing earlier with
  | nil => cases comes
  | cons next rest ih =>
      by_cases now : production = next
      · rw [← now] at rivals ⊢
        have rival := List.mem_filter.mp rivals
        by_cases beaten : ∃ best, reduction? grammar follows earlier token = some best ∧
            best < production
        · rcases beaten with ⟨best, found, less⟩
          refine ⟨⟨min production best, max production best, token⟩, ?_, ?_⟩
          · exact (mem_clashes_cons earlier rest production _).mpr
              (Or.inl ⟨token, best, bound, own, found, rfl⟩)
          · exact Nat.max_eq_left (Nat.le_of_lt less)
        · -- Nothing before is smaller, so the production is the choice until the other one comes.
          have least : ∀ before ∈ earlier.filter (allows grammar follows token),
              production ≤ before := by
            intro before inside
            cases found : reduction? grammar follows earlier token with
            | none =>
                rw [List.min?_eq_none_iff.mp found] at inside
                cases inside
            | some best =>
                have above := (List.min?_eq_some_iff.mp found).2 before inside
                have notLess : ¬ best < production := fun less => beaten ⟨best, found, less⟩
                omega
          have later : other ∈ rest := by
            rcases List.mem_append.mp rival.1 with before | behind
            · have above := least other (List.mem_filter.mpr ⟨before, rival.2⟩)
              omega
            · rcases List.mem_cons.mp behind with same | later
              · omega
              · exact later
          rcases best_is_discarded token bound (earlier ++ [production]) rest production other
            (reduction_of_new_best earlier production own least) later rival.2 smaller with
            ⟨clash, member, discarded⟩
          exact ⟨clash, (mem_clashes_cons earlier rest production clash).mpr (Or.inr member),
            discarded⟩
      · have later : production ∈ rest := by
          rcases List.mem_cons.mp comes with same | later
          · exact absurd same now
          · exact later
        rw [← List.singleton_append, ← List.append_assoc] at rivals
        rcases ih (earlier ++ [next]) later rivals with ⟨clash, member, discarded⟩
        exact ⟨clash, (mem_clashes_cons earlier rest next clash).mpr (Or.inr member), discarded⟩

end Clashes

section Reports

variable (grammar : Grammar) (graph : StateGraph) (state token production : Nat)

/-- The token could be shifted, or the input be accepted. -/
def Shiftable : Prop :=
  (∃ target, graph.edge? state (.token token) = some target) ∨ Accepting grammar graph state token

/-- The token or the production has no precedence. -/
def Unranked : Prop :=
  grammar.tokenPrecedence token = none ∨ grammar.productionPrecedence production = none

/-- A cell has something to shift and something to reduce, and no precedences decide. -/
structure Undecided (conflict : ShiftReduceConflict) : Prop where
  state : conflict.state < graph.stateCount
  token : conflict.token < grammar.tokenCount
  first : FirstReducible grammar graph conflict.state conflict.token conflict.production
  shiftable : Shiftable grammar graph conflict.state conflict.token
  unranked : Unranked grammar conflict.token conflict.production

/-- Two productions can be reduced in one cell of the state; the earlier one is kept. -/
structure Rivals (conflict : ReduceReduceConflict) : Prop where
  state : conflict.state < graph.stateCount
  ordered : conflict.kept < conflict.discarded
  cell : ∃ token, token < grammar.tokenCount ∧
    Reducible grammar graph conflict.state token conflict.kept ∧
    Reducible grammar graph conflict.state token conflict.discarded

/-- If a cell has something to decide, declared precedences decide it. -/
structure RankDecided : Prop where
  alone : ∀ one other, Reducible grammar graph state token one →
    Reducible grammar graph state token other → one = other
  ranked : ∀ production, Reducible grammar graph state token production →
    Shiftable grammar graph state token → ¬Unranked grammar token production

/-- The conflicts of a table tell what was decided by default, and nothing else. -/
structure ExactlyReported (conflicts : Conflicts) : Prop where
  shiftReduceOnce : conflicts.shiftReduce.Nodup
  shiftReduce : ∀ conflict, conflict ∈ conflicts.shiftReduce ↔ Undecided grammar graph conflict
  reduceReduceOnce : conflicts.reduceReduce.Nodup
  reduceReduce : ∀ conflict ∈ conflicts.reduceReduce, Rivals grammar graph conflict
  discarded : ∀ state token first production, state < graph.stateCount →
    token < grammar.tokenCount → FirstReducible grammar graph state token first →
    Reducible grammar graph state token production → production ≠ first →
      ∃ conflict ∈ conflicts.reduceReduce,
        conflict.state = state ∧ conflict.discarded = production
  quiet : conflicts.isEmpty = true ↔ ∀ state token, state < graph.stateCount →
    token < grammar.tokenCount → RankDecided grammar graph state token

end Reports

section Cells

variable {grammar : Grammar} {graph : StateGraph} {state token production : Nat}

theorem exists_first_reducible (reducible : Reducible grammar graph state token production) :
    ∃ first, FirstReducible grammar graph state token first := by
  cases found : reduction? grammar (Follows.ofGrammar grammar)
      (reductions grammar (graph.closed state)) token with
  | none => exact absurd reducible (reduction_eq_none_iff.mp found production)
  | some first => exact ⟨first, (reduction_eq_some_iff first).mp found⟩

theorem resolve_defaulted_iff (other : Nat) (shift : Cell) :
    (resolve grammar token production shift).defaulted? = some other ↔
      production = other ∧ Unranked grammar token production := by
  cases own : grammar.tokenPrecedence token with
  | none => simp [resolve, Unranked, own, Resolution.defaulted?]
  | some ofToken =>
      cases ranked : grammar.productionPrecedence production with
      | none => simp [resolve, Unranked, own, ranked, Resolution.defaulted?]
      | some ofProduction =>
          rw [resolve_settled own ranked shift]
          simp [Unranked, own, ranked]

theorem shift_isSome_iff (wellFormed : grammar.WellFormed) :
    (shift? grammar graph state token).isSome = true ↔ Shiftable grammar graph state token := by
  by_cases accepting : Accepting grammar graph state token
  · rw [shift_of_accepting wellFormed accepting]
    simp [Shiftable, accepting]
  · rw [shift_of_not_accepting wellFormed accepting]
    simp [Shiftable, accepting, Option.isSome_iff_exists]

theorem outcome_defaulted_iff (wellFormed : grammar.WellFormed) :
    (outcome grammar graph state token).defaulted? = some production ↔
      FirstReducible grammar graph state token production ∧
        Shiftable grammar graph state token ∧ Unranked grammar token production := by
  rw [← shift_isSome_iff wellFormed, ← reduction_eq_some_iff]
  unfold outcome resolution
  split
  · rename_i found missing
    simp [found, Resolution.defaulted?]
  · rename_i found reduction
    simp [found, Resolution.defaulted?]
  · rename_i found missing
    simp [missing, Resolution.defaulted?]
  · rename_i found reduction
    rw [resolve_defaulted_iff, found, reduction]
    constructor
    · intro decided
      rw [← decided.1]
      exact ⟨rfl, rfl, decided.2⟩
    · intro decided
      have same := Option.some.inj decided.1
      rw [same]
      exact ⟨rfl, decided.2.2⟩

end Cells

section Lists

variable {grammar : Grammar} {graph : StateGraph}

/-- The tokens in the order in which a row looks at them: the end of the input comes first. -/
def tokenOrder (grammar : Grammar) : List Nat :=
  (List.range grammar.tokenCount).drop grammar.endToken ++
    (List.range grammar.tokenCount).take grammar.endToken

theorem token_order_perm (grammar : Grammar) :
    (tokenOrder grammar).Perm (List.range grammar.tokenCount) := by
  have whole := List.take_append_drop grammar.endToken (List.range grammar.tokenCount)
  have swapped : (tokenOrder grammar).Perm
      ((List.range grammar.tokenCount).take grammar.endToken ++
        (List.range grammar.tokenCount).drop grammar.endToken) := List.perm_append_comm
  rwa [whole] at swapped

theorem row_shift_reduce_eq (state : Nat)
    (filled : (row grammar (Follows.ofGrammar grammar) graph state).failure = none) :
    (row grammar (Follows.ofGrammar grammar) graph state).conflicts.shiftReduce =
      (tokenOrder grammar).filterMap fun token =>
        (outcome grammar graph state token).defaulted?.map fun production =>
          ⟨token, production, state⟩ := by
  have allowed := (row_failure_eq_none_iff grammar graph state).mp filled
  have order : ((List.range grammar.tokenCount).map fun token =>
        (token, outcome grammar graph state token)).drop grammar.endToken ++
      ((List.range grammar.tokenCount).map fun token =>
        (token, outcome grammar graph state token)).take grammar.endToken =
      (tokenOrder grammar).map fun token => (token, outcome grammar graph state token) := by
    rw [← List.map_drop, ← List.map_take, ← List.map_append]
    rfl
  have decided : ((tokenOrder grammar).map fun token =>
        (token, outcome grammar graph state token)).takeWhile
        (fun resolved => resolved.2.forbidden?.isNone) =
      (tokenOrder grammar).map fun token => (token, outcome grammar graph state token) := by
    rw [List.takeWhile_eq_self_iff]
    intro resolved member
    rcases List.mem_map.mp member with ⟨token, inside, same⟩
    have bound := List.mem_range.mp ((token_order_perm grammar).mem_iff.mp inside)
    rw [← same, Option.isNone_iff_eq_none]
    exact allowed token bound
  change List.filterMap _ (List.takeWhile _ (_ ++ _)) = _
  change List.filterMap (fun resolved : Nat × Resolution =>
    resolved.2.defaulted?.map fun production => ShiftReduceConflict.mk resolved.1 production state)
    (List.takeWhile (fun resolved => resolved.2.forbidden?.isNone)
      (((List.range grammar.tokenCount).map fun token =>
        (token, outcome grammar graph state token)).drop grammar.endToken ++
      ((List.range grammar.tokenCount).map fun token =>
        (token, outcome grammar graph state token)).take grammar.endToken)) = _
  rw [order, decided, List.filterMap_map]
  rfl

theorem row_shift_reduce_nodup (state : Nat)
    (filled : (row grammar (Follows.ofGrammar grammar) graph state).failure = none) :
    (row grammar (Follows.ofGrammar grammar) graph state).conflicts.shiftReduce.Nodup := by
  rw [row_shift_reduce_eq state filled]
  have distinct : (tokenOrder grammar).Nodup :=
    (token_order_perm grammar).nodup_iff.mpr List.nodup_range
  apply distinct.filterMap
  intro token other conflict one two
  rcases Option.map_eq_some_iff.mp one with ⟨_, _, first⟩
  rcases Option.map_eq_some_iff.mp two with ⟨_, _, second⟩
  have tokens := congrArg ShiftReduceConflict.token (first.trans second.symm)
  exact tokens

/-- The conflicts of a table are those of its rows, none of which fails. -/
theorem conflicts_of_rows (table : Table) (made : (ofGraph grammar graph).value = .ok table) :
    (∀ state, state < graph.stateCount →
      (row grammar (Follows.ofGrammar grammar) graph state).failure = none) ∧
    table.conflicts.shiftReduce = (List.range graph.stateCount).flatMap (fun state =>
      (row grammar (Follows.ofGrammar grammar) graph state).conflicts.shiftReduce) ∧
    table.conflicts.reduceReduce = (List.range graph.stateCount).flatMap (fun state =>
      (row grammar (Follows.ofGrammar grammar) graph state).conflicts.reduceReduce) := by
  simp only [ofGraph] at made
  split at made
  · cases made
  · rename_i filled
    have clean := clean_of_collect _ filled
    have all := collect_eq_of_clean _ clean
    cases made
    refine ⟨?_, ?_, ?_⟩
    · intro state bound
      exact clean _ (List.mem_map.mpr ⟨state, List.mem_range.mpr bound, rfl⟩)
    · simp only [all, List.flatMap_map]
    · simp only [all, List.flatMap_map]

theorem mem_row_reduce_reduce (state : Nat) (conflict : ReduceReduceConflict) :
    conflict ∈ (row grammar (Follows.ofGrammar grammar) graph state).conflicts.reduceReduce ↔
      ∃ clash ∈ clashes grammar (Follows.ofGrammar grammar) []
          (reductions grammar (graph.closed state)),
        conflict = ⟨clash.kept, clash.discarded, state⟩ := by
  simp only [row, List.mem_eraseDups, List.mem_map, eq_comm]

variable {table : Table} (wellFormed : grammar.WellFormed)
  (made : (ofGraph grammar graph).value = .ok table)

include made

theorem shift_reduce_nodup : table.conflicts.shiftReduce.Nodup := by
  rcases conflicts_of_rows table made with ⟨clean, rows, _⟩
  rw [rows]
  apply nodup_of_numbered _ _ ShiftReduceConflict.state List.nodup_range
  · intro state inside conflict member
    rw [row_shift_reduce_eq state (clean state (List.mem_range.mp inside))] at member
    rcases List.mem_filterMap.mp member with ⟨token, _, found⟩
    rcases Option.map_eq_some_iff.mp found with ⟨production, _, same⟩
    rw [← same]
  · intro state inside
    exact row_shift_reduce_nodup state (clean state (List.mem_range.mp inside))

include wellFormed in
theorem mem_shift_reduce_iff (conflict : ShiftReduceConflict) :
    conflict ∈ table.conflicts.shiftReduce ↔ Undecided grammar graph conflict := by
  rcases conflicts_of_rows table made with ⟨clean, rows, _⟩
  rw [rows, List.mem_flatMap]
  constructor
  · intro member
    rcases member with ⟨state, inside, recorded⟩
    have bound := List.mem_range.mp inside
    rw [row_shift_reduce_eq state (clean state bound), List.mem_filterMap] at recorded
    rcases recorded with ⟨token, ordered, found⟩
    rcases Option.map_eq_some_iff.mp found with ⟨production, defaulted, same⟩
    rcases (outcome_defaulted_iff wellFormed).mp defaulted with ⟨first, shiftable, unranked⟩
    rw [← same]
    exact ⟨bound, List.mem_range.mp ((token_order_perm grammar).mem_iff.mp ordered), first,
      shiftable, unranked⟩
  · intro undecided
    refine ⟨conflict.state, List.mem_range.mpr undecided.state, ?_⟩
    rw [row_shift_reduce_eq _ (clean _ undecided.state), List.mem_filterMap]
    have ordered := (token_order_perm grammar).mem_iff.mpr (List.mem_range.mpr undecided.token)
    have defaulted := (outcome_defaulted_iff wellFormed).mpr
      ⟨undecided.first, undecided.shiftable, undecided.unranked⟩
    refine ⟨conflict.token, ordered, ?_⟩
    rw [defaulted]
    rfl

theorem reduce_reduce_nodup : table.conflicts.reduceReduce.Nodup := by
  rcases conflicts_of_rows table made with ⟨_, _, rows⟩
  rw [rows]
  apply nodup_of_numbered _ _ ReduceReduceConflict.state List.nodup_range
  · intro state _ conflict member
    rcases (mem_row_reduce_reduce state conflict).mp member with ⟨clash, _, same⟩
    rw [same]
  · intro state _
    exact erase_dups_nodup _

theorem rivals_of_mem (distinct : ∀ state, (graph.closed state).Nodup)
    (conflict : ReduceReduceConflict) (member : conflict ∈ table.conflicts.reduceReduce) :
    Rivals grammar graph conflict := by
  rcases conflicts_of_rows table made with ⟨_, _, rows⟩
  rw [rows] at member
  rcases List.mem_flatMap.mp member with ⟨state, inside, recorded⟩
  rcases (mem_row_reduce_reduce state conflict).mp recorded with ⟨clash, met, same⟩
  have between := clashes_between [] _ (reductions_nodup (distinct state)) clash met
  rw [List.nil_append] at between
  rw [same]
  exact ⟨List.mem_range.mp inside, between.ordered, clash.token, between.token,
    (mem_reductions_allowed_iff _).mp between.kept,
    (mem_reductions_allowed_iff _).mp between.discarded⟩

theorem exists_discarding {state token first production : Nat} (bound : state < graph.stateCount)
    (tokenBound : token < grammar.tokenCount)
    (least : FirstReducible grammar graph state token first)
    (reducible : Reducible grammar graph state token production) (other : production ≠ first) :
    ∃ conflict ∈ table.conflicts.reduceReduce,
      conflict.state = state ∧ conflict.discarded = production := by
  have smaller : first < production :=
    Nat.lt_of_le_of_ne (least.least production reducible) (Ne.symm other)
  have own := List.mem_filter.mp ((mem_reductions_allowed_iff production).mpr reducible)
  have rival := (mem_reductions_allowed_iff first).mpr least.toReducible
  rcases later_is_discarded token tokenBound [] _ production first own.1 own.2 rival smaller with
    ⟨clash, met, discarded⟩
  rcases conflicts_of_rows table made with ⟨_, _, rows⟩
  refine ⟨⟨clash.kept, clash.discarded, state⟩, ?_, rfl, discarded⟩
  rw [rows]
  exact List.mem_flatMap.mpr ⟨state, List.mem_range.mpr bound,
    (mem_row_reduce_reduce state _).mpr ⟨clash, met, rfl⟩⟩

end Lists

/-- The lists are empty exactly if nothing is left to decide by default. -/
theorem no_conflicts_iff {grammar : Grammar} {graph : StateGraph} {conflicts : Conflicts}
    (shiftReduce : ∀ conflict, conflict ∈ conflicts.shiftReduce ↔ Undecided grammar graph conflict)
    (reduceReduce : ∀ conflict ∈ conflicts.reduceReduce, Rivals grammar graph conflict)
    (discarded : ∀ state token first production, state < graph.stateCount →
      token < grammar.tokenCount → FirstReducible grammar graph state token first →
      Reducible grammar graph state token production → production ≠ first →
        ∃ conflict ∈ conflicts.reduceReduce,
          conflict.state = state ∧ conflict.discarded = production) :
    conflicts.isEmpty = true ↔ ∀ state token, state < graph.stateCount →
      token < grammar.tokenCount → RankDecided grammar graph state token := by
  rw [Conflicts.isEmpty, Bool.and_eq_true, List.isEmpty_iff, List.isEmpty_iff]
  constructor
  · intro empty state token bound tokenBound
    have first_alone : ∀ first, FirstReducible grammar graph state token first →
        ∀ production, Reducible grammar graph state token production → production = first := by
      intro first least production reducible
      by_contra other
      rcases discarded state token first production bound tokenBound least reducible other with
        ⟨conflict, member, _⟩
      rw [empty.2] at member
      cases member
    constructor
    · intro one other first second
      rcases exists_first_reducible first with ⟨least, ahead⟩
      rw [first_alone least ahead one first, first_alone least ahead other second]
    · intro production reducible shiftable unranked
      rcases exists_first_reducible reducible with ⟨least, ahead⟩
      rw [← first_alone least ahead production reducible] at ahead
      have recorded := (shiftReduce ⟨token, production, state⟩).mpr
        ⟨bound, tokenBound, ahead, shiftable, unranked⟩
      rw [empty.1] at recorded
      cases recorded
  · intro decided
    constructor
    · rw [List.eq_nil_iff_forall_not_mem]
      intro conflict member
      have open_cell := (shiftReduce conflict).mp member
      have ranked := (decided _ _ open_cell.state open_cell.token).ranked
      exact ranked _ open_cell.first.toReducible open_cell.shiftable open_cell.unranked
    · rw [List.eq_nil_iff_forall_not_mem]
      intro conflict member
      have rivals := reduceReduce conflict member
      rcases rivals.cell with ⟨token, tokenBound, kept, discarded⟩
      have same := (decided _ token rivals.state tokenBound).alone _ _ kept discarded
      exact Nat.ne_of_lt rivals.ordered same

/-- Whenever a table is made for a compiled grammar, its conflicts are reported exactly. -/
theorem conflicts_are_exactly_reported {α π : Type} (width : IndexWidth)
    (declarations : Declarations α π) (grammar : Grammar)
    (compiled : Grammar.compile width declarations = .ok grammar) (table : Table)
    (made : (ofGraph grammar (StateGraph.ofGrammar grammar)).value = .ok table) :
    ExactlyReported grammar (StateGraph.ofGrammar grammar) table.conflicts := by
  have wellFormed := Grammar.compile_well_formed width declarations grammar compiled
  have distinct := StateGraph.of_grammar_closed_nodup grammar wellFormed.nonempty
  have shiftReduce := mem_shift_reduce_iff wellFormed made
  have reduceReduce := rivals_of_mem made distinct
  have discarded := fun state token first production =>
    @exists_discarding _ _ _ made state token first production
  exact
    { shiftReduceOnce := shift_reduce_nodup made
      shiftReduce
      reduceReduceOnce := reduce_reduce_nodup made
      reduceReduce
      discarded
      quiet := no_conflicts_iff shiftReduce reduceReduce discarded }

end Table

/-! A sign behind which nothing may follow, any number of times and in two ways: the end of the input,
the one nothing and the other compete for one cell. -/

namespace Nothings

def declarations : Declarations Nat Nat where
  literals := ['x']
  productions := [⟨"S : S A | 'x'", none⟩, ⟨"A : | B", none⟩, ⟨"B :", none⟩]

def grammar : Grammar where
  ruleNames := #["^", "S", "A", "B"]
  namedTokens := #[⟨"x", none⟩]
  productions := #[
    ⟨1, [.rule 1, .rule 2], none, some 0⟩,
    ⟨1, [.token 0], none, some 0⟩,
    ⟨2, [], none, some 1⟩,
    ⟨2, [.rule 3], none, some 1⟩,
    ⟨3, [], none, some 2⟩,
    ⟨0, [.rule 1], none, none⟩]
  expectShiftReduce := none
  expectReduceReduce := none

theorem compiled : Grammar.compile .bits32 declarations = .ok grammar := by cbv

end Nothings

namespace Table

set_option maxRecDepth 12000 in
theorem nothings_compete_with_end :
    Undecided Nothings.grammar (StateGraph.ofGrammar Nothings.grammar) ⟨1, 2, 1⟩ ∧
      Rivals Nothings.grammar (StateGraph.ofGrammar Nothings.grammar) ⟨2, 4, 1⟩ := by
  have recorded : (ofGraph Nothings.grammar
      (StateGraph.ofGrammar Nothings.grammar)).value.toOption.map Table.conflicts =
        some ⟨[⟨1, 2, 1⟩], [⟨2, 4, 1⟩]⟩ := by cbv
  cases made : (ofGraph Nothings.grammar (StateGraph.ofGrammar Nothings.grammar)).value with
  | error error =>
      rw [made] at recorded
      cases recorded
  | ok table =>
      rw [made] at recorded
      have conflicts : table.conflicts = ⟨[⟨1, 2, 1⟩], [⟨2, 4, 1⟩]⟩ := Option.some.inj recorded
      have reported := conflicts_are_exactly_reported .bits32 Nothings.declarations
        Nothings.grammar Nothings.compiled table made
      rw [conflicts] at reported
      exact ⟨(reported.shiftReduce _).mp List.mem_cons_self,
        reported.reduceReduce _ List.mem_cons_self⟩

end Table

end SlrKit
