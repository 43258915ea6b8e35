import SlrKit.Proofs.Table.ConflictReports
import SlrKit.Table.Fill

/-!
# Tables filled cell by cell

Filling a table cell by cell comes to the same table, or the same refusal, as looking at all candidates
of a cell at once: after some productions a cell holds the first of those that can be reduced, and what
was recorded meanwhile are their clashes; a shift then finds the choice made. Nothing is ever entered
where a shift or accepting stands, as long as no edge leads over the end of the input.
-/

set_option autoImplicit false

namespace SlrKit

section Folds

variable {σ τ ε : Type}

/-- A fold whose steps can fail either keeps an invariant up to its end or fails at some item. -/
theorem fold_keeps_or_fails (step : σ → τ → Except ε σ) (keeps : List τ → σ → Prop)
    (fails : List τ → τ → ε → Prop) (items : List τ)
    (advance : ∀ front item back current, items = front ++ item :: back → keeps front current →
      (∃ next, step current item = .ok next ∧ keeps (front ++ [item]) next) ∨
        ∃ error, step current item = .error error ∧ fails front item error)
    (start : σ) (initial : keeps [] start) :
    (∃ final, items.foldlM step start = .ok final ∧ keeps items final) ∨
      ∃ front item back error, items = front ++ item :: back ∧
        items.foldlM step start = .error error ∧ fails front item error := by
  have from_front : ∀ back front current, items = front ++ back → keeps front current →
      (∃ final, back.foldlM step current = .ok final ∧ keeps items final) ∨
        ∃ front item rest error, items = front ++ item :: rest ∧
          back.foldlM step current = .error error ∧ fails front item error := by
    intro back
    induction back with
    | nil =>
        intro front current whole kept
        rw [List.append_nil] at whole
        rw [whole]
        exact Or.inl ⟨current, rfl, kept⟩
    | cons item back ih =>
        intro front current whole kept
        rw [List.foldlM_cons]
        rcases advance front item back current whole kept with
          ⟨next, stepped, held⟩ | ⟨error, stopped, failed⟩
        · rw [stepped]
          exact ih (front ++ [item]) next (by rw [whole]; simp) held
        · rw [stopped]
          exact Or.inr ⟨front, item, back, error, whole, rfl, failed⟩
  exact from_front items [] start rfl initial

theorem fold_keeps (step : σ → τ → Except ε σ) (keeps : List τ → σ → Prop) (items : List τ)
    (advance : ∀ front item back current, items = front ++ item :: back → keeps front current →
      ∃ next, step current item = .ok next ∧ keeps (front ++ [item]) next)
    (start : σ) (initial : keeps [] start) :
    ∃ final, items.foldlM step start = .ok final ∧ keeps items final := by
  have outcome := fold_keeps_or_fails step keeps (fun _ _ _ => False) items
    (fun front item back current whole kept => Or.inl (advance front item back current whole kept))
    start initial
  rcases outcome with kept | ⟨_, _, _, _, _, _, never⟩
  · exact kept
  · exact never.elim

end Folds

namespace Table

namespace Filling

theorem cell_put (filling : Filling) (token other : Nat) (cell : Cell)
    (bound : token < filling.cells.length) :
    (filling.put token cell).cell other = if token = other then cell else filling.cell other := by
  simp only [Filling.cell, put, List.getElem?_set]
  split
  · rfl
  · rfl

theorem length_put (filling : Filling) (token : Nat) (cell : Cell) :
    (filling.put token cell).cells.length = filling.cells.length :=
  List.length_set

theorem cells_note_reduction (filling : Filling) (conflict : ReduceReduceConflict) :
    (filling.noteReduction conflict).cells = filling.cells := by
  unfold noteReduction
  split
  · rfl
  · rfl

section Reductions

variable (grammar : Grammar) (follows : Follows) (graph : StateGraph) (state : Nat)

/-- What a cell holds when some productions have been entered. -/
def chosen (done : List Nat) (token : Nat) : Cell :=
  (reduction? grammar follows done token).elim .error .reduce

def recorded (met : List Clash) : List ReduceReduceConflict :=
  (met.map fun clash => ReduceReduceConflict.mk clash.kept clash.discarded state).eraseDups

/-- Where productions `done` have been entered, and one more on the tokens in `front`. -/
structure ReducedOn (done : List Nat) (production : Nat) (front : List Nat) (filling : Filling) :
    Prop where
  length : filling.cells.length = grammar.tokenCount
  cell : ∀ token, token < grammar.tokenCount → filling.cell token =
    chosen grammar follows (if token ∈ front then done ++ [production] else done) token
  conflicts : filling.conflicts = ⟨[], recorded state (clashes grammar follows [] done ++
    front.filterMap fun token => (reduction? grammar follows done token).map fun rival =>
      ⟨min production rival, max production rival, token⟩)⟩

structure Reduced (done : List Nat) (filling : Filling) : Prop where
  length : filling.cells.length = grammar.tokenCount
  cell : ∀ token, token < grammar.tokenCount → filling.cell token = chosen grammar follows done token
  conflicts : filling.conflicts = ⟨[], recorded state (clashes grammar follows [] done)⟩

variable {grammar : Grammar} {follows : Follows} {state : Nat}

theorem recorded_snoc (met : List Clash) (clash : Clash) :
    recorded state (met ++ [clash]) =
      if (recorded state met).contains ⟨clash.kept, clash.discarded, state⟩ then recorded state met
      else recorded state met ++ [⟨clash.kept, clash.discarded, state⟩] := by
  rw [recorded, List.map_append, List.map_singleton, erase_dups_snoc]
  simp only [recorded, List.contains_iff_mem, List.mem_eraseDups]

theorem note_reduction_conflicts (filling : Filling) (met : List Clash) (clash : Clash)
    (before : filling.conflicts = ⟨[], recorded state met⟩) :
    (filling.noteReduction ⟨clash.kept, clash.discarded, state⟩).conflicts =
      ⟨[], recorded state (met ++ [clash])⟩ := by
  rw [recorded_snoc, noteReduction, before]
  split
  · exact before
  · rfl

theorem clashes_append (earlier front back : List Nat) :
    clashes grammar follows earlier (front ++ back) =
      clashes grammar follows earlier front ++ clashes grammar follows (earlier ++ front) back := by
  induction front generalizing earlier with
  | nil => simp [clashes]
  | cons production front ih =>
      rw [List.cons_append, clashes, clashes, ih, List.append_assoc, List.append_assoc,
        List.singleton_append]

theorem reduce_on_keeps (done : List Nat) (production token : Nat) (fresh : production ∉ done)
    (bound : token < grammar.tokenCount) (allowed : allows grammar follows token production = true)
    (front : List Nat) (new : token ∉ front) (filling : Filling)
    (reduced : ReducedOn grammar follows state done production front filling) :
    ∃ next, reduceOn state production filling token = .ok next ∧
      ReducedOn grammar follows state done production (front ++ [token]) next := by
  have here := reduced.cell token bound
  rw [if_neg new] at here
  have inside : token < filling.cells.length := by rw [reduced.length]; exact bound
  have elsewhere : ∀ other, token ≠ other → (other ∈ front ++ [token] ↔ other ∈ front) := by
    intro other differ
    simp [Ne.symm differ]
  cases found : reduction? grammar follows done token with
  | none =>
      have nothing := List.min?_eq_none_iff.mp found
      have choice : chosen grammar follows (done ++ [production]) token = .reduce production := by
        rw [chosen, reduction_of_new_best done production allowed (by simp [nothing])]
        rfl
      rw [chosen, found, Option.elim_none] at here
      refine ⟨filling.put token (.reduce production), by simp only [reduceOn, here], ?_⟩
      constructor
      · rw [length_put, reduced.length]
      · intro other otherBound
        rw [cell_put _ _ _ _ inside]
        split
        · rename_i same
          rw [← same, if_pos (List.mem_append_right front List.mem_cons_self), choice]
        · rename_i differ
          rw [reduced.cell other otherBound]
          simp only [elsewhere other differ]
      · rw [List.filterMap_append, List.filterMap_cons, found, Option.map_none, List.filterMap_nil,
          List.append_nil]
        exact reduced.conflicts
  | some rival =>
      have among := List.mem_filter.mp (List.min?_mem found)
      have least := (List.min?_eq_some_iff.mp found).2
      have differ : rival ≠ production := fun same => fresh (same ▸ among.1)
      have choice : chosen grammar follows (done ++ [production]) token =
          .reduce (min production rival) := by
        rw [chosen]
        rcases Nat.le_total production rival with before | behind
        · rw [reduction_of_new_best done production allowed
            fun other member => Nat.le_trans before (least other member), Nat.min_eq_left before]
          rfl
        · rw [reduction_of_old_best done production rival found fun _ => behind,
            Nat.min_eq_right behind]
          rfl
      rw [chosen, found, Option.elim_some] at here
      refine ⟨(filling.put token (.reduce (min production rival))).noteReduction
        ⟨min production rival, max production rival, state⟩,
        by simp only [reduceOn, here, if_neg differ], ?_⟩
      constructor
      · rw [cells_note_reduction, length_put, reduced.length]
      · intro other otherBound
        have same_cells : ∀ conflict, ((filling.put token (.reduce (min production rival))).noteReduction
            conflict).cell other = (filling.put token (.reduce (min production rival))).cell other := by
          intro conflict
          rw [Filling.cell, cells_note_reduction]
          rfl
        rw [same_cells, cell_put _ _ _ _ inside]
        split
        · rename_i same
          rw [← same, if_pos (List.mem_append_right front List.mem_cons_self), choice]
        · rename_i differ
          rw [reduced.cell other otherBound]
          simp only [elsewhere other differ]
      · rw [List.filterMap_append, List.filterMap_cons, found, Option.map_some, List.filterMap_nil,
          ← List.append_assoc]
        exact note_reduction_conflicts _ _ ⟨min production rival, max production rival, token⟩
          reduced.conflicts

theorem reduction_snoc_barred (done : List Nat) (production token : Nat)
    (barred : ¬allows grammar follows token production = true) :
    reduction? grammar follows (done ++ [production]) token =
      reduction? grammar follows done token := by
  rw [reduction?, reduction?, List.filter_append, List.filter_singleton,
    Bool.eq_false_iff.mpr barred, cond_false, List.append_nil]

theorem reduce_all_keeps (done : List Nat) (production : Nat) (fresh : production ∉ done)
    (filling : Filling) (reduced : Reduced grammar follows state done filling) :
    ∃ next, reduceAll grammar follows state filling production = .ok next ∧
      Reduced grammar follows state (done ++ [production]) next := by
  let tokens := (follows.ofRule (grammar.ruleOf production)).below grammar.tokenCount
  have distinct : tokens.Nodup := List.nodup_range.filter _
  have started : ReducedOn grammar follows state done production [] filling :=
    { length := reduced.length
      cell := fun token bound => reduced.cell token bound
      conflicts := by simpa using reduced.conflicts }
  have entered := fold_keeps (reduceOn state production)
    (ReducedOn grammar follows state done production) tokens
    (by
      intro front token back current whole kept
      have member : token ∈ tokens := by simp [whole]
      have inside := (IndexSet.mem_below _ _ token).mp member
      rw [whole, List.nodup_append] at distinct
      have new : token ∉ front :=
        fun again => distinct.2.2 token again token List.mem_cons_self rfl
      exact reduce_on_keeps done production token fresh inside.1 inside.2 front new current kept)
    filling started
  rcases entered with ⟨next, folded, kept⟩
  refine ⟨next, folded, kept.length, ?_, ?_⟩
  · intro token bound
    rw [kept.cell token bound]
    split
    · rfl
    · rename_i absent
      have barred : ¬allows grammar follows token production = true :=
        fun allowed => absent ((IndexSet.mem_below _ _ token).mpr ⟨bound, allowed⟩)
      rw [chosen, chosen, reduction_snoc_barred done production token barred]
  · rw [kept.conflicts, clashes_append, List.nil_append, clashes, clashes, List.append_nil]

/-- After all productions of a state, every cell holds the first that can be reduced. -/
theorem reductions_keep (reducible : List Nat) (distinct : reducible.Nodup) :
    ∃ filling, reducible.foldlM (reduceAll grammar follows state) (blank grammar) = .ok filling ∧
      Reduced grammar follows state reducible filling := by
  apply fold_keeps (reduceAll grammar follows state) (Reduced grammar follows state)
  · intro front production back current whole kept
    rw [whole, List.nodup_append] at distinct
    have fresh : production ∉ front :=
      fun again => distinct.2.2 production again production List.mem_cons_self rfl
    exact reduce_all_keeps front production fresh current kept
  · constructor
    · exact List.length_replicate
    · intro token bound
      simp [Filling.cell, blank, chosen, reduction?, bound]
    · rfl

end Reductions

section Shifts

variable (grammar : Grammar) (graph : StateGraph) (state : Nat)

/-- What is recorded of the shifts on some tokens. -/
def defaults (tokens : List Nat) : List ShiftReduceConflict :=
  tokens.filterMap fun token => (outcome grammar graph state token).defaulted?.map
    fun production => ⟨token, production, state⟩

/-- Where all productions have been entered, and shifts on the tokens in `front`. -/
structure Entered (front : List Nat) (filling : Filling) : Prop where
  length : filling.cells.length = grammar.tokenCount
  cell : ∀ token, token < grammar.tokenCount → filling.cell token =
    if token ∈ front then (outcome grammar graph state token).cell
    else chosen grammar (Follows.ofGrammar grammar) (reductions grammar (graph.closed state)) token
  conflicts : filling.conflicts = ⟨defaults grammar graph state front,
    recorded state (clashes grammar (Follows.ofGrammar grammar) []
      (reductions grammar (graph.closed state)))⟩
  allowed : ∀ token ∈ front, (outcome grammar graph state token).forbidden? = none

/-- Does with a token what can be done without reducing first. -/
def visit (filling : Filling) (token : Nat) : Except Stop Filling :=
  match shift? grammar graph state token with
  | none => .ok filling
  | some shift => filling.enter grammar state token shift

variable {grammar : Grammar} {graph : StateGraph} {state : Nat}

theorem enter_eq_settle (filling : Filling) (token : Nat) (shift : Cell)
    (here : filling.cell token =
      chosen grammar (Follows.ofGrammar grammar) (reductions grammar (graph.closed state)) token)
    (found : shift? grammar graph state token = some shift) :
    filling.enter grammar state token shift =
      filling.settle state token (outcome grammar graph state token) := by
  unfold outcome resolution
  rw [found]
  cases choice : reduction? grammar (Follows.ofGrammar grammar)
      (reductions grammar (graph.closed state)) token with
  | none =>
      rw [chosen, choice, Option.elim_none] at here
      rw [enter, here]
      rfl
  | some production =>
      rw [chosen, choice, Option.elim_some] at here
      rw [enter, here]

theorem outcome_of_no_shift (token : Nat) (missing : shift? grammar graph state token = none) :
    outcome grammar graph state token = .settled (chosen grammar (Follows.ofGrammar grammar)
      (reductions grammar (graph.closed state)) token) := by
  unfold outcome resolution
  rw [missing, chosen]
  cases reduction? grammar (Follows.ofGrammar grammar) (reductions grammar (graph.closed state))
      token with
  | none => rfl
  | some production => rfl

theorem defaults_snoc (front : List Nat) (token : Nat) :
    defaults grammar graph state (front ++ [token]) = defaults grammar graph state front ++
      ((outcome grammar graph state token).defaulted?.map fun production =>
        ShiftReduceConflict.mk token production state).toList := by
  rw [defaults, List.filterMap_append]
  rfl

theorem Entered.more {front : List Nat} {token : Nat} {filling next : Filling}
    (entered : Entered grammar graph state front filling)
    (length : next.cells.length = filling.cells.length)
    (cell : ∀ other, next.cell other =
      if token = other then (outcome grammar graph state token).cell else filling.cell other)
    (conflicts : next.conflicts = ⟨filling.conflicts.shiftReduce ++
      ((outcome grammar graph state token).defaulted?.map fun production =>
        ShiftReduceConflict.mk token production state).toList, filling.conflicts.reduceReduce⟩)
    (allowed : (outcome grammar graph state token).forbidden? = none) :
    Entered grammar graph state (front ++ [token]) next := by
  constructor
  · rw [length, entered.length]
  · intro other bound
    rw [cell other]
    by_cases same : token = other
    · rw [if_pos same, ← same, if_pos (List.mem_append_right front List.mem_cons_self)]
    · have before : other ∈ front ++ [token] ↔ other ∈ front := by simp [Ne.symm same]
      rw [if_neg same, entered.cell other bound]
      simp only [before]
  · rw [conflicts, defaults_snoc, entered.conflicts]
  · intro other member
    rcases List.mem_append.mp member with earlier | last
    · exact entered.allowed other earlier
    · rw [List.mem_singleton.mp last]
      exact allowed

/-- Dealing with a further token gives its cell the outcome, unless precedences forbid one. -/
theorem visit_keeps_or_fails (front : List Nat) (token : Nat) (new : token ∉ front)
    (bound : token < grammar.tokenCount) (filling : Filling)
    (entered : Entered grammar graph state front filling) :
    (∃ next, visit grammar graph state filling token = .ok next ∧
      Entered grammar graph state (front ++ [token]) next) ∨
    ∃ error, visit grammar graph state filling token = .error error ∧
      ∃ production, (outcome grammar graph state token).forbidden? = some production ∧
        error = .refused ⟨token, production, state⟩ := by
  have here := entered.cell token bound
  rw [if_neg new] at here
  have inside : token < filling.cells.length := by rw [entered.length]; exact bound
  cases found : shift? grammar graph state token with
  | none =>
      have outcome := outcome_of_no_shift token found
      refine Or.inl ⟨filling, by rw [visit, found], ?_⟩
      apply entered.more rfl
      · intro other
        split
        · rename_i same
          rw [← same, here, outcome]
          rfl
        · rfl
      · simp [outcome, Resolution.defaulted?]
      · rw [outcome]
        rfl
  | some shift =>
      have stepped : visit grammar graph state filling token =
          filling.settle state token (outcome grammar graph state token) := by
        rw [← enter_eq_settle filling token shift here found, visit, found]
      cases decided : outcome grammar graph state token with
      | settled cell =>
          rw [decided] at stepped
          refine Or.inl ⟨filling.put token cell, stepped, ?_⟩
          apply entered.more (length_put filling token cell)
          · intro other
            rw [cell_put _ _ _ _ inside, decided]
            rfl
          · simp [put, decided, Resolution.defaulted?]
          · rw [decided]
            rfl
      | byDefault cell production =>
          rw [decided] at stepped
          let next := (filling.put token cell).noteShift ⟨token, production, state⟩
          have length : next.cells.length = filling.cells.length := length_put filling token cell
          refine Or.inl ⟨next, stepped, ?_⟩
          apply entered.more length
          · intro other
            have kept := cell_put filling token other cell inside
            rw [decided]
            exact kept
          · simp [next, put, noteShift, decided, Resolution.defaulted?]
          · rw [decided]
            rfl
      | forbidden production =>
          rw [decided] at stepped
          exact Or.inr ⟨_, stepped, production, rfl, rfl⟩

end Shifts

section Row

variable {grammar : Grammar} {graph : StateGraph} {state : Nat}

theorem token_order_eq (grammar : Grammar) :
    tokenOrder grammar = grammar.endToken :: List.range grammar.endToken := by
  have count : grammar.tokenCount = grammar.endToken + 1 := rfl
  have length : (List.range grammar.endToken).length = grammar.endToken := List.length_range
  rw [tokenOrder, count, List.range_succ, List.drop_left' length, List.take_left' length,
    List.singleton_append]

theorem completes_start_iff (wellFormed : grammar.WellFormed) (closed : ItemSet) :
    (closed.completed grammar).contains grammar.startProduction =
      closed.contains (Item.finish grammar) := by
  have length : (grammar.symbols grammar.startProduction).length = 1 := by
    rw [wellFormed.start_symbols_eq]
    rfl
  rw [Bool.eq_iff_iff, List.contains_iff_mem, List.contains_iff_mem, ItemSet.completed, List.mem_map]
  constructor
  · intro completed
    rcases completed with ⟨item, member, same⟩
    have inside := List.mem_filter.mp member
    have dot : item.dot = 1 := by
      rw [← length, ← same]
      exact beq_iff_eq.mp inside.2
    have whole : item = Item.finish grammar := by
      rw [Item.finish, ← same, ← dot]
    rw [← whole]
    exact inside.1
  · intro member
    refine ⟨Item.finish grammar, List.mem_filter.mpr ⟨member, ?_⟩, rfl⟩
    rw [Item.isComplete, beq_iff_eq, Item.finish, length]

variable (wellFormed : grammar.WellFormed)
  (endless : graph.edge? state (.token grammar.endToken) = none)

include endless

theorem shift_at_end (filling : Filling) :
    shiftOn grammar graph state filling grammar.endToken = .ok filling := by
  rw [shiftOn, endless]

include wellFormed in
theorem accept_at_end (filling : Filling) :
    filling.acceptAtEnd grammar graph state = visit grammar graph state filling grammar.endToken := by
  rw [acceptAtEnd, completes_start_iff wellFormed, visit, shift?, endless]
  by_cases finishes : (graph.closed state).contains (Item.finish grammar) = true
  · rw [if_pos finishes, if_pos ⟨rfl, finishes⟩]
  · rw [if_neg finishes, if_neg fun both => finishes both.2]
    rfl

omit endless in
theorem shift_before_end (filling : Filling) (token : Nat) (other : token ≠ grammar.endToken) :
    shiftOn grammar graph state filling token = visit grammar graph state filling token := by
  rw [shiftOn, visit, shift?, if_neg fun both => other both.1]
  cases graph.edge? state (.token token) with
  | none => rfl
  | some target => rfl

omit endless in
theorem Entered.row_eq {filling : Filling}
    (entered : Entered grammar graph state (tokenOrder grammar) filling)
    (filled : (row grammar (Follows.ofGrammar grammar) graph state).failure = none) :
    filling = ⟨(row grammar (Follows.ofGrammar grammar) graph state).cells,
      (row grammar (Follows.ofGrammar grammar) graph state).conflicts⟩ := by
  have outcomes : (row grammar (Follows.ofGrammar grammar) graph state).cells =
      (List.range grammar.tokenCount).map fun token => (outcome grammar graph state token).cell := by
    simp only [row, List.map_map]
    rfl
  have cells : filling.cells = (row grammar (Follows.ofGrammar grammar) graph state).cells := by
    rw [outcomes]
    apply List.ext_getElem
    · rw [entered.length, List.length_map, List.length_range]
    · intro token inside _
      have bound : token < grammar.tokenCount := by rw [← entered.length]; exact inside
      have seen : token ∈ tokenOrder grammar :=
        (token_order_perm grammar).mem_iff.mpr (List.mem_range.mpr bound)
      have here := entered.cell token bound
      rw [if_pos seen, Filling.cell, List.getElem?_eq_getElem inside, Option.getD_some] at here
      rw [here, List.getElem_map, List.getElem_range]
  have shifts := row_shift_reduce_eq state filled
  have conflicts : filling.conflicts =
      (row grammar (Follows.ofGrammar grammar) graph state).conflicts := by
    rw [entered.conflicts, defaults, ← shifts]
    rfl
  rw [← cells, ← conflicts]

omit endless in
theorem row_failure_of_first (last : (outcome grammar graph state grammar.endToken).forbidden? = none)
    {front back : List Nat} {token production : Nat}
    (whole : List.range grammar.endToken = front ++ token :: back)
    (earlier : ∀ before ∈ front, (outcome grammar graph state before).forbidden? = none)
    (forbidden : (outcome grammar graph state token).forbidden? = some production) :
    (row grammar (Follows.ofGrammar grammar) graph state).failure =
      some ⟨token, production, state⟩ := by
  have nothing : front.findSome? (fun token =>
      (outcome grammar graph state token).forbidden?.map fun production =>
        TableError.mk token production state) = none := by
    rw [List.findSome?_eq_none_iff]
    intro before member
    rw [earlier before member]
    rfl
  rw [row_failure_eq_find state last, whole, List.findSome?_append, nothing, List.findSome?_cons,
    forbidden]
  rfl

omit endless in
/-- The shifts before the end either complete the row or are refused as the row is. -/
theorem shifts_enter_or_fail (last : (outcome grammar graph state grammar.endToken).forbidden? = none)
    (accepting : Filling) (entered : Entered grammar graph state [grammar.endToken] accepting) :
    (∃ filling, (List.range grammar.endToken).foldlM (shiftOn grammar graph state) accepting =
        .ok filling ∧ Entered grammar graph state (tokenOrder grammar) filling) ∨
      ∃ error, (List.range grammar.endToken).foldlM (shiftOn grammar graph state) accepting =
        .error (.refused error) ∧
          (row grammar (Follows.ofGrammar grammar) graph state).failure = some error := by
  have outcome := fold_keeps_or_fails (shiftOn grammar graph state)
    (fun front => Entered grammar graph state (grammar.endToken :: front))
    (fun front token error => (∀ earlier ∈ front,
        (outcome grammar graph state earlier).forbidden? = none) ∧
      ∃ production, (outcome grammar graph state token).forbidden? = some production ∧
        error = .refused ⟨token, production, state⟩)
    (List.range grammar.endToken)
    (by
      intro front token back current whole held
      have bound : token < grammar.endToken := List.mem_range.mp (by simp [whole])
      have separate : (front ++ token :: back).Nodup := by
        rw [← whole]
        exact List.nodup_range
      have new : token ∉ grammar.endToken :: front := by
        rw [List.mem_cons, not_or]
        refine ⟨Nat.ne_of_lt bound, ?_⟩
        intro again
        exact (List.nodup_append.mp separate).2.2 token again token List.mem_cons_self rfl
      rw [shift_before_end current token (Nat.ne_of_lt bound)]
      rcases visit_keeps_or_fails (grammar.endToken :: front) token new
        (Nat.lt_succ_of_lt bound) current held with ⟨next, moved, more⟩ | ⟨error, stopped, why⟩
      · exact Or.inl ⟨next, moved, more⟩
      · refine Or.inr ⟨error, stopped, ?_, why⟩
        intro earlier before
        exact held.allowed earlier (List.mem_cons_of_mem _ before))
    accepting entered
  rcases outcome with ⟨filling, shifted, held⟩ | ⟨front, token, back, error, whole, stopped, why⟩
  · rw [← token_order_eq] at held
    exact Or.inl ⟨filling, shifted, held⟩
  · rcases why with ⟨earlier, production, forbidden, same⟩
    rw [same] at stopped
    exact Or.inr ⟨_, stopped, row_failure_of_first last whole earlier forbidden⟩

theorem of_state_eq (wellFormed : grammar.WellFormed) (agree : grammar.LevelsAgree)
    (distinct : (graph.closed state).Nodup) :
    ofState grammar (Follows.ofGrammar grammar) graph state =
      match (row grammar (Follows.ofGrammar grammar) graph state).failure with
      | some error => .error (.refused error)
      | none => .ok ⟨(row grammar (Follows.ofGrammar grammar) graph state).cells,
          (row grammar (Follows.ofGrammar grammar) graph state).conflicts⟩ := by
  have last : (outcome grammar graph state grammar.endToken).forbidden? = none :=
    (allowed_iff wellFormed agree state grammar.endToken).mpr (end_not_forbidden state)
  have unrepeated : (reductions grammar (graph.closed state)).Nodup := reductions_nodup distinct
  have chosen_first : ∃ reduced,
      (reductions grammar (graph.closed state)).foldlM
        (reduceAll grammar (Follows.ofGrammar grammar) state) (blank grammar) = .ok reduced ∧
      Reduced grammar (Follows.ofGrammar grammar) state (reductions grammar (graph.closed state))
        reduced := reductions_keep _ unrepeated
  rcases chosen_first with ⟨reduced, folded, kept⟩
  have started : Entered grammar graph state [] reduced :=
    { length := kept.length
      cell := fun token bound => kept.cell token bound
      conflicts := kept.conflicts
      allowed := by simp }
  have count : grammar.tokenCount = grammar.endToken + 1 := rfl
  rcases visit_keeps_or_fails [] grammar.endToken (by simp) (Nat.lt_succ_self _) reduced
    started with ⟨accepting, stepped, entered⟩ | ⟨_, _, production, forbidden, _⟩
  · rw [← accept_at_end wellFormed endless] at stepped
    simp only [ofState, folded, stepped, count, List.range_succ, List.foldlM_append,
      bind, Except.bind]
    rcases shifts_enter_or_fail last accepting entered with
      ⟨filling, shifted, held⟩ | ⟨error, stopped, failed⟩
    · have filled : (row grammar (Follows.ofGrammar grammar) graph state).failure = none := by
        rw [row_failure_eq_none_iff]
        intro token bound
        exact held.allowed token
          ((token_order_perm grammar).mem_iff.mpr (List.mem_range.mpr bound))
      rw [shifted, filled, held.row_eq filled]
      simp only [List.foldlM_cons, shift_at_end endless]
      rfl
    · rw [stopped, failed]
  · rw [last] at forbidden
    cases forbidden

end Row

end Filling

end Table

end SlrKit
