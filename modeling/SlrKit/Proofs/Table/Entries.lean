import SlrKit.Proofs.Automaton.Canonical
import SlrKit.Proofs.Grammar.Levels
import SlrKit.Proofs.Table.Cells

/-!
# The entries of a table

What stands in a cell, said without the order in which cells are filled: accepting goes before
everything else, and between the shift over an edge and the first production of the grammar that
can be reduced the precedences decide. A table is not made if some cell has both and they are of
one level that does not associate; the first such cell is reported.
-/

set_option autoImplicit false

namespace SlrKit

namespace Table

section Definitions

variable (grammar : Grammar) (graph : StateGraph) (state token production : Nat)

/-- The state holds the production with the dot at its end. -/
def CompleteIn : Prop :=
  ⟨production, (grammar.symbols production).length⟩ ∈ graph.closed state

/-- A production that can be reduced in the state on the token. -/
structure Reducible : Prop where
  inner : production ≠ grammar.startProduction
  complete : CompleteIn grammar graph state production
  follows : ((Follows.ofGrammar grammar).ofRule (grammar.ruleOf production)).contains token = true

/-- The first production of the grammar that can be reduced. -/
structure FirstReducible : Prop extends Reducible grammar graph state token production where
  least : ∀ other, Reducible grammar graph state token other → production ≤ other

def Accepting : Prop :=
  token = grammar.endToken ∧ CompleteIn grammar graph state grammar.startProduction

/-- A shift of the token goes before a reduction of the production: one of them has no precedence,
or the token binds tighter, or they are of one level and the token associates to the right. -/
def ShiftsFirst : Prop :=
  grammar.tokenPrecedence token = none ∨ grammar.productionPrecedence production = none ∨
    ∃ ofToken ofProduction, grammar.tokenPrecedence token = some ofToken ∧
      grammar.productionPrecedence production = some ofProduction ∧
      (ofProduction.level < ofToken.level ∨
        ofToken.level = ofProduction.level ∧ ofToken.assoc = .right)

/-- The token and the production are of one level that does not associate. -/
def Nonassociating : Prop :=
  ∃ level, grammar.tokenPrecedence token = some ⟨level, .nonassoc⟩ ∧
    grammar.productionPrecedence production = some ⟨level, .nonassoc⟩

/-- The token could be shifted or the production reduced, and their level forbids both. -/
structure Forbidden : Prop where
  edge : ∃ target, graph.edge? state (.token token) = some target
  first : FirstReducible grammar graph state token production
  level : Nonassociating grammar token production

/-- What belongs into a cell. -/
inductive Entry : Cell → Prop
  | accept (accepting : Accepting grammar graph state token) : Entry .accept
  | shift {target : Nat} (goesOn : ¬Accepting grammar graph state token)
      (edge : graph.edge? state (.token token) = some target)
      (wins : ∀ production, FirstReducible grammar graph state token production →
        ShiftsFirst grammar token production) :
      Entry (.shift target)
  | reduce {production : Nat} (goesOn : ¬Accepting grammar graph state token)
      (first : FirstReducible grammar graph state token production)
      (wins : ∀ target, graph.edge? state (.token token) = some target →
        ¬ShiftsFirst grammar token production) :
      Entry (.reduce production)
  | error (goesOn : ¬Accepting grammar graph state token)
      (stuck : graph.edge? state (.token token) = none)
      (nothing : ∀ production, ¬Reducible grammar graph state token production) :
      Entry .error

/-- The error tells the first cell, by state and token, that precedences forbid to fill. -/
structure FirstForbidden (error : TableError) : Prop where
  state : error.state < graph.stateCount
  token : error.token < grammar.tokenCount
  forbidden : Forbidden grammar graph error.state error.token error.production
  first : ∀ state token production, state < graph.stateCount → token < grammar.tokenCount →
    Forbidden grammar graph state token production →
      error.state < state ∨ error.state = state ∧ error.token ≤ token

end Definitions

variable {grammar : Grammar} {graph : StateGraph} {state token production : Nat}

theorem FirstReducible.unique {other : Nat}
    (one : FirstReducible grammar graph state token production)
    (two : FirstReducible grammar graph state token other) : production = other :=
  Nat.le_antisymm (one.least other two.toReducible) (two.least production one.toReducible)

theorem Entry.unique {cell other : Cell} (one : Entry grammar graph state token cell)
    (two : Entry grammar graph state token other) : cell = other := by
  cases one with
  | accept accepting =>
      cases two with
      | accept _ => rfl
      | shift goesOn _ _ => exact absurd accepting goesOn
      | reduce goesOn _ _ => exact absurd accepting goesOn
      | error goesOn _ _ => exact absurd accepting goesOn
  | shift goesOn edge wins =>
      cases two with
      | accept accepting => exact absurd accepting goesOn
      | shift _ again _ =>
          rw [edge] at again
          cases again
          rfl
      | reduce _ first loses => exact absurd (wins _ first) (loses _ edge)
      | error _ stuck _ =>
          rw [edge] at stuck
          cases stuck
  | reduce goesOn first wins =>
      cases two with
      | accept accepting => exact absurd accepting goesOn
      | shift _ edge loses => exact absurd (loses _ first) (wins _ edge)
      | reduce _ again _ => rw [first.unique again]
      | error _ _ nothing => exact absurd first.toReducible (nothing _)
  | error goesOn stuck nothing =>
      cases two with
      | accept accepting => exact absurd accepting goesOn
      | shift _ edge _ =>
          rw [stuck] at edge
          cases edge
      | reduce _ first _ => exact absurd first.toReducible (nothing _)
      | error _ _ _ => rfl

section Parts

theorem complete_of_mem_reductions
    (member : production ∈ reductions grammar (graph.closed state)) :
    production ≠ grammar.startProduction ∧ CompleteIn grammar graph state production := by
  rcases (mem_reductions grammar _ production).mp member with ⟨inner, item, inside, complete, same⟩
  refine ⟨inner, ?_⟩
  rw [CompleteIn, ← same, ← beq_iff_eq.mp complete]
  exact inside

theorem reductions_nodup {closed : ItemSet} (distinct : closed.Nodup) :
    (reductions grammar closed).Nodup := by
  apply List.Nodup.filter
  apply List.Nodup.map_on _ (distinct.filter _)
  rintro ⟨first, dot⟩ member ⟨second, other⟩ again same
  have one : dot = (grammar.symbols first).length := beq_iff_eq.mp (List.mem_filter.mp member).2
  have two : other = (grammar.symbols second).length := beq_iff_eq.mp (List.mem_filter.mp again).2
  have same : first = second := same
  rw [one, two, same]

theorem clashes_of_alone (follows : Follows) (reducible : List Nat) (distinct : reducible.Nodup)
    (alone : ∀ first ∈ reducible, ∀ second ∈ reducible, first = second) :
    clashes grammar follows [] reducible = [] := by
  match reducible with
  | [] => rfl
  | [production] => simp [clashes, reduction?]
  | first :: second :: rest =>
      have same := alone first List.mem_cons_self second (List.mem_cons_of_mem _ List.mem_cons_self)
      rw [same, List.nodup_cons] at distinct
      exact absurd List.mem_cons_self distinct.1

theorem mem_reductions_allowed_iff (production : Nat) :
    production ∈ (reductions grammar (graph.closed state)).filter
        (allows grammar (Follows.ofGrammar grammar) token) ↔
      Reducible grammar graph state token production := by
  rw [← candidate_reduce_iff]
  constructor
  · rintro (_ | @⟨item, member, complete, inner, follows⟩)
    refine ⟨inner, ?_, follows⟩
    rw [CompleteIn, ← beq_iff_eq.mp complete]
    exact member
  · intro reducible
    have member : Item.mk production (grammar.symbols production).length ∈ graph.closed state :=
      reducible.complete
    exact .reduce member (beq_self_eq_true _) reducible.inner reducible.follows

theorem reduction_eq_some_iff (production : Nat) :
    reduction? grammar (Follows.ofGrammar grammar) (reductions grammar (graph.closed state)) token =
        some production ↔ FirstReducible grammar graph state token production := by
  rw [reduction?, List.min?_eq_some_iff, mem_reductions_allowed_iff]
  constructor
  · rintro ⟨reducible, least⟩
    exact ⟨reducible,
      fun other inside => least other ((mem_reductions_allowed_iff other).mpr inside)⟩
  · intro first
    exact ⟨first.toReducible,
      fun other inside => first.least other ((mem_reductions_allowed_iff other).mp inside)⟩

theorem reduction_eq_none_iff :
    reduction? grammar (Follows.ofGrammar grammar) (reductions grammar (graph.closed state)) token =
        none ↔ ∀ production, ¬Reducible grammar graph state token production := by
  rw [reduction?, List.min?_eq_none_iff, List.eq_nil_iff_forall_not_mem]
  constructor
  · intro nothing production reducible
    exact nothing production ((mem_reductions_allowed_iff production).mpr reducible)
  · intro nothing production member
    exact nothing production ((mem_reductions_allowed_iff production).mp member)

theorem end_token_precedence (grammar : Grammar) :
    grammar.tokenPrecedence grammar.endToken = none := by
  rw [Grammar.tokenPrecedence, Grammar.endToken, Array.getElem?_eq_none (Nat.le_refl _)]
  rfl

/-- The end of the input is never forbidden, as it has no precedence. -/
theorem end_not_forbidden (state production : Nat) :
    ¬Forbidden grammar graph state grammar.endToken production := by
  rintro ⟨_, _, level, own, _⟩
  rw [end_token_precedence] at own
  cases own

variable (wellFormed : grammar.WellFormed)

include wellFormed

theorem accepting_iff :
    Accepting grammar graph state token ↔
      token = grammar.endToken ∧ (graph.closed state).contains (Item.finish grammar) = true := by
  rw [Accepting, CompleteIn, wellFormed.start_symbols_eq, List.contains_iff_mem]
  rfl

theorem shift_of_accepting (accepting : Accepting grammar graph state token) :
    shift? grammar graph state token = some .accept := by
  rw [shift?, if_pos ((accepting_iff wellFormed).mp accepting)]

theorem shift_of_not_accepting (goesOn : ¬Accepting grammar graph state token) :
    shift? grammar graph state token = (graph.edge? state (.token token)).map Cell.shift := by
  rw [shift?, if_neg fun ends => goesOn ((accepting_iff wellFormed).mpr ends)]

end Parts

section Resolving

theorem resolve_of_shifts_first (production : Nat) (shift : Cell)
    (first : ShiftsFirst grammar token production) :
    (resolve grammar token production shift).cell = shift ∧
      (resolve grammar token production shift).forbidden? = none := by
  unfold resolve
  rcases first with
    missing | missing | ⟨ofToken, ofProduction, own, other, tighter | ⟨level, right⟩⟩
  · rw [missing]
    exact ⟨rfl, rfl⟩
  · rw [missing]
    cases grammar.tokenPrecedence token with
    | none => exact ⟨rfl, rfl⟩
    | some _ => exact ⟨rfl, rfl⟩
  · simp only [own, other]
    rw [if_pos tighter]
    exact ⟨rfl, rfl⟩
  · simp only [own, other]
    rw [if_neg (by omega), if_neg (by omega), right]
    exact ⟨rfl, rfl⟩

theorem resolve_of_not_shifts_first (agree : grammar.LevelsAgree) (shift : Cell)
    (later : ¬ShiftsFirst grammar token production) :
    Nonassociating grammar token production ∧
        resolve grammar token production shift = .forbidden production ∨
      ¬Nonassociating grammar token production ∧
        resolve grammar token production shift = .settled (.reduce production) := by
  cases own : grammar.tokenPrecedence token with
  | none => exact absurd (Or.inl own) later
  | some ofToken =>
      cases other : grammar.productionPrecedence production with
      | none => exact absurd (Or.inr (Or.inl other)) later
      | some ofProduction =>
          have compared : ¬(ofProduction.level < ofToken.level ∨
              ofToken.level = ofProduction.level ∧ ofToken.assoc = .right) := by
            intro wins
            exact later (Or.inr (Or.inr ⟨ofToken, ofProduction, own, other, wins⟩))
          unfold resolve Nonassociating
          simp only [own, other]
          rw [if_neg fun tighter => compared (Or.inl tighter)]
          by_cases looser : ofToken.level < ofProduction.level
          · rw [if_pos looser]
            apply Or.inr
            refine ⟨?_, rfl⟩
            rintro ⟨level, first, second⟩
            cases first
            cases second
            exact absurd looser (Nat.lt_irrefl _)
          · have level : ofToken.level = ofProduction.level := by
              by_contra differ
              exact compared (Or.inl (by omega))
            have same := agree ofToken ofProduction (Or.inl ⟨token, own⟩)
              (Or.inr ⟨production, other⟩) level
            rw [if_neg looser, ← same]
            cases assoc : ofToken.assoc with
            | left =>
                apply Or.inr
                refine ⟨?_, rfl⟩
                rintro ⟨level, first, _⟩
                cases first
                cases assoc
            | right => exact absurd (Or.inr ⟨level, assoc⟩) compared
            | nonassoc =>
                apply Or.inl
                refine ⟨⟨ofToken.level, ?_⟩, rfl⟩
                rw [← assoc]
                exact ⟨rfl, rfl⟩

theorem resolve_settled {ofToken ofProduction : Precedence}
    (own : grammar.tokenPrecedence token = some ofToken)
    (other : grammar.productionPrecedence production = some ofProduction) (shift : Cell) :
    (resolve grammar token production shift).defaulted? = none := by
  unfold resolve
  simp only [own, other]
  split
  · rfl
  · split
    · rfl
    · split
      · rfl
      · rfl
      · rfl

theorem Nonassociating.not_shifts_first (level : Nonassociating grammar token production) :
    ¬ShiftsFirst grammar token production := by
  rcases level with ⟨level, own, other⟩
  rintro (missing | missing | ⟨ofToken, ofProduction, first, second, tighter | ⟨_, right⟩⟩)
  · rw [own] at missing
    cases missing
  · rw [other] at missing
    cases missing
  · rw [own] at first
    rw [other] at second
    cases first
    cases second
    exact absurd tighter (Nat.lt_irrefl _)
  · rw [own] at first
    cases first
    cases right

end Resolving

section Outcomes

/-- What becomes of a cell: precedences forbid to fill it, or it gets what belongs into it. -/
inductive Filled (grammar : Grammar) (graph : StateGraph) (state token : Nat) : Resolution → Prop
  | forbidden {production : Nat} (forbidden : Forbidden grammar graph state token production) :
      Filled grammar graph state token (.forbidden production)
  | entry {resolution : Resolution}
      (harmless : ∀ production, ¬Forbidden grammar graph state token production)
      (allowed : resolution.forbidden? = none)
      (entry : Entry grammar graph state token resolution.cell) :
      Filled grammar graph state token resolution

variable (wellFormed : grammar.WellFormed) (agree : grammar.LevelsAgree)

include wellFormed agree

omit agree in
/-- The end of the input has no precedence, so accepting is never forbidden. -/
theorem accepting_filled (accepting : Accepting grammar graph state token) :
    Filled grammar graph state token (outcome grammar graph state token) := by
  have free : grammar.tokenPrecedence token = none := by
    rw [accepting.1]
    exact end_token_precedence grammar
  have harmless : ∀ production, ¬Forbidden grammar graph state token production := by
    rw [accepting.1]
    exact end_not_forbidden state
  unfold outcome resolution
  rw [shift_of_accepting wellFormed accepting]
  cases reduction? grammar (Follows.ofGrammar grammar)
      (reductions grammar (graph.closed state)) token with
  | none => exact .entry harmless rfl (.accept accepting)
  | some production =>
      rcases resolve_of_shifts_first production .accept (Or.inl free) with ⟨cell, allowed⟩
      apply Filled.entry harmless allowed
      rw [cell]
      exact .accept accepting

omit agree in
theorem edgeless_filled (goesOn : ¬Accepting grammar graph state token)
    (edge : graph.edge? state (.token token) = none) :
    Filled grammar graph state token (outcome grammar graph state token) := by
  have harmless : ∀ production, ¬Forbidden grammar graph state token production := by
    rintro production ⟨⟨target, found⟩, _, _⟩
    rw [edge] at found
    cases found
  unfold outcome resolution
  rw [shift_of_not_accepting wellFormed goesOn, edge]
  cases reduction : reduction? grammar (Follows.ofGrammar grammar)
      (reductions grammar (graph.closed state)) token with
  | none => exact .entry harmless rfl (.error goesOn edge (reduction_eq_none_iff.mp reduction))
  | some production =>
      apply Filled.entry harmless rfl
      apply Entry.reduce goesOn ((reduction_eq_some_iff production).mp reduction)
      intro target found
      rw [edge] at found
      cases found

omit wellFormed in
theorem contested_filled (goesOn : ¬Accepting grammar graph state token) {target : Nat}
    (edge : graph.edge? state (.token token) = some target)
    (first : FirstReducible grammar graph state token production) :
    Filled grammar graph state token (resolve grammar token production (.shift target)) := by
  by_cases wins : ShiftsFirst grammar token production
  · rcases resolve_of_shifts_first production (.shift target) wins with ⟨cell, allowed⟩
    apply Filled.entry _ allowed
    · rw [cell]
      apply Entry.shift goesOn edge
      intro other again
      rw [again.unique first]
      exact wins
    · intro other forbidden
      rw [forbidden.first.unique first] at forbidden
      exact forbidden.level.not_shifts_first wins
  · rcases resolve_of_not_shifts_first agree (.shift target) wins with
      ⟨level, decided⟩ | ⟨level, decided⟩
    · rw [decided]
      exact .forbidden ⟨⟨target, edge⟩, first, level⟩
    · rw [decided]
      apply Filled.entry _ rfl (.reduce goesOn first fun _ _ => wins)
      intro other forbidden
      rw [forbidden.first.unique first] at forbidden
      exact level forbidden.level

/-- A cell is either forbidden or filled with what belongs into it. -/
theorem outcome_filled (graph : StateGraph) (state token : Nat) :
    Filled grammar graph state token (outcome grammar graph state token) := by
  by_cases accepting : Accepting grammar graph state token
  · exact accepting_filled wellFormed accepting
  · cases edge : graph.edge? state (.token token) with
    | none => exact edgeless_filled wellFormed accepting edge
    | some target =>
        unfold outcome resolution
        rw [shift_of_not_accepting wellFormed accepting, edge]
        cases reduction : reduction? grammar (Follows.ofGrammar grammar)
            (reductions grammar (graph.closed state)) token with
        | none =>
            have nothing := reduction_eq_none_iff.mp reduction
            apply Filled.entry _ rfl
            · apply Entry.shift accepting edge
              intro production first
              exact absurd first.toReducible (nothing production)
            · intro production forbidden
              exact nothing production forbidden.first.toReducible
        | some production =>
            exact contested_filled agree accepting edge
              ((reduction_eq_some_iff production).mp reduction)

theorem forbidden_iff (state token production : Nat) :
    (outcome grammar graph state token).forbidden? = some production ↔
      Forbidden grammar graph state token production := by
  have filled := outcome_filled wellFormed agree graph state token
  generalize outcome grammar graph state token = found at filled
  cases filled with
  | forbidden forbidden =>
      constructor
      · intro same
        cases same
        exact forbidden
      · intro again
        rw [again.first.unique forbidden.first]
        rfl
  | entry harmless allowed _ =>
      rw [allowed]
      constructor
      · intro never
        cases never
      · intro forbidden
        exact absurd forbidden (harmless production)

theorem allowed_iff (state token : Nat) :
    (outcome grammar graph state token).forbidden? = none ↔
      ∀ production, ¬Forbidden grammar graph state token production := by
  rw [Option.eq_none_iff_forall_ne_some]
  constructor
  · intro allowed production forbidden
    exact allowed production ((forbidden_iff wellFormed agree state token production).mpr forbidden)
  · intro harmless production found
    exact harmless production ((forbidden_iff wellFormed agree state token production).mp found)

theorem Holds.cell_eq_iff {table : Table} (holds : Holds grammar graph table)
    (bound : state < graph.stateCount) (tokenBound : token < grammar.tokenCount) (cell : Cell) :
    table.cell state token = cell ↔ Entry grammar graph state token cell := by
  have allowed := holds.allowed state token bound tokenBound
  rw [holds.cell state token bound tokenBound]
  have filled := outcome_filled wellFormed agree graph state token
  generalize outcome grammar graph state token = found at filled allowed
  cases filled with
  | forbidden _ => cases allowed
  | entry _ _ entry =>
      constructor
      · intro same
        rw [← same]
        exact entry
      · exact entry.unique

end Outcomes

section Errors

theorem find_some_range_iff {β : Type} (find : Nat → Option β) (bound : Nat) (found : β) :
    (List.range bound).findSome? find = some found ↔
      ∃ place, place < bound ∧ find place = some found ∧
        ∀ earlier, earlier < place → find earlier = none := by
  induction bound with
  | zero => simp
  | succ bound ih =>
      rw [List.range_succ, List.findSome?_append, Option.or_eq_some_iff, ih]
      simp only [List.findSome?_eq_none_iff, List.mem_range, List.findSome?_singleton]
      constructor
      · rintro (⟨place, inside, own, first⟩ | ⟨first, own⟩)
        · exact ⟨place, Nat.lt_succ_of_lt inside, own, first⟩
        · exact ⟨bound, Nat.lt_succ_self bound, own, first⟩
      · rintro ⟨place, inside, own, first⟩
        by_cases last : place = bound
        · rw [last] at own first
          exact Or.inr ⟨first, own⟩
        · exact Or.inl ⟨place, by omega, own, first⟩

theorem collect_failure_eq (rows : List Row) :
    (collect rows).2 = rows.findSome? Row.failure := by
  induction rows with
  | nil => rfl
  | cons row rest ih =>
      rw [collect, List.findSome?_cons]
      cases row.failure with
      | some error => rfl
      | none => exact ih

theorem of_graph_error_iff_find (error : TableError) :
    (ofGraph grammar graph).value = .error error ↔
      (List.range graph.stateCount).findSome?
        (fun state => (row grammar (Follows.ofGrammar grammar) graph state).failure) =
          some error := by
  have collected := collect_failure_eq
    ((List.range graph.stateCount).map (row grammar (Follows.ofGrammar grammar) graph))
  rw [List.findSome?_map] at collected
  change _ ↔ (List.range graph.stateCount).findSome? (Row.failure ∘
    row grammar (Follows.ofGrammar grammar) graph) = some error
  rw [← collected]
  simp only [ofGraph]
  generalize (collect ((List.range graph.stateCount).map
    (row grammar (Follows.ofGrammar grammar) graph))).2 = found
  cases found with
  | none => simp
  | some other => simp

/-- A row looks at the end of the input before the other tokens; unless it fails there, it fails for
the first of them that it must not shift. -/
theorem row_failure_eq_find (state : Nat)
    (last : (outcome grammar graph state grammar.endToken).forbidden? = none) :
    (row grammar (Follows.ofGrammar grammar) graph state).failure =
      (List.range grammar.endToken).findSome? fun token =>
        (outcome grammar graph state token).forbidden?.map fun production =>
          ⟨token, production, state⟩ := by
  have count : grammar.tokenCount = grammar.endToken + 1 := rfl
  have length : ((List.range grammar.endToken).map fun token =>
      (token, outcome grammar graph state token)).length = grammar.endToken := by
    rw [List.length_map, List.length_range]
  simp only [row]
  change List.findSome? _ (List.drop grammar.endToken (List.map (fun token =>
    (token, outcome grammar graph state token)) _) ++ List.take grammar.endToken (List.map
    (fun token => (token, outcome grammar graph state token)) _)) = _
  rw [count, List.range_succ, List.map_append, List.drop_left' length, List.take_left' length,
    List.findSome?_append, List.map_singleton, List.findSome?_singleton]
  simp only [last, Option.map_none, Option.none_or, List.findSome?_map]
  rfl

variable (wellFormed : grammar.WellFormed) (agree : grammar.LevelsAgree)

include wellFormed agree

theorem row_failure_eq_some_iff (state : Nat) (error : TableError) :
    (row grammar (Follows.ofGrammar grammar) graph state).failure = some error ↔
      error.state = state ∧ error.token < grammar.tokenCount ∧
        Forbidden grammar graph state error.token error.production ∧
        ∀ token, token < error.token →
          ∀ production, ¬Forbidden grammar graph state token production := by
  have last : (outcome grammar graph state grammar.endToken).forbidden? = none :=
    (allowed_iff wellFormed agree state grammar.endToken).mpr (end_not_forbidden state)
  rw [row_failure_eq_find state last, find_some_range_iff]
  simp only [Option.map_eq_some_iff, Option.map_eq_none_iff, forbidden_iff wellFormed agree,
    allowed_iff wellFormed agree]
  constructor
  · rintro ⟨token, inside, ⟨production, forbidden, rfl⟩, first⟩
    exact ⟨rfl, Nat.lt_succ_of_lt inside, forbidden, first⟩
  · rintro ⟨own, inside, forbidden, first⟩
    refine ⟨error.token, ?_, ⟨error.production, forbidden, ?_⟩, first⟩
    · apply Nat.lt_of_le_of_ne (Nat.le_of_lt_succ inside)
      intro ends
      rw [ends] at forbidden
      exact end_not_forbidden state _ forbidden
    · rw [← own]

theorem row_failure_eq_none_iff_allowed (state : Nat) :
    (row grammar (Follows.ofGrammar grammar) graph state).failure = none ↔
      ∀ token, token < grammar.tokenCount →
        ∀ production, ¬Forbidden grammar graph state token production := by
  rw [row_failure_eq_none_iff]
  simp only [allowed_iff wellFormed agree]

/-- No table is made exactly if some cell is forbidden, and the error tells the first. -/
theorem of_graph_eq_error_iff (graph : StateGraph) (error : TableError) :
    (ofGraph grammar graph).value = .error error ↔ FirstForbidden grammar graph error := by
  rw [of_graph_error_iff_find, find_some_range_iff]
  simp only [row_failure_eq_some_iff wellFormed agree,
    row_failure_eq_none_iff_allowed wellFormed agree]
  constructor
  · rintro ⟨state, bound, ⟨own, inside, forbidden, first⟩, earlier⟩
    rw [← own] at bound forbidden first earlier
    refine ⟨bound, inside, forbidden, ?_⟩
    intro state token production _ tokenBound other
    by_contra before
    rcases Nat.lt_trichotomy state error.state with less | same | greater
    · exact earlier state less token tokenBound production other
    · rw [same] at other
      exact first token (by omega) production other
    · exact before (Or.inl greater)
  · intro found
    refine ⟨error.state, found.state, ⟨rfl, found.token, found.forbidden, ?_⟩, ?_⟩
    · intro token before production forbidden
      have later := found.first _ token production found.state
        (Nat.lt_trans before found.token) forbidden
      omega
    · intro state before token tokenBound production forbidden
      have later := found.first state token production
        (Nat.lt_trans before found.state) tokenBound forbidden
      omega

theorem exists_first_forbidden
    (some_forbidden : ∃ state token production, state < graph.stateCount ∧
      token < grammar.tokenCount ∧ Forbidden grammar graph state token production) :
    ∃ error, FirstForbidden grammar graph error := by
  simp only [← of_graph_eq_error_iff wellFormed agree graph]
  cases made : (ofGraph grammar graph).value with
  | error error => exact ⟨error, rfl⟩
  | ok table =>
      rcases some_forbidden with ⟨state, token, production, bound, tokenBound, forbidden⟩
      have allowed := (of_graph_holds table made).allowed state token bound tokenBound
      exact absurd forbidden ((allowed_iff wellFormed agree state token).mp allowed production)

end Errors

theorem of_graph_token_count (table : Table) (made : (ofGraph grammar graph).value = .ok table) :
    table.tokenCount = grammar.tokenCount := by
  simp only [ofGraph] at made
  split at made
  · cases made
  · cases made
    rfl

theorem mem_valid_tokens (table : Table) (state token : Nat) :
    token ∈ table.validTokens state ↔
      token < table.tokenCount ∧ table.cell state token ≠ .error := by
  simp [validTokens]

theorem valid_tokens_sorted (table : Table) (state : Nat) :
    (table.validTokens state).Pairwise (· < ·) :=
  List.Pairwise.filter _ List.pairwise_lt_range

/-- A table of the state graph is refused exactly if some cell is forbidden, and the error tells
the first one. Otherwise every cell holds the one entry that belongs there, the gotos are the edges
over rules, and the valid tokens of a state are, in ascending order, those without an error. -/
theorem table_has_its_entries {α π : Type} (width : IndexWidth) (declarations : Declarations α π)
    (grammar : Grammar) (compiled : Grammar.compile width declarations = .ok grammar) :
    let graph := StateGraph.ofGrammar grammar
    ((∃ error, (ofGraph grammar graph).value = .error error) ↔
        ∃ state token production, state < graph.stateCount ∧ token < grammar.tokenCount ∧
          Forbidden grammar graph state token production) ∧
      (∀ error, (ofGraph grammar graph).value = .error error →
        FirstForbidden grammar graph error) ∧
      ∀ table, (ofGraph grammar graph).value = .ok table → ∀ state, state < graph.stateCount →
        (∀ token, token < grammar.tokenCount → ∀ cell,
          table.cell state token = cell ↔ Entry grammar graph state token cell) ∧
        (∀ rule, rule < grammar.ruleCount →
          table.goto? state rule = graph.edge? state (.rule rule)) ∧
        (table.validTokens state).Pairwise (· < ·) ∧
        ∀ token, token ∈ table.validTokens state ↔
          token < grammar.tokenCount ∧ table.cell state token ≠ .error := by
  intro graph
  have wellFormed := Grammar.compile_well_formed width declarations grammar compiled
  have agree := Grammar.compile_levels_agree width grammar compiled
  have refused := of_graph_eq_error_iff wellFormed agree graph
  refine ⟨⟨?_, ?_⟩, fun error => (refused error).mp, ?_⟩
  · rintro ⟨error, made⟩
    have first := (refused error).mp made
    exact ⟨error.state, error.token, error.production, first.state, first.token, first.forbidden⟩
  · intro forbidden
    rcases exists_first_forbidden wellFormed agree forbidden with ⟨error, first⟩
    exact ⟨error, (refused error).mpr first⟩
  · intro table made state bound
    have holds := of_graph_holds table made
    refine ⟨?_, ?_, valid_tokens_sorted table state, ?_⟩
    · intro token tokenBound
      exact holds.cell_eq_iff wellFormed agree bound tokenBound
    · intro rule ruleBound
      exact holds.goto state rule bound ruleBound
    · intro token
      rw [mem_valid_tokens, of_graph_token_count table made]

end Table

/-! Comparisons, which do not associate: no table is made for them. -/

namespace Comparisons

def declarations : Declarations Nat Nat where
  literals := ['<', 'n']
  precedence := [⟨.nonassoc, ["<"]⟩]
  productions := [⟨"C : C '<' C | 'n'", none⟩]

def grammar : Grammar where
  ruleNames := #["^", "C"]
  namedTokens := #[⟨"<", some ⟨1, .nonassoc⟩⟩, ⟨"n", none⟩]
  productions := #[
    ⟨1, [.rule 1, .token 0, .rule 1], some ⟨1, .nonassoc⟩, some 0⟩,
    ⟨1, [.token 1], none, some 0⟩,
    ⟨0, [.rule 1], none, none⟩]
  expectShiftReduce := none
  expectReduceReduce := none

theorem compiled : Grammar.compile .bits32 declarations = .ok grammar := by cbv

end Comparisons

namespace Table

set_option maxRecDepth 4000 in
/-- After two compared operands the sign is neither shifted nor does it reduce; after two summands
it reduces the sum. -/
theorem comparisons_refused_sums_made :
    FirstForbidden Comparisons.grammar (StateGraph.ofGrammar Comparisons.grammar) ⟨0, 0, 4⟩ ∧
      Entry Sums.grammar (StateGraph.ofGrammar Sums.grammar) 4 0 (.reduce 0) := by
  rcases table_has_its_entries .bits32 Comparisons.declarations Comparisons.grammar
    Comparisons.compiled with ⟨_, refused, _⟩
  rcases table_has_its_entries .bits32 Sums.declarations Sums.grammar Sums.compiled with
    ⟨_, _, filled⟩
  have made : (ofGraph Sums.grammar (StateGraph.ofGrammar Sums.grammar)).value =
      .ok Sums.table := by cbv
  have states : 4 < (StateGraph.ofGrammar Sums.grammar).stateCount := by cbv
  constructor
  · apply refused
    cbv
  · apply ((filled Sums.table made 4 states).1 0 (by decide) _).mp
    cbv

end Table

end SlrKit
