import SlrKit.Proofs.Parser.Safety

/-!
# Replaying a parse

Until an error, the stack of states depends on nothing but the terminals that have been read: not on
the texts of the tokens, nor on the values and the parameter, nor on what comes after the lookahead.
So a parse can be followed step by step by one of other tokens, as long as these stand for the same
terminals, and by a parser whose actions only count how often they are called.
-/

set_option autoImplicit false

namespace SlrKit

namespace Parser

variable {α π τ : Type}

section Counting

variable [Inhabited α] (parser : Parser α π τ)

/-- A configuration that a parse of the source comes to after some number of steps. -/
inductive ReachedIn (param : π) (source : τ) : Nat → Config α π τ → Prop
  | start {config : Config α π τ} (first : parser.start param source = .proceed config) :
      ReachedIn param source 0 config
  | step {count : Nat} {config after : Config α π τ} (before : ReachedIn param source count config)
      (next : parser.step config = .proceed after) : ReachedIn param source (count + 1) after

variable {parser} {param : π} {source : τ} {count : Nat} {config after : Config α π τ}

theorem ReachedIn.reachable (reached : ReachedIn parser param source count config) :
    Reachable parser param source config := by
  induction reached with
  | start first => exact .start first
  | step _ next ih => exact .step ih next

theorem Reachable.exists_count (reachable : Reachable parser param source config) :
    ∃ count, ReachedIn parser param source count config := by
  induction reachable with
  | start first => exact ⟨0, .start first⟩
  | step _ next ih =>
      obtain ⟨count, reached⟩ := ih
      exact ⟨count + 1, .step reached next⟩

theorem ReachedIn.goes (reached : ReachedIn parser param source count config)
    (goes : parser.Goes config after) : ∃ more, ReachedIn parser param source more after := by
  induction goes with
  | refl => exact ⟨count, reached⟩
  | tail _ next ih =>
      obtain ⟨more, reached⟩ := ih
      exact ⟨more + 1, .step reached next⟩

theorem ReachedIn.run_eq (reached : ReachedIn parser param source count config) (more : Nat) :
    parser.run (count + more) param source = parser.advance more (.proceed config) := by
  induction reached generalizing more with
  | start first => rw [Nat.zero_add, run, first]
  | @step count config after _ next ih =>
      rw [Nat.add_assoc, Nat.add_comm 1 more, ih, advance, next]

theorem advance_more (limit more : Nat) (step : Step α π τ)
    (result : Except Fault (Outcome α π τ)) (ran : parser.advance limit step = some result) :
    parser.advance (limit + more) step = some result := by
  induction limit generalizing step with
  | zero =>
      cases step with
      | proceed _ => cases ran
      | halt _ => exact advance_ended _ _ _ ran
      | fault _ => exact advance_ended _ _ _ ran
  | succ limit ih =>
      cases step with
      | proceed config =>
          rw [Nat.add_right_comm]
          exact ih _ ran
      | halt _ => exact advance_ended _ _ _ ran
      | fault _ => exact advance_ended _ _ _ ran

theorem ReachedIn.count_lt (reached : ReachedIn parser param source count config) (limit : Nat)
    (result : Except Fault (Outcome α π τ))
    (ran : parser.run limit param source = some result) : count < limit := by
  by_contra beyond
  have longer := advance_more limit (count - limit) _ result ran
  have short := reached.run_eq 0
  have same : limit + (count - limit) = count + 0 := by omega
  rw [← run, same, short] at longer
  cases longer

theorem ReachedIn.run_of_ends (reached : ReachedIn parser param source count config)
    (result : Except Fault (Outcome α π τ)) (ends : (parser.step config).result? = some result)
    (limit : Nat) (enough : count < limit) : parser.run limit param source = some result := by
  obtain ⟨more, rfl⟩ := Nat.exists_eq_add_of_lt enough
  rw [Nat.add_assoc, reached.run_eq, advance]
  exact advance_ended more _ result ends

end Counting

/-- A parser of tokens in a list whose actions count how often they are called. It stops at the
first error. -/
def counting (parser : Parser α π τ) : Parser Unit Nat (List (Except LexError Token)) where
  grammar := parser.grammar
  table := parser.table
  action? := fun _ => some fun calls _ => ((), calls + 1)
  recovery := .none
  next := readList

variable {parser : Parser α π τ} {graph : StateGraph}

theorem Built.counting (built : parser.Built graph) : parser.counting.Built graph where
  wellFormed := built.wellFormed
  canonical := built.canonical
  holds := built.holds

theorem evaluate_counting (production calls : Nat) (operands : List (Operand Unit)) :
    (parser.counting.evaluate production calls operands).2 ≤ calls + 1 := by
  unfold evaluate
  split
  · rename_i action found
    obtain ⟨_, _, own⟩ := Option.bind_eq_some_iff.mp found
    cases own
    exact Nat.le_refl _
  · exact Nat.le_succ calls

theorem Built.calls_le_count (built : parser.Built graph)
    {source : List (Except LexError Token)} {count : Nat}
    {config : Config Unit Nat (List (Except LexError Token))}
    (reached : ReachedIn parser.counting 0 source count config) : config.param ≤ count := by
  induction reached with
  | start first =>
      have pulled := start_pulled parser.counting 0 source
      rw [first] at pulled
      rw [pulled.kept.param]
      exact Nat.le_refl 0
  | @step count config after before next ih =>
      obtain ⟨symbols, stands⟩ := (built.counting.reachable_sane before.reachable).stands
      have effect := built.counting.step_effect stands
      generalize parser.counting.step config = step at effect next
      cases effect with
      | @shift _ _ target _ token _ _ _ _ _ _ =>
          have pulled := pull_pulled parser.counting (shifted config token target)
          rw [next] at pulled
          rw [pulled.kept.param]
          exact Nat.le_succ_of_le ih
      | @reduce _ production _ _ _ _ _ _ _ _ _ _ _ _ _ _ =>
          cases next
          exact (evaluate_counting production config.param _).trans (Nat.succ_le_succ ih)
      | accept _ _ _ _ _ _ => cases next
      | @reject top _ _ _ _ =>
          have rejected := reject_rejected parser.counting config top
          rw [next] at rejected
          cases rejected with
          | recover _ _ => exact Nat.le_succ_of_le ih
      | resume _ _ _ =>
          cases next
          exact Nat.le_succ_of_le ih
      | discard _ _ =>
          have discarded := discard_discarded parser.counting config
          rw [next] at discarded
          cases discarded with
          | token _ pulled =>
              rw [pulled.kept.param]
              exact Nat.le_succ_of_le ih

section Following

/-- As long as the terminals are the same, a parse of other tokens keeps up with the parse: it has
read as many tokens and has the same states. -/
structure FollowedBy (parser : Parser α π τ) (others : List Token) (count read : Nat)
    (config : Config α π τ) (other : Config Unit Nat (List (Except LexError Token))) : Prop where
  reached : ReachedIn parser.counting 0 (others.map .ok) count other
  phase : other.phase = .parsing
  states : other.states = config.states
  has : HasRead parser.counting others none other read

theorem cell_for_congr {first second : Option Token}
    (alike : parser.tokenOf first = parser.tokenOf second) (state : Nat) :
    parser.cellFor state first = parser.cellFor state second := by
  unfold cellFor
  rw [alike]

variable {others : List Token} {count read : Nat} {config : Config α π τ}
  {other : Config Unit Nat (List (Except LexError Token))}

theorem start_followed (others : List Token) {config : Config α π τ}
    (states : config.states = [parser.table.startState]) :
    ∃ other, FollowedBy parser others 0 0 config other := by
  have supplies := supplies_read_list others
  obtain ⟨other, drawn, pulled⟩ :=
    @pull_proceeds _ _ _ parser.counting (parser.counting.opening 0 (others.map .ok)) _ supplies
  refine ⟨other, .start drawn, pulled.kept.phase, ?_, pulled.has_read (Nat.zero_le _) supplies⟩
  rw [pulled.kept.states, states]
  rfl

theorem FollowedBy.shift (built : parser.Built graph)
    (followed : FollowedBy parser others count read config other) {symbols : List Symbol}
    (path : graph.Path config.states symbols) {top target : Nat} {below : List Nat}
    (states : config.states = top :: below) {token : Token}
    (cell : parser.cellFor top other.lookahead = .shift target) {after : Config α π τ}
    (pulled : Pulled parser (shifted config token target) (.proceed after)) :
    ∃ later, FollowedBy parser others (count + 1) (read + 1) after later := by
  have own := followed.states.trans states
  have bound := built.canonical.path_bound path states
  obtain ⟨found, _, lookahead, _⟩ :=
    built.counting.shift_cell top bound other.lookahead target cell
  have ahead := followed.has.ahead
  rw [lookahead] at ahead
  have step := parser.counting.step_of_shift followed.phase own cell lookahead
  obtain ⟨later, drawn, drew⟩ :=
    @pull_proceeds _ _ _ parser.counting (shifted other found target) _ ahead.drop_succ.2
  rw [drawn] at step
  refine ⟨later, .step followed.reached step, ?_, ?_, followed.has.pulled lookahead drew rfl⟩
  · rw [drew.kept.phase]
    exact followed.phase
  · rw [drew.kept.states, pulled.kept.states]
    simp only [shifted, followed.states]

theorem FollowedBy.reduce [Inhabited α] (followed : FollowedBy parser others count read config other)
    {top : Nat} {below : List Nat} (states : config.states = top :: below)
    {production prior target : Nat} {rest : List Nat}
    (cell : parser.cellFor top other.lookahead = .reduce production)
    (cut : config.states.drop (parser.grammar.symbols production).length = prior :: rest)
    (goto : parser.table.goto? prior (parser.grammar.ruleOf production) = some target) :
    ∃ later, FollowedBy parser others (count + 1) read (parser.reduced config production target)
      later := by
  have own := followed.states.trans states
  rw [← followed.states] at cut
  have step := parser.counting.step_of_reduce followed.phase own cell cut goto
  refine ⟨_, .step followed.reached step, followed.phase, ?_, followed.has.same rfl rfl⟩
  simp only [reduced, followed.states]
  rfl

/-- Tokens that stand for the same terminals as those of the source, up to one place, are read in
the same way up to that place. -/
theorem Built.reached_followed [Inhabited α] (built : parser.Built graph) {param : π} {source : τ}
    {tokens : List Token} {ending : Option LexError}
    (supplies : Supplies parser.next source tokens ending) (last : Nat)
    (alike : ∀ place, place ≤ last →
      parser.tokenOf tokens[place]? = parser.tokenOf others[place]?)
    (reached : ReachedIn parser param source count config) (clean : config.errors = []) :
    ∃ read, HasRead parser tokens ending config read ∧
      (read ≤ last → ∃ other, FollowedBy parser others count read config other) := by
  induction reached with
  | start first =>
      have pulled := start_pulled parser param source
      rw [first] at pulled
      exact ⟨0, pulled.has_read (Nat.zero_le _) supplies,
        fun _ => start_followed others pulled.kept.states⟩
  | @step count config after before next ih =>
      have sane := built.reachable_sane before.reachable
      obtain ⟨symbols, stands⟩ := sane.stands
      have effect := built.step_effect stands
      obtain ⟨more, grew⟩ := effect.errors_grow next
      rw [clean] at grew
      have before := (List.append_eq_nil_iff.mp grew.symm).1
      obtain ⟨read, has, follows⟩ := ih before
      -- What the lookaheads stand for is the same, so the cells are.
      have cells : ∀ {other}, read ≤ last → FollowedBy parser others count read config other →
          ∀ state, parser.cellFor state other.lookahead =
            parser.cellFor state config.lookahead := by
        intro other inside followed state
        rw [has.lookahead_eq, followed.has.lookahead_eq]
        exact cell_for_congr (alike read inside).symm state
      generalize parser.step config = step at effect next
      cases effect with
      | @shift _ _ target _ token _ states cell lookahead _ _ =>
          have pulled := pull_pulled parser (shifted config token target)
          rw [next] at pulled
          refine ⟨read + 1, has.pulled lookahead pulled rfl, ?_⟩
          intro inside
          obtain ⟨other, followed⟩ := follows (by omega)
          exact followed.shift built stands.path states
            ((cells (by omega) followed _).trans cell) pulled
      | reduce _ states cell _ _ _ _ cut goto _ =>
          cases next
          refine ⟨read, has.same rfl rfl, ?_⟩
          intro inside
          obtain ⟨other, followed⟩ := follows inside
          exact followed.reduce states ((cells inside followed _).trans cell) cut goto
      | accept _ _ _ _ _ _ => cases next
      | @reject top _ _ _ _ =>
          have rejected := reject_rejected parser config top
          rw [next] at rejected
          cases rejected with
          | recover _ _ => simp at clean
      | resume phase _ _ =>
          rw [sane.parsing_of_clean before] at phase
          cases phase
      | discard phase _ =>
          rw [sane.parsing_of_clean before] at phase
          cases phase

end Following

end Parser

end SlrKit
