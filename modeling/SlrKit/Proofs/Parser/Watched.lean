import SlrKit.Proofs.Parser.Safety

/-!
# What the source is asked for

A source can keep the items it has given. A parser that reads from such a source does what it does
without, and at any time what the source has given is a prefix of its items: the tokens and then
one end or one lexical error. So the source is never asked again after that.
-/

set_option autoImplicit false

namespace SlrKit

/-- What a source answers: a token, a lexical error, or nothing at its end. -/
abbrev Answer : Type := Option (Except LexError Token)

/-- All that a source can be asked for: its tokens and what comes after them. -/
def answers (tokens : List Token) (ending : Option LexError) : List Answer :=
  tokens.map (fun token => some (.ok token)) ++ [ending.map .error]

variable {α π τ : Type}

/-- Without the record of the source. -/
def Outcome.unwatched (outcome : Outcome α π (τ × List Answer)) : Outcome α π τ where
  value := outcome.value
  errors := outcome.errors
  param := outcome.param
  source := outcome.source.1
  log := outcome.log

/-- Without the record of the source. -/
def Config.unwatched (config : Config α π (τ × List Answer)) : Config α π τ where
  states := config.states
  operands := config.operands
  lookahead := config.lookahead
  phase := config.phase
  resynced := config.resynced
  param := config.param
  errors := config.errors
  source := config.source.1
  log := config.log

/-- Without the record of the source. -/
def Step.unwatched : Step α π (τ × List Answer) → Step α π τ
  | .proceed config => .proceed config.unwatched
  | .halt outcome => .halt outcome.unwatched
  | .fault reason => .fault reason

namespace Parser

/-- The parser with a source that keeps what it has answered, oldest first. -/
def watched (parser : Parser α π τ) : Parser α π (τ × List Answer) where
  grammar := parser.grammar
  table := parser.table
  action? := parser.action?
  recovery := parser.recovery
  next := fun source =>
    { item := (parser.next source.1).item
      rest := ((parser.next source.1).rest, source.2 ++ [(parser.next source.1).item])
      log := (parser.next source.1).log }

variable (parser : Parser α π τ)

section Unwatched

theorem watched_pull (config : Config α π (τ × List Answer)) :
    (parser.watched.pull config).unwatched = parser.pull config.unwatched := by
  simp only [pull, watched, Config.unwatched]
  cases (parser.next config.source.1).item with
  | none => rfl
  | some read =>
      cases read with
      | ok token => rfl
      | error error => rfl

theorem watched_shift (config : Config α π (τ × List Answer)) (state : Nat) :
    (parser.watched.shift config state).unwatched = parser.shift config.unwatched state :=
  watched_pull parser _

theorem watched_discard (config : Config α π (τ × List Answer)) :
    (parser.watched.discard config).unwatched = parser.discard config.unwatched := by
  unfold discard
  simp only [Config.unwatched]
  cases config.lookahead with
  | none => rfl
  | some token => exact watched_pull parser _

theorem watched_reject (config : Config α π (τ × List Answer)) (state : Nat) :
    (parser.watched.reject config state).unwatched = parser.reject config.unwatched state := by
  unfold reject
  simp only [watched]
  cases parser.recovery with
  | none => rfl
  | panic => rfl

theorem accept_unwatched (config : Config α π (τ × List Answer)) :
    config.accept.unwatched = config.unwatched.accept := by
  unfold Config.accept
  simp only [Config.unwatched]
  split
  · rfl
  · rfl

variable [Inhabited α]

theorem watched_reduce (config : Config α π (τ × List Answer)) (production : Nat) :
    (parser.watched.reduce config production).unwatched =
      parser.reduce config.unwatched production := by
  have grammar : parser.watched.grammar = parser.grammar := rfl
  have table : parser.watched.table = parser.table := rfl
  simp only [reduce, grammar, table, Config.unwatched]
  cases config.states.drop (parser.grammar.symbols production).length with
  | nil => rfl
  | cons prior below =>
      dsimp only
      cases parser.table.goto? prior (parser.grammar.ruleOf production) with
      | none => rfl
      | some state => rfl

theorem watched_step (config : Config α π (τ × List Answer)) :
    (parser.watched.step config).unwatched = parser.step config.unwatched := by
  unfold step
  have phase : config.unwatched.phase = config.phase := rfl
  have states : config.unwatched.states = config.states := rfl
  have found : parser.watched.resumeDepth? config = parser.resumeDepth? config.unwatched := rfl
  rw [phase, states, found]
  cases config.phase with
  | parsing =>
      cases config.states with
      | nil => rfl
      | cons state below =>
          have cell : parser.watched.cellFor state config.lookahead =
              parser.cellFor state config.unwatched.lookahead := rfl
          simp only [cell]
          cases parser.cellFor state config.unwatched.lookahead with
          | shift target => exact watched_shift parser config target
          | reduce production => exact watched_reduce parser config production
          | accept => exact accept_unwatched config
          | error => exact watched_reject parser config state
  | recovering skip discarded =>
      cases skip with
      | true => exact watched_discard parser config
      | false =>
          simp only [Bool.false_eq_true, if_false]
          cases parser.resumeDepth? config.unwatched with
          | none => exact watched_discard parser config
          | some depth => rfl

theorem watched_advance (limit : Nat) (step : Step α π (τ × List Answer)) :
    (parser.watched.advance limit step).map (Except.map Outcome.unwatched) =
      parser.advance limit step.unwatched := by
  induction limit generalizing step with
  | zero =>
      cases step with
      | proceed _ => rfl
      | halt _ => rfl
      | fault _ => rfl
  | succ limit ih =>
      cases step with
      | proceed config =>
          simp only [advance, Step.unwatched]
          rw [ih, watched_step]
      | halt _ => rfl
      | fault _ => rfl

/-- A run of the watched parser is one of the parser, but for the record. -/
theorem watched_run (limit : Nat) (param : π) (source : τ) :
    (parser.watched.run limit param (source, [])).map (Except.map Outcome.unwatched) =
      parser.run limit param source := by
  simp only [run]
  rw [watched_advance]
  exact congrArg (parser.advance limit) (watched_pull parser _)

end Unwatched

variable {parser} {graph : StateGraph} {tokens : List Token} {ending : Option LexError}

theorem supplies_watched {source : τ} (supplies : Supplies parser.next source tokens ending)
    (given : List Answer) : Supplies parser.watched.next (source, given) tokens ending := by
  induction supplies generalizing given with
  | ended item => exact .ended item
  | broken item => exact .broken item
  | token item _ ih => exact .token item (ih _)

theorem Built.watched (built : parser.Built graph) : parser.watched.Built graph where
  wellFormed := built.wellFormed
  canonical := built.canonical
  holds := built.holds

/-- What the source has given is a prefix of all it can give, and after anything but a token that
is all. -/
structure Asked (parser : Parser α π τ) (tokens : List Token) (ending : Option LexError)
    (config : Config α π (τ × List Answer)) : Prop where
  given : config.source.2 <+: answers tokens ending
  more : ∀ token, config.lookahead = some token →
    ∃ rest, Supplies parser.watched.next config.source rest ending ∧
      config.source.2 ++ answers rest ending = answers tokens ending

/-- What a step leaves. -/
inductive AskedStep (parser : Parser α π τ) (tokens : List Token) (ending : Option LexError) :
    Step α π (τ × List Answer) → Prop
  | proceed {config : Config α π (τ × List Answer)} (asked : Asked parser tokens ending config) :
      AskedStep parser tokens ending (.proceed config)
  | halt {outcome : Outcome α π (τ × List Answer)}
      (given : outcome.source.2 <+: answers tokens ending) :
      AskedStep parser tokens ending (.halt outcome)

variable {config : Config α π (τ × List Answer)} {symbols : List Symbol}

theorem Pulled.asked {step : Step α π (τ × List Answer)}
    (pulled : Pulled parser.watched config step) {rest : List Token}
    (supplies : Supplies parser.watched.next config.source rest ending)
    (left : config.source.2 ++ answers rest ending = answers tokens ending) :
    AskedStep parser tokens ending step := by
  cases pulled with
  | ended item log =>
      cases supplies with
      | ended own =>
          have own : (parser.next config.source.1).item = none := own
          apply AskedStep.proceed
          refine ⟨?_, fun token never => by cases never⟩
          simp only [Parser.watched, own]
          exact ⟨[], by rw [List.append_nil]; exact left⟩
      | broken other => rw [item] at other; cases other
      | token other _ => rw [item] at other; cases other
  | @token token item log =>
      cases supplies with
      | ended other => rw [item] at other; cases other
      | broken other => rw [item] at other; cases other
      | @token _ read others _ other supplies =>
          rw [item] at other
          cases other
          have own : (parser.next config.source.1).item = some (.ok token) := item
          have later : (config.source.2 ++ [some (.ok token)]) ++ answers others ending =
              answers tokens ending := by
            rw [← left, List.append_assoc]
            rfl
          apply AskedStep.proceed
          constructor
          · simp only [Parser.watched, own]
            exact ⟨_, later⟩
          · intro _ _
            refine ⟨others, supplies, ?_⟩
            simp only [Parser.watched, own]
            exact later
  | @broken error item log =>
      cases supplies with
      | ended other => rw [item] at other; cases other
      | broken other =>
          rw [item] at other
          cases other
          have own : (parser.next config.source.1).item = some (.error error) := item
          apply AskedStep.halt
          simp only [Parser.watched, own]
          exact ⟨[], by rw [List.append_nil]; exact left⟩
      | token other _ => rw [item] at other; cases other

theorem start_asked (param : π) {source : τ}
    (supplies : Supplies parser.next source tokens ending) :
    AskedStep parser tokens ending (parser.watched.start param (source, [])) := by
  rw [start_eq_pull]
  exact (pull_pulled parser.watched _).asked (supplies_watched supplies []) rfl

theorem Effect.asked [Inhabited α] {step : Step α π (τ × List Answer)}
    (effect : Effect parser.watched graph config symbols step)
    (asked : Asked parser tokens ending config) : AskedStep parser tokens ending step := by
  cases effect with
  | @shift _ _ target _ token _ _ _ lookahead _ _ =>
      rcases asked.more token lookahead with ⟨rest, supplies, left⟩
      exact (pull_pulled parser.watched (shifted config token target)).asked supplies left
  | reduce _ _ _ _ _ _ _ _ _ _ => exact .proceed ⟨asked.given, asked.more⟩
  | accept _ _ _ _ _ _ => exact .halt asked.given
  | @reject top _ _ _ _ =>
      have rejected := reject_rejected parser.watched config top
      generalize parser.watched.reject config top = step at rejected
      cases rejected with
      | stop _ _ => exact .halt asked.given
      | recover _ _ => exact .proceed ⟨asked.given, asked.more⟩
  | resume _ _ _ => exact .proceed ⟨asked.given, asked.more⟩
  | discard _ _ =>
      have discarded := discard_discarded parser.watched config
      generalize parser.watched.discard config = step at discarded
      cases discarded with
      | token lookahead pulled =>
          rcases asked.more _ lookahead with ⟨rest, supplies, left⟩
          exact pulled.asked supplies left
      | stuck _ _ => exact .halt asked.given

variable [Inhabited α]

theorem Built.reachable_asked (built : parser.Built graph) {param : π} {source : τ}
    (supplies : Supplies parser.next source tokens ending)
    (reachable : Reachable parser.watched param (source, []) config) :
    Asked parser tokens ending config := by
  induction reachable with
  | start first =>
      have started := start_asked param supplies
      rw [first] at started
      cases started with
      | proceed asked => exact asked
  | step before next ih =>
      rcases (built.watched.reachable_sane before).stands with ⟨symbols, stands⟩
      have stepped := (built.watched.step_effect stands).asked ih
      rw [next] at stepped
      cases stepped with
      | proceed asked => exact asked

theorem Built.outcome_asked (built : parser.Built graph) {param : π} {source : τ}
    (supplies : Supplies parser.next source tokens ending) (limit : Nat)
    (outcome : Outcome α π (τ × List Answer))
    (ran : parser.watched.run limit param (source, []) = some (.ok outcome)) :
    outcome.source.2 <+: answers tokens ending := by
  rcases run_result limit _ ran with first | ⟨last, reachable, ends⟩
  · have started := start_asked param supplies
    rw [Step.halt_of_result outcome first] at started
    cases started with
    | halt given => exact given
  · rcases (built.watched.reachable_sane reachable).stands with ⟨symbols, stands⟩
    have stepped := (built.watched.step_effect stands).asked
      (built.reachable_asked supplies reachable)
    rw [Step.halt_of_result outcome ends] at stepped
    cases stepped with
    | halt given => exact given

end Parser

end SlrKit
