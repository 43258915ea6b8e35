import Mathlib.Logic.Relation
import SlrKit.Parser.Run

/-!
# The course of a parse

A parse goes from configuration to configuration until a step ends it. Whatever a run returns
was the last step of a reachable configuration, and what a chain of steps ends with is the
result of every run with a limit that is large enough.
-/

set_option autoImplicit false

namespace SlrKit

/-- The source yields the tokens and then ends, or breaks off with a lexical error. -/
inductive Supplies {τ : Type} (next : τ → Reading τ) : τ → List Token → Option LexError → Prop
  | ended {source : τ} (item : (next source).item = none) : Supplies next source [] none
  | broken {source : τ} {error : LexError} (item : (next source).item = some (.error error)) :
      Supplies next source [] (some error)
  | token {source : τ} {token : Token} {tokens : List Token} {ending : Option LexError}
      (item : (next source).item = some (.ok token))
      (rest : Supplies next (next source).rest tokens ending) :
      Supplies next source (token :: tokens) ending

/-- The tokens that are still to be dealt with: the lookahead and what the source has left. -/
inductive Ahead {τ : Type} (next : τ → Reading τ) :
    Option Token → τ → List Token → Option LexError → Prop
  | ended {source : τ} : Ahead next none source [] none
  | token {source : τ} {token : Token} {tokens : List Token} {ending : Option LexError}
      (rest : Supplies next source tokens ending) :
      Ahead next (some token) source (token :: tokens) ending

theorem Ahead.lookahead_eq {τ : Type} {next : τ → Reading τ} {lookahead : Option Token}
    {source : τ} {tokens : List Token} {ending : Option LexError}
    (ahead : Ahead next lookahead source tokens ending) : lookahead = tokens.head? := by
  cases ahead with
  | ended => rfl
  | token _ => rfl

theorem Ahead.drop_succ {τ : Type} {next : τ → Reading τ} {token : Token} {source : τ}
    {tokens : List Token} {read : Nat} {ending : Option LexError}
    (ahead : Ahead next (some token) source (tokens.drop read) ending) :
    read < tokens.length ∧ Supplies next source (tokens.drop (read + 1)) ending := by
  generalize left : tokens.drop read = rest at ahead
  cases ahead with
  | token supplies =>
      have within : read < tokens.length := by
        apply Nat.lt_of_not_le
        intro beyond
        rw [List.drop_eq_nil_of_le beyond] at left
        cases left
      rw [← List.drop_drop, left]
      exact ⟨within, supplies⟩

/-- How a step ends a parse, if it does. -/
def Step.result? {α π τ : Type} : Step α π τ → Option (Except Fault (Outcome α π τ))
  | .proceed _ => none
  | .halt outcome => some (.ok outcome)
  | .fault reason => some (.error reason)

theorem Step.halt_of_result {α π τ : Type} {step : Step α π τ} (outcome : Outcome α π τ)
    (ends : step.result? = some (.ok outcome)) : step = .halt outcome := by
  cases step with
  | proceed _ => cases ends
  | halt _ =>
      cases ends
      rfl
  | fault _ => cases ends

namespace Parser

variable {α π τ : Type} (parser : Parser α π τ)

/-- What becomes of a configuration that asks for the next item. -/
inductive Pulled (config : Config α π τ) : Step α π τ → Prop
  | ended (item : (parser.next config.source).item = none) (log : Array Record) :
      Pulled config (.proceed { config with
        lookahead := none, source := (parser.next config.source).rest, log })
  | token {token : Token} (item : (parser.next config.source).item = some (.ok token))
      (log : Array Record) :
      Pulled config (.proceed { config with
        lookahead := some token, source := (parser.next config.source).rest, log })
  | broken {error : LexError} (item : (parser.next config.source).item = some (.error error))
      (log : Array Record) :
      Pulled config (.halt {
        value := none, errors := config.errors ++ [.lexical error], param := config.param,
        source := (parser.next config.source).rest, log })

theorem pull_pulled (config : Config α π τ) : Pulled parser config (parser.pull config) := by
  cases item : (parser.next config.source).item with
  | none =>
      simp only [pull, item]
      exact .ended item _
  | some read =>
      cases read with
      | ok token =>
          simp only [pull, item]
          exact .token item _
      | error error =>
          simp only [pull, item]
          exact .broken item _

variable {parser}

/-- Drawing an item changes the lookahead, the source and the log only. -/
structure Kept (config after : Config α π τ) : Prop where
  states : after.states = config.states
  operands : after.operands = config.operands
  phase : after.phase = config.phase
  resynced : after.resynced = config.resynced
  param : after.param = config.param
  errors : after.errors = config.errors

theorem Pulled.kept {config after : Config α π τ}
    (pulled : Pulled parser config (.proceed after)) : Kept config after := by
  cases pulled with
  | ended _ _ => exact ⟨rfl, rfl, rfl, rfl, rfl, rfl⟩
  | token _ _ => exact ⟨rfl, rfl, rfl, rfl, rfl, rfl⟩

theorem Pulled.value_eq_none {config : Config α π τ} {outcome : Outcome α π τ}
    (pulled : Pulled parser config (.halt outcome)) : outcome.value = none := by
  cases pulled with
  | broken _ _ => rfl

theorem Pulled.ahead {config after : Config α π τ} {tokens : List Token}
    {ending : Option LexError} (pulled : Pulled parser config (.proceed after))
    (supplies : Supplies parser.next config.source tokens ending) :
    Ahead parser.next after.lookahead after.source tokens ending := by
  cases pulled with
  | ended item _ =>
      cases supplies with
      | ended _ => exact .ended
      | broken other => rw [item] at other; cases other
      | token other _ => rw [item] at other; cases other
  | token item _ =>
      cases supplies with
      | ended other => rw [item] at other; cases other
      | broken other => rw [item] at other; cases other
      | token other rest =>
          rw [item] at other
          cases other
          exact .token rest

theorem pull_proceeds (config : Config α π τ) {tokens : List Token}
    (supplies : Supplies parser.next config.source tokens none) :
    ∃ after, parser.pull config = .proceed after ∧ Pulled parser config (.proceed after) := by
  have pulled := pull_pulled parser config
  generalize parser.pull config = step at pulled
  cases pulled with
  | ended item log => exact ⟨_, rfl, .ended item log⟩
  | token item log => exact ⟨_, rfl, .token item log⟩
  | broken item log =>
      cases supplies with
      | ended other => rw [item] at other; cases other
      | token other _ => rw [item] at other; cases other

/-- What becomes of a configuration that meets a syntax error. -/
inductive Rejected (parser : Parser α π τ) (config : Config α π τ) (state : Nat) :
    Step α π τ → Prop
  | stop (recovery : parser.recovery = .none) (log : Array Record) :
      Rejected parser config state (.halt {
        value := none
        errors := config.errors ++
          [.unexpected ⟨state, config.lookahead, parser.expected state⟩]
        param := config.param, source := config.source, log })
  | recover (recovery : parser.recovery = .panic) (log : Array Record) :
      Rejected parser config state (.proceed { config with
        phase := .recovering config.resynced false
        errors := config.errors ++
          [.unexpected ⟨state, config.lookahead, parser.expected state⟩]
        log })

theorem reject_rejected (parser : Parser α π τ) (config : Config α π τ) (state : Nat) :
    Rejected parser config state (parser.reject config state) := by
  cases recovery : parser.recovery with
  | none =>
      simp only [reject, recovery]
      exact .stop recovery _
  | panic =>
      simp only [reject, recovery]
      exact .recover recovery _

/-- What becomes of a configuration that drops its lookahead. -/
inductive Discarded (parser : Parser α π τ) (config : Config α π τ) : Step α π τ → Prop
  | token {token : Token} (lookahead : config.lookahead = some token) {log : Array Record}
      {step : Step α π τ}
      (pulled : Pulled parser { config with phase := .recovering false true, log } step) :
      Discarded parser config step
  | stuck (lookahead : config.lookahead = none) (log : Array Record) :
      Discarded parser config (.halt {
        value := none, errors := config.errors, param := config.param
        source := config.source, log })

theorem discard_discarded (parser : Parser α π τ) (config : Config α π τ) :
    Discarded parser config (parser.discard config) := by
  cases lookahead : config.lookahead with
  | none =>
      simp only [discard, lookahead]
      exact .stuck lookahead _
  | some token =>
      simp only [discard, lookahead]
      exact .token lookahead (pull_pulled parser _)

/-- The lookahead is the token with the given number, and the source has those after it. -/
structure HasRead (parser : Parser α π τ) (tokens : List Token) (ending : Option LexError)
    (config : Config α π τ) (read : Nat) : Prop where
  within : read ≤ tokens.length
  ahead : Ahead parser.next config.lookahead config.source (tokens.drop read) ending

theorem HasRead.lookahead_eq {tokens : List Token} {ending : Option LexError}
    {config : Config α π τ} {read : Nat} (has : HasRead parser tokens ending config read) :
    config.lookahead = tokens[read]? := by
  rw [has.ahead.lookahead_eq, List.head?_drop]

theorem HasRead.same {config after : Config α π τ} {tokens : List Token}
    {ending : Option LexError} {read : Nat} (has : HasRead parser tokens ending config read)
    (lookahead : after.lookahead = config.lookahead) (source : after.source = config.source) :
    HasRead parser tokens ending after read := by
  refine ⟨has.within, ?_⟩
  rw [lookahead, source]
  exact has.ahead

theorem Pulled.has_read {config after : Config α π τ} {tokens : List Token}
    {ending : Option LexError} {read : Nat} (pulled : Pulled parser config (.proceed after))
    (within : read ≤ tokens.length)
    (supplies : Supplies parser.next config.source (tokens.drop read) ending) :
    HasRead parser tokens ending after read := ⟨within, pulled.ahead supplies⟩

theorem HasRead.pulled {config drawn after : Config α π τ} {tokens : List Token}
    {ending : Option LexError} {read : Nat} {token : Token}
    (has : HasRead parser tokens ending config read) (lookahead : config.lookahead = some token)
    (pulled : Pulled parser drawn (.proceed after)) (source : drawn.source = config.source) :
    HasRead parser tokens ending after (read + 1) := by
  have ahead := has.ahead
  rw [lookahead] at ahead
  obtain ⟨within, supplies⟩ := ahead.drop_succ
  rw [← source] at supplies
  exact pulled.has_read within supplies

theorem supplies_read_list (tokens : List Token) :
    Supplies readList (tokens.map Except.ok) tokens none := by
  induction tokens with
  | nil => exact .ended rfl
  | cons token rest ih => exact .token rfl ih

section Runs

variable [Inhabited α] (parser)

/-- A configuration that a parse of the source comes to. -/
inductive Reachable (param : π) (source : τ) : Config α π τ → Prop
  | start {config : Config α π τ} (first : parser.start param source = .proceed config) :
      Reachable param source config
  | step {config after : Config α π τ} (before : Reachable param source config)
      (next : parser.step config = .proceed after) : Reachable param source after

/-- Some steps lead from one configuration to the other. -/
def Goes : Config α π τ → Config α π τ → Prop :=
  Relation.ReflTransGen fun config after => parser.step config = .proceed after

variable {parser}

theorem advance_ended (limit : Nat) (step : Step α π τ)
    (result : Except Fault (Outcome α π τ)) (ends : step.result? = some result) :
    parser.advance limit step = some result := by
  cases step with
  | proceed _ => cases ends
  | halt outcome =>
      cases limit with
      | zero => exact ends
      | succ limit => exact ends
  | fault fault =>
      cases limit with
      | zero => exact ends
      | succ limit => exact ends

theorem advance_result {param : π} {source : τ} (limit : Nat) (step : Step α π τ)
    (result : Except Fault (Outcome α π τ)) (reached : ∀ config, step = .proceed config →
      Reachable parser param source config)
    (ran : parser.advance limit step = some result) :
    step.result? = some result ∨ ∃ last, Reachable parser param source last ∧
      (parser.step last).result? = some result := by
  induction limit generalizing step with
  | zero =>
      cases step with
      | proceed _ => cases ran
      | halt _ => exact Or.inl ran
      | fault _ => exact Or.inl ran
  | succ limit ih =>
      cases step with
      | proceed config =>
          have before := reached config rfl
          apply Or.inr
          rcases ih (parser.step config) (fun after next => .step before next) ran with
            now | later
          · exact ⟨config, before, now⟩
          · exact later
      | halt _ => exact Or.inl ran
      | fault _ => exact Or.inl ran

theorem run_result {param : π} {source : τ} (limit : Nat)
    (result : Except Fault (Outcome α π τ))
    (ran : parser.run limit param source = some result) :
    (parser.start param source).result? = some result ∨
      ∃ last, Reachable parser param source last ∧ (parser.step last).result? = some result :=
  advance_result limit _ result (fun _ first => .start first) ran

/-- A chain of steps that comes to an end bounds the steps that a run needs. -/
theorem advance_of_goes {config last : Config α π τ} (goes : parser.Goes config last)
    (result : Except Fault (Outcome α π τ))
    (ends : (parser.step last).result? = some result) :
    ∃ bound, ∀ limit, bound ≤ limit →
      parser.advance limit (.proceed config) = some result := by
  induction goes using Relation.ReflTransGen.head_induction_on with
  | refl =>
      refine ⟨1, ?_⟩
      intro limit enough
      cases limit with
      | zero => cases enough
      | succ limit =>
          rw [advance]
          exact advance_ended limit _ result ends
  | head next _ ih =>
      obtain ⟨bound, runs⟩ := ih
      refine ⟨bound + 1, ?_⟩
      intro limit enough
      cases limit with
      | zero => cases enough
      | succ limit =>
          rw [advance, next]
          exact runs limit (Nat.le_of_succ_le_succ enough)

end Runs

end Parser

end SlrKit
