import SlrKit.Proofs.Parser.Steps

/-!
# No fault at run time

On whatever source, with or without recovery, the stacks of a parser always stand for a path.
So every reduction finds its symbols and a state that goes on, accepting finds one value at the
end of the input, no run ends in a fault, and a run without a value has an error to show.
-/

set_option autoImplicit false

namespace SlrKit

namespace Parser

variable {α π τ : Type}

/-- What a configuration must have for its next step not to miss anything. -/
structure Safe (parser : Parser α π τ) (graph : StateGraph) (config : Config α π τ) : Prop where
  path : ∃ symbols, graph.Path config.states symbols
  balanced : config.states.length = config.operands.length + 1
  shifts : ∀ top below target, config.states = top :: below →
    parser.cellFor top config.lookahead = .shift target →
      ∃ token, config.lookahead = some token
  reduces : ∀ top below production, config.states = top :: below →
    parser.cellFor top config.lookahead = .reduce production →
      (parser.grammar.symbols production).length < config.states.length ∧
        ∃ prior rest target,
          config.states.drop (parser.grammar.symbols production).length = prior :: rest ∧
            parser.table.goto? prior (parser.grammar.ruleOf production) = some target
  accepts : ∀ top below, config.states = top :: below →
    parser.cellFor top config.lookahead = .accept →
      config.lookahead = none ∧ ∃ value, config.operands = [.value value]

/-- The invariant of a parse. -/
structure Sane (parser : Parser α π τ) (graph : StateGraph) (config : Config α π τ) : Prop where
  stands : ∃ symbols, Stands parser graph config symbols
  erred : config.phase ≠ .parsing → config.errors ≠ []

theorem Sane.parsing_of_clean {parser : Parser α π τ} {graph : StateGraph} {config : Config α π τ}
    (sane : Sane parser graph config) (clean : config.errors = []) : config.phase = .parsing := by
  by_contra recovering
  exact sane.erred recovering clean

/-- What a step may lead to: a sane configuration, or a value or an error. -/
inductive SaneStep (parser : Parser α π τ) (graph : StateGraph) : Step α π τ → Prop
  | proceed {config : Config α π τ} (sane : Sane parser graph config) :
      SaneStep parser graph (.proceed config)
  | halt {outcome : Outcome α π τ} (told : outcome.value = none → outcome.errors ≠ []) :
      SaneStep parser graph (.halt outcome)

variable {parser : Parser α π τ} {graph : StateGraph}

theorem Pulled.sane {config : Config α π τ} {step : Step α π τ}
    (pulled : Pulled parser config step) (sane : Sane parser graph config) :
    SaneStep parser graph step := by
  rcases sane with ⟨⟨symbols, stands⟩, erred⟩
  cases pulled with
  | ended item log => exact .proceed ⟨⟨symbols, stands.pulled (.ended item log)⟩, erred⟩
  | token item log => exact .proceed ⟨⟨symbols, stands.pulled (.token item log)⟩, erred⟩
  | broken item log =>
      apply SaneStep.halt
      intro _
      exact List.append_ne_nil_of_right_ne_nil _ (List.cons_ne_nil _ _)

theorem Built.start_sane (built : parser.Built graph) (param : π) (source : τ) :
    SaneStep parser graph (parser.start param source) := by
  rw [start_eq_pull]
  apply (pull_pulled parser _).sane
  constructor
  · exact ⟨[], built.opening_stands param source⟩
  · intro recovering
    exact absurd rfl recovering

theorem Effect.sane [Inhabited α] {config : Config α π τ} {symbols : List Symbol}
    {step : Step α π τ} (effect : Effect parser graph config symbols step)
    (stands : Stands parser graph config symbols)
    (erred : config.phase ≠ .parsing → config.errors ≠ []) : SaneStep parser graph step := by
  cases effect with
  | shift phase states cell lookahead named edge =>
      apply (pull_pulled parser _).sane
      exact ⟨⟨_, stands.shift states named edge⟩, erred⟩
  | reduce phase states cell bound inner enough behind cut goto edge =>
      exact .proceed ⟨⟨_, stands.reduce enough cut edge⟩, erred⟩
  | accept phase states cell lookahead operands whole =>
      apply SaneStep.halt
      intro missing
      cases missing
  | @reject top below phase states cell =>
      have rejected := reject_rejected parser config top
      generalize parser.reject config top = step at rejected
      cases rejected with
      | stop recovery log =>
          apply SaneStep.halt
          intro _
          exact List.append_ne_nil_of_right_ne_nil _ (List.cons_ne_nil _ _)
      | recover recovery log =>
          apply SaneStep.proceed
          refine ⟨⟨symbols, stands.same rfl rfl⟩, ?_⟩
          intro _
          exact List.append_ne_nil_of_right_ne_nil _ (List.cons_ne_nil _ _)
  | resume phase found within =>
      apply SaneStep.proceed
      refine ⟨⟨_, stands.resume within⟩, ?_⟩
      intro recovering
      exact absurd rfl recovering
  | discard phase stuck =>
      have reported : config.errors ≠ [] := by
        apply erred
        rw [phase]
        exact Phase.noConfusion
      have discarded := discard_discarded parser config
      generalize parser.discard config = step at discarded
      cases discarded with
      | token lookahead pulled =>
          apply pulled.sane
          exact ⟨⟨symbols, stands.same rfl rfl⟩, fun _ => reported⟩
      | stuck lookahead log =>
          apply SaneStep.halt
          intro _
          exact reported

theorem Built.step_sane [Inhabited α] (built : parser.Built graph) {config : Config α π τ}
    (sane : Sane parser graph config) : SaneStep parser graph (parser.step config) := by
  rcases sane with ⟨⟨symbols, stands⟩, erred⟩
  exact (built.step_effect stands).sane stands erred

theorem Built.reachable_sane [Inhabited α] (built : parser.Built graph) {param : π} {source : τ}
    {config : Config α π τ} (reachable : Reachable parser param source config) :
    Sane parser graph config := by
  induction reachable with
  | start first =>
      have started := built.start_sane param source
      rw [first] at started
      cases started with
      | proceed sane => exact sane
  | step _ next ih =>
      have stepped := built.step_sane ih
      rw [next] at stepped
      cases stepped with
      | proceed sane => exact sane

theorem Built.safe_of_sane (built : parser.Built graph) {config : Config α π τ}
    (sane : Sane parser graph config) : Safe parser graph config := by
  rcases sane.stands with ⟨symbols, stands⟩
  have deep := stands.path.length_eq
  constructor
  · exact ⟨symbols, stands.path⟩
  · rw [deep, stands.fits.length_eq]
  · intro top below target states cell
    have bound := built.canonical.path_bound stands.path states
    rcases built.shift_cell top bound config.lookahead target cell with ⟨token, _, lookahead, _⟩
    exact ⟨token, lookahead⟩
  · intro top below production states cell
    rcases built.reduce_cell stands.path states config.lookahead production cell
      with ⟨_, _, enough, _, prior, rest, target, cut, goto, _⟩
    exact ⟨by omega, prior, rest, target, cut, goto⟩
  · intro top below states cell
    have ends := built.accept_cell stands.path states config.lookahead cell
    exact ⟨ends.1, built.value_of_start stands ends.2⟩

theorem SaneStep.told {step : Step α π τ} (sane : SaneStep parser graph step)
    (result : Except Fault (Outcome α π τ)) (ends : step.result? = some result) :
    ∃ outcome, result = .ok outcome ∧ (outcome.value = none → outcome.errors ≠ []) := by
  cases sane with
  | proceed _ => cases ends
  | halt told =>
      cases ends
      exact ⟨_, rfl, told⟩

/-- A parser with the table of its grammar never misses anything, on no source of tokens and
lexical errors and with either recovery. -/
theorem runtime_never_faults [Inhabited α] (width : IndexWidth) (declarations : Declarations α π)
    (parser : Parser α π τ) (graph : StateGraph)
    (compiled : Grammar.compile width declarations = .ok parser.grammar)
    (made : (Table.ofGrammar parser.grammar).value = .ok (graph, parser.table))
    (param : π) (source : τ) :
    (∀ config, Reachable parser param source config → Safe parser graph config) ∧
      ∀ limit result, parser.run limit param source = some result →
        ∃ outcome, result = .ok outcome ∧ (outcome.value = none → outcome.errors ≠ []) := by
  have built := built_of_compile width declarations compiled made
  constructor
  · intro config reachable
    exact built.safe_of_sane (built.reachable_sane reachable)
  · intro limit result ran
    rcases run_result limit result ran with first | ⟨last, reachable, ends⟩
    · exact (built.start_sane param source).told result first
    · exact (built.step_sane (built.reachable_sane reachable)).told result ends

theorem sums_never_fault :
    (∀ config, Reachable (Sums.parser .panic) 0 [.ok (Sums.sign "?" 1)] config →
        Safe (Sums.parser .panic) Sums.graph config) ∧
      ∀ limit result, (Sums.parser .panic).run limit 0 [.ok (Sums.sign "?" 1)] = some result →
        ∃ outcome, result = .ok outcome ∧ (outcome.value = none → outcome.errors ≠ []) :=
  runtime_never_faults .bits32 Sums.declarations (Sums.parser .panic) Sums.graph Sums.compiled
    Sums.made 0 _

end Parser

end SlrKit
