import SlrKit.Compiled
import SlrKit.Pattern.Library
import SlrKit.Proofs.Parser.Safety

/-!
# Up to the first error

Recovery is looked at only when a syntax error is met. Until then a parser that stops at the first
error and one that recovers go through the same configurations, so they end alike if there is no
syntax error. If there is one, the first parser has nothing but that error to show, and the other,
whatever it does about it, keeps it as the first of its errors.
-/

set_option autoImplicit false

namespace SlrKit

variable {α π τ : Type}

/-- The parser with another recovery. -/
def Parser.recoveringBy (parser : Parser α π τ) (recovery : Recovery) : Parser α π τ :=
  { parser with recovery }

namespace Step

/-- The step keeps the errors that there were before it. -/
inductive Keeps (errors : List ParseError) : Step α π τ → Prop
  | proceed {config : Config α π τ} (kept : errors <+: config.errors) :
      Keeps errors (.proceed config)
  | halt {outcome : Outcome α π τ} (kept : errors <+: outcome.errors) :
      Keeps errors (.halt outcome)
  | fault {reason : Fault} : Keeps errors (.fault reason)

theorem Keeps.weaken {errors more : List ParseError} {step : Step α π τ} (keeps : step.Keeps more)
    (fewer : errors <+: more) : step.Keeps errors := by
  cases keeps with
  | proceed kept => exact .proceed (fewer.trans kept)
  | halt kept => exact .halt (fewer.trans kept)
  | fault => exact .fault

/-- No syntax error has been met. -/
inductive Clean : Step α π τ → Prop
  | proceed {config : Config α π τ} (phase : config.phase = .parsing) (errors : config.errors = []) :
      Clean (.proceed config)
  | halt {outcome : Outcome α π τ} (quiet : ∀ error, .unexpected error ∉ outcome.errors) :
      Clean (.halt outcome)
  | fault {reason : Fault} : Clean (.fault reason)

end Step

namespace Parser

variable {parser : Parser α π τ} {config : Config α π τ}

section Keeping

theorem Pulled.keeps {step : Step α π τ} (pulled : Pulled parser config step) :
    step.Keeps config.errors := by
  cases pulled with
  | ended _ _ => exact .proceed (List.prefix_refl _)
  | token _ _ => exact .proceed (List.prefix_refl _)
  | broken _ _ => exact .halt (List.prefix_append _ _)

theorem discard_keeps (parser : Parser α π τ) (config : Config α π τ) :
    (parser.discard config).Keeps config.errors := by
  have discarded := discard_discarded parser config
  generalize parser.discard config = step at discarded
  cases discarded with
  | token _ pulled => exact pulled.keeps
  | stuck _ _ => exact .halt (List.prefix_refl _)

theorem reject_keeps (parser : Parser α π τ) (config : Config α π τ) (state : Nat) :
    (parser.reject config state).Keeps config.errors := by
  have rejected := reject_rejected parser config state
  generalize parser.reject config state = step at rejected
  cases rejected with
  | stop _ _ => exact .halt (List.prefix_append _ _)
  | recover _ _ => exact .proceed (List.prefix_append _ _)

theorem accept_keeps (config : Config α π τ) : config.accept.Keeps config.errors := by
  unfold Config.accept
  split
  · exact .halt (List.prefix_refl _)
  · exact .fault

variable [Inhabited α]

theorem reduce_keeps (parser : Parser α π τ) (config : Config α π τ) (production : Nat) :
    (parser.reduce config production).Keeps config.errors := by
  simp only [reduce]
  split
  · exact .fault
  · split
    · exact .fault
    · exact .proceed (List.prefix_refl _)

theorem step_keeps (parser : Parser α π τ) (config : Config α π τ) :
    (parser.step config).Keeps config.errors := by
  unfold step
  split
  · split
    · exact .fault
    · split
      · exact (Pulled.keeps (pull_pulled parser _)).weaken (List.prefix_refl _)
      · exact reduce_keeps parser config _
      · exact accept_keeps config
      · exact reject_keeps parser config _
  · split
    · exact discard_keeps parser config
    · split
      · exact .proceed (List.prefix_refl _)
      · exact discard_keeps parser config

theorem advance_keeps (limit : Nat) (step : Step α π τ) (errors : List ParseError)
    (keeps : step.Keeps errors) (outcome : Outcome α π τ)
    (ran : parser.advance limit step = some (.ok outcome)) : errors <+: outcome.errors := by
  induction limit generalizing step with
  | zero =>
      cases keeps with
      | proceed _ => cases ran
      | halt kept =>
          cases ran
          exact kept
      | fault => cases ran
  | succ limit ih =>
      cases keeps with
      | @proceed config kept => exact ih _ ((step_keeps parser config).weaken kept) ran
      | halt kept =>
          cases ran
          exact kept
      | fault => cases ran

end Keeping

section Agreement

theorem Pulled.clean {step : Step α π τ} (pulled : Pulled parser config step)
    (phase : config.phase = .parsing) (errors : config.errors = []) : step.Clean := by
  cases pulled with
  | ended _ _ => exact .proceed phase errors
  | token _ _ => exact .proceed phase errors
  | broken _ _ =>
      apply Step.Clean.halt
      simp [errors]

theorem accept_clean (errors : config.errors = []) : config.accept.Clean := by
  unfold Config.accept
  split
  · apply Step.Clean.halt
    simp [Config.finish, errors]
  · exact .fault

variable [Inhabited α]

theorem reduce_clean (phase : config.phase = .parsing) (errors : config.errors = [])
    (production : Nat) : (parser.reduce config production).Clean := by
  simp only [reduce]
  split
  · exact .fault
  · split
    · exact .fault
    · exact .proceed phase errors

/-- What the next step is for a parser that stops at the first error and for one that recovers: it
is the same, or both meet the same error. -/
inductive Meets (parser : Parser α π τ) (config : Config α π τ) : Prop
  | same (equal : (parser.recoveringBy .none).step config =
        (parser.recoveringBy .panic).step config)
      (clean : ((parser.recoveringBy .panic).step config).Clean)
  | apart {error : SyntaxError} {outcome : Outcome α π τ} {after : Config α π τ}
      (stops : (parser.recoveringBy .none).step config = .halt outcome)
      (nothing : outcome.value = none) (only : outcome.errors = [.unexpected error])
      (recovers : (parser.recoveringBy .panic).step config = .proceed after)
      (first : after.errors = [.unexpected error])

/-- Only in a cell without an entry does recovery matter. -/
theorem step_recovering_by (parser : Parser α π τ) (recovery : Recovery)
    (phase : config.phase = .parsing)
    (filled : ∀ top below, config.states = top :: below →
      parser.cellFor top config.lookahead ≠ .error) :
    (parser.recoveringBy recovery).step config = parser.step config := by
  have cells : ∀ state, (parser.recoveringBy recovery).cellFor state config.lookahead =
      parser.cellFor state config.lookahead := fun _ => rfl
  simp only [step, phase]
  cases states : config.states with
  | nil => rfl
  | cons top below =>
      simp only [cells]
      cases cell : parser.cellFor top config.lookahead with
      | shift target => rfl
      | reduce production => rfl
      | accept => rfl
      | error => exact absurd cell (filled top below states)

theorem step_clean (parser : Parser α π τ) (phase : config.phase = .parsing)
    (errors : config.errors = [])
    (filled : ∀ top below, config.states = top :: below →
      parser.cellFor top config.lookahead ≠ .error) : (parser.step config).Clean := by
  simp only [step, phase]
  cases states : config.states with
  | nil => exact .fault
  | cons top below =>
      dsimp only
      cases cell : parser.cellFor top config.lookahead with
      | shift target => exact (pull_pulled parser _).clean phase errors
      | reduce production => exact reduce_clean phase errors production
      | accept => exact accept_clean errors
      | error => exact absurd cell (filled top below states)

theorem step_of_error (parser : Parser α π τ) (recovery : Recovery)
    (phase : config.phase = .parsing) {top : Nat} {below : List Nat}
    (states : config.states = top :: below)
    (cell : parser.cellFor top config.lookahead = .error) :
    (parser.recoveringBy recovery).step config =
      (parser.recoveringBy recovery).reject config top := by
  have own : (parser.recoveringBy recovery).cellFor top config.lookahead = .error := cell
  simp only [step, phase, states, own]

theorem meets (parser : Parser α π τ) (phase : config.phase = .parsing)
    (errors : config.errors = []) : Meets parser config := by
  by_cases erring : ∃ top below, config.states = top :: below ∧
      parser.cellFor top config.lookahead = .error
  · obtain ⟨top, below, states, cell⟩ := erring
    have reported : config.errors ++ [.unexpected ⟨top, config.lookahead, parser.expected top⟩] =
        [ParseError.unexpected ⟨top, config.lookahead, parser.expected top⟩] := by
      rw [errors, List.nil_append]
    exact .apart (step_of_error parser .none phase states cell) rfl reported
      (step_of_error parser .panic phase states cell) reported
  · have filled : ∀ top below, config.states = top :: below →
        parser.cellFor top config.lookahead ≠ .error :=
      fun top below states cell => erring ⟨top, below, states, cell⟩
    have same := fun recovery => step_recovering_by parser recovery phase filled
    apply Meets.same
    · rw [same, same]
    · rw [same]
      exact step_clean parser phase errors filled

/-- How a run that stops at the first error and one that recovers end. -/
inductive EndsWith (stopped recovered : Outcome α π τ) : Prop
  | same (equal : recovered = stopped) (quiet : ∀ error, .unexpected error ∉ stopped.errors)
  | apart {error : SyntaxError} (nothing : stopped.value = none)
      (only : stopped.errors = [.unexpected error])
      (first : [.unexpected error] <+: recovered.errors)

theorem advance_ends_with (limit other : Nat) (step : Step α π τ) (clean : step.Clean)
    (stopped recovered : Outcome α π τ)
    (first : (parser.recoveringBy .none).advance limit step = some (.ok stopped))
    (second : (parser.recoveringBy .panic).advance other step = some (.ok recovered)) :
    EndsWith stopped recovered := by
  induction limit generalizing step other with
  | zero =>
      cases clean with
      | proceed _ _ => cases first
      | halt quiet =>
          cases first
          rw [advance_ended other _ _ rfl] at second
          cases second
          exact .same rfl quiet
      | fault => cases first
  | succ limit ih =>
      cases clean with
      | @proceed config phase errors =>
          cases other with
          | zero => cases second
          | succ other =>
              rw [advance] at first second
              cases meets parser phase errors with
              | same equal clean =>
                  rw [equal] at first
                  exact ih other _ clean first second
              | @apart error outcome after stops nothing only recovers own =>
                  rw [stops, advance_ended limit _ _ rfl] at first
                  cases first
                  rw [recovers] at second
                  apply EndsWith.apart nothing only
                  rw [← own]
                  exact advance_keeps other _ _ (.proceed (List.prefix_refl _)) recovered second
      | halt quiet =>
          cases first
          rw [advance_ended other _ _ rfl] at second
          cases second
          exact .same rfl quiet
      | fault => cases first

theorem run_ends_with (limit other : Nat) (param : π) (source : τ)
    (stopped recovered : Outcome α π τ)
    (first : (parser.recoveringBy .none).run limit param source = some (.ok stopped))
    (second : (parser.recoveringBy .panic).run other param source = some (.ok recovered)) :
    EndsWith stopped recovered := by
  have begins := start_pulled parser param source
  exact advance_ends_with limit other _ (begins.clean rfl rfl) stopped recovered first second

theorem Built.run_ok {graph : StateGraph} (built : parser.Built graph) (limit : Nat) (param : π)
    (source : τ) (result : Except Fault (Outcome α π τ))
    (ran : parser.run limit param source = some result) :
    ∃ outcome, result = .ok outcome ∧ (outcome.value = none → outcome.errors ≠ []) := by
  rcases run_result limit result ran with first | ⟨last, reachable, ends⟩
  · exact (built.start_sane param source).told result first
  · exact (built.step_sane (built.reachable_sane reachable)).told result ends

end Agreement

theorem result_of_told (outcome : Outcome α π τ)
    (told : outcome.value = none → outcome.errors ≠ []) :
    ∃ result, outcome.result? = some result ∧
      (outcome.errors ≠ [] → ∃ error, result = .error error) := by
  unfold Outcome.result?
  cases errors : outcome.errors with
  | cons error _ => exact ⟨_, rfl, fun _ => ⟨error, rfl⟩⟩
  | nil =>
      cases value : outcome.value with
      | some value => exact ⟨_, rfl, fun erred => absurd rfl erred⟩
      | none => exact absurd errors (told value)

theorem EndsWith.same_result {stopped recovered : Outcome α π τ}
    (ends : EndsWith stopped recovered) : recovered.result? = stopped.result? := by
  cases ends with
  | same equal _ => rw [equal]
  | apart nothing only first =>
      obtain ⟨more, split⟩ := first
      rw [Outcome.result?, Outcome.result?, only, ← split]
      rfl

end Parser

namespace Compiled

/-- What a compiled language is made of. -/
structure MadeFrom (library : Regex.Library) (options : CompileOptions)
    (declarations : Declarations α π) (compiled : Compiled α π) : Prop where
  declared : compiled.declarations = declarations
  lexer : (Lexer.define library declarations).value = .ok compiled.lexer
  grammar : Grammar.compile .bits32 declarations = .ok compiled.grammar
  table : ∃ graph, (Table.ofGrammar compiled.grammar).value = .ok (graph, compiled.table)
  recovery : compiled.recovery = options.recovery

variable {library : Regex.Library}

theorem of_declarations_made (options : CompileOptions) (declarations : Declarations α π)
    (compiled : Compiled α π)
    (made : (ofDeclarations library options declarations).value = .ok compiled) :
    MadeFrom library options declarations compiled := by
  simp only [ofDeclarations] at made
  cases lexer : (Lexer.define library declarations).value with
  | error _ =>
      rw [lexer] at made
      cases made
  | ok definition =>
      simp only [lexer] at made
      split at made
      · cases made
      · cases made
      · rename_i grammar known
        split at made
        · cases made
        · rename_i graph table filled
          split at made
          · cases made
          · cases made
            exact ⟨rfl, lexer, known, ⟨graph, filled⟩, rfl⟩

theorem MadeFrom.parser_eq {options others : CompileOptions} {declarations : Declarations α π}
    {first second : Compiled α π} (one : MadeFrom library options declarations first)
    (other : MadeFrom library others declarations second) (recovery : Recovery) :
    second.parser.recoveringBy recovery = first.parser.recoveringBy recovery := by
  obtain ⟨graph, filled⟩ := one.table
  obtain ⟨_, again⟩ := other.table
  have lexer := other.lexer
  have grammar := other.grammar
  rw [one.lexer] at lexer
  rw [one.grammar] at grammar
  rw [← Except.ok.inj grammar, filled] at again
  simp only [Parser.recoveringBy, parser, one.declared, other.declared,
    Except.ok.inj lexer, Except.ok.inj grammar, (Prod.mk.inj (Except.ok.inj again)).2]

theorem MadeFrom.built {options : CompileOptions} {declarations : Declarations α π}
    {compiled : Compiled α π} (made : MadeFrom library options declarations compiled) :
    ∃ graph, compiled.parser.Built graph := by
  obtain ⟨graph, filled⟩ := made.table
  have built : compiled.parser.Built graph :=
    Parser.built_of_compile .bits32 declarations made.grammar filled
  exact ⟨graph, built⟩

theorem parser_recovering_by (compiled : Compiled α π) (recovery : Recovery)
    (own : compiled.recovery = recovery) :
    compiled.parser.recoveringBy recovery = compiled.parser := by
  rw [← own]
  rfl

end Compiled

namespace Parser

variable [Inhabited α]

/-- Where a parser that stops at the first error meets no syntax error, one that recovers ends in
the same way, and otherwise that error is the only one of the first and the first one of the other.
So a compiled language has the same result for a text with either recovery, which is an error as
soon as there was one. -/
theorem recovery_waits_for_an_error (width : IndexWidth) (declarations : Declarations α π)
    (parser : Parser α π τ) (graph : StateGraph)
    (compiled : Grammar.compile width declarations = .ok parser.grammar)
    (made : (Table.ofGrammar parser.grammar).value = .ok (graph, parser.table)) (param : π) :
    (∀ source limit other first second,
      (parser.recoveringBy .none).run limit param source = some first →
      (parser.recoveringBy .panic).run other param source = some second →
      ∃ stopped recovered, first = .ok stopped ∧ second = .ok recovered ∧
        ((∀ error, .unexpected error ∉ stopped.errors) →
          recovered.value = stopped.value ∧ recovered.errors = stopped.errors ∧
            recovered.param = stopped.param) ∧
        ((∃ error, .unexpected error ∈ stopped.errors) → ∃ error more,
          stopped.value = none ∧ stopped.errors = [.unexpected error] ∧
            recovered.errors = .unexpected error :: more)) ∧
      ∀ (library : Regex.Library) (options : CompileOptions) (stopping recovering : Compiled α π),
        (Compiled.ofDeclarations library { options with recovery := .none } declarations).value =
          .ok stopping →
        (Compiled.ofDeclarations library { options with recovery := .panic } declarations).value =
          .ok recovering →
        ∀ text limit other first second, stopping.parse limit param text = some first →
          recovering.parse other param text = some second →
          ∃ stopped recovered result, first = .ok stopped ∧ second = .ok recovered ∧
            stopped.result? = some result ∧ recovered.result? = some result ∧
            (recovered.errors ≠ [] → ∃ error, result = .error error) := by
  constructor
  · intro source limit other first second stops recovers
    have built := built_of_compile width declarations compiled made
    have stopping : (parser.recoveringBy .none).Built graph :=
      ⟨built.wellFormed, built.canonical, built.holds⟩
    have recovering : (parser.recoveringBy .panic).Built graph :=
      ⟨built.wellFormed, built.canonical, built.holds⟩
    obtain ⟨stopped, rfl, _⟩ := stopping.run_ok limit param source first stops
    obtain ⟨recovered, rfl, _⟩ := recovering.run_ok other param source second recovers
    have ends := run_ends_with limit other param source stopped recovered stops recovers
    refine ⟨stopped, recovered, rfl, rfl, ?_, ?_⟩
    · intro quiet
      cases ends with
      | same equal _ =>
          rw [equal]
          exact ⟨rfl, rfl, rfl⟩
      | apart _ only _ => simp [only] at quiet
    · rintro ⟨error, erred⟩
      cases ends with
      | same _ quiet => exact absurd erred (quiet error)
      | @apart met nothing only first =>
          obtain ⟨more, split⟩ := first
          exact ⟨met, more, nothing, only, split.symm⟩
  · intro library options stopping recovering madeStopping madeRecovering text limit other first second
      stops recovers
    have one := Compiled.of_declarations_made _ declarations stopping madeStopping
    have two := Compiled.of_declarations_made _ declarations recovering madeRecovering
    rw [Compiled.parse] at stops recovers
    obtain ⟨_, builtStopping⟩ := one.built
    obtain ⟨_, builtRecovering⟩ := two.built
    obtain ⟨stopped, rfl, _⟩ := builtStopping.run_ok limit param _ first stops
    obtain ⟨recovered, rfl, told⟩ := builtRecovering.run_ok other param _ second recovers
    obtain ⟨result, found, erred⟩ := result_of_told recovered told
    rw [← stopping.parser_recovering_by .none one.recovery] at stops
    rw [← recovering.parser_recovering_by .panic two.recovery, one.parser_eq two] at recovers
    have same := (run_ends_with limit other param _ stopped recovered stops recovers).same_result
    exact ⟨stopped, recovered, result, rfl, rfl, same ▸ found, found, erred⟩

/-- An unknown sign in a sum, and two operands without a sign: the recovered values do not hide the
first error. -/
theorem recovered_sums_show_first_error :
    (∃ stopped recovered error more,
      ((Sums.parser .none).recoveringBy .none).run 12 0 (List.map Except.ok
          [Sums.sign "n" 1, Sums.sign "?" 2, Sums.sign "+" 3, Sums.sign "n" 4]) =
        some (.ok stopped) ∧
      ((Sums.parser .none).recoveringBy .panic).run 12 0 (List.map Except.ok
          [Sums.sign "n" 1, Sums.sign "?" 2, Sums.sign "+" 3, Sums.sign "n" 4]) =
        some (.ok recovered) ∧
      stopped.value = none ∧ recovered.value = some 3 ∧
      stopped.errors = [.unexpected error] ∧ recovered.errors = .unexpected error :: more) ∧
    ∃ stopping recovering stopped recovered error,
      (Compiled.ofDeclarations Pattern.library ⟨.none, false⟩ Sums.declarations).value = .ok stopping ∧
      (Compiled.ofDeclarations Pattern.library ⟨.panic, false⟩ Sums.declarations).value = .ok recovering ∧
      stopping.parse 12 0 ['n', 'n'] = some (.ok stopped) ∧
      recovering.parse 12 0 ['n', 'n'] = some (.ok recovered) ∧
      recovered.value = some 1 ∧
      stopped.result? = some (.error error) ∧ recovered.result? = some (.error error) := by
  obtain ⟨tokens, texts⟩ := recovery_waits_for_an_error .bits32 Sums.declarations
    (Sums.parser .none) Sums.graph Sums.compiled Sums.made 0
  constructor
  · have stops : ∃ outcome, ((Sums.parser .none).recoveringBy .none).run 12 0 (List.map Except.ok
        [Sums.sign "n" 1, Sums.sign "?" 2, Sums.sign "+" 3, Sums.sign "n" 4]) =
          some (.ok outcome) ∧ ∃ error, .unexpected error ∈ outcome.errors :=
      ⟨_, by cbv, _, List.mem_cons_self⟩
    have recovers : ∃ outcome, ((Sums.parser .none).recoveringBy .panic).run 12 0
        (List.map Except.ok
          [Sums.sign "n" 1, Sums.sign "?" 2, Sums.sign "+" 3, Sums.sign "n" 4]) =
            some (.ok outcome) ∧ outcome.value = some 3 :=
      ⟨_, by cbv, rfl⟩
    obtain ⟨stopped, first, erred⟩ := stops
    obtain ⟨recovered, second, value⟩ := recovers
    obtain ⟨_, _, ⟨⟩, ⟨⟩, _, apart⟩ := tokens _ 12 12 _ _ first second
    obtain ⟨error, more, nothing, only, kept⟩ := apart erred
    exact ⟨stopped, recovered, error, more, first, second, nothing, value, only, kept⟩
  · have makes : ∀ recovery, ∃ compiled : Compiled Nat Nat,
        (Compiled.ofDeclarations Pattern.library ⟨recovery, false⟩ Sums.declarations).value =
          .ok compiled ∧
        ∃ outcome, compiled.parse 12 0 ['n', 'n'] = some (.ok outcome) ∧ outcome.errors ≠ [] ∧
          (recovery = .panic → outcome.value = some 1) := by
      intro recovery
      cases recovery with
      | none => exact ⟨_, by cbv, _, by cbv, List.cons_ne_nil _ _, Recovery.noConfusion⟩
      | panic => exact ⟨_, by cbv, _, by cbv, List.cons_ne_nil _ _, fun _ => rfl⟩
    obtain ⟨stopping, made, stopped, first, _, _⟩ := makes .none
    obtain ⟨recovering, madeToo, recovered, second, erred, value⟩ := makes .panic
    obtain ⟨_, _, result, ⟨⟩, ⟨⟩, own, same, shown⟩ :=
      texts Pattern.library {} stopping recovering made madeToo _ 12 12 _ _ first second
    obtain ⟨error, rfl⟩ := shown erred
    exact ⟨stopping, recovering, stopped, recovered, error, made, madeToo, first, second,
      value rfl, own, same⟩

end Parser

end SlrKit
