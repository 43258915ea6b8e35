import SlrKit.Proofs.Parser.Watched

/-!
# Recovery makes progress

A recovery that resumes without dropping a token leaves a mark, and the next one drops a token
first unless one has been shifted since. So a token pays for two errors: it can stop the parser
once where recovery resumes and once more where it must be dropped; the end of the input can do so
too, which makes at most two errors more than twice the number of tokens. The source is asked for an
item only in exchange for a token, so never after it has ended or broken off.
-/

set_option autoImplicit false

namespace SlrKit

/-- How many of the errors are syntax errors. -/
def syntaxErrorCount (errors : List ParseError) : Nat :=
  errors.countP fun
    | .unexpected _ => true
    | .lexical _ => false

theorem syntax_error_count_le (errors : List ParseError) :
    syntaxErrorCount errors ≤ errors.length := List.countP_le_length

theorem syntax_error_count_lexical (errors : List ParseError) (error : LexError) :
    syntaxErrorCount (errors ++ [.lexical error]) = syntaxErrorCount errors := by
  simp [syntaxErrorCount]

namespace Parser

variable {α π τ : Type}

/-- The next step resumes parsing on the lookahead that it met the error on. -/
def ResumesInPlace (parser : Parser α π τ) (config : Config α π τ) : Prop :=
  config.phase = .recovering false false ∧ ∃ depth, parser.resumeDepth? config = some depth

/-- The next step shifts or discards the token. -/
inductive Takes (parser : Parser α π τ) (config : Config α π τ) : Token → Prop
  | shift {top target : Nat} {below : List Nat} {token : Token}
      (phase : config.phase = .parsing) (states : config.states = top :: below)
      (cell : parser.cellFor top config.lookahead = .shift target)
      (lookahead : config.lookahead = some token) :
      Takes parser config token
  | discard {skip discarded : Bool} {token : Token}
      (phase : config.phase = .recovering skip discarded)
      (stuck : skip = true ∨ parser.resumeDepth? config = none)
      (lookahead : config.lookahead = some token) :
      Takes parser config token

/-- Steps from one configuration to another, with the tokens they shift or discard. -/
inductive Passes [Inhabited α] (parser : Parser α π τ) :
    Config α π τ → List Token → Config α π τ → Prop
  | refl {config : Config α π τ} : Passes parser config [] config
  | take {config middle after : Config α π τ} {token : Token} {taken : List Token}
      (takes : Takes parser config token) (next : parser.step config = .proceed middle)
      (rest : Passes parser middle taken after) : Passes parser config (token :: taken) after
  | other {config middle after : Config α π τ} {taken : List Token}
      (takes : ∀ token, ¬Takes parser config token) (next : parser.step config = .proceed middle)
      (rest : Passes parser middle taken after) : Passes parser config taken after

variable {parser : Parser α π τ} {graph : StateGraph} {config : Config α π τ}
  {symbols : List Symbol}

section Marks

/-- A token has to be taken before recovery may resume in place. -/
def Marked (config : Config α π τ) : Prop :=
  config.phase = .parsing ∧ config.resynced = true ∨
    ∃ discarded, config.phase = .recovering true discarded

theorem Marked.not_resumes_in_place (marked : Marked config) : ¬parser.ResumesInPlace config := by
  rintro ⟨phase, _⟩
  rcases marked with ⟨parsing, _⟩ | ⟨discarded, skipping⟩
  · rw [phase] at parsing
    cases parsing
  · rw [phase] at skipping
    cases skipping

variable [Inhabited α]

theorem ResumesInPlace.marks (resumes : parser.ResumesInPlace config) {middle : Config α π τ}
    (next : parser.step config = .proceed middle) : Marked middle := by
  rcases resumes with ⟨phase, depth, found⟩
  simp only [step, phase, found, Bool.false_eq_true, if_false] at next
  cases next
  exact Or.inl ⟨rfl, rfl⟩

theorem Marked.step (marked : Marked config) {step : Step α π τ} {after : Config α π τ}
    (effect : Effect parser graph config symbols step) (next : step = .proceed after)
    (quiet : ∀ token, ¬Takes parser config token) : Marked after := by
  cases effect with
  | shift phase states cell lookahead _ _ =>
      exact absurd (.shift phase states cell lookahead) (quiet _)
  | reduce phase _ _ _ _ _ _ _ _ _ =>
      cases next
      rcases marked with ⟨_, resynced⟩ | ⟨discarded, skipping⟩
      · exact Or.inl ⟨phase, resynced⟩
      · rw [phase] at skipping
        cases skipping
  | accept _ _ _ _ _ _ => cases next
  | @reject top _ phase _ _ =>
      have rejected := reject_rejected parser config top
      rw [next] at rejected
      rcases marked with ⟨_, resynced⟩ | ⟨discarded, skipping⟩
      · cases rejected with
        | recover _ _ => exact Or.inr ⟨false, by rw [resynced]⟩
      · rw [phase] at skipping
        cases skipping
  | resume phase _ _ =>
      rcases marked with ⟨parsing, _⟩ | ⟨discarded, skipping⟩
      · rw [phase] at parsing
        cases parsing
      · rw [phase] at skipping
        cases skipping
  | discard phase stuck =>
      have discarded := discard_discarded parser config
      rw [next] at discarded
      cases discarded with
      | token lookahead _ => exact absurd (.discard phase stuck lookahead) (quiet _)

theorem Built.proceeds_sane (built : parser.Built graph) (sane : Sane parser graph config)
    {after : Config α π τ} (next : parser.step config = .proceed after) :
    Sane parser graph after := by
  have stepped := built.step_sane sane
  rw [next] at stepped
  cases stepped with
  | proceed sane => exact sane

theorem Built.marked_of_passes (built : parser.Built graph) {taken : List Token}
    {after : Config α π τ} (passes : Passes parser config taken after)
    (sane : Sane parser graph config) (marked : Marked config) (nothing : taken = []) :
    Marked after := by
  induction passes with
  | refl => exact marked
  | take _ _ _ _ => cases nothing
  | other quiet next _ ih =>
      rcases sane.stands with ⟨symbols, stands⟩
      exact ih (built.proceeds_sane sane next)
        (marked.step (built.step_effect stands) next quiet) nothing

end Marks

section Charges

/-- How many errors may be in the list beyond two for every token taken. -/
def credit (config : Config α π τ) : Nat :=
  match config.phase with
  | .parsing => if config.resynced then 1 else 0
  | .recovering _ true => 0
  | .recovering true false => 2
  | .recovering false false => 1

theorem credit_le (config : Config α π τ) : credit config ≤ 2 := by
  unfold credit
  split
  · split
    · decide
    · decide
  · decide
  · decide
  · decide

theorem credit_parsing (phase : config.phase = .parsing) :
    credit config = if config.resynced then 1 else 0 := by
  rw [credit, phase]

theorem credit_parsing_le (phase : config.phase = .parsing) : credit config ≤ 1 := by
  rw [credit_parsing phase]
  split
  · exact Nat.le_refl 1
  · exact Nat.zero_le 1

/-- Two errors for every token that has been taken pay for all errors but those on credit. -/
def Charged (parser : Parser α π τ) (tokens : List Token) (ending : Option LexError)
    (config : Config α π τ) : Prop :=
  ∃ rest, Ahead parser.next config.lookahead config.source rest ending ∧
    config.errors.length + 2 * rest.length ≤ 2 * tokens.length + credit config

/-- What a step leaves: a configuration that has paid, or an outcome with few errors. -/
inductive ChargedStep (parser : Parser α π τ) (tokens : List Token) (ending : Option LexError) :
    Step α π τ → Prop
  | proceed {config : Config α π τ} (charged : Charged parser tokens ending config) :
      ChargedStep parser tokens ending (.proceed config)
  | halt {outcome : Outcome α π τ}
      (few : syntaxErrorCount outcome.errors ≤ 2 * tokens.length + 2) :
      ChargedStep parser tokens ending (.halt outcome)

variable {tokens : List Token} {ending : Option LexError}

theorem Charged.errors_le (charged : Charged parser tokens ending config) :
    config.errors.length ≤ 2 * tokens.length + credit config := by
  rcases charged with ⟨rest, _, paid⟩
  omega

theorem Charged.few (charged : Charged parser tokens ending config) :
    syntaxErrorCount config.errors ≤ 2 * tokens.length + 2 := by
  have bound := charged.errors_le
  have most := credit_le config
  have counted := syntax_error_count_le config.errors
  omega

theorem ChargedStep.few_of_halt {step : Step α π τ} {outcome : Outcome α π τ}
    (charged : ChargedStep parser tokens ending step) (ends : step = .halt outcome) :
    syntaxErrorCount outcome.errors ≤ 2 * tokens.length + 2 := by
  rw [ends] at charged
  cases charged with
  | halt few => exact few

/-- The next item is drawn in exchange for a token, or at the start. -/
theorem Pulled.charged {step : Step α π τ} (pulled : Pulled parser config step)
    {rest : List Token} (supplies : Supplies parser.next config.source rest ending)
    (paid : config.errors.length + 2 * rest.length ≤ 2 * tokens.length + credit config) :
    ChargedStep parser tokens ending step := by
  cases pulled with
  | ended item log => exact .proceed ⟨rest, (Pulled.ended item log).ahead supplies, paid⟩
  | token item log => exact .proceed ⟨rest, (Pulled.token item log).ahead supplies, paid⟩
  | broken item log =>
      apply ChargedStep.halt
      have most := credit_le config
      have counted := syntax_error_count_le config.errors
      rw [syntax_error_count_lexical]
      omega

theorem start_charged (param : π) {source : τ}
    (supplies : Supplies parser.next source tokens ending) :
    ChargedStep parser tokens ending (parser.start param source) := by
  rw [start_eq_pull]
  exact (pull_pulled parser _).charged supplies (Nat.le_of_eq (Nat.zero_add _))

theorem Effect.charged [Inhabited α] {step : Step α π τ}
    (effect : Effect parser graph config symbols step)
    (charged : Charged parser tokens ending config) : ChargedStep parser tokens ending step := by
  rcases charged with ⟨rest, ahead, paid⟩
  cases effect with
  | @shift _ _ target _ token phase _ _ lookahead _ _ =>
      -- The token shifted pays for the error that may have been on credit.
      have most := credit_parsing_le phase
      rw [lookahead] at ahead
      cases ahead with
      | token supplies =>
          apply (pull_pulled parser (shifted config token target)).charged supplies
          have own : (shifted config token target).phase = .parsing := phase
          rw [List.length_cons] at paid
          rw [credit_parsing own]
          simp only [shifted, Bool.false_eq_true, if_false]
          omega
  | reduce _ _ _ _ _ _ _ _ _ _ => exact .proceed ⟨rest, ahead, paid⟩
  | accept _ _ _ _ _ _ => exact .halt (Charged.few ⟨rest, ahead, paid⟩)
  | @reject top _ phase _ _ =>
      have rejected := reject_rejected parser config top
      generalize parser.reject config top = step at rejected
      cases rejected with
      | stop _ log =>
          apply ChargedStep.halt
          have most := credit_parsing_le phase
          have counted := syntax_error_count_le
            (config.errors ++ [.unexpected ⟨top, config.lookahead, parser.expected top⟩])
          rw [List.length_append, List.length_singleton] at counted
          dsimp only
          omega
      | recover _ log =>
          apply ChargedStep.proceed
          refine ⟨rest, ahead, ?_⟩
          rw [credit_parsing phase] at paid
          simp only [credit, List.length_append, List.length_singleton]
          cases resynced : config.resynced with
          | true =>
              rw [resynced, if_pos rfl] at paid
              dsimp only
              omega
          | false =>
              rw [resynced, if_neg Bool.false_ne_true] at paid
              dsimp only
              omega
  | @resume discarded depth phase _ _ =>
      apply ChargedStep.proceed
      refine ⟨rest, ahead, ?_⟩
      rw [credit, phase] at paid
      cases discarded with
      | true => exact paid
      | false => exact paid
  | discard phase _ =>
      have discarded := discard_discarded parser config
      generalize parser.discard config = step at discarded
      cases discarded with
      | token lookahead pulled =>
          have most := credit_le config
          rw [lookahead] at ahead
          cases ahead with
          | token supplies =>
              apply pulled.charged supplies
              rw [List.length_cons] at paid
              simp only [credit]
              omega
      | stuck _ log => exact .halt (Charged.few ⟨rest, ahead, paid⟩)

variable [Inhabited α]

theorem Built.reachable_charged (built : parser.Built graph) {param : π} {source : τ}
    (supplies : Supplies parser.next source tokens ending)
    (reachable : Reachable parser param source config) : Charged parser tokens ending config := by
  induction reachable with
  | start first =>
      have started := start_charged param supplies
      rw [first] at started
      cases started with
      | proceed charged => exact charged
  | step before next ih =>
      rcases (built.reachable_sane before).stands with ⟨symbols, stands⟩
      have stepped := (built.step_effect stands).charged ih
      rw [next] at stepped
      cases stepped with
      | proceed charged => exact charged

theorem Built.outcome_few (built : parser.Built graph) {param : π} {source : τ}
    (supplies : Supplies parser.next source tokens ending) (limit : Nat)
    (outcome : Outcome α π τ) (ran : parser.run limit param source = some (.ok outcome)) :
    syntaxErrorCount outcome.errors ≤ 2 * tokens.length + 2 := by
  rcases run_result limit _ ran with first | ⟨last, reachable, ends⟩
  · exact (start_charged _ supplies).few_of_halt (Step.halt_of_result outcome first)
  · rcases (built.reachable_sane reachable).stands with ⟨symbols, stands⟩
    have charged := built.reachable_charged supplies reachable
    exact ((built.step_effect stands).charged charged).few_of_halt
      (Step.halt_of_result outcome ends)

end Charges

/-- On a source of tokens, with or without a lexical error at its end: between two recoveries that
resume without discarding a token, one is shifted or discarded; at any time there are at most two
syntax errors more than twice the number of tokens; and what the source is asked for is never more
than its tokens and the one end or error after them. -/
theorem recovery_makes_progress [Inhabited α] (width : IndexWidth)
    (declarations : Declarations α π) (parser : Parser α π τ) (graph : StateGraph)
    (compiled : Grammar.compile width declarations = .ok parser.grammar)
    (made : (Table.ofGrammar parser.grammar).value = .ok (graph, parser.table))
    (param : π) (source : τ) (tokens : List Token) (ending : Option LexError)
    (supplies : Supplies parser.next source tokens ending) :
    (∀ first middle second taken, Reachable parser param source first →
        parser.ResumesInPlace first → parser.step first = .proceed middle →
        Passes parser middle taken second → parser.ResumesInPlace second → taken ≠ []) ∧
      (∀ config, Reachable parser param source config →
        syntaxErrorCount config.errors ≤ 2 * tokens.length + 2) ∧
      (∀ limit outcome, parser.run limit param source = some (.ok outcome) →
        syntaxErrorCount outcome.errors ≤ 2 * tokens.length + 2) ∧
      (∀ limit, (parser.watched.run limit param (source, [])).map (Except.map Outcome.unwatched) =
        parser.run limit param source) ∧
      (∀ config, Reachable parser.watched param (source, []) config →
        config.source.2 <+: answers tokens ending) ∧
      ∀ limit outcome, parser.watched.run limit param (source, []) = some (.ok outcome) →
        outcome.source.2 <+: answers tokens ending := by
  have built := built_of_compile width declarations compiled made
  refine ⟨?_, ?_, ?_, ?_, ?_, ?_⟩
  · intro first middle second taken reachable resumes next passes again nothing
    have sane := built.proceeds_sane (built.reachable_sane reachable) next
    have marked := built.marked_of_passes passes sane (resumes.marks next) nothing
    exact marked.not_resumes_in_place again
  · intro config reachable
    exact (built.reachable_charged supplies reachable).few
  · intro limit outcome ran
    exact built.outcome_few supplies limit outcome ran
  · intro limit
    exact watched_run parser limit param source
  · intro config reachable
    exact (built.reachable_asked supplies reachable).given
  · intro limit outcome ran
    exact built.outcome_asked supplies limit outcome ran

/-- Three operands without a sign: recovery resumes on the second and on the third, which it can
because the second has been shifted. -/
theorem missing_signs_take_a_token :
    ∃ first middle second taken,
      Reachable (Sums.parser .panic) 0
          (List.map Except.ok [Sums.sign "n" 1, Sums.sign "n" 2, Sums.sign "n" 3]) first ∧
        (Sums.parser .panic).ResumesInPlace first ∧
        (Sums.parser .panic).step first = .proceed middle ∧
        Passes (Sums.parser .panic) middle taken second ∧
        (Sums.parser .panic).ResumesInPlace second ∧ taken ≠ [] ∧
        syntaxErrorCount second.errors ≤ 8 := by
  rcases recovery_makes_progress .bits32 Sums.declarations (Sums.parser .panic) Sums.graph
    Sums.compiled Sums.made 0
      (List.map Except.ok [Sums.sign "n" 1, Sums.sign "n" 2, Sums.sign "n" 3]) _ none
      (supplies_read_list _) with ⟨apart, few, _⟩
  have run : ∃ first middle shifted second,
      Reachable (Sums.parser .panic) 0
          (List.map Except.ok [Sums.sign "n" 1, Sums.sign "n" 2, Sums.sign "n" 3]) first ∧
        (Sums.parser .panic).ResumesInPlace first ∧
        (Sums.parser .panic).step first = .proceed middle ∧
        Takes (Sums.parser .panic) middle (Sums.sign "n" 2) ∧
        (Sums.parser .panic).step middle = .proceed shifted ∧
        (∀ token, ¬Takes (Sums.parser .panic) shifted token) ∧
        (Sums.parser .panic).step shifted = .proceed second ∧
        (Sums.parser .panic).ResumesInPlace second := by
    refine ⟨_, _, _, _, .step (.step (.start (by cbv)) (by cbv)) (by cbv), ?_, by cbv, ?_,
      by cbv, ?_, by cbv, ?_⟩
    · exact ⟨rfl, 1, by cbv⟩
    · exact .shift rfl rfl (by cbv) rfl
    · intro token takes
      have stuck : (Sums.parser .panic).cellFor 2 (some (Sums.sign "n" 3)) = .error := by cbv
      cases takes with
      | shift _ states cell _ =>
          cases states
          cases stuck.symm.trans cell
      | discard phase _ _ => cases phase
    · exact ⟨rfl, 1, by cbv⟩
  rcases run with ⟨first, middle, shifted, second, reachable, resumes, next, takes, shift, quiet,
    reject, again⟩
  have passes : Passes (Sums.parser .panic) middle [Sums.sign "n" 2] second :=
    .take takes shift (.other quiet reject .refl)
  have reached : Reachable (Sums.parser .panic) 0
      (List.map Except.ok [Sums.sign "n" 1, Sums.sign "n" 2, Sums.sign "n" 3]) second :=
    .step (.step (.step reachable next) shift) reject
  exact ⟨first, middle, second, _, reachable, resumes, next, passes, again,
    apart _ _ _ _ reachable resumes next passes again, few second reached⟩

end Parser

end SlrKit
