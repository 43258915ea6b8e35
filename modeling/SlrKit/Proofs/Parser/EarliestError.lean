import SlrKit.Proofs.Automaton.ViablePrefix
import SlrKit.Proofs.Parser.Completeness
import SlrKit.Proofs.Parser.Replay
import SlrKit.Proofs.Parser.Soundness

/-!
# Errors are met at the earliest token

A state may reduce on tokens that cannot come next, but it shifts none of them: the symbols on the
stacks are a viable prefix, and the tokens read so far are at the leaves of their trees. So what was
read before the error is the front of something that the start rule produces. Without conflicts
there is no sentence that begins with it and the token of the error, since a parse of that sentence
would have met the same error.
-/

set_option autoImplicit false

namespace SlrKit

theorem Supplies.unique {τ : Type} {next : τ → Reading τ} {source : τ}
    {tokens others : List Token} {ending : Option LexError}
    (first : Supplies next source tokens ending) (second : Supplies next source others ending) :
    tokens = others := by
  induction first generalizing others with
  | ended item =>
      cases second with
      | ended _ => rfl
      | token other _ => rw [item] at other; cases other
  | broken item =>
      cases second with
      | broken _ => rfl
      | token other _ => rw [item] at other; cases other
  | token item _ ih =>
      cases second with
      | ended other => rw [item] at other; cases other
      | broken other => rw [item] at other; cases other
      | token other rest =>
          rw [item] at other
          cases other
          rw [ih rest]

theorem Ahead.unique {τ : Type} {next : τ → Reading τ} {lookahead : Option Token} {source : τ}
    {tokens others : List Token} {ending : Option LexError}
    (first : Ahead next lookahead source tokens ending)
    (second : Ahead next lookahead source others ending) : tokens = others := by
  cases first with
  | ended =>
      cases second with
      | ended => rfl
  | token supplies =>
      cases second with
      | token again => rw [supplies.unique again]

theorem Ahead.place_unique {τ : Type} {next : τ → Reading τ} {lookahead : Option Token}
    {source : τ} {tokens : List Token} {ending : Option LexError} {place other : Nat}
    (within : place ≤ tokens.length) (otherWithin : other ≤ tokens.length)
    (first : Ahead next lookahead source (tokens.drop place) ending)
    (second : Ahead next lookahead source (tokens.drop other) ending) : place = other := by
  have count := congrArg List.length (first.unique second)
  rw [List.length_drop, List.length_drop] at count
  omega

namespace Parser

variable {α π τ : Type}

/-- The parse has ended with one error, at the token with this number or at the end of the input:
that token and what is left of the source are the tokens from this place on. -/
structure StopsAt (parser : Parser α π τ) (tokens : List Token) (ending : Option LexError)
    (outcome : Outcome α π τ) (place : Nat) : Prop where
  within : place ≤ tokens.length
  error : ∃ error, outcome.errors = [.unexpected error] ∧
    Ahead parser.next error.token outcome.source (tokens.drop place) ending

variable {parser : Parser α π τ} {graph : StateGraph} {param : π} {source : τ}
  {tokens : List Token} {ending : Option LexError}

theorem token_of_congr {first second : Option Token}
    (named : first.map Token.name = second.map Token.name) :
    parser.tokenOf first = parser.tokenOf second := by
  cases first with
  | none =>
      cases second with
      | none => rfl
      | some _ => cases named
  | some token =>
      cases second with
      | none => cases named
      | some other => exact congrArg parser.grammar.tokenIndex? (Option.some.inj named)

variable [Inhabited α]

/-- The last configuration of a parse that stops at its first error. -/
structure Stops (parser : Parser α π τ) (param : π) (source : τ) (outcome : Outcome α π τ)
    (last : Config α π τ) (top : Nat) (below : List Nat) : Prop where
  reachable : Reachable parser param source last
  clean : last.errors = []
  states : last.states = top :: below
  cell : parser.cellFor top last.lookahead = .error
  errors : outcome.errors = [.unexpected ⟨top, last.lookahead, parser.expected top⟩]
  source : outcome.source = last.source

theorem Built.reachable_clean (built : parser.Built graph) (stopping : parser.recovery = .none)
    {config : Config α π τ} (reachable : Reachable parser param source config) :
    config.errors = [] := by
  induction reachable with
  | start first =>
      have pulled := start_pulled parser param source
      rw [first] at pulled
      exact pulled.kept.errors
  | @step config after before next ih =>
      have sane := built.reachable_sane before
      obtain ⟨symbols, stands⟩ := sane.stands
      have effect := built.step_effect stands
      generalize parser.step config = step at effect next
      cases effect with
      | @shift _ _ target _ token _ _ _ _ _ _ =>
          have pulled := pull_pulled parser (shifted config token target)
          rw [next] at pulled
          exact pulled.kept.errors.trans ih
      | reduce _ _ _ _ _ _ _ _ _ _ =>
          cases next
          exact ih
      | accept _ _ _ _ _ _ => cases next
      | @reject top _ _ _ _ =>
          have rejected := reject_rejected parser config top
          rw [next] at rejected
          cases rejected with
          | recover recovers _ =>
              rw [stopping] at recovers
              cases recovers
      | resume phase _ _ =>
          rw [sane.parsing_of_clean ih] at phase
          cases phase
      | discard phase _ =>
          rw [sane.parsing_of_clean ih] at phase
          cases phase

theorem Built.exists_stops (built : parser.Built graph) (stopping : parser.recovery = .none)
    (limit : Nat) (outcome : Outcome α π τ)
    (ran : parser.run limit param source = some (.ok outcome))
    (erred : ∃ error, .unexpected error ∈ outcome.errors) :
    ∃ last top below, Stops parser param source outcome last top below := by
  obtain ⟨error, member⟩ := erred
  rcases run_result limit _ ran with first | ⟨last, reachable, ends⟩
  · have pulled := start_pulled parser param source
    rw [Step.halt_of_result outcome first] at pulled
    cases pulled with
    | broken _ _ => simp [opening] at member
  · have clean := built.reachable_clean stopping reachable
    have sane := built.reachable_sane reachable
    obtain ⟨symbols, stands⟩ := sane.stands
    have effect := built.step_effect stands
    have halts := Step.halt_of_result outcome ends
    generalize parser.step last = step at effect halts
    cases effect with
    | @shift _ _ target _ token _ _ _ _ _ _ =>
        have pulled := pull_pulled parser (shifted last token target)
        rw [halts] at pulled
        cases pulled with
        | broken _ _ => simp [shifted, clean] at member
    | reduce _ _ _ _ _ _ _ _ _ _ => cases halts
    | accept _ _ _ _ _ _ =>
        cases halts
        simp [Config.finish, clean] at member
    | @reject top below _ states cell =>
        have rejected := reject_rejected parser last top
        rw [halts] at rejected
        cases rejected with
        | stop _ _ =>
            refine ⟨last, top, below, reachable, clean, states, cell, ?_, rfl⟩
            rw [clean, List.nil_append]
    | resume _ _ _ => cases halts
    | discard phase _ =>
        rw [sane.parsing_of_clean clean] at phase
        cases phase

variable {outcome : Outcome α π τ} {last : Config α π τ} {top : Nat} {below : List Nat}
  {place : Nat}

theorem Stops.has_read (stops : Stops parser param source outcome last top below)
    (at_place : StopsAt parser tokens ending outcome place) :
    HasRead parser tokens ending last place := by
  obtain ⟨error, only, ahead⟩ := at_place.error
  rw [stops.errors] at only
  cases only
  rw [stops.source] at ahead
  exact ⟨at_place.within, ahead⟩

theorem Stops.stops_at (stops : Stops parser param source outcome last top below)
    (has : HasRead parser tokens ending last place) :
    StopsAt parser tokens ending outcome place := by
  refine ⟨has.within, _, stops.errors, ?_⟩
  rw [stops.source]
  exact has.ahead

/-- What was read before the error is the front of something that the start rule produces. -/
theorem Built.read_produced (built : parser.Built graph)
    (supplies : Supplies parser.next source tokens ending)
    (reachable : Reachable parser param source last) (clean : last.errors = [])
    (has : HasRead parser tokens ending last place) :
    ∃ terminals rest, parser.grammar.Names terminals (tokens.take place) ∧
      parser.grammar.Produces [.rule parser.grammar.userStart] (terminals.map .token ++ rest) := by
  obtain ⟨_, symbols, trees, grown⟩ := built.reachable_grown supplies reachable clean
  obtain ⟨rest, ahead, whole⟩ := grown.reads
  have read : Forest.leaves trees = tokens.take place := by
    rw [ahead.unique has.ahead] at whole
    exact List.append_cancel_right (whole.trans (List.take_append_drop place tokens).symm)
  rw [← read]
  exact built.canonical.produces_front built.wellFormed grown.stands.path grown.derives

/-- Without conflicts, no sentence has the same terminals up to the place of an error. -/
theorem Built.no_sentence_alike (built : parser.Built graph)
    (free : Table.ConflictFree parser.grammar graph)
    (supplies : Supplies parser.next source tokens ending)
    (stops : Stops parser param source outcome last top below)
    (has : HasRead parser tokens ending last place) {tree : Tree}
    (derives : Tree.Derives parser.grammar (.rule parser.grammar.userStart) tree) :
    ¬∀ index, index ≤ place →
      tokens[index]?.map Token.name = tree.leaves[index]?.map Token.name := by
  intro alike
  obtain ⟨count, reached⟩ := stops.reachable.exists_count
  have terminals := fun index inside => @token_of_congr _ _ _ parser _ _ (alike index inside)
  obtain ⟨read, again, follows⟩ :=
    built.reached_followed supplies place terminals reached stops.clean
  have same : read = place := Ahead.place_unique again.within has.within again.ahead has.ahead
  obtain ⟨other, followed⟩ := follows (Nat.le_of_eq same)
  -- The parse of the sentence meets the same error, but sentences are accepted.
  have cell : parser.counting.cellFor top other.lookahead = .error := by
    rw [followed.has.lookahead_eq, same, ← stops.cell, has.lookahead_eq]
    exact cell_for_congr (terminals place (Nat.le_refl place)).symm top
  have rejects : parser.counting.step other = parser.counting.reject other top := by
    simp only [step, followed.phase, followed.states.trans stops.states, cell]
  obtain ⟨bound, value, accepted, runs, _, errors, _⟩ := built.counting.sentence_runs free
    derives 0 _ (supplies_read_list tree.leaves)
  have erring := followed.reached.run_of_ends _ (by rw [rejects]; rfl) (bound + count + 1)
    (by omega)
  rw [runs _ (by omega)] at erring
  cases erring
  exact List.append_ne_nil_of_right_ne_nil _ (List.cons_ne_nil _ _) errors

/-- A parser that stops at the first error does so at a token, or at the end of the input, before
which the tokens are the front of something that the start rule produces. Without conflicts, no
sentence begins with them and that token, or at the end of the input, they are no sentence. -/
theorem errors_are_met_at_earliest_token (width : IndexWidth) (declarations : Declarations α π)
    (parser : Parser α π τ) (graph : StateGraph)
    (compiled : Grammar.compile width declarations = .ok parser.grammar)
    (made : (Table.ofGrammar parser.grammar).value = .ok (graph, parser.table))
    (stopping : parser.recovery = .none) (param : π) (source : τ) (tokens : List Token)
    (supplies : Supplies parser.next source tokens none) (limit : Nat) (outcome : Outcome α π τ)
    (ran : parser.run limit param source = some (.ok outcome))
    (erred : ∃ error, .unexpected error ∈ outcome.errors) :
    (∃ place, StopsAt parser tokens none outcome place) ∧
      ∀ place, StopsAt parser tokens none outcome place →
        (∃ terminals rest, parser.grammar.Names terminals (tokens.take place) ∧
          parser.grammar.Produces [.rule parser.grammar.userStart]
            (terminals.map .token ++ rest)) ∧
        (Table.ConflictFree parser.grammar graph →
          (place < tokens.length →
            ¬∃ tree, Tree.Derives parser.grammar (.rule parser.grammar.userStart) tree ∧
              (tokens.take (place + 1)).map Token.name <+: tree.leaves.map Token.name) ∧
          (place = tokens.length →
            ¬∃ tree, Tree.Derives parser.grammar (.rule parser.grammar.userStart) tree ∧
              tree.leaves.map Token.name = tokens.map Token.name)) := by
  have built := built_of_compile width declarations compiled made
  obtain ⟨last, top, below, stops⟩ := built.exists_stops stopping limit outcome ran erred
  constructor
  · obtain ⟨_, symbols, trees, grown⟩ :=
      built.reachable_grown supplies stops.reachable stops.clean
    obtain ⟨rest, ahead, rfl⟩ := grown.reads
    refine ⟨(Forest.leaves trees).length, stops.stops_at ⟨by simp, ?_⟩⟩
    rw [List.drop_left]
    exact ahead
  · intro place at_place
    have has := stops.has_read at_place
    refine ⟨built.read_produced supplies stops.reachable stops.clean has, ?_⟩
    intro free
    constructor
    · rintro _ ⟨tree, derives, more, begins⟩
      apply built.no_sentence_alike free supplies stops has derives
      intro index inside
      rw [← List.getElem?_map, ← List.getElem?_map, ← begins,
        List.getElem?_append_left (by rw [List.length_map, List.length_take]; omega),
        List.map_take, List.getElem?_take_of_lt (Nat.lt_succ_of_le inside)]
    · rintro _ ⟨tree, derives, same⟩
      apply built.no_sentence_alike free supplies stops has derives
      intro index _
      rw [← List.getElem?_map, ← List.getElem?_map, same]

/-- A row whose second sign is unknown: the error is met there, and no row begins so. -/
theorem unknown_sign_begins_no_row :
    ∃ outcome,
      ({ Rows.parser Rows.table with recovery := .none }).run 8 0 (List.map Except.ok
          [Rows.letter 1, Sums.sign "?" 2, Rows.letter 3]) = some (.ok outcome) ∧
      StopsAt { Rows.parser Rows.table with recovery := .none }
        [Rows.letter 1, Sums.sign "?" 2, Rows.letter 3] none outcome 1 ∧
      ¬∃ tree, Tree.Derives Rows.grammar (.rule Rows.grammar.userStart) tree ∧
        ["a", "?"] <+: tree.leaves.map Token.name := by
  have runs : ∃ outcome,
      ({ Rows.parser Rows.table with recovery := .none }).run 8 0 (List.map Except.ok
          [Rows.letter 1, Sums.sign "?" 2, Rows.letter 3]) = some (.ok outcome) ∧
      ∃ error, outcome.errors = [.unexpected error] ∧ error.token = some (Sums.sign "?" 2) ∧
        outcome.source = [.ok (Rows.letter 3)] :=
    ⟨_, by cbv, _, rfl, rfl, rfl⟩
  obtain ⟨outcome, ran, error, only, token, source⟩ := runs
  have stops : StopsAt { Rows.parser Rows.table with recovery := .none }
      [Rows.letter 1, Sums.sign "?" 2, Rows.letter 3] none outcome 1 := by
    refine ⟨by decide, error, only, ?_⟩
    rw [token, source]
    exact .token (supplies_read_list [Rows.letter 3])
  obtain ⟨_, earliest⟩ := errors_are_met_at_earliest_token .bits32 Rows.declarations
    { Rows.parser Rows.table with recovery := .none } Rows.graph Rows.compiled Rows.made rfl 0 _ _
    (supplies_read_list [Rows.letter 1, Sums.sign "?" 2, Rows.letter 3]) 8 outcome ran
    ⟨error, by rw [only]; exact List.mem_cons_self⟩
  obtain ⟨begins, _⟩ := (earliest 1 stops).2 Rows.conflict_free
  exact ⟨outcome, ran, stops, begins (by decide)⟩

end Parser

end SlrKit
