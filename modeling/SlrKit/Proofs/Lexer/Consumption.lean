import SlrKit.Lexer.Run
import SlrKit.Proofs.Lexer.Priority
import SlrKit.Proofs.Pattern.Nonempty

/-!
# What a lexer moves over

The moves of a lexer cut its input into pieces: what rules match, whether their handlers keep it or
discard it, literal characters, and what the error handler skips. The pieces start at the beginning,
each begins where the one before it ended, and none is empty. They go on to the end of the input or
up to the one character that no token starts with and that was not skipped. All that is asked of the
search for matches is that a match ends between two characters, after the place where it begins.
-/

set_option autoImplicit false

namespace SlrKit

/-- The span stands for the part of the text, and cuts no character. -/
def Span.Marks (text : List Char) (span : Span) (part : List Char) : Prop :=
  Text.slice? span.start span.stop text = some part

namespace Lexer

def Definition.EndsAfterCursor (definition : Definition) : Prop :=
  ∀ search, definition.searcher? = some search → Regex.EndsAfterCursor search

/-- No handler of a rule changes where its token stands. -/
def Definition.KeepsSpans (definition : Definition) : Prop :=
  ∀ rule ∈ definition.rules, ∀ handler, rule.handler = some handler →
    ∀ token, (handler token).1.span = token.span

/-- The piece of the input that the event moves over; a lexical error moves over nothing. -/
def Event.consumed? : Event → Option Span
  | .matched _ token _ => some token.span
  | .literal token => some token.span
  | .skipped seen count =>
      some (Span.ofLength seen.span.start (Text.byteLength (seen.value.toList.take count)))
  | .failed _ _ => none
  | .broken _ => none

/-- The token that the error handler has been given. -/
def Event.asked? : Event → Option Token
  | .skipped seen _ => some seen
  | .failed seen _ => some seen
  | _ => none

/-- The handler of the rule was given what was found, and this is what it returned; what no handler is
given is kept as it is. -/
def Rule.Handles (rule : Rule) (found token : Token) (verdict : Verdict) : Prop :=
  (∀ handler, rule.handler = some handler → handler found = (token, verdict)) ∧
    (rule.handler = none → token = found ∧ verdict = .keep)

/-- What happened is what the handlers have made of the text: they were given what stands in it at
the span, and what they returned has been done. `asked` are the tokens that the error handler had been
given before. -/
inductive Event.Genuine (definition : Definition) (text : List Char) (asked : List Token) :
    Event → Prop
  | matched {rule : Rule} {found token : Token} {verdict : Verdict}
      (among : rule ∈ definition.rules) (named : found.name = rule.name)
      (marks : found.span.Marks text found.value.toList)
      (handles : rule.Handles found token verdict) :
      Genuine definition text asked (.matched found token verdict)
  | literal {c : Char} {token : Token} (among : c ∈ definition.literals)
      (named : token.name = c.toString) (value : token.value.toList = [c])
      (marks : token.span.Marks text [c]) : Genuine definition text asked (.literal token)
  | skipped {seen : Token} {count : Nat} (decided : definition.onError asked seen = count)
      (positive : 0 < count) (marks : seen.span.Marks text seen.value.toList)
      (last : seen.span.stop = Text.byteLength text) :
      Genuine definition text asked (.skipped seen count)
  | failed {seen : Token} {error : LexError} (decided : definition.onError asked seen = 0)
      (marks : seen.span.Marks text seen.value.toList) (last : seen.span.stop = Text.byteLength text)
      (same : seen.span.start = error.span.start) :
      Genuine definition text asked (.failed seen error)
  | broken {fault : Fault} : Genuine definition text asked (.broken fault)

/-- From `start` on the events move over the text without a gap and without cutting a character:
to the end of the text, or to a single character that the lexical error is about. The error is then
the last event. -/
inductive Covers (text : List Char) : Nat → List Event → Prop
  | ended : Covers text (Text.byteLength text) []
  | failed {seen : Token} {error : LexError} {c : Char} (marks : error.span.Marks text [c])
      (shown : error.text = c.toString) : Covers text error.span.start [.failed seen error]
  | passed {event : Event} {span : Span} {part : List Char} {later : List Event}
      (consumed : event.consumed? = some span) (marks : span.Marks text part)
      (nonempty : part ≠ []) (covers : Covers text span.stop later) :
      Covers text span.start (event :: later)

/-- What is returned of the events: the tokens that handlers kept, as they returned them, literal
characters, and a lexical error as the last item. -/
inductive Returns : List Event → List (Except LexError Token) → Prop
  | ended : Returns [] []
  | kept {found token : Token} {events : List Event} {items : List (Except LexError Token)}
      (later : Returns events items) :
      Returns (.matched found token .keep :: events) (.ok token :: items)
  | discarded {found token : Token} {events : List Event} {items : List (Except LexError Token)}
      (later : Returns events items) : Returns (.matched found token .discard :: events) items
  | literal {token : Token} {events : List Event} {items : List (Except LexError Token)}
      (later : Returns events items) : Returns (.literal token :: events) (.ok token :: items)
  | skipped {seen : Token} {count : Nat} {events : List Event}
      {items : List (Except LexError Token)} (later : Returns events items) :
      Returns (.skipped seen count :: events) items
  | failed {seen : Token} {error : LexError} : Returns [.failed seen error] [.error error]
  | broken {fault : Fault} : Returns [.broken fault] []

theorem Returns.unique {events : List Event} {items others : List (Except LexError Token)}
    (one : Returns events items) (other : Returns events others) : items = others := by
  induction one generalizing others with
  | ended | failed | broken =>
      cases other
      rfl
  | kept _ ih =>
      cases other with
      | kept later => rw [ih later]
  | literal _ ih =>
      cases other with
      | literal later => rw [ih later]
  | discarded _ ih =>
      cases other with
      | discarded later => exact ih later
  | skipped _ ih =>
      cases other with
      | skipped later => exact ih later

/-- What the lexer returns if it is called once more after that many calls. -/
def itemOfCall (definition : Definition) : Nat → State → Option (Except LexError Token)
  | 0, state => (next definition state).item
  | count + 1, state => itemOfCall definition count (next definition state).rest

/-- The events are those of the whole text: they are what the handlers have made of it, and calls return
what there is to return of them, one item a call, and then nothing. -/
structure Definition.Lexes (definition : Definition) (text : List Char) (events : List Event) :
    Prop where
  made : (moves definition (State.ofText text)).1 = events
  genuine : ∀ earlier event later, events = earlier ++ event :: later →
    event.Genuine definition text (earlier.filterMap Event.asked?)
  returned : ∃ items, Returns events items ∧
    ∀ count, itemOfCall definition count (State.ofText text) = items[count]?

namespace State

/-- The state has moved over a part of the text and has the rest of it ahead. -/
structure StandsIn (text : List Char) (state : State) : Prop where
  split : text = state.behind.reverse ++ state.rest
  offset : state.offset = Text.byteLength state.behind.reverse

theorem of_text_stands_in (text : List Char) : (ofText text).StandsIn text := ⟨rfl, rfl⟩

theorem advance_rest (count : Nat) (state : State) :
    (state.advance count).rest = state.rest.drop count := by
  induction count generalizing state with
  | zero => rfl
  | succ count ih =>
      cases content : state.rest with
      | nil => simp [advance, content]
      | cons c rest => simp [advance, content, ih, step]

theorem advance_behind (count : Nat) (state : State) :
    (state.advance count).behind.reverse = state.behind.reverse ++ state.rest.take count := by
  induction count generalizing state with
  | zero => simp [advance]
  | succ count ih =>
      cases content : state.rest with
      | nil => simp [advance, content]
      | cons c rest => simp [advance, content, ih, step]

theorem advance_offset (count : Nat) (state : State) :
    (state.advance count).offset =
      state.offset + Text.byteLength (state.rest.take count) := by
  induction count generalizing state with
  | zero => simp [advance]
  | succ count ih =>
      cases content : state.rest with
      | nil => simp [advance, content]
      | cons c rest => simp [advance, content, ih, step, Nat.add_assoc]

theorem advance_fault (count : Nat) (state : State) :
    (state.advance count).fault? = state.fault? :=
  untouched_by_advance (·.fault?) (fun _ _ _ => rfl) count state

theorem advance_reported (count : Nat) (state : State) :
    (state.advance count).reported = state.reported :=
  untouched_by_advance (·.reported) (fun _ _ _ => rfl) count state

variable {text : List Char} {state : State}

theorem StandsIn.advance (stands : state.StandsIn text) (count : Nat) :
    (state.advance count).StandsIn text := by
  constructor
  · rw [advance_behind, advance_rest, List.append_assoc, List.take_append_drop]
    exact stands.split
  · rw [advance_behind, advance_offset, Text.byteLength_append, stands.offset]

theorem StandsIn.marks_take (stands : state.StandsIn text) (count : Nat) :
    (Span.ofLength state.offset (Text.byteLength (state.rest.take count))).Marks text
      (state.rest.take count) := by
  refine Text.slice?_eq_some_iff.mpr
    ⟨state.behind.reverse, state.rest.drop count, ?_, stands.offset.symm, rfl⟩
  rw [List.append_assoc, List.take_append_drop]
  exact stands.split

theorem StandsIn.marks_token (stands : state.StandsIn text) (name : String) (count : Nat) :
    (state.token name count).span.Marks text (state.token name count).value.toList := by
  simpa [token] using stands.marks_take count

theorem StandsIn.rest_token_stop (stands : state.StandsIn text) (name : String) :
    (state.token name state.rest.length).span.stop = Text.byteLength text := by
  have whole := congrArg Text.byteLength stands.split
  rw [Text.byteLength_append, ← stands.offset] at whole
  simp [token, Span.ofLength, whole]

end State

theorem match_rule_mem {definition : Definition} {behind ahead : List Char} {rule : Rule}
    {size : Nat} (found : definition.matchRule? behind ahead = some (rule, size)) :
    rule ∈ definition.rules := by
  obtain ⟨_, _, chosen⟩ := Option.bind_eq_some_iff.mp found
  obtain ⟨branch, first, same⟩ := Option.map_eq_some_iff.mp chosen
  cases same
  exact List.mem_map_of_mem (List.mem_of_find?_eq_some first)

theorem match_rule_taken {definition : Definition} (ends : definition.EndsAfterCursor)
    {behind ahead : List Char} {rule : Rule} {size : Nat}
    (found : definition.matchRule? behind ahead = some (rule, size)) :
    ∃ part, part ≠ [] ∧ Text.takeBytes? size ahead = some part := by
  obtain ⟨own, searched, chosen⟩ := Option.bind_eq_some_iff.mp found
  obtain ⟨search, searches, matched⟩ := Option.bind_eq_some_iff.mp searched
  obtain ⟨branch, _, same⟩ := Option.map_eq_some_iff.mp chosen
  cases same
  exact ends search searches behind ahead own matched

/-- The error token at the place where the state stands: its value is the rest of the input. -/
abbrev State.errorToken (state : State) : Token := state.token "error" state.rest.length

/-- The state once the error handler has seen that token. -/
abbrev State.noted (state : State) : State :=
  { state with reported := state.reported ++ [state.errorToken] }

/-- The ways to move, each with what it takes precedence of. Whether sums have overflowed by then is
left open. -/
inductive MovesBy (definition : Definition) (state : State) (overflowed : Bool) :
    Event → State → Prop
  | matched {rule : Rule} {size : Nat} {part : List Char}
      (found : definition.matchRule? state.behind state.rest = some (rule, size))
      (taken : Text.takeBytes? size state.rest = some part) (nonempty : part ≠ []) :
      MovesBy definition state overflowed (takeMatch state rule part.length).1
        { (takeMatch state rule part.length).2 with overflowed }
  | broken {rule : Rule} {size : Nat} {fault : Fault}
      (found : definition.matchRule? state.behind state.rest = some (rule, size))
      (untaken : ∀ part, part ≠ [] → Text.takeBytes? size state.rest ≠ some part) :
      MovesBy definition state overflowed (.broken fault)
        { state with stopped := true, fault? := some fault, overflowed }
  | literal {c : Char} {rest : List Char} (content : state.rest = c :: rest)
      (unmatched : definition.matchRule? state.behind state.rest = none)
      (among : c ∈ definition.literals) :
      MovesBy definition state overflowed (.literal (state.token c.toString 1))
        { state.advance 1 with overflowed }
  | skipped {c : Char} {rest : List Char} {count : Nat} (content : state.rest = c :: rest)
      (unmatched : definition.matchRule? state.behind state.rest = none)
      (other : c ∉ definition.literals)
      (decided : definition.onError state.reported state.errorToken = count + 1) :
      MovesBy definition state overflowed (.skipped state.errorToken (count + 1))
        { state.noted.advance (count + 1) with overflowed }
  | failed {c : Char} {rest : List Char} (content : state.rest = c :: rest)
      (unmatched : definition.matchRule? state.behind state.rest = none)
      (other : c ∉ definition.literals)
      (decided : definition.onError state.reported state.errorToken = 0) :
      MovesBy definition state overflowed
        (.failed state.errorToken ⟨Span.ofLength state.offset c.utf8Size, c.toString,
          state.errorToken.line, state.errorToken.column⟩)
        { state.noted with stopped := true, overflowed }

theorem moves_by_of_rule {definition : Definition} {state : State} {rule : Rule} {size : Nat}
    (found : definition.matchRule? state.behind state.rest = some (rule, size)) (overflowed : Bool) :
    MovesBy definition state overflowed (takeRule state rule size).1
      { (takeRule state rule size).2 with overflowed } := by
  unfold takeRule
  split
  · rename_i missing
    apply MovesBy.broken found
    intro part _ taken
    rw [missing] at taken
    cases taken
  · rename_i idle
    apply MovesBy.broken found
    intro part nonempty taken
    rw [idle] at taken
    cases taken
    exact nonempty rfl
  · rename_i first more taken
    exact MovesBy.matched found taken (List.cons_ne_nil first more)

theorem moves_by_of_error {definition : Definition} {state : State} {c : Char} {rest : List Char}
    (content : state.rest = c :: rest)
    (unmatched : definition.matchRule? state.behind state.rest = none)
    (other : c ∉ definition.literals) (overflowed : Bool) :
    MovesBy definition state overflowed (takeError definition state c).1
      { (takeError definition state c).2 with overflowed } := by
  simp only [takeError]
  split
  · rename_i decided
    exact MovesBy.failed content unmatched other decided
  · rename_i count decided
    exact MovesBy.skipped content unmatched other decided

theorem moves_by_of_take {definition : Definition} {state taken : State} {event : Event}
    (moved : take? definition state = some (event, taken)) (overflowed : Bool) :
    MovesBy definition state overflowed event { taken with overflowed } := by
  unfold take? at moved
  split at moved
  · cases moved
  · split at moved
    · cases moved
    · rename_i c rest content
      split at moved
      · rename_i rule size found
        have step := moves_by_of_rule found overflowed
        rw [Option.some.inj moved] at step
        exact step
      · rename_i unmatched
        split at moved
        · rename_i among
          cases moved
          exact MovesBy.literal content unmatched (by simpa using among)
        · rename_i other
          have step := moves_by_of_error content unmatched (by simpa using other) overflowed
          rw [Option.some.inj moved] at step
          exact step

theorem moves_by_of_move {definition : Definition} {state after : State} {event : Event}
    (moved : move? definition state = some (event, after)) :
    ∃ overflowed, MovesBy definition state overflowed event after := by
  obtain ⟨⟨own, taken⟩, took, same⟩ := Option.map_eq_some_iff.mp moved
  cases same
  exact ⟨_, moves_by_of_take took _⟩

theorem move_of_stopped {definition : Definition} {state : State} (stopped : state.stopped = true) :
    move? definition state = none := by
  rw [move?, take?, if_pos stopped]
  rfl

theorem stopped_or_ended_of_still {definition : Definition} {state : State}
    (still : move? definition state = none) : state.stopped = true ∨ state.rest = [] := by
  have untaken := Option.map_eq_none_iff.mp still
  unfold take? at untaken
  split at untaken
  · rename_i stopped
    exact Or.inl stopped
  · split at untaken
    · rename_i content
      exact Or.inr content
    · split at untaken
      · cases untaken
      · split at untaken <;> cases untaken

/-- What a move does that starts at a place: it goes over some characters, or it stops there. -/
inductive Passes (text : List Char) (start : Nat) : Event → State → Prop
  | passed {event : Event} {after : State} {span : Span} {part : List Char}
      (consumed : event.consumed? = some span) (starts : span.start = start)
      (stops : span.stop = after.offset) (marks : span.Marks text part) (nonempty : part ≠ [])
      (stands : after.StandsIn text) (running : after.stopped = false) :
      Passes text start event after
  | failed {seen : Token} {error : LexError} {after : State} {c : Char}
      (starts : error.span.start = start) (marks : error.span.Marks text [c])
      (shown : error.text = c.toString) (stopped : after.stopped = true) :
      Passes text start (.failed seen error) after

section Move

variable {definition : Definition} {text : List Char} {state after : State} {event : Event}
  {overflowed : Bool}

theorem passes_advance (stands : state.StandsIn text) (running : state.stopped = false)
    (ahead : state.rest ≠ []) (count : Nat) (shift : Int64)
    (consumed : event.consumed? =
      some (Span.ofLength state.offset (Text.byteLength (state.rest.take (count + 1))))) :
    Passes text state.offset event { state.advance (count + 1) with shift, overflowed } := by
  have reached := stands.advance (count + 1)
  apply Passes.passed consumed rfl
  · exact (State.advance_offset (count + 1) state).symm
  · exact stands.marks_take (count + 1)
  · simpa using ahead
  · exact ⟨reached.split, reached.offset⟩
  · exact (State.stopped_advance (count + 1) state).trans running

theorem handled_span (keeps : definition.KeepsSpans) {rule : Rule}
    (among : rule ∈ definition.rules) (found : Token) : (handle rule found).1.span = found.span := by
  unfold handle
  split
  · rename_i handler handles
    exact keeps rule among handler handles found
  · rfl

theorem move_stands (stands : state.StandsIn text)
    (moved : MovesBy definition state overflowed event after) : after.StandsIn text := by
  have noted : state.noted.StandsIn text := ⟨stands.split, stands.offset⟩
  cases moved with
  | @matched rule size part found taken nonempty =>
      have passed := stands.advance part.length
      exact ⟨passed.split, passed.offset⟩
  | literal content unmatched among =>
      have passed := stands.advance 1
      exact ⟨passed.split, passed.offset⟩
  | @skipped c rest count content unmatched other decided =>
      have passed := noted.advance (count + 1)
      exact ⟨passed.split, passed.offset⟩
  | broken | failed => exact ⟨stands.split, stands.offset⟩

theorem move_passes (ends : definition.EndsAfterCursor) (keeps : definition.KeepsSpans)
    (stands : state.StandsIn text) (running : state.stopped = false)
    (moved : MovesBy definition state overflowed event after) :
    Passes text state.offset event after := by
  cases moved with
  | @matched rule size part found taken nonempty =>
      obtain ⟨rest, content, _⟩ := Text.takeBytes?_eq_some_iff.mp taken
      obtain ⟨first, more, rfl⟩ := List.exists_cons_of_ne_nil nonempty
      have ahead : state.rest ≠ [] := by simp [content]
      apply passes_advance stands running ahead
      exact congrArg some (handled_span keeps (match_rule_mem found) _)
  | broken found untaken =>
      obtain ⟨part, nonempty, taken⟩ := match_rule_taken ends found
      exact absurd taken (untaken part nonempty)
  | literal content unmatched among =>
      exact passes_advance stands running (by simp [content]) 0 _ rfl
  | skipped content unmatched other decided =>
      have noted : state.noted.StandsIn text := ⟨stands.split, stands.offset⟩
      apply passes_advance noted running (by simp [content])
      simp [Event.consumed?, State.token, Span.ofLength]
  | failed content unmatched other decided =>
      have marks := stands.marks_take 1
      refine Passes.failed rfl ?_ rfl rfl
      simpa [content] using marks

theorem rule_handles (rule : Rule) (found : Token) :
    rule.Handles found (handle rule found).1 (handle rule found).2 := by
  unfold handle Rule.Handles
  cases rule.handler with
  | none => simp
  | some own => simp

theorem move_genuine (stands : state.StandsIn text)
    (moved : MovesBy definition state overflowed event after) :
    event.Genuine definition text state.reported := by
  have marks := stands.marks_token "error" state.rest.length
  have last := stands.rest_token_stop "error"
  cases moved with
  | @matched rule size part found taken nonempty =>
      exact Event.Genuine.matched (match_rule_mem found) rfl
        (stands.marks_token rule.name part.length) (rule_handles rule _)
  | broken found untaken => exact Event.Genuine.broken
  | literal content unmatched among =>
      have single := stands.marks_take 1
      apply Event.Genuine.literal among rfl
      · simp [State.token, content]
      · simpa [State.token, content] using single
  | skipped content unmatched other decided =>
      exact Event.Genuine.skipped decided (Nat.succ_pos _) marks last
  | failed content unmatched other decided => exact Event.Genuine.failed decided marks last rfl

theorem move_reported (moved : MovesBy definition state overflowed event after) :
    after.reported = state.reported ++ event.asked?.toList := by
  cases moved with
  | matched | literal =>
      simp [takeMatch, Event.asked?, State.advance_reported]
  | broken | failed => simp [Event.asked?]
  | skipped => simp [Event.asked?, State.advance_reported]

theorem move_fault (ends : definition.EndsAfterCursor)
    (moved : MovesBy definition state overflowed event after) : after.fault? = state.fault? := by
  cases moved with
  | matched | literal | skipped => simp [takeMatch, State.advance_fault]
  | broken found untaken =>
      obtain ⟨part, nonempty, taken⟩ := match_rule_taken ends found
      exact absurd taken (untaken part nonempty)
  | failed => rfl

end Move

section Run

variable {definition : Definition} {text : List Char} {state : State}

theorem moves_of_still (still : move? definition state = none) :
    moves definition state = ([], state) := by
  rw [moves]
  split
  · rfl
  · rename_i moved
    rw [still] at moved
    cases moved

theorem moves_of_stopped (stopped : state.stopped = true) :
    moves definition state = ([], state) := moves_of_still (move_of_stopped stopped)

theorem moves_of_move {event : Event} {after : State}
    (moved : move? definition state = some (event, after)) :
    moves definition state = (event :: (moves definition after).1, (moves definition after).2) := by
  rw [moves]
  split
  · rename_i still
    rw [still] at moved
    cases moved
  · rename_i again
    rw [moved] at again
    cases again
    rfl

/-- By induction on the moves; what carries it is that the state stands in the text. -/
theorem moves_cover (ends : definition.EndsAfterCursor) (keeps : definition.KeepsSpans)
    (stands : state.StandsIn text) (running : state.stopped = false) :
    Covers text state.offset (moves definition state).1 := by
  fun_induction moves definition state with
  | case1 state still =>
      cases stopped_or_ended_of_still still with
      | inl stopped =>
          rw [running] at stopped
          cases stopped
      | inr ended =>
          have split := stands.split
          rw [ended, List.append_nil] at split
          rw [stands.offset, ← split]
          exact Covers.ended
  | case2 state event after moved later ih =>
      obtain ⟨overflowed, step⟩ := moves_by_of_move moved
      cases move_passes ends keeps stands running step with
      | passed consumed starts stops marks nonempty reached goes_on =>
          have covers := ih reached goes_on
          rw [← stops] at covers
          rw [← starts]
          exact Covers.passed consumed marks nonempty covers
      | failed starts marks shown stopped =>
          rw [← starts]
          simp only [later, moves_of_stopped stopped]
          exact Covers.failed marks shown

/-- The state before an event of a run, which is told of by an invariant of the moves. -/
theorem exists_state_before (invariant : List Event → State → Prop)
    (kept : ∀ {past : List Event} {state after : State} {event : Event} {overflowed : Bool},
      invariant past state → MovesBy definition state overflowed event after →
        invariant (past ++ [event]) after)
    (past : List Event) {earlier later : List Event} {event : Event} (start : invariant past state)
    (run : (moves definition state).1 = earlier ++ event :: later) :
    ∃ before after overflowed, invariant (past ++ earlier) before ∧
      MovesBy definition before overflowed event after ∧
        (moves definition before).1 = event :: later := by
  fun_induction moves definition state generalizing past earlier with
  | case1 state still => simp at run
  | case2 state first after moved rest =>
      rename_i ih
      obtain ⟨overflowed, step⟩ := moves_by_of_move moved
      cases earlier with
      | nil =>
          cases run
          rw [List.append_nil]
          refine ⟨state, after, overflowed, start, step, ?_⟩
          rw [moves_of_move moved]
      | cons head earlier =>
          rw [List.cons_append] at run
          obtain ⟨same, below⟩ := List.cons.inj run
          have reached := ih _ (kept start step) below
          rw [List.append_assoc, same] at reached
          exact reached

theorem moves_genuine (stands : state.StandsIn text) (unasked : state.reported = [])
    {earlier later : List Event} {event : Event}
    (run : (moves definition state).1 = earlier ++ event :: later) :
    event.Genuine definition text (earlier.filterMap Event.asked?) := by
  let invariant (past : List Event) (state : State) : Prop :=
    state.StandsIn text ∧ state.reported = past.filterMap Event.asked?
  have kept : ∀ {past : List Event} {state after : State} {event : Event} {overflowed : Bool},
      invariant past state → MovesBy definition state overflowed event after →
        invariant (past ++ [event]) after := by
    intro past state after event overflowed ⟨stands, asked⟩ moved
    refine ⟨move_stands stands moved, ?_⟩
    rw [move_reported moved, asked, List.filterMap_append, List.filterMap_cons]
    cases event.asked? with
    | none => rfl
    | some seen => rfl
  obtain ⟨before, after, overflowed, ⟨standing, asked⟩, moved, _⟩ :=
    exists_state_before invariant kept [] ⟨stands, unasked⟩ run
  rw [List.nil_append] at asked
  exact asked ▸ move_genuine standing moved

theorem moves_fault (ends : definition.EndsAfterCursor) :
    (moves definition state).2.fault? = state.fault? := by
  fun_induction moves definition state with
  | case1 state still => rfl
  | case2 state event after moved later ih =>
      obtain ⟨overflowed, step⟩ := moves_by_of_move moved
      exact ih.trans (move_fault ends step)

theorem next_of_still (still : move? definition state = none) :
    next definition state = { item := none, rest := state } := by
  rw [next]
  split
  · rfl
  · rename_i moved
    simp [still] at moved

theorem next_of_move {event : Event} {after : State}
    (moved : move? definition state = some (event, after)) :
    next definition state =
      match event.item? with
      | some item => { item := some item, rest := after, log := event.log }
      | none => { next definition after with log := event.log ++ (next definition after).log } := by
  rw [next]
  split
  · rename_i still
    simp [still] at moved
  · rename_i again
    rw [moved] at again
    cases again
    rfl

/-- Call after call returns what the moves have to show, and nothing once these are used up. -/
theorem item_of_call (count : Nat) :
    itemOfCall definition count state =
      ((moves definition state).1.filterMap Event.item?)[count]? := by
  fun_induction moves definition state generalizing count with
  | case1 state still =>
      induction count with
      | zero => simp [itemOfCall, next_of_still still]
      | succ count ih => simpa [itemOfCall, next_of_still still] using ih
  | case2 state event after moved later ih =>
      have called := next_of_move moved
      cases shown : event.item? with
      | some item =>
          rw [shown] at called
          cases count with
          | zero => simp [itemOfCall, called, shown]
          | succ count => simp [itemOfCall, called, shown, ih, later]
      | none =>
          rw [shown] at called
          rw [List.filterMap_cons_none shown, ← ih]
          cases count with
          | zero => simp [itemOfCall, called]
          | succ count => simp [itemOfCall, called]

theorem stopped_of_end {overflowed : Bool} {event : Event} {after : State}
    (moved : MovesBy definition state overflowed event after)
    (last : (∃ seen error, event = .failed seen error) ∨ ∃ fault, event = .broken fault) :
    after.stopped = true := by
  cases moved with
  | broken | failed => rfl
  | matched | literal | skipped => simp [takeMatch] at last

theorem moves_return : Returns (moves definition state).1
    ((moves definition state).1.filterMap Event.item?) := by
  fun_induction moves definition state with
  | case1 state still => exact Returns.ended
  | case2 state event after moved later ih =>
      obtain ⟨overflowed, step⟩ := moves_by_of_move moved
      cases event with
      | matched found token verdict =>
          cases verdict with
          | keep => exact Returns.kept ih
          | discard => exact Returns.discarded ih
      | literal token => exact Returns.literal ih
      | skipped seen count => exact Returns.skipped ih
      | failed seen error =>
          have stopped := stopped_of_end step (Or.inl ⟨seen, error, rfl⟩)
          simp only [later, moves_of_stopped stopped]
          exact Returns.failed
      | broken fault =>
          have stopped := stopped_of_end step (Or.inr ⟨fault, rfl⟩)
          simp only [later, moves_of_stopped stopped]
          exact Returns.broken

theorem lexes (definition : Definition) (text : List Char) :
    definition.Lexes text (moves definition (State.ofText text)).1 where
  made := rfl
  genuine _ _ _ run := moves_genuine (State.of_text_stands_in text) rfl run
  returned := ⟨_, moves_return, fun count => item_of_call count⟩

/-- The pieces that a lexer moves over partition its input up to where it ends, whatever its patterns
match and its error handler says. What handlers are given is what stands in the text; the tokens that
they keep, the literal characters and the lexical error are returned one by one, and who calls on after
the last item gets nothing more. -/
theorem consumed_spans_partition_text (definition : Definition) (text : List Char)
    (ends : definition.EndsAfterCursor) (keeps : definition.KeepsSpans) :
    ∃ events, definition.Lexes text events ∧ Covers text 0 events ∧
      (moves definition (State.ofText text)).2.fault? = none := by
  have covers := moves_cover ends keeps (State.of_text_stands_in text) rfl
  exact ⟨_, lexes definition text, covers, moves_fault ends⟩

end Run

/-- The lexers of the library of patterns are of this kind, if their combined patterns match no empty
text. -/
theorem ends_after_cursor_of_define {α π : Type} {declarations : Declarations α π}
    {definition : Definition} (size : Nat)
    (defined : (define Pattern.library declarations).value = .ok definition)
    (least : Pattern.library.leastSize (combinedText definition.rules) = .ok (some (size + 1))) :
    definition.EndsAfterCursor := by
  intro search searches
  have compiled := (rules_of_define defined).2.2
  rw [searches, searcherOf] at compiled
  split at compiled
  · cases compiled
  · cases ofText : Pattern.library.compile (combinedText definition.rules) with
    | error reason =>
        rw [ofText] at compiled
        cases compiled
    | ok own =>
        rw [ofText] at compiled
        cases compiled
        exact Pattern.ends_after_cursor ofText least

/-! Words with discarded blanks between them; a character that starts nothing is skipped, an
exclamation mark is an error. -/
namespace Words

def declarations : Declarations Nat Nat where
  tokens := [⟨"word", "[a-z]+", none⟩, ⟨"blank", " ", some fun token => (token, .discard)⟩]
  literals := ['+']
  onLexError := fun _ token => if token.value.startsWith "!" then 0 else 1

def blankRule : Rule := ⟨"blank", " ", some fun token => (token, .discard), 0⟩

def wordRule : Rule := ⟨"word", "[a-z]+", none, 0⟩

def combined : Pattern :=
  .alt (.group 1 (.chars ⟨[(32, 32)]⟩)) (.group 2 (.repeated 1 none true (.chars ⟨[(97, 122)]⟩)))

def definition : Definition where
  branches := [⟨blankRule, 1⟩, ⟨wordRule, 2⟩]
  searcher? := some combined.program.searcher
  literals := ['+']
  onError := fun _ token => if token.value.startsWith "!" then 0 else 1

theorem is_made : (define Pattern.library declarations).value = .ok definition := by cbv

theorem ends : definition.EndsAfterCursor := by
  apply ends_after_cursor_of_define 0 is_made
  cbv

theorem keeps_spans : definition.KeepsSpans := by
  intro rule among handler handles token
  simp only [Definition.rules, definition, List.map_cons, List.map_nil, List.mem_cons,
    List.not_mem_nil, or_false] at among
  obtain rfl | rfl := among
  · cases handles
    rfl
  · cases handles

def text : List Char := "ab é+!".toList

def word : Token := ⟨"word", "ab", ⟨0, 2, by omega⟩, 1, 1⟩

def blank : Token := ⟨"blank", " ", ⟨2, 3, by omega⟩, 1, 3⟩

def accented : Token := ⟨"error", "é+!", ⟨3, 7, by omega⟩, 1, 4⟩

def plus : Token := ⟨"+", "+", ⟨5, 6, by omega⟩, 1, 5⟩

def bang : Token := ⟨"error", "!", ⟨6, 7, by omega⟩, 1, 6⟩

def error : LexError := ⟨⟨6, 7, by omega⟩, "!", 1, 6⟩

def afterWord : State where
  behind := ['b', 'a']
  rest := [' ', 'é', '+', '!']
  offset := 2
  column := 3

def afterBlank : State where
  behind := [' ', 'b', 'a']
  rest := ['é', '+', '!']
  offset := 3
  column := 4

def afterAccent : State where
  behind := ['é', ' ', 'b', 'a']
  rest := ['+', '!']
  offset := 5
  column := 5
  reported := [accented]

def afterPlus : State where
  behind := ['+', 'é', ' ', 'b', 'a']
  rest := ['!']
  offset := 6
  column := 6
  reported := [accented]

theorem run : moves definition (State.ofText text) =
    ([.matched word word .keep, .matched blank blank .discard, .skipped accented 1, .literal plus,
      .failed bang error], { afterPlus with stopped := true, reported := [accented, bang] }) := by
  have ofWord : move? definition (State.ofText text) =
      some (.matched word word .keep, afterWord) := by cbv
  have ofBlank : move? definition afterWord =
      some (.matched blank blank .discard, afterBlank) := by cbv
  have ofAccent : move? definition afterBlank = some (.skipped accented 1, afterAccent) := by cbv
  have ofPlus : move? definition afterAccent = some (.literal plus, afterPlus) := by cbv
  have ofBang : move? definition afterPlus = some (.failed bang error,
      { afterPlus with stopped := true, reported := [accented, bang] }) := by cbv
  rw [moves_of_move ofWord, moves_of_move ofBlank, moves_of_move ofAccent, moves_of_move ofPlus,
    moves_of_move ofBang, moves_of_stopped rfl]

/-- The word, the blank, the accented letter and the sign are moved over in this order. The word and
the sign are returned, and then the error. -/
theorem words_partition_text : (define Pattern.library declarations).value = .ok definition ∧
    definition.EndsAfterCursor ∧ definition.KeepsSpans ∧
    ∃ events, (moves definition (State.ofText text)).1 = events ∧ Covers text 0 events ∧
      events.filterMap Event.consumed? =
        [⟨0, 2, by omega⟩, ⟨2, 3, by omega⟩, ⟨3, 5, by omega⟩, ⟨5, 6, by omega⟩] ∧
      ∀ count, itemOfCall definition count (State.ofText text) =
        [.ok word, .ok plus, .error error][count]? := by
  obtain ⟨events, lexed, covers, _⟩ := consumed_spans_partition_text definition text ends keeps_spans
  obtain ⟨items, returns, calls⟩ := lexed.returned
  have listed := lexed.made.symm.trans (congrArg Prod.fst run)
  have shown : Returns events [.ok word, .ok plus, .error error] := by
    rw [listed]
    exact Returns.kept (Returns.discarded (Returns.skipped (Returns.literal Returns.failed)))
  rw [returns.unique shown] at calls
  refine ⟨is_made, ends, keeps_spans, events, lexed.made, covers, ?_, calls⟩
  rw [listed]
  cbv

end Words

end Lexer

end SlrKit
