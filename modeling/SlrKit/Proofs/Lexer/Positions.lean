import SlrKit.Proofs.Lexer.Consumption
import SlrKit.Proofs.Text.Places

/-!
# Lines and columns of tokens

A lexer counts lines and columns while it moves over its input, whether it keeps, discards or skips what
it moves over. Wherever it makes a token, it is at the line and column that a line index gives for the
offset, and the line that the token shows is moved by what handlers have added to lines before. So long
as no handler changes the line of its token, all tokens that are made and the lexical error show the line
and column of the index.
-/

set_option autoImplicit false

namespace SlrKit

/-- The text has no more bytes than memory can hold. -/
def Text.Storable (text : List Char) : Prop := Text.byteLength text < 2 ^ 63

instance (text : List Char) : Decidable (Text.Storable text) :=
  inferInstanceAs (Decidable (_ < _))

/-- Where something stands, as a token or an error shows it. -/
structure Place where
  offset : Nat
  line : Nat
  column : Nat

def Token.place (token : Token) : Place := ⟨token.span.start, token.line, token.column⟩

def LexError.place (error : LexError) : Place := ⟨error.span.start, error.line, error.column⟩

/-- The line and the column are those of the offset in the text. -/
def Place.AgreesWith (text : List Char) (place : Place) : Prop :=
  (LineIndex.ofText text).position text place.offset = .ok (some (place.line, place.column))

namespace Lexer

/-- The places that an event shows: that of the token made for it, which is the one that a handler is
given, and that of a lexical error. -/
def Event.places : Event → List Place
  | .matched found _ _ => [found.place]
  | .literal token => [token.place]
  | .skipped seen _ => [seen.place]
  | .failed seen error => [seen.place, error.place]
  | .broken _ => []

/-- What a handler adds to the line of its token. -/
def Event.adjustment : Event → Int64
  | .matched found token _ => Int64.ofNat token.line - Int64.ofNat found.line
  | _ => 0

def adjustment : List Event → Int64
  | [] => 0
  | event :: later => event.adjustment + adjustment later

theorem adjustment_append (earlier later : List Event) :
    adjustment (earlier ++ later) = adjustment earlier + adjustment later := by
  induction earlier with
  | nil => exact (Int64.zero_add _).symm
  | cons event earlier ih =>
      rw [List.cons_append, adjustment, adjustment, ih, Int64.add_assoc]

theorem adjustment_snoc (earlier : List Event) (event : Event) :
    adjustment (earlier ++ [event]) = adjustment earlier + event.adjustment := by
  rw [adjustment_append, adjustment, adjustment, Int64.add_zero]

theorem adjustment_eq_zero {events : List Event} (still : ∀ event ∈ events, event.adjustment = 0) :
    adjustment events = 0 := by
  induction events with
  | nil => rfl
  | cons event events ih =>
      have later := ih fun other member => still other (List.mem_cons_of_mem event member)
      rw [adjustment, later, still event List.mem_cons_self, Int64.add_zero]

namespace State

/-- The state stands in the text, at the line and column of that place. -/
structure At (text : List Char) (state : State) : Prop extends state.StandsIn text where
  line : state.line = Text.lineAfter state.behind.reverse
  column : state.column = Text.columnBetween state.behind.reverse state.rest

theorem of_text_at (text : List Char) : (ofText text).At text where
  split := rfl
  offset := rfl
  line := rfl
  column := rfl

variable {text : List Char} {state : State}

theorem At.step (at_place : state.At text) {c : Char} {rest : List Char}
    (content : state.rest = c :: rest) : (state.step c rest).At text := by
  have behind : (state.step c rest).behind.reverse = state.behind.reverse ++ [c] :=
    List.reverse_cons
  have column := at_place.column
  rw [content] at column
  refine ⟨⟨?_, ?_⟩, ?_, ?_⟩
  · rw [behind, at_place.split, content, List.append_assoc]
    rfl
  · rw [behind, Text.byteLength_append, ← at_place.offset]
    simp [State.step]
  · rw [behind, Text.line_after_snoc, ← at_place.line]
    rfl
  · rw [behind, Text.column_between_snoc]
    simp only [State.step]
    rw [← column]
    rfl

theorem At.advance (at_place : state.At text) (count : Nat) : (state.advance count).At text :=
  kept_by_advance (At text) (fun content stood => stood.step content) count at_place

theorem shift_advance (count : Nat) (state : State) :
    (state.advance count).shift = state.shift :=
  untouched_by_advance (·.shift) (fun _ _ _ => rfl) count state

theorem overflowed_advance (count : Nat) (state : State) :
    (state.advance count).overflowed = state.overflowed :=
  untouched_by_advance (·.overflowed) (fun _ _ _ => rfl) count state

theorem shifted_line_eq (state : State) :
    (state.shiftedLine : Int) = max (Int64.ofNat state.line + state.shift).toInt 1 :=
  Int.toNat_of_nonneg (by omega)

theorem line_le_advance (count : Nat) (state : State) : state.line ≤ (state.advance count).line := by
  apply kept_by_advance (fun reached => state.line ≤ reached.line)
  · intro reached c rest _ below
    have next : reached.line ≤ (reached.step c rest).line := by
      simp only [State.step]
      split <;> omega
    exact Nat.le_trans below next
  · exact Nat.le_refl _

/-- There are no more line feeds behind a place than bytes, and it is not behind the last byte. -/
theorem At.line_le (at_place : state.At text) (ahead : state.rest ≠ []) :
    state.line ≤ Text.byteLength text := by
  have feeds : ∀ part : List Char, part.count '\n' ≤ Text.byteLength part := by
    intro part
    induction part with
    | nil => exact Nat.le_refl 0
    | cons c part ih =>
        have width := c.utf8Size_pos
        rw [List.count_cons, Text.byteLength_cons]
        split <;> omega
  obtain ⟨c, rest, content⟩ := List.exists_cons_of_ne_nil ahead
  have width := c.utf8Size_pos
  have bound := feeds state.behind.reverse
  have size := congrArg Text.byteLength at_place.split
  rw [Text.byteLength_append, content, Text.byteLength_cons] at size
  rw [at_place.line, Text.lineAfter]
  omega

end State

section Move

variable {definition : Definition} {text : List Char} {state after : State} {event : Event}
  {overflowed : Bool}

theorem move_shift (moved : MovesBy definition state overflowed event after) :
    after.shift = state.shift + event.adjustment := by
  cases moved with
  | matched => simp [takeMatch, lineChange, Event.adjustment, State.shift_advance]
  | literal | skipped => simp [Event.adjustment, State.shift_advance]
  | broken | failed => simp [Event.adjustment]

theorem move_at (at_place : state.At text)
    (moved : MovesBy definition state overflowed event after) : after.At text := by
  have noted : state.noted.At text := ⟨⟨at_place.split, at_place.offset⟩, at_place.line, at_place.column⟩
  cases moved with
  | @matched rule size part found taken nonempty =>
      have passed := at_place.advance part.length
      exact ⟨⟨passed.split, passed.offset⟩, passed.line, passed.column⟩
  | literal content unmatched among =>
      have passed := at_place.advance 1
      exact ⟨⟨passed.split, passed.offset⟩, passed.line, passed.column⟩
  | @skipped c rest count content unmatched other decided =>
      have passed := noted.advance (count + 1)
      exact ⟨⟨passed.split, passed.offset⟩, passed.line, passed.column⟩
  | broken | failed =>
      exact ⟨⟨at_place.split, at_place.offset⟩, at_place.line, at_place.column⟩

theorem move_places (moved : MovesBy definition state overflowed event after) :
    ∀ place ∈ event.places, place = ⟨state.offset, state.shiftedLine, state.column⟩ := by
  cases moved <;> simp [takeMatch, Event.places, Token.place, LexError.place, State.token, Span.ofLength]

theorem ahead_of_place (moved : MovesBy definition state overflowed event after) {place : Place}
    (member : place ∈ event.places) : state.rest ≠ [] := by
  cases moved with
  | @matched rule size part found taken nonempty =>
      obtain ⟨rest, content, _⟩ := Text.takeBytes?_eq_some_iff.mp taken
      simp [content, nonempty]
  | broken => cases member
  | literal content | skipped content | failed content => simp [content]

theorem overflowed_of_take (taken : take? definition state = some (event, after)) :
    after.overflowed = state.overflowed := by
  unfold take? at taken
  split at taken
  · cases taken
  · split at taken
    · cases taken
    · split at taken
      · rename_i rule size _
        obtain rfl := congrArg Prod.snd (Option.some.inj taken)
        simp only [takeRule]
        split
        · rfl
        · rfl
        · exact State.overflowed_advance _ state
      · split at taken
        · obtain rfl := congrArg Prod.snd (Option.some.inj taken)
          exact State.overflowed_advance 1 state
        · obtain rfl := congrArg Prod.snd (Option.some.inj taken)
          simp only [takeError]
          split
          · rfl
          · exact State.overflowed_advance _ state.noted

theorem overflowed_of_move (moved : move? definition state = some (event, after)) :
    after.overflowed = (state.overflowed || event.overflows state) := by
  obtain ⟨⟨own, taken⟩, took, same⟩ := Option.map_eq_some_iff.mp moved
  cases same
  rw [← overflowed_of_take took]

theorem line_le_move (moved : MovesBy definition state overflowed event after) :
    state.line ≤ after.line := by
  cases moved with
  | @matched rule size part => exact State.line_le_advance part.length state
  | literal => exact State.line_le_advance 1 state
  | @skipped c rest count => exact State.line_le_advance (count + 1) state.noted
  | broken | failed => exact Nat.le_refl _

end Move

section Run

variable {definition : Definition} {text : List Char}

/-- The state before an event of a run that goes on from some state. -/
theorem exists_state_at {state : State} (past : List Event) {earlier later : List Event} {event : Event}
    (at_place : state.At text) (shift : state.shift = adjustment past)
    (run : (moves definition state).1 = earlier ++ event :: later) :
    ∃ before after overflowed, before.At text ∧ before.shift = adjustment (past ++ earlier) ∧
      state.line ≤ before.line ∧ MovesBy definition before overflowed event after ∧
        (moves definition before).1 = event :: later := by
  let invariant (gone : List Event) (reached : State) : Prop :=
    reached.At text ∧ reached.shift = adjustment gone ∧ state.line ≤ reached.line
  have kept : ∀ {gone : List Event} {reached after : State} {event : Event} {overflowed : Bool},
      invariant gone reached → MovesBy definition reached overflowed event after →
        invariant (gone ++ [event]) after := by
    intro gone reached after event overflowed ⟨at_place, shift, later_line⟩ moved
    refine ⟨move_at at_place moved, ?_, Nat.le_trans later_line (line_le_move moved)⟩
    rw [move_shift moved, shift, adjustment_snoc]
  obtain ⟨before, after, overflowed, ⟨standing, sum, below⟩, moved, rest⟩ :=
    exists_state_before invariant kept past ⟨at_place, shift, Nat.le_refl _⟩ run
  exact ⟨before, after, overflowed, standing, sum, below, moved, rest⟩

/-- Whatever an event shows has the line and the column of its offset, the line but for the shift; no
line is shown that is less than the first. -/
theorem place_of_move {state after : State} {event : Event} {overflowed : Bool}
    (at_place : state.At text) (moved : MovesBy definition state overflowed event after) :
    ∀ place ∈ event.places, (LineIndex.ofText text).line? place.offset = some state.line ∧
      (LineIndex.ofText text).position text place.offset = .ok (some (state.line, place.column)) ∧
      state.line ≤ Text.byteLength text ∧
      (place.line : Int) = max (Int64.ofNat state.line + state.shift).toInt 1 := by
  intro place member
  have inside := at_place.line_le (ahead_of_place moved member)
  have shown := State.shifted_line_eq state
  rw [move_places moved place member]
  refine ⟨?_, ?_, inside, shown⟩
  · rw [at_place.split, at_place.offset, at_place.line]
    exact LineIndex.line_of_place _ _
  · rw [at_place.split, at_place.offset, at_place.line, at_place.column]
    exact LineIndex.position_of_place _ _

end Run

/-! ## Lines that no handler changes -/

/-- No handler of a rule changes the line of its token. -/
def Definition.KeepsLines (definition : Definition) : Prop :=
  ∀ rule ∈ definition.rules, ∀ handler, rule.handler = some handler →
    ∀ token, (handler token).1.line = token.line

section Unchanged

variable {definition : Definition} {text : List Char}

theorem line_of_handled (keeps : definition.KeepsLines) {rule : Rule}
    (among : rule ∈ definition.rules) {found token : Token} {verdict : Verdict}
    (handles : rule.Handles found token verdict) : token.line = found.line := by
  cases with_handler : rule.handler with
  | none => rw [(handles.2 with_handler).1]
  | some handler =>
      have kept := keeps rule among handler with_handler found
      rw [handles.1 handler with_handler] at kept
      exact kept

/-- The event does not put its token on another line. -/
def Event.KeepsLine (event : Event) : Prop :=
  ∀ found token verdict, event = .matched found token verdict → token.line = found.line

theorem keeps_line_of_genuine (keeps : definition.KeepsLines) {asked : List Token} {event : Event}
    (genuine : event.Genuine definition text asked) : event.KeepsLine := by
  intro found token verdict same
  cases genuine with
  | matched among _ _ handles =>
      cases same
      exact line_of_handled keeps among handles
  | literal | skipped | failed | broken => cases same

theorem Event.KeepsLine.adjustment {event : Event} (kept : event.KeepsLine) :
    event.adjustment = 0 := by
  cases event with
  | matched found token verdict =>
      rw [Event.adjustment, kept found token verdict rfl]
      exact Int64.sub_self _
  | literal | skipped | failed | broken => rfl

/-- Nothing is added to a line that has not been moved, so no sum is too large. -/
theorem Event.KeepsLine.fits {event : Event} (kept : event.KeepsLine) {state : State}
    (unshifted : state.shift = 0) : event.overflows state = false := by
  cases event with
  | matched found token verdict =>
      have same := kept found token verdict rfl
      simp [Event.overflows, State.lineSum, lineChange, unshifted, same]
  | literal | skipped | failed | broken =>
      simp [Event.overflows, State.lineSum, unshifted]

theorem moves_unoverflowed (keeps : definition.KeepsLines) {state : State}
    (stands : state.StandsIn text) (unshifted : state.shift = 0) :
    (moves definition state).2.overflowed = state.overflowed := by
  fun_induction moves definition state with
  | case1 state still => rfl
  | case2 state event after moved later ih =>
      obtain ⟨overflowed, step⟩ := moves_by_of_move moved
      have kept := keeps_line_of_genuine keeps (move_genuine stands step)
      have unmoved : after.shift = 0 := by
        rw [move_shift step, unshifted, kept.adjustment, Int64.add_zero]
      rw [ih (move_stands stands step) unmoved, overflowed_of_move moved, kept.fits unshifted,
        Bool.or_false]

theorem lines_kept (keeps : definition.KeepsLines) :
    ∀ event ∈ (moves definition (State.ofText text)).1, event.KeepsLine := by
  intro event member
  obtain ⟨earlier, later, run⟩ := List.append_of_mem member
  exact keeps_line_of_genuine keeps (moves_genuine (State.of_text_stands_in text) rfl run)

theorem places_agree (stored : Text.Storable text) (keeps : definition.KeepsLines) :
    ∀ event ∈ (moves definition (State.ofText text)).1,
      ∀ place ∈ event.places, place.AgreesWith text := by
  intro event member place shown
  obtain ⟨earlier, later, run⟩ := List.append_of_mem member
  obtain ⟨before, after, overflowed, at_place, shift, _, moved, _⟩ :=
    exists_state_at [] (State.of_text_at text) rfl run
  obtain ⟨_, positioned, inside, shifted⟩ := place_of_move at_place moved place shown
  have still : adjustment earlier = 0 := by
    apply adjustment_eq_zero
    intro other past
    have among : other ∈ (moves definition (State.ofText text)).1 := by
      rw [run]
      exact List.mem_append_left _ past
    exact (lines_kept keeps other among).adjustment
  -- The text is too short for a line number that wraps around.
  have small : before.line < 2 ^ 63 := Nat.lt_of_le_of_lt inside stored
  have positive : 0 < before.line := by simp [at_place.line, Text.lineAfter]
  rw [shift, List.nil_append, still, Int64.add_zero, Int64.toInt_ofNat_of_lt small] at shifted
  have same : place.line = before.line := by omega
  rw [Place.AgreesWith, positioned, same]

end Unchanged

/-- So long as no handler changes the line of its token, everything that the lexer makes shows the line
and column that a line index gives for its offset: tokens as handlers are given them, literals, the
tokens that the error handler sees, and the lexical error. Of the tokens that handlers return, those
show it whose start and column were left as they were. The calls of the lexer return no others, and
no sum of lines overflows. -/
theorem shown_places_agree_with_line_index (definition : Definition) (text : List Char)
    (stored : Text.Storable text) (keeps : definition.KeepsLines) :
    ∃ events, definition.Lexes text events ∧
      (∀ event ∈ events, ∀ place ∈ event.places, place.AgreesWith text) ∧
      (∀ found token verdict, .matched found token verdict ∈ events →
        token.span.start = found.span.start → token.column = found.column →
          token.place.AgreesWith text) ∧
      (moves definition (State.ofText text)).2.overflowed = false := by
  have agree := places_agree stored keeps
  have fits := moves_unoverflowed keeps (State.of_text_stands_in text) rfl
  refine ⟨_, lexes definition text, agree, ?_, fits⟩
  intro found token verdict member start column
  have own := agree _ member found.place (by simp [Event.places])
  have same : token.place = found.place := by
    simp only [Token.place, start, column, lines_kept keeps _ member _ _ _ rfl]
  rw [same]
  exact own

/-! Words and signs with all kinds of line ends between them: a carriage return is a discarded token, and
a line feed starts no token and is skipped. -/
namespace LineEnds

def declarations : Declarations Nat Nat where
  tokens := [⟨"word", "[a-z]+", none⟩, ⟨"return", "\\r", some fun token => (token, .discard)⟩]
  literals := ['+']
  onLexError := fun _ token => if token.value.startsWith "!" then 0 else 1

def returnRule : Rule := ⟨"return", "\\r", some fun token => (token, .discard), 0⟩

def wordRule : Rule := ⟨"word", "[a-z]+", none, 0⟩

def combined : Pattern :=
  .alt (.group 1 (.chars ⟨[(13, 13)]⟩)) (.group 2 (.repeated 1 none true (.chars ⟨[(97, 122)]⟩)))

def definition : Definition where
  branches := [⟨returnRule, 1⟩, ⟨wordRule, 2⟩]
  searcher? := some combined.program.searcher
  literals := ['+']
  onError := fun _ token => if token.value.startsWith "!" then 0 else 1

theorem is_made : (define Pattern.library declarations).value = .ok definition := by cbv

theorem keeps_lines : definition.KeepsLines := by
  intro rule among handler handles token
  simp only [Definition.rules, definition, List.map_cons, List.map_nil, List.mem_cons,
    List.not_mem_nil, or_false] at among
  obtain rfl | rfl := among
  · cases handles
    rfl
  · cases handles

def text : List Char := ['a', '\r', '\n', '+']

def word : Token := ⟨"word", "a", ⟨0, 1, by omega⟩, 1, 1⟩

def lineReturn : Token := ⟨"return", "\r", ⟨1, 2, by omega⟩, 1, 2⟩

def lineFeed : Token := ⟨"error", "\n+", ⟨2, 4, by omega⟩, 1, 2⟩

def sign : Token := ⟨"+", "+", ⟨3, 4, by omega⟩, 2, 1⟩

def afterWord : State where
  behind := ['a']
  rest := ['\r', '\n', '+']
  offset := 1
  column := 2

def afterReturn : State where
  behind := ['\r', 'a']
  rest := ['\n', '+']
  offset := 2
  column := 2

def afterFeed : State where
  behind := ['\n', '\r', 'a']
  rest := ['+']
  offset := 3
  line := 2
  reported := [lineFeed]

def afterSign : State where
  behind := ['+', '\n', '\r', 'a']
  rest := []
  offset := 4
  line := 2
  column := 2
  reported := [lineFeed]

theorem run : moves definition (State.ofText text) =
    ([.matched word word .keep, .matched lineReturn lineReturn .discard, .skipped lineFeed 1,
      .literal sign], afterSign) := by
  have ofWord : move? definition (State.ofText text) =
      some (.matched word word .keep, afterWord) := by cbv
  have ofReturn : move? definition afterWord =
      some (.matched lineReturn lineReturn .discard, afterReturn) := by cbv
  have ofFeed : move? definition afterReturn = some (.skipped lineFeed 1, afterFeed) := by cbv
  have ofSign : move? definition afterFeed = some (.literal sign, afterSign) := by cbv
  have still : move? definition afterSign = none := rfl
  rw [moves_of_move ofWord, moves_of_move ofReturn, moves_of_move ofFeed, moves_of_move ofSign,
    moves_of_still still]

/-- The word is at the beginning, the carriage return and the line feed share a column, and the sign is
where the second line begins. -/
theorem sign_on_second_line : (define Pattern.library declarations).value = .ok definition ∧
    Text.Storable text ∧ definition.KeepsLines ∧
    (moves definition (State.ofText text)).1 =
      [.matched word word .keep, .matched lineReturn lineReturn .discard, .skipped lineFeed 1,
        .literal sign] ∧
    ∀ place ∈ [Place.mk 0 1 1, ⟨1, 1, 2⟩, ⟨2, 1, 2⟩, ⟨3, 2, 1⟩], place.AgreesWith text := by
  have stored : Text.Storable text := by decide
  obtain ⟨events, lexed, agree, _⟩ :=
    shown_places_agree_with_line_index definition text stored keeps_lines
  have listed := lexed.made.symm.trans (congrArg Prod.fst run)
  refine ⟨is_made, stored, keeps_lines, congrArg Prod.fst run, ?_⟩
  intro place member
  have shown : place ∈ events.flatMap Event.places := by
    rw [listed]
    exact member
  obtain ⟨event, among, own⟩ := List.mem_flatMap.mp shown
  exact agree event among place own

end LineEnds

/-! Letters whose handler moves them to the ninth column. -/
namespace Margin

def declarations : Declarations Nat Nat where
  tokens := [⟨"A", "a", some fun token => ({ token with column := 9 }, .keep)⟩]

def letterRule : Rule := ⟨"A", "a", some fun token => ({ token with column := 9 }, .keep), 0⟩

def definition : Definition where
  branches := [⟨letterRule, 1⟩]
  searcher? := some (Pattern.program (.group 1 (.chars ⟨[(97, 97)]⟩))).searcher
  literals := []
  onError := fun _ _ => 0

theorem is_made : (define Pattern.library declarations).value = .ok definition := by cbv

theorem keeps_lines : definition.KeepsLines := by
  intro rule among handler handles token
  simp only [Definition.rules, definition, List.map_cons, List.map_nil, List.mem_singleton] at among
  rw [among] at handles
  cases handles
  rfl

/-- A handler that keeps lines can still return a token that does not show the column of its offset. -/
theorem moved_letter_disagrees : (define Pattern.library declarations).value = .ok definition ∧
    definition.KeepsLines ∧
    ∃ token, itemOfCall definition 0 (State.ofText ['a']) = some (.ok token) ∧
      ¬ token.place.AgreesWith ['a'] := by
  refine ⟨is_made, keeps_lines, ⟨"A", "a", ⟨0, 1, by omega⟩, 1, 9⟩, by cbv, ?_⟩
  intro agrees
  have first : (LineIndex.ofText ['a']).position ['a'] 0 = .ok (some (1, 1)) :=
    LineIndex.position_of_place [] ['a']
  have moved := first.symm.trans agrees
  simp [Token.place] at moved

end Margin

end Lexer

end SlrKit
