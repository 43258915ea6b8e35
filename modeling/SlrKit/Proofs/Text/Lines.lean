import SlrKit.Proofs.Text.Pieces

/-!
# Lines of a text

A text is a row of lines, each with its ending: a line feed, a carriage return with a line feed, or
nothing after the last line. A line index cuts a line out between its start and the start of the next
one and takes every carriage return off the end of what it has cut out. So it shows a line without its
ending, but also without returns before the ending that are no part of it.
-/

set_option autoImplicit false

namespace SlrKit

namespace Text

inductive Ending where
  | feed
  | returnFeed
  | none
deriving DecidableEq

def Ending.text : Ending → List Char
  | feed => ['\n']
  | returnFeed => ['\r', '\n']
  | none => []

/-- A line feed is in the ending only, and with it a carriage return right before. -/
structure Line where
  content : List Char
  ending : Ending
  feedless : '\n' ∉ content
  whole : ending = .feed → content.getLast? ≠ some '\r'

namespace Line

def text (line : Line) : List Char := line.content ++ line.ending.text

/-- The line that some characters are with a line feed behind them. -/
def fed (chars : List Char) (feedless : '\n' ∉ chars) : Line :=
  if returns : chars.getLast? = some '\r' then
    ⟨chars.dropLast, .returnFeed, fun member => feedless (List.dropLast_subset _ member),
      fun ending => Ending.noConfusion ending⟩
  else ⟨chars, .feed, feedless, fun _ => returns⟩

def last (chars : List Char) (feedless : '\n' ∉ chars) : Line :=
  ⟨chars, .none, feedless, fun ending => Ending.noConfusion ending⟩

end Line

/-- The lines of a text, of whose first one `begun` has been read. -/
def linesFrom (begun : List Char) (feedless : '\n' ∉ begun) : List Char → List Line
  | [] => [.last begun feedless]
  | c :: rest =>
      if feed : c = '\n' then .fed begun feedless :: linesFrom [] List.not_mem_nil rest
      else linesFrom (begun ++ [c]) (by simpa [feedless] using Ne.symm feed) rest

def lines (text : List Char) : List Line := linesFrom [] List.not_mem_nil text

theorem Line.text_fed (chars : List Char) (feedless : '\n' ∉ chars) :
    (Line.fed chars feedless).text = chars ++ ['\n'] := by
  unfold Line.fed
  split
  · rename_i returns
    obtain ⟨front, rfl⟩ := List.getLast?_eq_some_iff.mp returns
    simp [Line.text, Ending.text]
  · rfl

theorem Line.ending_fed (chars : List Char) (feedless : '\n' ∉ chars) :
    (Line.fed chars feedless).ending ≠ .none := by
  unfold Line.fed
  split
  · simp
  · simp

theorem join_lines_from (begun : List Char) (feedless : '\n' ∉ begun) (text : List Char) :
    (linesFrom begun feedless text).flatMap Line.text = begun ++ text := by
  induction text generalizing begun with
  | nil => simp [linesFrom, Line.text, Line.last, Ending.text]
  | cons c rest ih =>
      rw [linesFrom]
      split
      · rename_i feed
        rw [List.flatMap_cons, Line.text_fed, ih, feed]
        simp
      · rw [ih]
        simp

theorem lines_from_end (begun : List Char) (feedless : '\n' ∉ begun) (text : List Char) :
    ∃ front last, linesFrom begun feedless text = front ++ [last] ∧
      last.ending = .none ∧ ∀ line ∈ front, line.ending ≠ .none := by
  induction text generalizing begun with
  | nil => exact ⟨[], .last begun feedless, rfl, rfl, by simp⟩
  | cons c rest ih =>
      rw [linesFrom]
      split
      · obtain ⟨front, last, split, open_, closed⟩ := ih [] List.not_mem_nil
        refine ⟨.fed begun feedless :: front, last, by rw [split]; rfl, open_, ?_⟩
        intro line member
        rcases List.mem_cons.mp member with same | later
        · rw [same]
          exact Line.ending_fed begun feedless
        · exact closed line later
      · exact ih _ _

theorem length_lines_from (begun : List Char) (feedless : '\n' ∉ begun) (text : List Char) :
    (linesFrom begun feedless text).length = lineAfter text := by
  induction text generalizing begun with
  | nil => rfl
  | cons c rest ih =>
      rw [linesFrom]
      split
      · rename_i feed
        simp [ih, lineAfter, feed, Nat.add_comm]
      · rename_i other
        simp [ih, lineAfter, other]

/-- Every byte up to the end of a text is on one of its lines: behind the start of the line, and before
the end of it unless that is the last one. -/
theorem exists_line_of_byte (row : List Line) (nonempty : row ≠ []) (byte : Nat) :
    ∃ before line after, row = before ++ line :: after ∧
      byteLength (before.flatMap Line.text) ≤ byte ∧
      (byte < byteLength (before.flatMap Line.text) + byteLength line.text ∨ after = []) := by
  induction row generalizing byte with
  | nil => exact absurd rfl nonempty
  | cons first rest ih =>
      by_cases here : byte < byteLength first.text
      · exact ⟨[], first, rest, rfl, Nat.zero_le _, .inl (by simpa using here)⟩
      · by_cases more : rest = []
        · exact ⟨[], first, rest, rfl, Nat.zero_le _, .inr more⟩
        · obtain ⟨before, line, after, split, from_, upTo⟩ :=
            ih more (byte - byteLength first.text)
          refine ⟨first :: before, line, after, by rw [split]; rfl, ?_, ?_⟩
          · rw [List.flatMap_cons, byteLength_append]
            omega
          · rw [List.flatMap_cons, byteLength_append]
            exact upTo.imp_left fun bound => by omega

theorem Line.exists_chars (line : Line) : ∃ chars, '\n' ∉ chars ∧
    line.text = chars ++ (if line.ending = .none then [] else ['\n']) ∧
    (chars = line.content ∨ chars = line.content ++ ['\r']) := by
  obtain ⟨content, ending, feedless, whole⟩ := line
  cases ending with
  | feed => exact ⟨content, feedless, rfl, .inl rfl⟩
  | returnFeed =>
      exact ⟨content ++ ['\r'], by simpa using feedless, by simp [text, Ending.text], .inr rfl⟩
  | none => exact ⟨content, feedless, rfl, .inl rfl⟩

theorem last_line_of_closed (before : List Line) (closed : ∀ line ∈ before, line.ending ≠ .none) :
    lastLine (before.flatMap Line.text) = [] := by
  cases before using List.reverseRecOn with
  | nil => rfl
  | append_singleton before line =>
      obtain ⟨chars, _, text, _⟩ := line.exists_chars
      rw [if_neg (closed line (by simp))] at text
      rw [List.flatMap_append, List.flatMap_singleton, text, ← List.append_assoc, last_line_snoc,
        if_pos rfl]

theorem line_after_closed (before : List Line) (closed : ∀ line ∈ before, line.ending ≠ .none) :
    lineAfter (before.flatMap Line.text) = before.length + 1 := by
  induction before with
  | nil => rfl
  | cons line rest ih =>
      obtain ⟨chars, feedless, text, _⟩ := line.exists_chars
      rw [if_neg (closed line List.mem_cons_self)] at text
      have later := ih fun other member => closed other (List.mem_cons_of_mem line member)
      rw [lineAfter] at later ⊢
      rw [List.flatMap_cons, text, List.count_append, List.count_append,
        List.count_eq_zero_of_not_mem feedless, List.length_cons]
      simp only [List.count_singleton_self]
      omega

theorem ended_of_lines {text : List Char} {before after : List Line} {line : Line}
    (row : lines text = before ++ line :: after) :
    (∀ other ∈ before, other.ending ≠ .none) ∧ (line.ending = .none ↔ after = []) := by
  obtain ⟨front, last, split, unended, ended⟩ := lines_from_end [] List.not_mem_nil text
  rw [← lines, row] at split
  cases after using List.reverseRecOn with
  | nil =>
      obtain ⟨same, own⟩ := List.append_inj' split rfl
      rw [same, List.singleton_inj.mp own]
      exact ⟨ended, by simp [unended]⟩
  | append_singleton after final =>
      rw [← List.cons_append, ← List.append_assoc] at split
      obtain ⟨same, _⟩ := List.append_inj' split rfl
      rw [← same] at ended
      refine ⟨fun other member => ended other (List.mem_append_left _ member), ?_⟩
      simp [ended line (by simp)]

/-- A line in its text: what is written on it, up to its line feed, and what comes after that. The bytes
of the line are those up to the line feed. -/
theorem exists_place_of_line {text : List Char} {before after : List Line} {line : Line}
    (row : lines text = before ++ line :: after) : ∃ chars ahead,
      text = before.flatMap Line.text ++ chars ++ ahead ∧ '\n' ∉ chars ∧
      (ahead = [] ∨ ahead.head? = some '\n') ∧
      (chars = line.content ∨ chars = line.content ++ ['\r']) ∧
      ∀ byte, byte ≤ byteLength text →
        (byte < byteLength (before.flatMap Line.text) + byteLength line.text ∨ after = []) →
        byte ≤ byteLength (before.flatMap Line.text ++ chars) := by
  obtain ⟨chars, feedless, written, shape⟩ := line.exists_chars
  obtain ⟨_, final⟩ := ended_of_lines row
  let ahead := (if line.ending = .none then [] else ['\n']) ++ after.flatMap Line.text
  have parts : text = before.flatMap Line.text ++ chars ++ ahead := by
    have joined : (lines text).flatMap Line.text = text := join_lines_from [] List.not_mem_nil text
    rw [← joined, row, List.flatMap_append, List.flatMap_cons, written]
    simp [ahead]
  refine ⟨chars, ahead, parts, feedless, ?_, shape, ?_⟩
  · by_cases unended : line.ending = .none
    · simp [ahead, unended, final.mp unended]
    · simp [ahead, unended]
  · intro byte inside upTo
    have width : '\n'.utf8Size = 1 := rfl
    rw [written, byteLength_append] at upTo
    rw [parts, byteLength_append] at inside
    by_cases unended : line.ending = .none
    · have nothing : ahead = [] := by simp [ahead, unended, final.mp unended]
      simpa [nothing] using inside
    · have more : after ≠ [] := fun none => unended (final.mpr none)
      simp only [if_neg unended, more, or_false, byteLength_cons, byteLength_nil, width] at upTo
      rw [byteLength_append]
      omega

end Text

namespace LineIndex

theorem trim_returns_snoc (chars : List Char) : trimReturns (chars ++ ['\r']) = trimReturns chars := by
  simp [trimReturns]

theorem trim_returns_loses (chars : List Char) :
    ∃ lost, chars = trimReturns chars ++ List.replicate lost '\r' ∧
      (lost = 0 ↔ chars.getLast? ≠ some '\r') := by
  induction chars using List.reverseRecOn with
  | nil => exact ⟨0, rfl, by simp⟩
  | append_singleton chars c ih =>
      by_cases returns : c = '\r'
      · obtain ⟨lost, split, _⟩ := ih
        refine ⟨lost + 1, ?_, by simp [returns]⟩
        rw [returns, trim_returns_snoc, List.replicate_succ', ← List.append_assoc, ← split]
      · exact ⟨0, by simp [trimReturns, returns], by simp [returns]⟩

theorem starts_feed_line (index : LineIndex) (chars : List Char) (feedless : '\n' ∉ chars) :
    (index.feed chars).starts = index.starts := by
  induction chars generalizing index with
  | nil => rfl
  | cons c rest ih =>
      rw [List.mem_cons, not_or] at feedless
      have pushed : (index.push c).starts = index.starts := by
        simp [push, starts, Ne.symm feedless.1]
      exact (ih (index.push c) feedless.2).trans pushed

section Line

variable (front chars ahead : List Char) (begins : Text.lastLine front = [])
  (feedless : '\n' ∉ chars) (ends : ahead = [] ∨ ahead.head? = some '\n')

include feedless ends

/-- Behind the starts up to that of a line come the start of the next one, if there is one, and later
ones. -/
theorem starts_around_line : ∃ later,
    (ofText (front ++ chars ++ ahead)).starts = later ++ (ofText front).starts ∧
      (∀ start ∈ later, Text.byteLength (front ++ chars) < start) ∧
      later.getLast? = if ahead = [] then none else some (Text.byteLength (front ++ chars) + 1) := by
  have upTo : (ofText (front ++ chars)).starts = (ofText front).starts := by
    rw [ofText, feed_append]
    exact starts_feed_line _ chars feedless
  cases ahead with
  | nil => exact ⟨[], by rw [List.append_nil, upTo]; rfl, by simp, rfl⟩
  | cons c rest =>
      have feed : c = '\n' := by simpa using ends
      obtain ⟨later, fed, beyond⟩ := starts_feed ((ofText (front ++ chars)).push c) rest
      have next : ((ofText (front ++ chars)).push c).starts =
          (Text.byteLength (front ++ chars) + 1) :: (ofText front).starts := by
        rw [← upTo, ← length_of_text]
        simp [push, starts, feed]
      have reached : ((ofText (front ++ chars)).push c).length =
          Text.byteLength (front ++ chars) + 1 := by
        rw [← length_of_text]
        simp [push, length, feed]
      refine ⟨later ++ [Text.byteLength (front ++ chars) + 1], ?_, ?_, by simp⟩
      · rw [ofText, feed_append, List.append_assoc, List.singleton_append, ← next, ← fed]
        rfl
      · intro start member
        rcases List.mem_append.mp member with far | near
        · have bound := beyond start far
          omega
        · rw [List.mem_singleton.mp near]
          exact Nat.lt_succ_self _

include begins

/-- For every byte on a line, up to the line feed included, the text between returns at its ends is
shown. -/
theorem line_text_of_line (byte : Nat) (behind : Text.byteLength front ≤ byte)
    (within : byte ≤ Text.byteLength (front ++ chars)) :
    (ofText (front ++ chars ++ ahead)).line? byte = some (Text.lineAfter front) ∧
      (ofText (front ++ chars ++ ahead)).lineText (front ++ chars ++ ahead) byte =
        .ok (some (trimReturns chars)) := by
  obtain ⟨later, all, beyond, next⟩ := starts_around_line front chars ahead feedless ends
  have start : (ofText front).lastStart = Text.byteLength front := by
    have size := length_of_text front
    rw [length, trailing_of_text, begins] at size
    simpa using size
  have starts_behind : ∀ start ∈ (ofText front).starts, start ≤ byte := by
    intro start member
    have bound := starts_le_length front start member
    rw [length_of_text] at bound
    exact Nat.le_trans bound behind
  have ahead_of_byte : ∀ start ∈ later, byte < start := by
    intro start member
    exact Nat.lt_of_le_of_lt within (beyond start member)
  have line : (ofText (front ++ chars ++ ahead)).line? byte = some (Text.lineAfter front) := by
    have known : ¬(ofText (front ++ chars ++ ahead)).length < byte := by
      rw [length_of_text, Text.byteLength_append]
      omega
    have none_ahead : later.countP (· ≤ byte) = 0 := by
      rw [List.countP_eq_zero]
      intro start member
      simpa using ahead_of_byte start member
    have all_behind : (ofText front).starts.countP (· ≤ byte) = (ofText front).starts.length := by
      rw [List.countP_eq_length]
      intro start member
      exact decide_eq_true (starts_behind start member)
    rw [line?, if_neg known, all, List.countP_append, none_ahead, all_behind, Nat.zero_add,
      ← line_count_of_text]
    rfl
  have begun : (ofText (front ++ chars ++ ahead)).lineStart byte = Text.byteLength front := by
    have none_ahead : later.find? (· ≤ byte) = none := by
      rw [List.find?_eq_none]
      intro start member
      simpa using ahead_of_byte start member
    rw [lineStart, all, List.find?_append, none_ahead, starts, start]
    simp [behind]
  have follows : (ofText (front ++ chars ++ ahead)).nextStart? byte =
      if ahead = [] then none else some (Text.byteLength (front ++ chars) + 1) := by
    have taken : (later ++ (ofText front).starts).takeWhile (byte < ·) = later := by
      rw [List.takeWhile_append_of_pos (by simpa using ahead_of_byte), starts]
      have stops := starts_behind _ List.mem_cons_self
      simp [Nat.not_lt.mpr stops]
    rw [nextStart?, all, taken, next]
  have cut : Text.slice? (Text.byteLength front) (Text.byteLength (front ++ chars))
      (front ++ chars ++ ahead) = some chars := by
    refine Text.slice?_eq_some_iff.mpr ⟨front, ahead, rfl, rfl, ?_⟩
    rw [Text.byteLength_append]
  refine ⟨line, ?_⟩
  cases ahead with
  | nil =>
      rw [List.append_nil] at line begun follows cut ⊢
      simp only [lineText, line, begun, follows, if_true, cut]
  | cons c rest =>
      rw [if_neg (by simp)] at follows
      simp only [lineText, line, begun, follows, Nat.add_sub_cancel, cut]

end Line

/-- What an index that was fed a text in pieces shows of the lines: for every byte of the text it shows
the line that the byte is on, without its ending, and without any returns before that ending. What is
shown is all of the line exactly if no such returns are left. -/
theorem line_text_loses_returns (pieces : List (List Char)) :
    let text := pieces.flatten
    let index := pieces.foldl feed {}
    (Text.lines text).flatMap Text.Line.text = text ∧
      (∃ front last, Text.lines text = front ++ [last] ∧ last.ending = .none ∧
        ∀ line ∈ front, line.ending ≠ .none) ∧
      (Text.lines text).length = index.lineCount ∧
      ∀ byte, byte ≤ Text.byteLength text → ∃ before line after,
        Text.lines text = before ++ line :: after ∧
        Text.byteLength (before.flatMap Text.Line.text) ≤ byte ∧
        (byte < Text.byteLength (before.flatMap Text.Line.text) + Text.byteLength line.text ∨
          after = []) ∧
        index.line? byte = some (before.length + 1) ∧
        ∃ shown lost, index.lineText text byte = .ok (some shown) ∧
          line.content = shown ++ List.replicate lost '\r' ∧
          (lost = 0 ↔ line.content.getLast? ≠ some '\r') := by
  intro text index
  have fed : index = ofText text := feed_pieces {} pieces
  have joined : (Text.lines text).flatMap Text.Line.text = text :=
    Text.join_lines_from [] List.not_mem_nil text
  obtain ⟨front, last, split, unended, ended⟩ := Text.lines_from_end [] List.not_mem_nil text
  have count : (Text.lines text).length = index.lineCount := by
    rw [fed, line_count_of_text]
    exact Text.length_lines_from [] List.not_mem_nil text
  refine ⟨joined, ⟨front, last, split, unended, ended⟩, count, ?_⟩
  intro byte inside
  have nonempty : Text.lines text ≠ [] := by
    rw [Text.lines, split]
    simp
  obtain ⟨before, line, after, row, behind, upTo⟩ :=
    Text.exists_line_of_byte (Text.lines text) nonempty byte
  obtain ⟨chars, ahead, parts, feedless, ends, shape, bytes⟩ := Text.exists_place_of_line row
  have closed := (Text.ended_of_lines row).1
  obtain ⟨number, shows⟩ := line_text_of_line _ chars ahead
    (Text.last_line_of_closed before closed) feedless ends byte behind (bytes byte inside upTo)
  rw [← parts, ← fed] at number shows
  rw [Text.line_after_closed before closed] at number
  obtain ⟨lost, content, none⟩ := trim_returns_loses line.content
  refine ⟨before, line, after, row, behind, upTo, number, trimReturns line.content, lost, ?_, content,
    none⟩
  rcases shape with same | same
  · rw [shows, same]
  · rw [shows, same, trim_returns_snoc]

/-- A line whose ending is fed in two pieces is shown without it. -/
theorem torn_ending_is_not_shown :
    2 ≤ Text.byteLength ['a', '\r', '\n', 'b'] ∧
      ([['a', '\r'], ['\n', 'b']].foldl feed {}).lineText ['a', '\r', '\n', 'b'] 2 =
        .ok (some ['a']) := by
  refine ⟨by decide, ?_⟩
  have told := (line_text_loses_returns [['a', '\r'], ['\n', 'b']]).2.2.2 2 (by decide)
  obtain ⟨before, line, after, row, _, _, number, shown, lost, shows, content, complete⟩ := told
  have first : before = [] := by
    have same : some 1 = some (before.length + 1) := number
    simpa using same
  have line_content : line.content = ['a'] := by
    rw [first, List.nil_append] at row
    exact congrArg Text.Line.content (List.cons.inj row).1.symm
  have none : lost = 0 := complete.mpr (by simp [line_content])
  rw [line_content, none, List.replicate_zero, List.append_nil] at content
  rw [content]
  exact shows

/-- Of two returns before a line feed both are lost, though only one belongs to the ending; and so is a
return at the end of the text. -/
theorem unbound_returns_are_lost :
    let text := ['a', '\r', '\r', '\n', 'b', '\r']
    (Text.lines text).map (fun line => (line.content, line.ending)) =
        [(['a', '\r'], .returnFeed), (['b', '\r'], .none)] ∧
      (ofText text).lineText text 0 = .ok (some ['a']) ∧
      (ofText text).lineText text 4 = .ok (some ['b']) := by
  exact ⟨rfl, rfl, rfl⟩

end LineIndex

end SlrKit
