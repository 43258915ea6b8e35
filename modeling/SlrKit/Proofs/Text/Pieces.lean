import SlrKit.Proofs.Text.Places

/-!
# Texts fed in pieces

A line index is fed a text piece by piece, and a piece may end anywhere: before a line feed, behind it,
or between a carriage return and its line feed. What the index tells about lines and columns depends on
the whole text only, and is told here from the text and its bytes.
-/

set_option autoImplicit false

namespace SlrKit

namespace Text

/-- The bytes of a text as it is stored. -/
def bytes (text : List Char) : List UInt8 := text.flatMap String.utf8EncodeChar

/-- How many line feeds are among the first `count` bytes of a text. -/
def feedsWithin (count : Nat) (text : List Char) : Nat := ((bytes text).take count).count 10

theorem length_bytes (text : List Char) : (bytes text).length = byteLength text := by
  induction text with
  | nil => rfl
  | cons c rest ih =>
      rw [bytes, List.flatMap_cons, List.length_append, String.length_utf8EncodeChar]
      rw [bytes] at ih
      rw [ih, byteLength_cons]

theorem bytes_append (front back : List Char) : bytes (front ++ back) = bytes front ++ bytes back :=
  List.flatMap_append

/-- A byte with a mark in its upper bits, as the bytes of long characters have it. -/
theorem marked_byte (number lead bound : Nat) (marked : 128 ≤ lead) (positive : 0 < bound)
    (fits : lead + bound ≤ 256) : 128 ≤ (UInt8.ofNat (number % bound + lead)).toNat := by
  have below := Nat.mod_lt number positive
  rw [UInt8.toNat_ofNat']
  omega

/-- A byte of a character is the character's own number, or one that no short character has. -/
theorem byte_of_char (c : Char) (byte : UInt8) (member : byte ∈ String.utf8EncodeChar c) :
    byte.toNat = c.toNat ∨ 128 ≤ byte.toNat := by
  have code : c.val.toNat = c.toNat := rfl
  simp only [String.utf8EncodeChar, code] at member
  split at member
  · have own := List.mem_singleton.mp member
    rw [own, UInt8.toNat_ofNat']
    omega
  · apply Or.inr
    split at member
    · simp only [List.mem_cons, List.not_mem_nil, or_false] at member
      rcases member with same | same
      all_goals rw [same]; exact marked_byte _ _ _ (by decide) (by decide) (by decide)
    · split at member
      · simp only [List.mem_cons, List.not_mem_nil, or_false] at member
        rcases member with same | same | same
        all_goals rw [same]; exact marked_byte _ _ _ (by decide) (by decide) (by decide)
      · simp only [List.mem_cons, List.not_mem_nil, or_false] at member
        rcases member with same | same | same | same
        all_goals rw [same]; exact marked_byte _ _ _ (by decide) (by decide) (by decide)

theorem feeds_of_char (c : Char) (other : c ≠ '\n') (count : Nat) :
    ((String.utf8EncodeChar c).take count).count 10 = 0 := by
  rw [List.count_eq_zero]
  intro member
  have code : c.toNat ≠ 10 := by
    intro same
    exact other (Char.toNat_inj.mp same)
  have byte := byte_of_char c 10 (List.mem_of_mem_take member)
  have ten : (10 : UInt8).toNat = 10 := rfl
  omega

theorem feeds_within_append (front back : List Char) (count : Nat) :
    feedsWithin count (front ++ back) =
      feedsWithin count front + feedsWithin (count - byteLength front) back := by
  rw [feedsWithin, bytes_append, List.take_append, List.count_append, length_bytes]
  rfl

theorem feeds_within_all (text : List Char) (count : Nat) (enough : byteLength text ≤ count) :
    feedsWithin count text = text.count '\n' := by
  induction text generalizing count with
  | nil => simp [feedsWithin, bytes]
  | cons c rest ih =>
      rw [byteLength_cons] at enough
      have later := ih (count - c.utf8Size) (by omega)
      have split := feeds_within_append [c] rest count
      rw [List.singleton_append, byteLength_cons, byteLength_nil, Nat.add_zero] at split
      rw [split, later]
      by_cases feed : c = '\n'
      · have width : '\n'.utf8Size = 1 := rfl
        have whole : (bytes ['\n']).take count = bytes ['\n'] := by
          apply List.take_of_length_le
          rw [length_bytes, byteLength_cons, byteLength_nil]
          rw [feed] at enough
          omega
        rw [feed, feedsWithin, whole, List.count_cons_self, Nat.add_comm]
        rfl
      · have none : feedsWithin count [c] = 0 := by
          rw [feedsWithin, bytes, List.flatMap_singleton]
          exact feeds_of_char c feed count
        rw [none, Nat.zero_add, List.count_cons_of_ne feed]

theorem feeds_within_front (front back : List Char) :
    feedsWithin (byteLength front) (front ++ back) = front.count '\n' := by
  rw [feeds_within_append, Nat.sub_self, feeds_within_all front _ (Nat.le_refl _)]
  simp [feedsWithin]

end Text

namespace LineIndex

theorem feed_pieces (index : LineIndex) (pieces : List (List Char)) :
    pieces.foldl feed index = index.feed pieces.flatten := by
  induction pieces generalizing index with
  | nil => rfl
  | cons piece rest ih =>
      rw [List.foldl_cons, List.flatten_cons, feed_append]
      exact ih (index.feed piece)

/-- The starts of lines are found in ascending order, so that the line of a byte can be searched for. -/
theorem starts_descend (text : List Char) : (ofText text).starts.Pairwise (· > ·) := by
  induction text using List.reverseRecOn with
  | nil => simp [ofText, feed, starts]
  | append_singleton text c ih =>
      rw [of_text_snoc]
      by_cases feed : c = '\n'
      · simp only [push, if_pos feed, starts] at ih ⊢
        refine List.pairwise_cons.mpr ⟨?_, ih⟩
        intro start member
        exact Nat.lt_succ_of_le (starts_le_length text start member)
      · simp only [push, if_neg feed]
        exact ih

/-- Up to a byte, one line starts with the text and one behind each line feed. -/
theorem lines_started (text : List Char) (byte : Nat) :
    (ofText text).starts.countP (· ≤ byte) = 1 + Text.feedsWithin byte text := by
  induction text using List.reverseRecOn with
  | nil => simp [ofText, feed, starts, Text.feedsWithin, Text.bytes]
  | append_singleton text c ih =>
      rw [of_text_snoc, Text.feeds_within_append]
      by_cases feed : c = '\n'
      · have added : Text.feedsWithin (byte - Text.byteLength text) ['\n'] =
            if Text.byteLength text < byte then 1 else 0 := by
          split
          · rw [Text.feeds_within_all]
            · rfl
            · have width : '\n'.utf8Size = 1 := rfl
              rw [Text.byteLength_cons, Text.byteLength_nil]
              omega
          · rename_i before
            rw [Nat.sub_eq_zero_of_le (Nat.le_of_not_lt before)]
            rfl
        simp only [push, if_pos feed, starts] at ih ⊢
        rw [feed, added, List.countP_cons, ih, length_of_text]
        simp only [decide_eq_true_eq, Nat.succ_le_iff, Nat.add_assoc]
      · have added : Text.feedsWithin (byte - Text.byteLength text) [c] = 0 := by
          rw [Text.feedsWithin, Text.bytes, List.flatMap_singleton]
          exact Text.feeds_of_char c feed _
        simp only [push, if_neg feed, starts] at ih ⊢
        rw [added, ih, Nat.add_zero]

theorem line_of_byte (text : List Char) (byte : Nat) :
    (ofText text).line? byte =
      if Text.byteLength text < byte then none else some (1 + Text.feedsWithin byte text) := by
  rw [line?, length_of_text, lines_started]

/-- What an index tells of a text that it was fed in pieces: how many lines there are, whose starts are
in order; the line of a byte, unless the byte is beyond the text; and the line and column of a place
between characters. -/
theorem fed_index_tells_lines_and_columns (pieces : List (List Char)) :
    let text := pieces.flatten
    let index := pieces.foldl feed {}
    index.lineCount = 1 + text.count '\n' ∧
      index.starts.Pairwise (· > ·) ∧
      (∀ byte, index.line? byte = none ↔ Text.byteLength text < byte) ∧
      (∀ byte, byte ≤ Text.byteLength text →
        index.line? byte = some (1 + Text.feedsWithin byte text)) ∧
      ∀ behind ahead, text = behind ++ ahead →
        let byte := Text.byteLength behind
        index.position text byte = .ok (some (1 + Text.feedsWithin byte text,
          1 + (Text.lastLine behind).length - if Text.InsideReturn behind ahead then 1 else 0)) := by
  intro text index
  have whole : index = ofText text := feed_pieces {} pieces
  rw [whole]
  refine ⟨line_count_of_text text, starts_descend text, ?_, ?_, ?_⟩
  · intro byte
    rw [line_of_byte]
    split
    · rename_i beyond
      simp [beyond]
    · rename_i inside
      simp [inside]
  · intro byte inside
    rw [line_of_byte, if_neg (Nat.not_lt.mpr inside)]
  · intro behind ahead parts byte
    have place := position_of_place behind ahead
    rw [← parts] at place
    rw [place, parts, Text.feeds_within_front, Text.lineAfter, Text.columnBetween]
    split
    · rw [Nat.add_sub_cancel_left]
    · rfl

/-- Fed with its line ending torn apart, a text has it as one: the line feed takes no column, and the
next line begins behind it. -/
theorem torn_line_ending_is_one :
    let index := [['a', '\r'], [], ['\n', 'b']].foldl feed {}
    index.line? 3 = some 2 ∧
      index.position ['a', '\r', '\n', 'b'] 2 = .ok (some (1, 2)) ∧
      index.position ['a', '\r', '\n', 'b'] 3 = .ok (some (2, 1)) := by
  have told := fed_index_tells_lines_and_columns [['a', '\r'], [], ['\n', 'b']]
  exact ⟨told.2.2.2.1 3 (by decide), told.2.2.2.2 ['a', '\r'] ['\n', 'b'] rfl,
    told.2.2.2.2 ['a', '\r', '\n'] ['b'] rfl⟩

end LineIndex

end SlrKit
