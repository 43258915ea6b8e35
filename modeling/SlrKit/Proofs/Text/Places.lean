import Mathlib.Data.List.Induction
import Mathlib.Data.List.TakeWhile
import SlrKit.Text.LineIndex

/-!
# Lines and columns of places

A place in a text is where one part of it ends and the rest begins. Its line is told by the line feeds
behind it, its column by the characters behind it on its line; between a carriage return and the line
feed that belongs to it, the place is still in the column of the carriage return. A line index gives
just these numbers for the byte offset of the place.
-/

set_option autoImplicit false

namespace SlrKit

namespace Text

/-- What comes after the last line feed of a text. -/
def lastLine (text : List Char) : List Char := (text.reverse.takeWhile (· != '\n')).reverse

def lineAfter (behind : List Char) : Nat := 1 + behind.count '\n'

/-- Whether a carriage return is behind a place and its line feed ahead. -/
def InsideReturn (behind ahead : List Char) : Prop :=
  behind.getLast? = some '\r' ∧ ahead.head? = some '\n'

instance (behind ahead : List Char) : Decidable (InsideReturn behind ahead) :=
  inferInstanceAs (Decidable (_ ∧ _))

def columnBetween (behind ahead : List Char) : Nat :=
  if InsideReturn behind ahead then (lastLine behind).length else 1 + (lastLine behind).length

theorem last_line_snoc (text : List Char) (c : Char) :
    lastLine (text ++ [c]) = if c = '\n' then [] else lastLine text ++ [c] := by
  by_cases feed : c = '\n' <;> simp [lastLine, feed]

theorem feed_not_mem_last_line (text : List Char) : '\n' ∉ lastLine text := by
  intro member
  have inside := List.mem_takeWhile_imp (List.mem_reverse.mp member)
  simp at inside

theorem exists_before_last_line (text : List Char) : ∃ front, text = front ++ lastLine text := by
  refine ⟨(text.reverse.dropWhile (· != '\n')).reverse, ?_⟩
  rw [lastLine, ← List.reverse_append, List.takeWhile_append_dropWhile, List.reverse_reverse]

theorem inside_return_iff (behind ahead : List Char) :
    InsideReturn behind ahead ↔
      (lastLine behind).getLast? = some '\r' ∧ ahead.head? = some '\n' := by
  rw [InsideReturn]
  cases behind using List.reverseRecOn with
  | nil => simp [lastLine]
  | append_singleton text c =>
      rw [last_line_snoc]
      by_cases feed : c = '\n' <;> simp [feed]

theorem line_after_snoc (behind : List Char) (c : Char) :
    lineAfter (behind ++ [c]) = if c = '\n' then lineAfter behind + 1 else lineAfter behind := by
  by_cases feed : c = '\n' <;> simp [lineAfter, feed, Nat.add_assoc]

theorem column_between_snoc (behind : List Char) (c : Char) (ahead : List Char) :
    columnBetween (behind ++ [c]) ahead =
      if c = '\n' then 1
      else if c = '\r' ∧ ahead.head? = some '\n' then columnBetween behind (c :: ahead)
      else columnBetween behind (c :: ahead) + 1 := by
  by_cases feed : c = '\n'
  · simp [columnBetween, InsideReturn, last_line_snoc, feed]
  · have before : columnBetween behind (c :: ahead) = 1 + (lastLine behind).length := by
      simp [columnBetween, InsideReturn, feed]
    rw [if_neg feed, before]
    simp only [columnBetween, InsideReturn, last_line_snoc, if_neg feed]
    simp
    split <;> omega

end Text

namespace LineIndex

theorem of_text_snoc (text : List Char) (c : Char) :
    ofText (text ++ [c]) = (ofText text).push c := by
  rw [ofText, feed_append]
  rfl

theorem length_of_text (text : List Char) : (ofText text).length = Text.byteLength text := by
  induction text using List.reverseRecOn with
  | nil => rfl
  | append_singleton text c ih =>
      rw [of_text_snoc, Text.byteLength_append, ← ih]
      by_cases feed : c = '\n'
      · have width : '\n'.utf8Size = 1 := rfl
        simp [push, length, feed, width]
      · simp [push, length, feed, Nat.add_assoc]

theorem line_count_of_text (text : List Char) :
    (ofText text).lineCount = Text.lineAfter text := by
  induction text using List.reverseRecOn with
  | nil => rfl
  | append_singleton text c ih =>
      rw [of_text_snoc, Text.line_after_snoc, ← ih]
      by_cases feed : c = '\n'
      · simp [push, lineCount, starts, feed]
      · simp [push, lineCount, starts, feed]

theorem trailing_of_text (text : List Char) :
    (ofText text).trailing = Text.byteLength (Text.lastLine text) := by
  induction text using List.reverseRecOn with
  | nil => rfl
  | append_singleton text c ih =>
      rw [of_text_snoc, Text.last_line_snoc]
      by_cases feed : c = '\n'
      · simp [push, feed]
      · simp [push, feed, ih]

theorem starts_le_length (text : List Char) :
    ∀ start ∈ (ofText text).starts, start ≤ (ofText text).length := by
  induction text using List.reverseRecOn with
  | nil => simp [ofText, feed, starts, length]
  | append_singleton text c ih =>
      rw [of_text_snoc]
      by_cases feed : c = '\n'
      · intro start member
        simp only [push, if_pos feed, starts, List.mem_cons] at member
        simp only [push, if_pos feed]
        rcases member with newest | earlier
        · rw [newest]
          exact Nat.le_refl _
        · have bound := ih start (List.mem_cons.mpr earlier)
          simp only [length] at bound ⊢
          omega
      · intro start member
        simp only [push, if_neg feed] at member ⊢
        have bound := ih start member
        simp only [length] at bound ⊢
        omega

theorem starts_feed (index : LineIndex) (piece : List Char) :
    ∃ later, (index.feed piece).starts = later ++ index.starts ∧
      ∀ start ∈ later, index.length < start := by
  induction piece generalizing index with
  | nil => exact ⟨[], rfl, by simp⟩
  | cons c rest ih =>
      obtain ⟨later, fed, beyond⟩ := ih (index.push c)
      by_cases feed : c = '\n'
      · refine ⟨later ++ [index.length + 1], ?_, ?_⟩
        · simpa [LineIndex.feed, push, starts, feed] using fed
        · intro start member
          rcases List.mem_append.mp member with far | near
          · have bound := beyond start far
            simp only [push, if_pos feed, length] at bound ⊢
            omega
          · rw [List.mem_singleton.mp near]
            exact Nat.lt_succ_self _
      · refine ⟨later, ?_, ?_⟩
        · simpa [LineIndex.feed, push, starts, feed] using fed
        · intro start member
          have bound := beyond start member
          simp only [push, if_neg feed, length] at bound ⊢
          omega

section Place

variable (behind ahead : List Char)

/-- Of the lines of a text, those that start no later than a place are the lines behind it. -/
theorem exists_later_starts : ∃ later,
    (ofText (behind ++ ahead)).starts = later ++ (ofText behind).starts ∧
      ∀ start ∈ later, Text.byteLength behind < start := by
  have fed := starts_feed (ofText behind) ahead
  rw [length_of_text] at fed
  rw [ofText, feed_append]
  exact fed

theorem line_of_place :
    (ofText (behind ++ ahead)).line? (Text.byteLength behind) = some (Text.lineAfter behind) := by
  obtain ⟨later, all, beyond⟩ := exists_later_starts behind ahead
  have known : ¬ (ofText (behind ++ ahead)).length < Text.byteLength behind := by
    rw [length_of_text, Text.byteLength_append]
    omega
  have ahead_of_place : later.countP (· ≤ Text.byteLength behind) = 0 := by
    rw [List.countP_eq_zero]
    intro start member
    simpa using beyond start member
  have behind_place : (ofText behind).starts.countP (· ≤ Text.byteLength behind) =
      (ofText behind).starts.length := by
    rw [List.countP_eq_length]
    intro start member
    have bound := starts_le_length behind start member
    rw [length_of_text] at bound
    exact decide_eq_true bound
  rw [line?, if_neg known, all, List.countP_append, ahead_of_place, behind_place, Nat.zero_add,
    ← line_count_of_text]
  rfl

theorem line_start_of_place :
    (ofText (behind ++ ahead)).lineStart (Text.byteLength behind) = (ofText behind).lastStart := by
  obtain ⟨later, all, beyond⟩ := exists_later_starts behind ahead
  have ahead_of_place : later.find? (· ≤ Text.byteLength behind) = none := by
    rw [List.find?_eq_none]
    intro start member
    simpa using beyond start member
  have bound := starts_le_length behind (ofText behind).lastStart List.mem_cons_self
  rw [length_of_text] at bound
  rw [lineStart, all, List.find?_append, ahead_of_place]
  simp [starts, bound]

end Place

theorem walk_line (line : List Char) (within : '\n' ∉ line) (ahead : List Char)
    (offset column : Nat) (afterReturn : Bool) :
    walk (offset + Text.byteLength line) offset column afterReturn (line ++ ahead) =
      (column + line.length, line.getLast?.elim afterReturn (· == '\r')) := by
  induction line generalizing offset column afterReturn with
  | nil => cases ahead <;> simp [walk]
  | cons c rest ih =>
      have width := c.utf8Size_pos
      rw [List.mem_cons, not_or] at within
      obtain ⟨other, later⟩ := within
      have short : offset ≠ offset + Text.byteLength (c :: rest) := by
        rw [Text.byteLength_cons]
        omega
      have plain : (c == '\n') = false := by simpa using Ne.symm other
      have reached := ih later (offset + c.utf8Size) (column + 1) (c == '\r')
      rw [List.cons_append, walk, if_neg short, plain, Bool.and_false, if_neg Bool.false_ne_true,
        Text.byteLength_cons, ← Nat.add_assoc, reached, List.length_cons, List.getLast?_cons]
      cases rest.getLast? <;> simp [Nat.add_comm, Nat.add_left_comm]

/-- The index gives the line and the column of every place between characters. -/
theorem position_of_place (behind ahead : List Char) :
    (ofText (behind ++ ahead)).position (behind ++ ahead) (Text.byteLength behind) =
      .ok (some (Text.lineAfter behind, Text.columnBetween behind ahead)) := by
  obtain ⟨front, onLine⟩ := Text.exists_before_last_line behind
  have size : Text.byteLength behind = (ofText behind).lastStart +
      Text.byteLength (Text.lastLine behind) := by
    rw [← length_of_text, length, trailing_of_text]
  have start : Text.byteLength front = (ofText behind).lastStart := by
    have parts := congrArg Text.byteLength onLine
    rw [Text.byteLength_append] at parts
    omega
  have fromStart : Text.dropBytes? (ofText behind).lastStart (behind ++ ahead) =
      some (Text.lastLine behind ++ ahead) := by
    refine Text.dropBytes?_eq_some_iff.mpr ⟨front, ?_, start⟩
    rw [← List.append_assoc, ← onLine]
  have fromPlace : Text.dropBytes? (Text.byteLength behind) (behind ++ ahead) = some ahead :=
    Text.dropBytes?_eq_some_iff.mpr ⟨behind, rfl, rfl⟩
  have walked := walk_line (Text.lastLine behind) (Text.feed_not_mem_last_line behind) ahead
    (ofText behind).lastStart 1 false
  rw [← size] at walked
  simp only [position, line_of_place, length_of_text, ne_eq, not_true_eq_false, if_false,
    line_start_of_place, fromStart, walked, fromPlace]
  simp only [Text.columnBetween, Text.inside_return_iff]
  cases last : (Text.lastLine behind).getLast? with
  | none => simp
  | some c =>
      have moved : (ofText behind).lastStart < Text.byteLength behind := by
        obtain ⟨line, shape⟩ := List.getLast?_eq_some_iff.mp last
        rw [size, shape, Text.byteLength_append, Text.byteLength_cons]
        have width := c.utf8Size_pos
        omega
      by_cases inReturn : c = '\r'
      · cases ahead with
        | nil => simp [inReturn]
        | cons next rest =>
            by_cases feed : next = '\n' <;> simp [inReturn, moved, feed]
      · simp [inReturn]

end LineIndex

end SlrKit
