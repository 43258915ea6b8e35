import Mathlib
import SlrKit.Proofs.RuleText.Layout

/-!
# Words of rule text

A name holds no blank, no bar and no quotation mark, so whatever is a name can also be a word. A spelling
is read as the word it stands for if nothing after it could belong to it, and every word that is read has
a spelling.
-/

set_option autoImplicit false

namespace SlrKit

namespace RuleText

/-- A text that does not go on with a character of the kind. -/
def Stops (property : Char → Bool) (text : List Char) : Prop :=
  ∀ c ∈ text.head?, property c = false

section Characters

variable {c : Char}

theorem word_char_iff :
    isWordChar c = true ↔ Text.isBlank c = false ∧ c ≠ '|' ∧ isQuote c = false := by
  simp [isWordChar, and_assoc]

theorem word_char_of_name_char (fit : isNameChar c = true) : isWordChar c = true := by
  have ascii : c.toNat = 95 ∨ 48 ≤ c.toNat ∧ c.toNat ≤ 57 ∨ 65 ≤ c.toNat ∧ c.toNat ≤ 90 ∨
      97 ≤ c.toNat ∧ c.toNat ≤ 122 := by
    simp only [isNameChar, Char.isAlphanum, Char.isAlpha, Char.isUpper, Char.isLower, Char.isDigit,
      Bool.or_eq_true, Bool.and_eq_true, decide_eq_true_eq, beq_iff_eq, ge_iff_le,
      UInt32.le_iff_toNat_le] at fit
    rcases fit with ((upper | lower) | digit) | rfl
    · exact .inr (.inr (.inl upper))
    · exact .inr (.inr (.inr lower))
    · exact .inr (.inl digit)
    · exact .inl rfl
  rw [word_char_iff]
  refine ⟨?_, ?_, ?_⟩
  · simp [Text.isBlank, Text.blankRanges]
    omega
  · rintro rfl
    simp at ascii
  · simp only [isQuote, Bool.or_eq_false_iff, beq_eq_false_iff_ne]
    constructor
    · rintro rfl
      simp at ascii
    · rintro rfl
      simp at ascii

theorem name_char_of_start (start : isNameStart c = true) : isNameChar c = true := by
  simp only [isNameStart, Bool.or_eq_true] at start
  simp only [isNameChar, Char.isAlphanum, Bool.or_eq_true]
  tauto

theorem blank_not_word_char (blank : Text.isBlank c = true) : isWordChar c = false := by
  simp [isWordChar, blank]

theorem quote_not_word_char (marks : isQuote c = true) : isWordChar c = false := by
  simp [isWordChar, marks]

theorem quote_not_blank (marks : isQuote c = true) : Text.isBlank c = false := by
  simp only [isQuote, Bool.or_eq_true, beq_iff_eq] at marks
  rcases marks with rfl | rfl
  · decide
  · decide

theorem quote_size (marks : isQuote c = true) : c.utf8Size = 1 := by
  simp only [isQuote, Bool.or_eq_true, beq_iff_eq] at marks
  rcases marks with rfl | rfl
  · rfl
  · rfl

end Characters

section Names

variable {chars : List Char}

theorem is_name_iff : isName chars = true ↔
    ∃ c rest, chars = c :: rest ∧ isNameStart c = true ∧ ∀ other ∈ chars, isNameChar other = true := by
  cases chars with
  | nil => simp [isName]
  | cons c rest =>
      simp only [isName, Bool.and_eq_true, List.all_eq_true]
      constructor
      · rintro ⟨start, all⟩
        refine ⟨c, rest, rfl, start, ?_⟩
        intro other member
        rcases List.mem_cons.mp member with rfl | later
        · exact name_char_of_start start
        · exact all other later
      · rintro ⟨_, _, same, start, all⟩
        cases same
        exact ⟨start, fun other later => all other (List.mem_cons_of_mem _ later)⟩

theorem is_word_iff : isWord chars = true ↔ chars ≠ [] ∧ ∀ c ∈ chars, isWordChar c = true := by
  simp [isWord]

theorem is_word_of_is_name (named : isName chars = true) : isWord chars = true := by
  obtain ⟨c, rest, same, _, all⟩ := is_name_iff.mp named
  rw [is_word_iff]
  exact ⟨by simp [same], fun other member => word_char_of_name_char (all other member)⟩

end Names

namespace Cursor

theorem takeWhile_append {property : Char → Bool} {front rest : List Char} (offset : Nat)
    (holds : ∀ c ∈ front, property c = true) (stops : Stops property rest) :
    (Cursor.mk offset (front ++ rest)).takeWhile property =
      (front, ⟨offset + Text.byteLength front, rest⟩) := by
  have taken : (front ++ rest).takeWhile property = front := by
    rw [List.takeWhile_append_of_pos holds]
    cases rest with
    | nil => simp
    | cons c rest => simp [stops c rfl]
  simp [takeWhile, past, taken]

theorem takeWhile_splits (property : Char → Bool) (place : Cursor) :
    place.rest = (place.takeWhile property).1 ++ (place.takeWhile property).2.rest ∧
      (∀ c ∈ (place.takeWhile property).1, property c = true) ∧
      Stops property (place.takeWhile property).2.rest := by
  have split : place.rest.takeWhile property ++ place.rest.dropWhile property = place.rest :=
    List.takeWhile_append_dropWhile
  have rest : (place.takeWhile property).2.rest = place.rest.dropWhile property :=
    (congrArg (List.drop _) split.symm).trans List.drop_left
  rw [rest]
  refine ⟨split.symm, fun c member => List.mem_takeWhile_imp member, ?_⟩
  intro c first
  have stopped := List.head?_dropWhile_not property place.rest
  rw [Option.mem_def.mp first] at stopped
  exact stopped

theorem skipBlank_append {rest : List Char} (offset : Nat) (gap : Gap)
    (stops : Stops Text.isBlank rest) :
    (Cursor.mk offset (gap.chars ++ rest)).skipBlank =
      ⟨offset + Text.byteLength gap.chars, rest⟩ := by
  simp [skipBlank, takeWhile_append offset gap.blank stops]

theorem exists_gap (place : Cursor) :
    ∃ gap : Gap, place.rest = gap.chars ++ place.skipBlank.rest ∧
      place.skipBlank.offset = place.offset + Text.byteLength gap.chars := by
  obtain ⟨split, blank, _⟩ := takeWhile_splits Text.isBlank place
  exact ⟨⟨_, blank⟩, split, rfl⟩

theorem after_append (word rest : List Char) (offset : Nat) :
    (Cursor.mk offset (word ++ rest)).after? word =
      some ⟨offset + Text.byteLength word, rest⟩ := by
  simp [after?, past, List.isPrefixOf_iff_prefix]

theorem rest_of_after {word : List Char} {place next : Cursor}
    (found : place.after? word = some next) : place.rest = word ++ next.rest := by
  simp only [after?] at found
  split at found
  · rename_i begins
    cases found
    obtain ⟨rest, split⟩ := List.isPrefixOf_iff_prefix.mp begins
    simp [past, ← split]
  · cases found

theorem after_eq_none {word rest : List Char} {first c : Char} (offset : Nat) (other : c ≠ first) :
    (Cursor.mk offset (c :: rest)).after? (first :: word) = none := by
  simp [after?, List.isPrefixOf, other.symm]

end Cursor

section Words

variable {fits : List Char → Bool}

/-- A spelling is read as a word, if nothing after it could belong to it. -/
theorem read_spelling (words : ∀ chars, fits chars = true → isWord chars = true)
    (spelling : Spelling fits) (rest : List Char) (offset : Nat)
    (stops : spelling.isBare = true → Stops isWordChar rest) :
    readWord ⟨offset, spelling.text ++ rest⟩ =
      .ok ⟨spelling.content, spelling.span offset, !spelling.isBare,
        ⟨offset + Text.byteLength spelling.text, rest⟩⟩ := by
  cases spelling with
  | bare chars fit =>
      have word := is_word_iff.mp (words chars fit)
      have taken := Cursor.takeWhile_append offset word.2 (stops rfl)
      cases chars with
      | nil => exact absurd rfl word.1
      | cons c others =>
          have plain := (word_char_iff.mp (word.2 c List.mem_cons_self)).2.2
          simp only [readWord, Spelling.text, List.cons_append, plain, Bool.false_eq_true, if_false,
            bareWord]
          rw [List.cons_append] at taken
          rw [taken]
          rfl
  | quoted mark c marks other =>
      have single : ∀ inner ∈ [c], (inner != mark) = true := by simpa using other
      have ends : Stops (· != mark) (mark :: rest) := by simp [Stops]
      have taken := Cursor.takeWhile_append (offset + mark.utf8Size) single ends
      simp only [List.singleton_append, Text.byteLength_cons, Text.byteLength_nil,
        Nat.add_zero] at taken
      simp [readWord, Spelling.text, marks, quotedWord, Cursor.past, taken, Spelling.content,
        Spelling.span, Spelling.isBare, Nat.add_assoc]

/-- Every word that is read has a spelling, which takes all that could belong to it. -/
theorem spelling_of_read {place : Cursor} {word : Word} (read : readWord place = .ok word)
    (fit : word.quoted = false → (∀ c ∈ word.text, isWordChar c = true) → fits word.text = true) :
    ∃ spelling : Spelling fits, place.rest = spelling.text ++ word.after.rest ∧
      (spelling.isBare = true → Stops isWordChar word.after.rest) := by
  obtain ⟨bare_split, bare_chars, bare_stops⟩ := Cursor.takeWhile_splits isWordChar place
  unfold readWord at read
  split at read
  · cases read
    exact ⟨.bare _ (fit rfl bare_chars), bare_split, fun _ => bare_stops⟩
  · rename_i c rest content
    split at read
    · rename_i marks
      obtain ⟨split, others, ends⟩ := Cursor.takeWhile_splits (· != c) (place.past [c] rest)
      unfold quotedWord at read
      simp only at read
      split at read
      · cases read
      · rename_i closing later ending
        rw [ending] at split ends
        split at read
        · rename_i single
          cases read
          obtain ⟨inner, alone⟩ := List.length_eq_one_iff.mp single
          have same : closing = c := by simpa using ends closing rfl
          rw [alone] at split others
          refine ⟨.quoted c inner marks (by simpa using others), ?_, by simp [Spelling.isBare]⟩
          rw [content]
          simpa [Spelling.text, Cursor.past, same] using split
        · cases read
    · cases read
      exact ⟨.bare _ (fit rfl bare_chars), bare_split, fun _ => bare_stops⟩

end Words

end RuleText

end SlrKit
