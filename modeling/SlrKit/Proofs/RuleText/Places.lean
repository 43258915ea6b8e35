import SlrKit.Proofs.RuleText.Words

/-!
# Places in rule text

A cursor that starts at the beginning of a text stays a place between two of its characters, whatever is
read: its offset is where the rest of the text that it has still to come begins.
-/

set_option autoImplicit false

namespace SlrKit

namespace RuleText

namespace Cursor

/-- What comes after the place is what is left of the text after its offset. -/
def LiesIn (text : List Char) (place : Cursor) : Prop :=
  Text.dropBytes? place.offset text = some place.rest

variable {text : List Char} {place : Cursor}

theorem lies_in_iff : place.LiesIn text ↔
    ∃ front, text = front ++ place.rest ∧ Text.byteLength front = place.offset :=
  Text.dropBytes?_eq_some_iff

theorem start_lies_in (text : List Char) : (Cursor.mk 0 text).LiesIn text :=
  lies_in_iff.mpr ⟨[], rfl, rfl⟩

namespace LiesIn

theorem past (lies : place.LiesIn text) {taken rest : List Char} (split : place.rest = taken ++ rest) :
    (place.past taken rest).LiesIn text := by
  obtain ⟨front, whole, size⟩ := lies_in_iff.mp lies
  rw [lies_in_iff]
  refine ⟨front ++ taken, ?_, ?_⟩
  · rw [whole, split, List.append_assoc, Cursor.past]
  · rw [Text.byteLength_append, size, Cursor.past]

theorem slice (lies : place.LiesIn text) {taken rest : List Char}
    (split : place.rest = taken ++ rest) :
    Text.slice? place.offset (place.offset + Text.byteLength taken) text = some taken := by
  obtain ⟨front, whole, size⟩ := lies_in_iff.mp lies
  rw [Text.slice?_eq_some_iff]
  exact ⟨front, rest, by rw [whole, split, List.append_assoc], size, rfl⟩

theorem length (lies : place.LiesIn text) :
    Text.byteLength text = place.offset + Text.byteLength place.rest := by
  obtain ⟨front, whole, size⟩ := lies_in_iff.mp lies
  rw [whole, Text.byteLength_append, size]

theorem offset_lt_iff (lies : place.LiesIn text) :
    place.offset < Text.byteLength text ↔ place.rest ≠ [] := by
  rw [lies.length]
  cases place.rest with
  | nil => simp
  | cons c rest =>
      have width := c.utf8Size_pos
      rw [Text.byteLength_cons]
      simp only [ne_eq, reduceCtorEq, not_false_eq_true, iff_true]
      omega

theorem takeWhile (lies : place.LiesIn text) (property : Char → Bool) :
    (place.takeWhile property).2.LiesIn text :=
  lies.past (takeWhile_splits property place).1

theorem skipBlank (lies : place.LiesIn text) : place.skipBlank.LiesIn text := lies.takeWhile _

theorem after (lies : place.LiesIn text) {word : List Char} {next : Cursor}
    (found : place.after? word = some next) : next.LiesIn text := by
  have split := rest_of_after found
  simp only [after?] at found
  split at found
  · cases found
    exact lies.past split
  · cases found

theorem readName (lies : place.LiesIn text) {name : List Char} {after : Cursor}
    (read : RuleText.readName place = .ok (name, after)) :
    after.LiesIn text ∧ after.offset = place.offset + Text.byteLength name := by
  unfold RuleText.readName at read
  split at read
  · split at read
    · cases read
      exact ⟨lies.takeWhile _, rfl⟩
    · cases read
  · cases read

theorem readWord (lies : place.LiesIn text) {word : Word}
    (read : RuleText.readWord place = .ok word) : word.after.LiesIn text := by
  unfold RuleText.readWord at read
  split at read
  · cases read
    exact lies.takeWhile _
  · rename_i c rest content
    have inside : (place.past [c] rest).LiesIn text := lies.past content
    split at read
    · unfold quotedWord at read
      simp only at read
      split at read
      · cases read
      · rename_i closing later ending
        split at read
        · cases read
          exact (inside.takeWhile _).past ending
        · cases read
    · cases read
      exact lies.takeWhile _

theorem readPrecedence (lies : place.LiesIn text) {clause : Nat} {word : Word}
    (read : RuleText.readPrecedence clause place = .ok word) : word.after.LiesIn text := by
  unfold RuleText.readPrecedence at read
  simp only at read
  split at read
  · cases read
  · split at read
    · rename_i found again
      split at read
      · cases read
      · cases read
        exact lies.skipBlank.readWord again
    · cases read

end LiesIn

end Cursor

section Quoted

variable {mark : Char} {inner later : List Char}

theorem is_other_of_not_mem (others : mark ∉ inner) : ∀ c ∈ inner, (c != mark) = true := by
  intro c member
  simp only [bne_iff_ne, ne_eq]
  rintro rfl
  exact others member

theorem quoted_word_of_unclosed (place content : Cursor) (others : mark ∉ content.rest) :
    quotedWord mark place content = .error (.illegalString, place.remainder) := by
  have stops : Stops (· != mark) [] := by simp [Stops]
  have taken := Cursor.takeWhile_append content.offset (is_other_of_not_mem others) stops
  rw [List.append_nil] at taken
  rw [quotedWord]
  simp only [taken]

theorem quoted_word_of_closed (place : Cursor) (offset : Nat) (others : mark ∉ inner) :
    quotedWord mark place ⟨offset, inner ++ mark :: later⟩ =
      if inner.length = 1 then
        .ok ⟨inner, Span.ofLength offset (Text.byteLength inner), true,
          ⟨offset + Text.byteLength inner + mark.utf8Size, later⟩⟩
      else
        .error (.illegalString, Span.ofLength place.offset (Text.byteLength inner + 2)) := by
  have stops : Stops (· != mark) (mark :: later) := by simp [Stops]
  have taken := Cursor.takeWhile_append offset (is_other_of_not_mem others) stops
  rw [quotedWord]
  simp only [taken]
  rfl

end Quoted

end RuleText

end SlrKit
