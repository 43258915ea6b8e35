/-!
# Byte offsets in a text

A text is a list of characters; offsets into it count the bytes of its UTF-8 encoding.
An offset is usable only where a character starts or the text ends, so cutting a text
at an offset is partial.
-/

set_option autoImplicit false

namespace SlrKit.Text

def byteLength (text : List Char) : Nat :=
  text.foldr (fun c length => c.utf8Size + length) 0

@[simp]
theorem byteLength_nil : byteLength [] = 0 := rfl

@[simp]
theorem byteLength_cons (c : Char) (rest : List Char) :
    byteLength (c :: rest) = c.utf8Size + byteLength rest := rfl

@[simp]
theorem byteLength_append (front back : List Char) :
    byteLength (front ++ back) = byteLength front + byteLength back := by
  induction front with
  | nil => simp
  | cons c rest ih => rw [List.cons_append, byteLength_cons, byteLength_cons, ih, Nat.add_assoc]

/-- What is left of a text after its first `count` bytes; `none` if these end inside a
character or beyond the text. -/
def dropBytes? (count : Nat) : List Char → Option (List Char)
  | [] => if count = 0 then some [] else none
  | c :: rest =>
      if count = 0 then some (c :: rest)
      else if c.utf8Size ≤ count then dropBytes? (count - c.utf8Size) rest
      else none

theorem dropBytes?_eq_some_iff {count : Nat} {text rest : List Char} :
    dropBytes? count text = some rest ↔
      ∃ front, text = front ++ rest ∧ byteLength front = count := by
  induction text generalizing count with
  | nil =>
      simp only [dropBytes?]
      constructor
      · intro dropped
        split at dropped
        · obtain rfl := Option.some.inj dropped
          exact ⟨[], rfl, by simp_all⟩
        · simp at dropped
      · rintro ⟨front, shape, size⟩
        obtain ⟨rfl, rfl⟩ := List.append_eq_nil_iff.mp shape.symm
        simp [← size]
  | cons c later hypothesis =>
      have width_positive := c.utf8Size_pos
      simp only [dropBytes?]
      constructor
      · intro dropped
        split at dropped
        · obtain rfl := Option.some.inj dropped
          exact ⟨[], rfl, by simp_all⟩
        · split at dropped
          · obtain ⟨front, rfl, size⟩ := hypothesis.mp dropped
            refine ⟨c :: front, rfl, ?_⟩
            rw [byteLength_cons, size]
            omega
          · simp at dropped
      · rintro ⟨front, shape, size⟩
        cases front with
        | nil =>
            rw [byteLength_nil] at size
            rw [if_pos size.symm]
            exact congrArg some shape
        | cons first front =>
            obtain ⟨rfl, rfl⟩ := List.cons.inj shape
            rw [byteLength_cons] at size
            rw [if_neg (by omega), if_pos (by omega)]
            exact hypothesis.mpr ⟨front, rfl, by omega⟩

/-- The first `count` bytes of a text; `none` if these end inside a character or beyond
the text. -/
def takeBytes? (count : Nat) : List Char → Option (List Char)
  | [] => if count = 0 then some [] else none
  | c :: rest =>
      if count = 0 then some []
      else if c.utf8Size ≤ count then (takeBytes? (count - c.utf8Size) rest).map (c :: ·)
      else none

theorem takeBytes?_eq_some_iff {count : Nat} {text front : List Char} :
    takeBytes? count text = some front ↔
      ∃ rest, text = front ++ rest ∧ byteLength front = count := by
  induction text generalizing count front with
  | nil =>
      simp only [takeBytes?]
      constructor
      · intro taken
        split at taken
        · obtain rfl := Option.some.inj taken
          exact ⟨[], rfl, by simp_all⟩
        · simp at taken
      · rintro ⟨rest, shape, size⟩
        obtain ⟨rfl, rfl⟩ := List.append_eq_nil_iff.mp shape.symm
        simp [← size]
  | cons c later hypothesis =>
      have width_positive := c.utf8Size_pos
      simp only [takeBytes?]
      constructor
      · intro taken
        split at taken
        · obtain rfl := Option.some.inj taken
          exact ⟨c :: later, rfl, by simp_all⟩
        · split at taken
          · obtain ⟨taken_later, found, rfl⟩ := Option.map_eq_some_iff.mp taken
            obtain ⟨rest, rfl, size⟩ := hypothesis.mp found
            refine ⟨rest, rfl, ?_⟩
            rw [byteLength_cons, size]
            omega
          · simp at taken
      · rintro ⟨rest, shape, size⟩
        cases front with
        | nil =>
            rw [byteLength_nil] at size
            rw [if_pos size.symm]
        | cons first front =>
            obtain ⟨rfl, rfl⟩ := List.cons.inj shape
            rw [byteLength_cons] at size
            rw [if_neg (by omega), if_pos (by omega), hypothesis.mpr ⟨rest, rfl, by omega⟩]
            rfl

/-- The bytes of a text from `start` up to `stop`; `none` unless both are places between
characters, in that order. -/
def slice? (start stop : Nat) (text : List Char) : Option (List Char) :=
  if stop < start then none
  else (dropBytes? start text).bind (takeBytes? (stop - start))

theorem slice?_eq_some_iff {start stop : Nat} {text part : List Char} :
    slice? start stop text = some part ↔
      ∃ front back, text = front ++ part ++ back ∧ byteLength front = start ∧
        start + byteLength part = stop := by
  unfold slice?
  constructor
  · intro sliced
    split at sliced
    · simp at sliced
    · rename_i ordered
      obtain ⟨rest, dropped, taken⟩ := Option.bind_eq_some_iff.mp sliced
      obtain ⟨front, rfl, front_size⟩ := dropBytes?_eq_some_iff.mp dropped
      obtain ⟨back, rfl, part_size⟩ := takeBytes?_eq_some_iff.mp taken
      exact ⟨front, back, (List.append_assoc front part back).symm, front_size, by omega⟩
  · rintro ⟨front, back, rfl, front_size, part_size⟩
    rw [if_neg (by omega), List.append_assoc]
    refine Option.bind_eq_some_iff.mpr ⟨part ++ back, ?_, ?_⟩
    · exact dropBytes?_eq_some_iff.mpr ⟨front, rfl, front_size⟩
    · exact takeBytes?_eq_some_iff.mpr ⟨back, rfl, by omega⟩

end SlrKit.Text
