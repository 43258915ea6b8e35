import SlrKit.Fault
import SlrKit.RuleText

/-!
# Rule text read by offsets

Rule text can also be read in place. How far it has been read is told by a byte offset in the whole
text, and what is read is cut out of it between two offsets. Cutting inside a character or beyond the
text is a fault, and so is a span that ends before it starts.
-/

set_option autoImplicit false

namespace SlrKit

namespace RuleText

/-- Why the reading of a text stops. -/
inductive Stop where
  | refused (problem : Problem)
  | fault (fault : Fault)
deriving DecidableEq

theorem exists_of_bind {ε σ τ : Type} {first : Except ε σ} {next : σ → Except ε τ} {result : τ}
    (bound : (first >>= next) = .ok result) :
    ∃ value, first = .ok value ∧ next value = .ok result := by
  cases first with
  | error error => cases bound
  | ok value => exact ⟨value, rfl, bound⟩

namespace Offsets

section Cutting

variable (text : List Char)

def suffix (offset : Nat) : Except Stop (List Char) :=
  match Text.dropBytes? offset text with
  | some rest => .ok rest
  | none => .error (.fault .brokenOffset)

def cut (start stop : Nat) : Except Stop (List Char) :=
  match Text.slice? start stop text with
  | some part => .ok part
  | none => .error (.fault .brokenOffset)

def span (start stop : Nat) : Except Stop Span := (Span.ofEnds start stop).mapError .fault

def refuse {α : Type} (cause : GrammarError.Cause) (start stop : Nat) : Except Stop α := do
  let span ← span start stop
  .error (.refused (cause, span))

/-- How many bytes a text has more than one that it ends with. -/
def excess (whole back : List Char) : Except Stop Nat :=
  if Text.byteLength back ≤ Text.byteLength whole then
    .ok (Text.byteLength whole - Text.byteLength back)
  else .error (.fault .brokenOffset)

def skipBlank (offset : Nat) : Except Stop Nat := do
  let rest ← suffix text offset
  let blank ← excess rest (Text.skipBlank rest)
  .ok (offset + blank)

def after? (word : List Char) (offset : Nat) : Except Stop (Option Nat) := do
  let rest ← suffix text offset
  .ok (if word.isPrefixOf rest then some (offset + Text.byteLength word) else none)

end Cutting

/-- How many bytes of a text are a name that it begins with. -/
def nameLength? : List Char → Option Nat
  | [] => none
  | c :: rest =>
      if isNameStart c then some (Text.byteLength ((c :: rest).takeWhile isNameChar)) else none

def isWholeName (name : List Char) : Bool := nameLength? name == some (Text.byteLength name)

/-- How many bytes of a text are a word that it begins with: all between two equal quotation marks, with
the marks, or some characters without any. -/
def wordLength? : List Char → Option Nat
  | [] => none
  | c :: rest =>
      if isQuote c then
        let inner := rest.takeWhile (· != c)
        if inner.length < rest.length then some (c.utf8Size + Text.byteLength inner + c.utf8Size)
        else none
      else if isWordChar c then some (Text.byteLength ((c :: rest).takeWhile isWordChar))
      else none

def beginsQuoted (rest : List Char) : Bool := rest.head?.any isQuote

structure Piece where
  text : List Char
  span : Span
  stop : Nat

section Reading

variable (text : List Char)

def readName (offset : Nat) : Except Stop (List Char × Nat) := do
  let rest ← suffix text offset
  match nameLength? rest with
  | none => refuse .illegalName offset offset
  | some length => do
      let name ← cut text offset (offset + length)
      .ok (name, offset + length)

/-- The word between two offsets, which quotation marks are taken off. -/
def takeWord (start stop : Nat) : Except Stop Piece := do
  let rest ← suffix text start
  if beginsQuoted rest then do
    let inner ← cut text (start + 1) (stop - 1)
    if inner.length = 1 then do
      let span ← span (start + 1) (stop - 1)
      .ok ⟨inner, span, stop⟩
    else refuse .illegalString start stop
  else do
    let word ← cut text start stop
    let span ← span start stop
    .ok ⟨word, span, stop⟩

/-- Where no word begins, an empty one is read, unless there is a quotation mark that is not closed. -/
def readWord (offset : Nat) : Except Stop Piece := do
  let rest ← suffix text offset
  match wordLength? rest with
  | some length => takeWord text offset (offset + length)
  | none =>
      if beginsQuoted rest then refuse .illegalString offset (Text.byteLength text)
      else do
        let span ← span offset offset
        .ok ⟨[], span, offset⟩

def readPrecedence (clause afterKey : Nat) : Except Stop Piece := do
  let next ← skipBlank text afterKey
  if next = afterKey ∧ next < Text.byteLength text then refuse .illegalName clause clause
  else
    match readWord text next with
    | .ok piece => if piece.text = [] then refuse .precNotFollowedByToken next next else .ok piece
    | .error (.refused _) => refuse .precNotFollowedByToken next next
    | .error (.fault fault) => .error (.fault fault)

variable (terminals : List String)

def readSymbol (offset : Nat) : Except Stop (NamedSymbol × Nat) := do
  let rest ← suffix text offset
  let piece ← readWord text offset
  let name := String.ofList piece.text
  if beginsQuoted rest then .ok (.token name piece.span, piece.stop)
  else if isWholeName piece.text then
    .ok (if terminals.contains name then .token name piece.span else .rule name piece.span, piece.stop)
  else .error (.refused (.illegalName, piece.span))

/-- The alternatives that have been read: `done` are complete, and `current` has been begun. -/
structure Progress where
  done : List Alternative
  current : Alternative
  offset : Nat

def advance (progress : Progress) : Except Stop Progress := do
  match ← after? text ['|'] progress.offset with
  | some afterBar => do
      let next ← skipBlank text afterBar
      .ok ⟨progress.done ++ [progress.current], {}, next⟩
  | none =>
      if progress.current.precedence.isSome then refuse .precNotLast progress.offset progress.offset
      else
        match ← after? text ['%', 'p', 'r', 'e', 'c'] progress.offset with
        | some afterKey => do
            let piece ← readPrecedence text progress.offset afterKey
            let next ← skipBlank text piece.stop
            .ok ⟨progress.done,
              { progress.current with precedence := some (String.ofList piece.text, piece.span) }, next⟩
        | none => do
            let (symbol, afterSymbol) ← readSymbol text terminals progress.offset
            let next ← skipBlank text afterSymbol
            .ok ⟨progress.done,
              { progress.current with symbols := progress.current.symbols ++ [symbol] }, next⟩

end Reading

section Advancing

variable {text : List Char}

theorem refuse_ne_ok {α : Type} {cause : GrammarError.Cause} {start stop : Nat} {value : α} :
    refuse cause start stop ≠ .ok value := by
  intro refused
  obtain ⟨span, _, never⟩ := exists_of_bind refused
  cases never

theorem le_of_skip_blank {offset next : Nat} (skipped : skipBlank text offset = .ok next) :
    offset ≤ next := by
  obtain ⟨rest, _, counted⟩ := exists_of_bind skipped
  obtain ⟨blank, _, same⟩ := exists_of_bind counted
  cases same
  exact Nat.le_add_right offset blank

theorem offset_of_after {word : List Char} {offset next : Nat}
    (found : after? text word offset = .ok (some next)) : next = offset + Text.byteLength word := by
  obtain ⟨rest, _, same⟩ := exists_of_bind found
  split at same
  · cases same
    rfl
  · cases same

theorem word_length_pos {rest : List Char} {length : Nat} (measured : wordLength? rest = some length) :
    0 < length := by
  cases rest with
  | nil => cases measured
  | cons c rest =>
      have width := c.utf8Size_pos
      simp only [wordLength?] at measured
      split at measured
      · split at measured
        · cases measured
          omega
        · cases measured
      · split at measured
        · rename_i plain
          cases measured
          rw [List.takeWhile_cons_of_pos plain, Text.byteLength_cons]
          omega
        · cases measured

theorem stop_of_take_word {start stop : Nat} {piece : Piece}
    (taken : takeWord text start stop = .ok piece) : piece.stop = stop := by
  obtain ⟨rest, _, cutting⟩ := exists_of_bind taken
  split at cutting
  · obtain ⟨inner, _, measured⟩ := exists_of_bind cutting
    split at measured
    · obtain ⟨span, _, same⟩ := exists_of_bind measured
      cases same
      rfl
    · exact absurd measured refuse_ne_ok
  · obtain ⟨word, _, measured⟩ := exists_of_bind cutting
    obtain ⟨span, _, same⟩ := exists_of_bind measured
    cases same
    rfl

/-- Only an empty word takes nothing of the text, and it is read where no quotation mark stands. -/
theorem lt_of_read_word {offset : Nat} {piece : Piece} (read : readWord text offset = .ok piece) :
    offset < piece.stop ∨
      piece.text = [] ∧ ∃ rest, suffix text offset = .ok rest ∧ beginsQuoted rest = false := by
  obtain ⟨rest, ahead, measured⟩ := exists_of_bind read
  split at measured
  · rename_i length found
    have positive := word_length_pos found
    rw [stop_of_take_word measured]
    exact .inl (Nat.lt_add_of_pos_right positive)
  · split at measured
    · exact absurd measured refuse_ne_ok
    · rename_i unquoted
      obtain ⟨span, _, same⟩ := exists_of_bind measured
      cases same
      exact .inr ⟨rfl, rest, ahead, Bool.eq_false_iff.mpr unquoted⟩

theorem lt_of_read_precedence {clause afterKey : Nat} {piece : Piece}
    (read : readPrecedence text clause afterKey = .ok piece) : afterKey < piece.stop := by
  obtain ⟨next, skipped, reading⟩ := exists_of_bind read
  have ahead := le_of_skip_blank skipped
  split at reading
  · exact absurd reading refuse_ne_ok
  · split at reading
    · rename_i found again
      split at reading
      · exact absurd reading refuse_ne_ok
      · rename_i nonempty
        cases reading
        rcases lt_of_read_word again with further | ⟨nothing, _⟩
        · exact Nat.lt_of_le_of_lt ahead further
        · exact absurd nothing nonempty
    · exact absurd reading refuse_ne_ok
    · cases reading

theorem lt_of_read_symbol {terminals : List String} {offset : Nat} {found : NamedSymbol × Nat}
    (read : readSymbol text terminals offset = .ok found) : offset < found.2 := by
  obtain ⟨rest, ahead, reading⟩ := exists_of_bind read
  obtain ⟨piece, word, standing⟩ := exists_of_bind reading
  rcases lt_of_read_word word with further | ⟨nothing, again, same, unquoted⟩
  · split at standing
    · cases standing
      exact further
    · split at standing
      · cases standing
        exact further
      · cases standing
  · rw [ahead] at same
    cases same
    rw [unquoted, nothing] at standing
    cases standing

/-- Every step of the reader takes something of the text. -/
theorem lt_of_advance {terminals : List String} {progress next : Progress}
    (stepped : advance text terminals progress = .ok next) : progress.offset < next.offset := by
  obtain ⟨bar, looked, stepping⟩ := exists_of_bind stepped
  split at stepping
  · rename_i afterBar
    have behind : afterBar = progress.offset + 1 := offset_of_after looked
    obtain ⟨offset, skipped, same⟩ := exists_of_bind stepping
    have ahead := le_of_skip_blank skipped
    cases same
    simp only
    omega
  · split at stepping
    · exact absurd stepping refuse_ne_ok
    · obtain ⟨key, found, reading⟩ := exists_of_bind stepping
      split at reading
      · rename_i afterKey
        have behind := offset_of_after found
        obtain ⟨piece, clause, skipping⟩ := exists_of_bind reading
        have further := lt_of_read_precedence clause
        obtain ⟨offset, skipped, same⟩ := exists_of_bind skipping
        have ahead := le_of_skip_blank skipped
        cases same
        simp only
        omega
      · obtain ⟨⟨symbol, afterSymbol⟩, taken, skipping⟩ := exists_of_bind reading
        have further := lt_of_read_symbol taken
        obtain ⟨offset, skipped, same⟩ := exists_of_bind skipping
        have ahead := le_of_skip_blank skipped
        cases same
        simp only at further ⊢
        omega

end Advancing

def readAlternatives (text : List Char) (terminals : List String) (progress : Progress) :
    Except Stop (List Alternative) :=
  if _inside : progress.offset < Text.byteLength text then
    match _stepped : advance text terminals progress with
    | .error stop => .error stop
    | .ok next => readAlternatives text terminals next
  else .ok (progress.done ++ [progress.current])
termination_by Text.byteLength text - progress.offset
decreasing_by
  have further := lt_of_advance _stepped
  omega

def parse (terminals : List String) (text : List Char) : Except Stop RuleText := do
  let start ← skipBlank text 0
  let (name, afterName) ← readName text start
  let span ← span start afterName
  if terminals.contains (String.ofList name) then
    .error (.refused (.tokenAsRule (String.ofList name), span))
  else do
    let colon ← skipBlank text afterName
    match ← after? text [':'] colon with
    | none => refuse .missingColon colon colon
    | some body => do
        let first ← skipBlank text body
        let alternatives ← readAlternatives text terminals ⟨[], {}, first⟩
        .ok ⟨String.ofList name, span, alternatives⟩

end Offsets

end RuleText

end SlrKit
