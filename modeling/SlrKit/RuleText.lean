import SlrKit.Grammar.Error
import SlrKit.Text.Blank
import SlrKit.Text.Bytes

/-!
# Rule text

The text of a production declaration gives a rule its alternatives:

```text
expr : expr '+' term | '-' expr %prec UMINUS | term
```

An alternative is a possibly empty row of names and quoted characters and can end with a
precedence clause. A quoted character is a token; a name is a token if it is declared as one,
and a rule otherwise. Blanks separate and are otherwise ignored.
-/

set_option autoImplicit false

namespace SlrKit

/-- A symbol as it is written, with its place. The place of a quoted character is that of
the character without its quotes. -/
inductive NamedSymbol where
  | rule (name : String) (span : Span)
  | token (name : String) (span : Span)
deriving DecidableEq

namespace NamedSymbol

def name : NamedSymbol → String
  | rule name _ => name
  | token name _ => name

def span : NamedSymbol → Span
  | rule _ span => span
  | token _ span => span

def same : NamedSymbol → NamedSymbol → Bool
  | rule left _, rule right _ => left == right
  | token left _, token right _ => left == right
  | _, _ => false

def sameRow : List NamedSymbol → List NamedSymbol → Bool
  | [], [] => true
  | left :: lefts, right :: rights => left.same right && sameRow lefts rights
  | _, _ => false

end NamedSymbol

structure Alternative where
  symbols : List NamedSymbol := []
  precedence : Option (String × Span) := none
deriving DecidableEq

structure RuleText where
  name : String
  span : Span
  alternatives : List Alternative
deriving DecidableEq

namespace RuleText

abbrev Problem : Type := GrammarError.Cause × Span

/-- A place in the text: how many bytes lie before it, and what comes after. -/
structure Cursor where
  offset : Nat
  rest : List Char

namespace Cursor

def past (place : Cursor) (taken rest : List Char) : Cursor :=
  ⟨place.offset + Text.byteLength taken, rest⟩

def takeWhile (property : Char → Bool) (place : Cursor) : List Char × Cursor :=
  let taken := place.rest.takeWhile property
  (taken, place.past taken (place.rest.drop taken.length))

def skipBlank (place : Cursor) : Cursor := (place.takeWhile Text.isBlank).2

def after? (word : List Char) (place : Cursor) : Option Cursor :=
  if word.isPrefixOf place.rest then some (place.past word (place.rest.drop word.length)) else none

def remainder (place : Cursor) : Span := Span.ofLength place.offset (Text.byteLength place.rest)

theorem length_takeWhile (property : Char → Bool) (place : Cursor) :
    (place.takeWhile property).1.length + (place.takeWhile property).2.rest.length =
      place.rest.length := by
  have bound : (place.rest.takeWhile property).length ≤ place.rest.length :=
    (List.takeWhile_sublist property).length_le
  simp only [takeWhile, past, List.length_drop]
  omega

theorem length_skipBlank (place : Cursor) : place.skipBlank.rest.length ≤ place.rest.length := by
  have total := length_takeWhile Text.isBlank place
  simp only [skipBlank]
  omega

theorem length_after {word : List Char} {place next : Cursor}
    (found : place.after? word = some next) :
    next.rest.length = place.rest.length - word.length := by
  simp only [after?] at found
  split at found
  · obtain rfl := Option.some.inj found
    simp [past]
  · simp at found

end Cursor

def isNameStart (c : Char) : Bool := c.isAlpha || c == '_'

def isNameChar (c : Char) : Bool := c.isAlphanum || c == '_'

def isName : List Char → Bool
  | [] => false
  | c :: rest => isNameStart c && rest.all isNameChar

def isQuote (c : Char) : Bool := c == '\'' || c == '"'

def isWordChar (c : Char) : Bool := !(Text.isBlank c || c == '|' || isQuote c)

def readName (place : Cursor) : Except Problem (List Char × Cursor) :=
  match place.rest with
  | c :: _ =>
      if isNameStart c then .ok (place.takeWhile isNameChar)
      else .error (.illegalName, Span.point place.offset)
  | [] => .error (.illegalName, Span.point place.offset)

structure Word where
  text : List Char
  span : Span
  quoted : Bool
  after : Cursor

def bareWord (place : Cursor) : Word where
  text := (place.takeWhile isWordChar).1
  span := Span.ofLength place.offset (Text.byteLength (place.takeWhile isWordChar).1)
  quoted := false
  after := (place.takeWhile isWordChar).2

/-- The character between two quotation marks; `content` comes after the first. -/
def quotedWord (mark : Char) (place content : Cursor) : Except Problem Word :=
  let inner := content.takeWhile (· != mark)
  match inner.2.rest with
  | [] => .error (.illegalString, place.remainder)
  | closing :: rest =>
      if inner.1.length = 1 then
        .ok ⟨inner.1, Span.ofLength content.offset (Text.byteLength inner.1), true,
          inner.2.past [closing] rest⟩
      else .error (.illegalString, Span.ofLength place.offset (Text.byteLength inner.1 + 2))

def readWord (place : Cursor) : Except Problem Word :=
  match place.rest with
  | [] => .ok (bareWord place)
  | c :: rest =>
      if isQuote c then quotedWord c place (place.past [c] rest) else .ok (bareWord place)

theorem length_bareWord (place : Cursor) :
    (bareWord place).text.length + (bareWord place).after.rest.length = place.rest.length :=
  Cursor.length_takeWhile isWordChar place

theorem length_quotedWord {mark : Char} {place content : Cursor} {word : Word}
    (read : quotedWord mark place content = .ok word) :
    word.quoted = true ∧ word.text.length = 1 ∧
      word.text.length + word.after.rest.length ≤ content.rest.length := by
  have total := Cursor.length_takeWhile (· != mark) content
  unfold quotedWord at read
  simp only at read
  split at read
  · simp at read
  · rename_i closing rest ending
    split at read
    · rename_i single
      obtain rfl := Except.ok.inj read
      rw [ending, List.length_cons] at total
      refine ⟨rfl, single, ?_⟩
      simp only [Cursor.past]
      omega
    · simp at read

theorem length_readWord {place : Cursor} {word : Word} (read : readWord place = .ok word) :
    word.text.length + word.after.rest.length ≤ place.rest.length := by
  unfold readWord at read
  split at read
  · obtain rfl := Except.ok.inj read
    exact Nat.le_of_eq (length_bareWord place)
  · rename_i c rest content
    split at read
    · have bound := (length_quotedWord read).2.2
      simp only [Cursor.past] at bound
      rw [content, List.length_cons]
      omega
    · obtain rfl := Except.ok.inj read
      exact Nat.le_of_eq (length_bareWord place)

theorem length_of_quoted {place : Cursor} {word : Word} (read : readWord place = .ok word)
    (quoted : word.quoted = true) : word.text.length = 1 := by
  unfold readWord at read
  split at read
  · obtain rfl := Except.ok.inj read
    simp [bareWord] at quoted
  · split at read
    · exact (length_quotedWord read).2.1
    · obtain rfl := Except.ok.inj read
      simp [bareWord] at quoted

def readPrecedence (clause : Nat) (place : Cursor) : Except Problem Word :=
  let next := place.skipBlank
  if next.offset = place.offset ∧ place.rest ≠ [] then .error (.illegalName, Span.point clause)
  else
    match readWord next with
    | .ok word =>
        if word.text = [] then .error (.precNotFollowedByToken, Span.point next.offset)
        else .ok word
    | .error _ => .error (.precNotFollowedByToken, Span.point next.offset)

theorem length_readPrecedence {clause : Nat} {place : Cursor} {word : Word}
    (read : readPrecedence clause place = .ok word) :
    word.after.rest.length ≤ place.rest.length := by
  have blank_bound := Cursor.length_skipBlank place
  unfold readPrecedence at read
  simp only at read
  split at read
  · simp at read
  · split at read
    · rename_i found same
      split at read
      · simp at read
      · obtain rfl := Except.ok.inj read
        have word_bound := length_readWord same
        omega
    · simp at read

def symbolOf (terminals : List String) (word : Word) : Except Problem NamedSymbol :=
  let name := String.ofList word.text
  if word.quoted then .ok (.token name word.span)
  else if isName word.text then
    .ok (if terminals.contains name then .token name word.span else .rule name word.span)
  else .error (.illegalName, word.span)

theorem length_pos_of_symbolOf {terminals : List String} {place : Cursor} {word : Word}
    {symbol : NamedSymbol} (read : readWord place = .ok word)
    (stands : symbolOf terminals word = .ok symbol) : 0 < word.text.length := by
  unfold symbolOf at stands
  simp only at stands
  split at stands
  · rename_i quoted
    have single := length_of_quoted read quoted
    omega
  · split at stands
    · rename_i named
      cases shape : word.text with
      | nil => simp [isName, shape] at named
      | cons c rest => simp
    · simp at stands

/-- Reads the alternatives from `place` on, where no blank stands: `done` are complete, and
`current` has been begun. -/
def readAlternatives (terminals : List String) (done : List Alternative) (current : Alternative)
    (place : Cursor) : Except Problem (List Alternative) :=
  match _ends : place.rest with
  | [] => .ok (done ++ [current])
  | c :: rest =>
      if c = '|' then
        readAlternatives terminals (done ++ [current]) {} (place.past [c] rest).skipBlank
      else if current.precedence.isSome then
        .error (.precNotLast, Span.point place.offset)
      else
        match _clause : place.after? ['%', 'p', 'r', 'e', 'c'] with
        | some afterKey =>
            match _read : readPrecedence place.offset afterKey with
            | .error problem => .error problem
            | .ok word =>
                readAlternatives terminals done
                  { current with precedence := some (String.ofList word.text, word.span) }
                  word.after.skipBlank
        | none =>
            match _read : readWord place with
            | .error problem => .error problem
            | .ok word =>
                match _stands : symbolOf terminals word with
                | .error problem => .error problem
                | .ok symbol =>
                    readAlternatives terminals done
                      { current with symbols := current.symbols ++ [symbol] }
                      word.after.skipBlank
termination_by place.rest.length
decreasing_by
  · have blank_bound := Cursor.length_skipBlank (place.past [c] rest)
    simp only [Cursor.past] at blank_bound ⊢
    rw [_ends, List.length_cons]
    omega
  · have blank_bound := Cursor.length_skipBlank word.after
    have clause_bound := length_readPrecedence _read
    have key_bound := Cursor.length_after _clause
    simp only [List.length_cons, List.length_nil] at key_bound
    rw [_ends, List.length_cons] at key_bound ⊢
    omega
  · have blank_bound := Cursor.length_skipBlank word.after
    have word_bound := length_readWord _read
    have positive := length_pos_of_symbolOf _read _stands
    rw [_ends, List.length_cons] at word_bound ⊢
    omega

def parse (terminals : List String) (text : List Char) : Except Problem RuleText :=
  let start := (Cursor.mk 0 text).skipBlank
  match readName start with
  | .error problem => .error problem
  | .ok (nameText, afterName) =>
      let name := String.ofList nameText
      let span := Span.ofLength start.offset (Text.byteLength nameText)
      if terminals.contains name then .error (.tokenAsRule name, span)
      else
        let colon := afterName.skipBlank
        match colon.after? [':'] with
        | none => .error (.missingColon, Span.point colon.offset)
        | some body =>
            match readAlternatives terminals [] {} body.skipBlank with
            | .error problem => .error problem
            | .ok alternatives => .ok ⟨name, span, alternatives⟩

end RuleText

end SlrKit
