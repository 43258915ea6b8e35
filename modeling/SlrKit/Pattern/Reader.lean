import SlrKit.Pattern.Basic

/-!
# The notation of patterns

Reads a pattern from its text: characters, classes in brackets, escapes, groups, flags,
repetitions and alternatives. Text that is not a pattern gives `none`; nothing is said about
why.
-/

set_option autoImplicit false

namespace SlrKit

namespace Pattern

structure Flags where
  ignoreCase : Bool := false
  multiLine : Bool := false
  dotAll : Bool := false
  swapGreed : Bool := false
  extended : Bool := false
deriving DecidableEq

/-- The text without what is ignored in front of it: with `extended`, blanks and comments, where
`inComment` tells whether the text begins inside a comment. -/
def skipIgnored (extended : Bool) : Bool → List Char → List Char
  | _, [] => []
  | true, c :: rest => skipIgnored extended (c != '\n') rest
  | false, c :: rest =>
      if extended && Text.isBlank c then skipIgnored extended false rest
      else if extended && c == '#' then skipIgnored extended true rest
      else c :: rest

namespace Flags

def skip (flags : Flags) (text : List Char) : List Char := skipIgnored flags.extended false text

def skip? (flags : Flags) (text : List Char) : Option (List Char) :=
  match flags.skip text with
  | [] => none
  | rest => some rest

def fold (flags : Flags) (set : CharSet) : CharSet :=
  if flags.ignoreCase then set.ignoringCase else set

def change? (flags : Flags) (letter : Char) (value : Bool) : Option Flags :=
  match letter with
  | 'i' => some { flags with ignoreCase := value }
  | 'm' => some { flags with multiLine := value }
  | 's' => some { flags with dotAll := value }
  | 'U' => some { flags with swapGreed := value }
  | 'x' => some { flags with extended := value }
  | 'u' => if value then some flags else none
  | _ => none

end Flags

/-! ## Escapes and characters -/

inductive Atom where
  | char (c : Char)
  | set (members : CharSet)
  | look (condition : Look)

def hexValue? (c : Char) : Option Nat :=
  if c.isDigit then some (c.toNat - '0'.toNat)
  else if 'a' ≤ c ∧ c ≤ 'f' then some (c.toNat - 'a'.toNat + 10)
  else if 'A' ≤ c ∧ c ≤ 'F' then some (c.toNat - 'A'.toNat + 10)
  else none

def charOf? (code : Nat) : Option Char := if code.isValidChar then some (Char.ofNat code) else none

def readHexDigits (flags : Flags) : Nat → Nat → List Char → Option (Atom × List Char)
  | 0, value, text => (charOf? value).map fun c => (.char c, text)
  | count + 1, value, text =>
      match flags.skip text with
      | [] => none
      | c :: rest => (hexValue? c).bind fun digit =>
          readHexDigits flags count (value * 16 + digit) rest

def readHexBraces (flags : Flags) : Nat → Option Nat → List Char → Option (Atom × List Char)
  | 0, _, _ => none
  | fuel + 1, value, text =>
      match flags.skip text with
      | [] => none
      | '\x7d' :: rest => value.bind fun code => (charOf? code).map fun c => (.char c, rest)
      | c :: rest => (hexValue? c).bind fun digit =>
          readHexBraces flags fuel (some (value.getD 0 * 16 + digit)) rest

def readHex (flags : Flags) (count : Nat) (text : List Char) : Option (Atom × List Char) :=
  match flags.skip text with
  | '\x7b' :: rest => readHexBraces flags (rest.length + 1) none rest
  | rest => readHexDigits flags count 0 rest

def readEscape (flags : Flags) : List Char → Option (Atom × List Char)
  | [] => none
  | c :: rest =>
      match c with
      | 'd' => some (.set CharSet.digits, rest)
      | 'D' => some (.set CharSet.digits.complement, rest)
      | 's' => some (.set CharSet.blanks, rest)
      | 'S' => some (.set CharSet.blanks.complement, rest)
      | 'w' => some (.set CharSet.wordCharacters, rest)
      | 'W' => some (.set CharSet.wordCharacters.complement, rest)
      | 'x' => readHex flags 2 rest
      | 'u' => readHex flags 4 rest
      | 'U' => readHex flags 8 rest
      | 'a' => some (.char '\x07', rest)
      | 'f' => some (.char '\x0c', rest)
      | 't' => some (.char '\t', rest)
      | 'n' => some (.char '\n', rest)
      | 'r' => some (.char '\r', rest)
      | 'v' => some (.char '\x0b', rest)
      | 'A' => some (.look .textStart, rest)
      | 'z' => some (.look .textEnd, rest)
      | 'b' => some (.look .wordBoundary, rest)
      | 'B' => some (.look .insideWord, rest)
      | '<' => some (.look .wordStart, rest)
      | '>' => some (.look .wordEnd, rest)
      | _ => if c.toNat < 128 ∧ ¬ c.isAlphanum then some (.char c, rest) else none

/-! ## Classes in brackets -/

inductive SetOperator where
  | intersection
  | difference
  | symmetricDifference

def SetOperator.apply : SetOperator → CharSet → CharSet → CharSet
  | intersection => CharSet.intersection
  | difference => CharSet.difference
  | symmetricDifference => CharSet.symmetricDifference

structure OpenClass where
  negated : Bool
  /-- The left side of an operator whose right side is being read. -/
  pending : Option (SetOperator × CharSet) := none
  items : CharSet := .empty

namespace OpenClass

def add (cls : OpenClass) (set : CharSet) : OpenClass := { cls with items := cls.items.union set }

def value (flags : Flags) (cls : OpenClass) : CharSet :=
  match cls.pending with
  | none => cls.items
  | some (operator, left) => operator.apply (flags.fold left) (flags.fold cls.items)

def operate (flags : Flags) (cls : OpenClass) (operator : SetOperator) : OpenClass :=
  { cls with pending := some (operator, cls.value flags), items := .empty }

def close (flags : Flags) (cls : OpenClass) : CharSet :=
  let set := flags.fold (cls.value flags)
  if cls.negated then set.complement else set

end OpenClass

def readHyphens (flags : Flags) : Nat → OpenClass → List Char → Option (OpenClass × List Char)
  | fuel + 1, cls, '-' :: rest =>
      (flags.skip? rest).bind fun text => readHyphens flags fuel (cls.add (.singleton '-')) text
  | _, cls, text => some (cls, text)

/-- Begins a class; the text comes after its bracket. A closing bracket in first place stands
for itself. -/
def openClass (flags : Flags) (text : List Char) : Option (OpenClass × List Char) := do
  let first ← flags.skip? text
  let (negated, body) ← match first with
    | '^' :: rest => (flags.skip? rest).map fun body => (true, body)
    | body => some (false, body)
  let (cls, rest) ← readHyphens flags body.length { negated } body
  match rest with
  | ']' :: after =>
      if cls.items.isEmpty then
        (flags.skip? after).map fun body => (cls.add (.singleton ']'), body)
      else some (cls, rest)
  | _ => some (cls, rest)

def readNamedClass (flags : Flags) : List Char → Option (CharSet × List Char)
  | ':' :: text =>
      let (negated, body) := match text with
        | '^' :: rest => (true, rest)
        | _ => (false, text)
      let name := body.takeWhile (· != ':')
      match body.drop name.length, CharSet.named? name with
      | ':' :: ']' :: after, some set =>
          let folded := flags.fold set
          some (if negated then folded.complement else folded, after)
      | _, _ => none
  | _ => none

def readClassItem (flags : Flags) : List Char → Option (Atom × List Char)
  | [] => none
  | '\\' :: rest => readEscape flags rest
  | c :: rest => some (.char c, rest)

def Atom.asSet? : Atom → Option CharSet
  | .char c => some (.singleton c)
  | .set members => some members
  | .look _ => none

def readClassRange (flags : Flags) (text : List Char) : Option (CharSet × List Char) := do
  let (first, afterFirst) ← readClassItem flags text
  let rest ← flags.skip? afterFirst
  let single := first.asSet?.map fun set => (set, rest)
  match rest with
  | '-' :: afterHyphen =>
      match flags.skip afterHyphen with
      | [] => none
      | ']' :: _ => single
      | '-' :: _ => single
      | body => do
          let (second, after) ← readClassItem flags body
          match first, second with
          | .char low, .char high =>
              if low ≤ high then some (.ofRanges [(low.toNat, high.toNat)], after) else none
          | _, _ => none
  | _ => single

/-- Reads the rest of a class; `outer` are the classes around the present one, innermost
first. -/
def readClass (flags : Flags) : Nat → OpenClass → List OpenClass → List Char →
    Option (CharSet × List Char)
  | 0, _, _, _ => none
  | fuel + 1, cls, outer, text =>
      match flags.skip text with
      | [] => none
      | '[' :: rest =>
          match readNamedClass flags rest with
          | some (set, after) => readClass flags fuel (cls.add set) outer after
          | none => (openClass flags rest).bind fun (inner, after) =>
              readClass flags fuel inner (cls :: outer) after
      | ']' :: rest =>
          match outer with
          | [] => some (cls.close flags, rest)
          | enclosing :: others =>
              readClass flags fuel (enclosing.add (cls.close flags)) others rest
      | '&' :: '&' :: rest => readClass flags fuel (cls.operate flags .intersection) outer rest
      | '-' :: '-' :: rest => readClass flags fuel (cls.operate flags .difference) outer rest
      | '~' :: '~' :: rest =>
          readClass flags fuel (cls.operate flags .symmetricDifference) outer rest
      | body => (readClassRange flags body).bind fun (set, after) =>
          readClass flags fuel (cls.add set) outer after

/-! ## Groups and repetitions -/

/-- A part of a row: a pattern, or a change of flags, which cannot be repeated. -/
inductive Piece where
  | part (pattern : Pattern)
  | setting

/-- A group that has been begun: what stands before it, and the flags to return to. -/
structure OpenGroup where
  number : Option Nat
  flags : Flags
  branches : List Pattern
  row : List Piece

/-- How far the reading of a pattern has come. Lists have their newest element in front. -/
structure Reader where
  flags : Flags := {}
  branches : List Pattern := []
  row : List Piece := []
  outer : List OpenGroup := []
  groups : Nat := 0
  names : List (List Char) := []

namespace Reader

def rowPattern (reader : Reader) : Pattern :=
  sequence (reader.row.reverse.filterMap fun
    | .part pattern => some pattern
    | .setting => none)

def body (reader : Reader) : Pattern := choice (reader.rowPattern :: reader.branches).reverse

def add (reader : Reader) (pattern : Pattern) : Reader :=
  { reader with row := .part pattern :: reader.row }

def addAtom (reader : Reader) : Atom → Reader
  | .char c => reader.add (.chars (reader.flags.fold (.singleton c)))
  | .set members => reader.add (.chars members)
  | .look condition => reader.add (.look condition)

def nextBranch (reader : Reader) : Reader :=
  { reader with branches := reader.rowPattern :: reader.branches, row := [] }

def enter (reader : Reader) (number : Option Nat) (flags : Flags) : Reader :=
  { reader with
    flags
    branches := []
    row := []
    outer := ⟨number, reader.flags, reader.branches, reader.row⟩ :: reader.outer }

def enterNumbered (reader : Reader) : Reader :=
  { reader.enter (some (reader.groups + 1)) reader.flags with groups := reader.groups + 1 }

def leave? (reader : Reader) : Option Reader :=
  match reader.outer with
  | [] => none
  | enclosing :: outer =>
      let pattern := match enclosing.number with
        | some number => .group number reader.body
        | none => reader.body
      some { reader with
        flags := enclosing.flags
        branches := enclosing.branches
        row := .part pattern :: enclosing.row
        outer }

def repeatLast? (reader : Reader) (least : Nat) (most : Option Nat) (lazy : Bool) :
    Option Reader :=
  match reader.row with
  | .part pattern :: earlier =>
      some { reader with
        row := .part (.repeated least most (lazy == reader.flags.swapGreed) pattern) :: earlier }
  | _ => none

end Reader

/-- Reads letters of flags up to a colon or a parenthesis, which is returned. A letter, or the
sign that makes the rest clear flags, cannot come twice, and the sign not last. -/
def readFlags (flags : Flags) (value : Bool) (seen : List Char) :
    List Char → Option (Flags × List Char × Char × List Char)
  | [] => none
  | c :: rest =>
      if c = ':' ∨ c = ')' then
        if seen.head? = some '-' then none else some (flags, seen, c, rest)
      else if seen.contains c then none
      else if c = '-' then readFlags flags false ('-' :: seen) rest
      else (flags.change? c value).bind fun changed => readFlags changed value (c :: seen) rest

def isGroupNameChar (isFirst : Bool) (c : Char) : Bool :=
  let isWord := CharSet.wordCharacters.contains c
  if isFirst then c == '_' || (isWord && !CharSet.digits.contains c)
  else isWord || c == '.' || c == '[' || c == ']'

def readGroupName (reader : Reader) (text : List Char) : Option (Reader × List Char) :=
  let name := text.takeWhile (· != '>')
  match text.drop name.length, name with
  | _ :: rest, first :: others =>
      if isGroupNameChar true first ∧ others.all (isGroupNameChar false) ∧
          ¬ reader.names.contains name then
        some ({ reader.enterNumbered with names := name :: reader.names }, rest)
      else none
  | _, _ => none

def readGroup (reader : Reader) (text : List Char) : Option (Reader × List Char) :=
  match reader.flags.skip text with
  | '?' :: 'P' :: '<' :: rest => readGroupName reader rest
  | '?' :: '<' :: rest => readGroupName reader rest
  | '?' :: rest =>
      (readFlags reader.flags true [] rest).bind fun (flags, seen, closing, after) =>
        if closing = ':' then some (reader.enter none flags, after)
        else if seen = [] then none
        else some ({ reader with flags, row := .setting :: reader.row }, after)
  | rest => some (reader.enterNumbered, rest)

/-- The numbers of repetitions have 32 bits. -/
def countLimit : Nat := 4294967296

def readNumber (flags : Flags) : Nat → Option Nat → List Char → Option (Nat × List Char)
  | 0, _, _ => none
  | fuel + 1, value, text =>
      match text with
      | [] => none
      | c :: rest =>
          if c.isDigit then
            readNumber flags fuel (some (value.getD 0 * 10 + (c.toNat - '0'.toNat)))
              (flags.skip rest)
          else value.bind fun number =>
            if number < countLimit then some (number, flags.skip (Text.skipBlank text)) else none

def readCount (flags : Flags) (text : List Char) : Option (Nat × List Char) :=
  readNumber flags (text.length + 1) none (Text.skipBlank text)

def readCounted (reader : Reader) (text : List Char) : Option (Reader × List Char) := do
  let flags := reader.flags
  let (least, afterLeast) ← (flags.skip? text).bind (readCount flags)
  let (most, closing) ← match afterLeast with
    | ',' :: rest =>
        match flags.skip rest with
        | [] => none
        | '\x7d' :: after => some (none, '\x7d' :: after)
        | body => (readCount flags body).map fun (most, after) => (some most, after)
    | rest => some (some least, rest)
  match closing with
  | '\x7d' :: after =>
      if most.any (· < least) then none
      else
        match flags.skip after with
        | '?' :: rest => (reader.repeatLast? least most true).map fun next => (next, rest)
        | rest => (reader.repeatLast? least most false).map fun next => (next, rest)
  | _ => none

def readRepetition (reader : Reader) (least : Nat) (most : Option Nat) (text : List Char) :
    Option (Reader × List Char) :=
  match text with
  | '?' :: rest => (reader.repeatLast? least most true).map fun next => (next, rest)
  | rest => (reader.repeatLast? least most false).map fun next => (next, rest)

def readPart (reader : Reader) (c : Char) (rest : List Char) : Option (Reader × List Char) :=
  let flags := reader.flags
  match c with
  | '(' => readGroup reader rest
  | ')' => reader.leave?.map fun next => (next, rest)
  | '|' => some (reader.nextBranch, rest)
  | '[' => (openClass flags rest).bind fun (cls, body) =>
      (readClass flags (rest.length + 1) cls [] body).map fun (set, after) =>
        (reader.add (.chars set), after)
  | '?' => readRepetition reader 0 (some 1) rest
  | '*' => readRepetition reader 0 none rest
  | '+' => readRepetition reader 1 none rest
  | '\x7b' => readCounted reader rest
  | '\\' => (readEscape flags rest).map fun (atom, after) => (reader.addAtom atom, after)
  | '.' => some (reader.add (.chars (if flags.dotAll then .all else .inLine)), rest)
  | '^' => some (reader.add (.look (if flags.multiLine then .lineStart else .textStart)), rest)
  | '$' => some (reader.add (.look (if flags.multiLine then .lineEnd else .textEnd)), rest)
  | _ => some (reader.addAtom (.char c), rest)

def readAll : Nat → Reader → List Char → Option Reader
  | 0, _, _ => none
  | fuel + 1, reader, text =>
      match reader.flags.skip text with
      | [] => if reader.outer.isEmpty then some reader else none
      | c :: rest => (readPart reader c rest).bind fun (next, after) => readAll fuel next after

structure Reading where
  pattern : Pattern
  groups : Nat
  names : List (List Char)

def read? (text : List Char) : Option Reading :=
  (readAll (text.length + 1) {} text).map fun reader =>
    { pattern := reader.body, groups := reader.groups, names := reader.names }

end Pattern

end SlrKit
