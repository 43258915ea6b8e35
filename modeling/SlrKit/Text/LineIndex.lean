import SlrKit.Fault
import SlrKit.Text.Bytes

/-!
# Lines and columns of byte offsets

A line index remembers where the lines of a text start. It is fed the text in pieces of any
size and answers with lines and columns counted from 1; columns count characters, and a
carriage return right before a line feed takes no column of its own.
-/

set_option autoImplicit false

namespace SlrKit

structure LineIndex where
  lastStart : Nat := 0
  earlierStarts : List Nat := []
  /-- How many bytes the last line has so far. -/
  trailing : Nat := 0
deriving DecidableEq

namespace LineIndex

def length (index : LineIndex) : Nat := index.lastStart + index.trailing

def starts (index : LineIndex) : List Nat := index.lastStart :: index.earlierStarts

def lineCount (index : LineIndex) : Nat := index.starts.length

def push (index : LineIndex) (c : Char) : LineIndex :=
  if c = '\n' then ⟨index.length + 1, index.starts, 0⟩
  else { index with trailing := index.trailing + c.utf8Size }

def feed (index : LineIndex) (piece : List Char) : LineIndex :=
  piece.foldl push index

def ofText (text : List Char) : LineIndex := feed {} text

theorem feed_append (index : LineIndex) (front back : List Char) :
    index.feed (front ++ back) = (index.feed front).feed back := by
  simp [feed]

def line? (index : LineIndex) (byte : Nat) : Option Nat :=
  if index.length < byte then none
  else some (index.starts.countP (· ≤ byte))

def lineStart (index : LineIndex) (byte : Nat) : Nat :=
  (index.starts.find? (· ≤ byte)).getD 0

def nextStart? (index : LineIndex) (byte : Nat) : Option Nat :=
  (index.starts.takeWhile (byte < ·)).getLast?

/-- Walks along a line that is at byte `offset` in column `column` until it meets `target`.
The flag tells whether the character before was a carriage return. -/
def walk (target : Nat) : Nat → Nat → Bool → List Char → Nat × Bool
  | _, column, afterReturn, [] => (column, afterReturn)
  | offset, column, afterReturn, c :: rest =>
      if offset = target then (column, afterReturn)
      else
        walk target (offset + c.utf8Size)
          (if afterReturn && c == '\n' then column else column + 1) (c == '\r') rest

/-- The line and column of `byte` in `text`, which must be the text that was fed: `none` if
`byte` lies beyond it or its length is not that of the text fed. -/
def position (index : LineIndex) (text : List Char) (byte : Nat) :
    Except Fault (Option (Nat × Nat)) :=
  match index.line? byte with
  | none => .ok none
  | some line =>
      if Text.byteLength text ≠ index.length then .ok none
      else
        let start := index.lineStart byte
        match Text.dropBytes? start text with
        | none => .error .brokenOffset
        | some fromStart =>
            let (column, afterReturn) := walk byte start 1 false fromStart
            if start < byte && afterReturn then
              match Text.dropBytes? byte text with
              | none => .error .brokenOffset
              | some ('\n' :: _) => .ok (some (line, column - 1))
              | some _ => .ok (some (line, column))
            else .ok (some (line, column))

def trimReturns (line : List Char) : List Char :=
  (line.reverse.dropWhile (· == '\r')).reverse

/-- The text of the line that `byte` lies on, without its end; `none` beyond the text fed. -/
def lineText (index : LineIndex) (text : List Char) (byte : Nat) :
    Except Fault (Option (List Char)) :=
  match index.line? byte with
  | none => .ok none
  | some _ =>
      let stop := match index.nextStart? byte with
        | some next => next - 1
        | none => Text.byteLength text
      match Text.slice? (index.lineStart byte) stop text with
      | none => .error .brokenOffset
      | some line => .ok (some (trimReturns line))

end LineIndex

end SlrKit
