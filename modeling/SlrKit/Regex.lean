import SlrKit.Text.Bytes

/-!
# Regular expressions

A lexer leaves it to a library of regular expressions to read its patterns and to look for matches.
What it asks of the library is gathered here; which library that is stays open.
-/

set_option autoImplicit false

namespace SlrKit

namespace Regex

/-- The preferred match of a pattern at a place. -/
structure Match where
  /-- How many bytes it has. -/
  size : Nat
  /-- Whether a group took part in it. The group 0 is the whole match. -/
  hasGroup : Nat → Bool

/-- Looks for a match that begins at a place in a text. It is given the characters before the
place, the last one first, and those from the place on. -/
abbrev Searcher : Type := List Char → List Char → Option Match

structure Library where
  /-- How many groups a pattern has, the whole match included, or why it is none. -/
  groupCount : String → Except String Nat
  /-- How many bytes a match has at least; a pattern can have no such number. -/
  leastSize : String → Except String (Option Nat)
  compile : String → Except String Searcher

/-- The text of a pattern that matches at the beginning of a text only. -/
def anchored (pattern : String) : String := "\\A(?:" ++ pattern ++ ")"

/-- The text of the choice between patterns, each of which is in a group. -/
def choiceOf (patterns : List String) : String :=
  "(?:" ++ "|".intercalate (patterns.map fun pattern => "(" ++ pattern ++ ")") ++ ")"

end Regex

end SlrKit
