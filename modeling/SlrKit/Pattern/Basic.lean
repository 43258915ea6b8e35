import SlrKit.Pattern.CharSet

/-!
# Patterns

A pattern is a regular expression with a preference: of the texts that it matches at a place,
one is preferred. An alternation prefers its left side, a greedy repetition prefers to go on,
and a lazy one prefers to stop.
-/

set_option autoImplicit false

namespace SlrKit

inductive Look where
  | textStart
  | textEnd
  | lineStart
  | lineEnd
  | wordBoundary
  | insideWord
  | wordStart
  | wordEnd
deriving DecidableEq

def Look.isWord (c : Option Char) : Bool := c.any CharSet.wordCharacters.contains

def Look.holds (look : Look) (before after : Option Char) : Bool :=
  match look with
  | .textStart => before.isNone
  | .textEnd => after.isNone
  | .lineStart => before.isNone || before == some '\n'
  | .lineEnd => after.isNone || after == some '\n'
  | .wordBoundary => isWord before != isWord after
  | .insideWord => isWord before == isWord after
  | .wordStart => !isWord before && isWord after
  | .wordEnd => isWord before && !isWord after

inductive Pattern where
  | empty
  | chars (set : CharSet)
  | look (condition : Look)
  | cat (first second : Pattern)
  /-- One of two patterns, the left one for choice. -/
  | alt (left right : Pattern)
  | group (number : Nat) (body : Pattern)
  | repeated (least : Nat) (most : Option Nat) (greedy : Bool) (body : Pattern)
deriving DecidableEq

namespace Pattern

/-- How many bytes a match has at least. A pattern that needs a character of an empty set has
no such number, and neither has an alternation with a side without one. -/
def leastLength? : Pattern → Option Nat
  | empty => some 0
  | chars set => set.shortest?
  | look _ => some 0
  | cat first second =>
      match first.leastLength?, second.leastLength? with
      | some left, some right => some (left + right)
      | _, _ => none
  | alt left right =>
      match left.leastLength?, right.leastLength? with
      | some ofLeft, some ofRight => some (min ofLeft ofRight)
      | _, _ => none
  | group _ body => body.leastLength?
  | repeated least most _ body =>
      if most = some 0 then some 0 else body.leastLength?.map (least * ·)

/-- The largest number of a group that can take part in a match; the groups of a pattern that
is repeated at most zero times cannot. -/
def lastGroup : Pattern → Nat
  | empty | chars _ | look _ => 0
  | cat first second => max first.lastGroup second.lastGroup
  | alt left right => max left.lastGroup right.lastGroup
  | group number body => max number body.lastGroup
  | repeated _ most _ body => if most = some 0 then 0 else body.lastGroup

/-- How many times the parts of a pattern are written out when it is run. -/
def weight : Pattern → Nat
  | empty => 0
  | chars _ | look _ => 1
  | cat first second => first.weight + second.weight
  | alt left right => left.weight + right.weight + 1
  | group _ body => body.weight + 1
  | repeated least most _ body => (max least (most.getD 0) + 1) * (body.weight + 1)

def sequence : List Pattern → Pattern
  | [] => empty
  | [last] => last
  | first :: rest => cat first (sequence rest)

def severalChars? : Pattern → Option CharSet
  | chars set => if set.isSingleton then none else some set
  | _ => none

def alternatives : List Pattern → Pattern
  | [] => empty
  | [last] => last
  | first :: rest => alt first (alternatives rest)

/-- One of several patterns, the first that matches for choice. Sets of several characters
together are one set. -/
def choice (branches : List Pattern) : Pattern :=
  match branches, branches.mapM severalChars? with
  | _ :: _ :: _, some sets => chars (sets.foldl CharSet.union CharSet.empty)
  | _, _ => alternatives branches

end Pattern

end SlrKit
