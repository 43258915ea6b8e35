import SlrKit.Pattern.CaseFold
import SlrKit.Pattern.WordCharacter
import SlrKit.Text.Blank

/-!
# Sets of characters

A set of characters is a list of disjoint ranges of code points in ascending order. The code
points reserved for surrogate pairs are no characters and belong to no set.
-/

set_option autoImplicit false

namespace SlrKit

/-- A set of characters, as ascending ranges with both ends included. -/
structure CharSet where
  ranges : List (Nat × Nat)
deriving DecidableEq

namespace CharSet

def lastCode : Nat := 0x10FFFF

def withoutSurrogates (range : Nat × Nat) : List (Nat × Nat) :=
  (if range.1 < 0xD800 then [(range.1, min range.2 0xD7FF)] else []) ++
  (if 0xDFFF < range.2 then [(max range.1 0xE000, range.2)] else [])

/-- Joins the range from `first` to `last` with those of the ascending ranges after it that it
touches. -/
def joinRanges (first last : Nat) : List (Nat × Nat) → List (Nat × Nat)
  | [] => [(first, last)]
  | (start, stop) :: rest =>
      if start ≤ last + 1 then joinRanges first (max last stop) rest
      else (first, last) :: joinRanges start stop rest

def ofRanges (ranges : List (Nat × Nat)) : CharSet :=
  match (ranges.flatMap withoutSurrogates).mergeSort (fun left right => left.1 ≤ right.1) with
  | [] => ⟨[]⟩
  | (first, last) :: rest => ⟨joinRanges first last rest⟩

def empty : CharSet := ⟨[]⟩

def singleton (c : Char) : CharSet := ⟨[(c.toNat, c.toNat)]⟩

def union (left right : CharSet) : CharSet := ofRanges (left.ranges ++ right.ranges)

/-- The code points from `next` on that lie between the given ascending ranges. -/
def gaps (next : Nat) : List (Nat × Nat) → List (Nat × Nat)
  | [] => if next ≤ lastCode then [(next, lastCode)] else []
  | (start, stop) :: rest =>
      if next < start then (next, start - 1) :: gaps (stop + 1) rest else gaps (stop + 1) rest

def complement (set : CharSet) : CharSet := ofRanges (gaps 0 set.ranges)

def intersection (left right : CharSet) : CharSet :=
  (left.complement.union right.complement).complement

def difference (left right : CharSet) : CharSet := left.intersection right.complement

def symmetricDifference (left right : CharSet) : CharSet :=
  (left.difference right).union (right.difference left)

def containsCode (set : CharSet) (code : Nat) : Bool :=
  set.ranges.any fun range => range.1 ≤ code && code ≤ range.2

def contains (set : CharSet) (c : Char) : Bool := set.containsCode c.toNat

def isEmpty (set : CharSet) : Bool := set.ranges.isEmpty

def isSingleton (set : CharSet) : Bool :=
  match set.ranges with
  | [(first, last)] => first == last
  | _ => false

def shortest? (set : CharSet) : Option Nat :=
  set.ranges.head?.map fun range => (Char.ofNat range.1).utf8Size

def ignoringCase (set : CharSet) : CharSet :=
  let folded := set.union (ofRanges (Pattern.foldPairs.filterMap fun (letter, target) =>
    if set.containsCode letter then some (target, target) else none))
  folded.union (ofRanges (Pattern.foldPairs.filterMap fun (letter, target) =>
    if folded.containsCode target then some (letter, letter) else none))

def digits : CharSet := ⟨Pattern.digitRanges⟩

def blanks : CharSet := ⟨Text.blankRanges⟩

def wordCharacters : CharSet := ⟨Pattern.wordRanges⟩

def all : CharSet := empty.complement

def inLine : CharSet := (singleton '\n').complement

/-- The ranges of the classes that have names. -/
def namedRanges : List (List Char × List (Nat × Nat)) := [
  (['a', 'l', 'n', 'u', 'm'], [(0x30, 0x39), (0x41, 0x5A), (0x61, 0x7A)]),
  (['a', 'l', 'p', 'h', 'a'], [(0x41, 0x5A), (0x61, 0x7A)]),
  (['a', 's', 'c', 'i', 'i'], [(0x0, 0x7F)]),
  (['b', 'l', 'a', 'n', 'k'], [(0x9, 0x9), (0x20, 0x20)]),
  (['c', 'n', 't', 'r', 'l'], [(0x0, 0x1F), (0x7F, 0x7F)]),
  (['d', 'i', 'g', 'i', 't'], [(0x30, 0x39)]),
  (['g', 'r', 'a', 'p', 'h'], [(0x21, 0x7E)]),
  (['l', 'o', 'w', 'e', 'r'], [(0x61, 0x7A)]),
  (['p', 'r', 'i', 'n', 't'], [(0x20, 0x7E)]),
  (['p', 'u', 'n', 'c', 't'], [(0x21, 0x2F), (0x3A, 0x40), (0x5B, 0x60), (0x7B, 0x7E)]),
  (['s', 'p', 'a', 'c', 'e'], [(0x9, 0xD), (0x20, 0x20)]),
  (['u', 'p', 'p', 'e', 'r'], [(0x41, 0x5A)]),
  (['w', 'o', 'r', 'd'], [(0x30, 0x39), (0x41, 0x5A), (0x5F, 0x5F), (0x61, 0x7A)]),
  (['x', 'd', 'i', 'g', 'i', 't'], [(0x30, 0x39), (0x41, 0x46), (0x61, 0x66)])]

def named? (name : List Char) : Option CharSet := (namedRanges.lookup name).map ofRanges

end CharSet

end SlrKit
