/-!
# Sets of indices

A set of indices is the number whose binary digits tell which indices are in it.
-/

set_option autoImplicit false

namespace SlrKit

structure IndexSet where
  bits : Nat
deriving DecidableEq

namespace IndexSet

def empty : IndexSet := ⟨0⟩

instance : Inhabited IndexSet := ⟨empty⟩

def contains (set : IndexSet) (index : Nat) : Bool := set.bits.testBit index

def singleton (index : Nat) : IndexSet := ⟨1 <<< index⟩

def union (left right : IndexSet) : IndexSet := ⟨left.bits ||| right.bits⟩

def insert (set : IndexSet) (index : Nat) : IndexSet := set.union (singleton index)

def below (set : IndexSet) (bound : Nat) : List Nat := (List.range bound).filter set.contains

@[simp]
theorem contains_empty (index : Nat) : empty.contains index = false := by
  simp [contains, empty]

@[simp]
theorem contains_union (left right : IndexSet) (index : Nat) :
    (left.union right).contains index = (left.contains index || right.contains index) := by
  simp [contains, union, Nat.testBit_or]

@[simp]
theorem contains_singleton (single index : Nat) :
    (singleton single).contains index = decide (single = index) := by
  simp [contains, singleton, Nat.one_shiftLeft, Nat.testBit_two_pow]

@[simp]
theorem contains_insert (set : IndexSet) (single index : Nat) :
    (set.insert single).contains index = (set.contains index || decide (single = index)) := by
  simp [insert]

theorem mem_below (set : IndexSet) (bound index : Nat) :
    index ∈ set.below bound ↔ index < bound ∧ set.contains index = true := by
  simp [below]

theorem ext_contains {left right : IndexSet}
    (same : ∀ index, left.contains index = right.contains index) : left = right := by
  cases left with
  | mk left_bits =>
      cases right with
      | mk right_bits =>
          simp only [contains] at same
          rw [Nat.eq_of_testBit_eq same]

end IndexSet

/-- Applies `step` until it changes nothing, at most `fuel` times. -/
def untilStable {β : Type} [DecidableEq β] (step : β → β) : Nat → β → β
  | 0, current => current
  | fuel + 1, current =>
      let next := step current
      if next = current then current else untilStable step fuel next

end SlrKit
