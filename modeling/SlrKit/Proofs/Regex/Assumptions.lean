import SlrKit.Regex

/-!
# What a library of regular expressions is relied on for

A lexer relies on little: that a match ends after the place where it begins, between two characters.
To tell which of its rules has matched it also relies on how the library puts patterns together, by the
rules that libraries with a leftmost preference document. Nothing else is known of a library.
-/

set_option autoImplicit false

namespace SlrKit

namespace Regex

/-- A match ends at a boundary between characters, strictly after the place where it begins. -/
def EndsAfterCursor (search : Searcher) : Prop :=
  ∀ behind ahead found, search behind ahead = some found →
    ∃ part, part ≠ [] ∧ Text.takeBytes? found.size ahead = some part

namespace Match

/-- What the match of a pattern is for a group around it, which opens before the groups of the
pattern. -/
def enclosed (own : Match) : Match :=
  ⟨own.size, fun number => number ≤ 1 || own.hasGroup (number - 1)⟩

/-- What the match of a pattern is behind `count` groups that take no part in it. -/
def behindGroups (count : Nat) (own : Match) : Match :=
  ⟨own.size, fun number => number == 0 || (decide (count < number) && own.hasGroup (number - count))⟩

theorem behind_groups_behind (count more : Nat) (own : Match) :
    (own.behindGroups count).behindGroups more = own.behindGroups (more + count) := by
  have same : ∀ number, ((own.behindGroups count).behindGroups more).hasGroup number =
      (own.behindGroups (more + count)).hasGroup number := by
    intro number
    simp only [behindGroups, Nat.sub_sub]
    by_cases low : number ≤ more
    · simp [Nat.not_lt_of_le low, Nat.not_lt_of_le (Nat.le_add_right_of_le low)]
    · have further : (number - more == 0) = false := by
        rw [beq_eq_false_iff_ne]
        omega
      have order : decide (count < number - more) = decide (more + count < number) := by
        rw [decide_eq_decide]
        omega
      simp [Nat.lt_of_not_le low, further, order]
  exact congrArg (Match.mk own.size) (funext same)

end Match

namespace Library

/-- The two readings of a pattern that a rule asks for succeed: as a part of a larger pattern, and by
itself. -/
structure Accepts (library : Library) (pattern : String) : Prop where
  inside : ∃ count, library.groupCount (anchored pattern) = .ok count
  alone : ∃ least, library.leastSize pattern = .ok least

/-- Patterns are put together as is documented of libraries that prefer the leftmost alternative.
`explicit` tells how many groups a pattern opens. -/
structure Documented (library : Library) (explicit : String → Nat) : Prop where
  /-- Groups are numbered by their opening parentheses, so a group comes before those inside it. -/
  group {pattern : String} {search : Searcher} (accepted : library.Accepts pattern)
    (compiled : library.compile (choiceOf [pattern]) = .ok search) :
    ∃ own, library.compile pattern = .ok own ∧
      ∀ behind ahead, search behind ahead = (own behind ahead).map Match.enclosed
  /-- The first alternative that matches is taken, and only groups on its path take part. Those of
  later alternatives are numbered behind those of the first one. -/
  alternation {first second : String} {others : List String} {search : Searcher}
    (accepted : ∀ pattern ∈ first :: second :: others, library.Accepts pattern)
    (compiled : library.compile (choiceOf (first :: second :: others)) = .ok search) :
    ∃ left right, library.compile (choiceOf [first]) = .ok left ∧
      library.compile (choiceOf (second :: others)) = .ok right ∧
      ∀ behind ahead, search behind ahead = (left behind ahead).or
        ((right behind ahead).map (Match.behindGroups (explicit first + 1)))

/-- The count of the groups of a pattern is that of the groups it opens, and the whole match. -/
def CountsGroups (library : Library) (explicit : String → Nat) (pattern : String) : Prop :=
  library.groupCount (anchored pattern) = .ok (explicit pattern + 1)

end Library

end Regex

end SlrKit
