import SlrKit.Proofs.Pattern.Placement

/-!
# Renumbered groups

A pattern whose groups have other numbers is compiled to the same program, but for the numbers in it.
-/

set_option autoImplicit false

namespace SlrKit

namespace Pattern

/-- The pattern with other numbers of its groups. -/
def renumbered (number : Nat → Nat) : Pattern → Pattern
  | empty => empty
  | chars set => chars set
  | look condition => look condition
  | cat first second => cat (first.renumbered number) (second.renumbered number)
  | alt left right => alt (left.renumbered number) (right.renumbered number)
  | group old body => group (number old) (body.renumbered number)
  | repeated least most greedy body => repeated least most greedy (body.renumbered number)

theorem renumbered_renumbered (inner outer : Nat → Nat) (pattern : Pattern) :
    (pattern.renumbered inner).renumbered outer =
      pattern.renumbered fun number => outer (inner number) := by
  induction pattern with
  | empty | chars | look => rfl
  | cat first second ofFirst ofSecond => rw [renumbered, renumbered, ofFirst, ofSecond, renumbered]
  | alt left right ofLeft ofRight => rw [renumbered, renumbered, ofLeft, ofRight, renumbered]
  | group old body ofBody => rw [renumbered, renumbered, ofBody, renumbered]
  | repeated least most greedy body ofBody => rw [renumbered, renumbered, ofBody, renumbered]

theorem least_length_renumbered (number : Nat → Nat) (pattern : Pattern) :
    (pattern.renumbered number).leastLength? = pattern.leastLength? := by
  induction pattern with
  | empty | chars | look => rfl
  | cat first second ofFirst ofSecond =>
      simp only [renumbered, leastLength?, ofFirst, ofSecond]
  | alt left right ofLeft ofRight => simp only [renumbered, leastLength?, ofLeft, ofRight]
  | group old body ofBody => exact ofBody
  | repeated least most greedy body ofBody => simp only [renumbered, leastLength?, ofBody]

namespace Fragment

/-- The fragment with other numbers of groups. -/
def renumbered (number : Nat → Nat) (fragment : Fragment) : Fragment :=
  ⟨fragment.code.map (·.copied id number), fragment.entry⟩

variable (number : Nat → Nat)

theorem push_renumbered (fragment : Fragment) (instruction : Instruction) :
    (fragment.push instruction).renumbered number =
      (fragment.renumbered number).push (instruction.copied id number) := by
  simp [renumbered, push]

theorem set_renumbered (fragment : Fragment) (address entry : Nat) (instruction : Instruction) :
    renumbered number ⟨fragment.code.setIfInBounds address instruction, entry⟩ =
      ⟨(fragment.renumbered number).code.setIfInBounds address (instruction.copied id number),
        entry⟩ := by
  rw [renumbered, Array.map_setIfInBounds]
  rfl

theorem choose_renumbered (greedy : Bool) (inside outside : Nat) :
    (Instruction.choose greedy inside outside).copied id number =
      Instruction.choose greedy inside outside := by
  cases greedy <;> rfl

/-- The parts do the same but for the numbers of groups. -/
def Alike (part other : Fragment → Fragment) : Prop :=
  ∀ fragment, other (fragment.renumbered number) = (part fragment).renumbered number

variable {number} {part other : Fragment → Fragment}

theorem Alike.times (alike : Alike number part other) (count : Nat) :
    Alike number (times part count) (times other count) := by
  intro fragment
  induction count with
  | zero => rfl
  | succ count ih => rw [Fragment.times, ih, alike, Fragment.times]

theorem Alike.upTo (alike : Alike number part other) (greedy : Bool) (after count : Nat) :
    Alike number (upTo part greedy after count) (upTo other greedy after count) := by
  intro fragment
  induction count with
  | zero => rfl
  | succ count ih =>
      have inside := alike (Fragment.upTo part greedy after count fragment)
      simp only [Fragment.upTo, ih, inside, push_renumbered, choose_renumbered]
      rfl

theorem Alike.loop (alike : Alike number part other) (greedy : Bool) (fragment : Fragment) :
    Fragment.loop other greedy (fragment.renumbered number) =
      ((Fragment.loop part greedy fragment).1.renumbered number,
        (Fragment.loop part greedy fragment).2) := by
  have begun : (fragment.renumbered number).push .fail =
      (fragment.push .fail).renumbered number := (push_renumbered number fragment .fail).symm
  have size : (fragment.renumbered number).code.size = fragment.code.size := Array.size_map
  have inside := alike (fragment.push .fail)
  simp only [Fragment.loop, begun, inside, size, set_renumbered, choose_renumbered]
  rfl

end Fragment

theorem compile_renumbered (number : Nat → Nat) (pattern : Pattern) :
    Fragment.Alike number pattern.compile (pattern.renumbered number).compile := by
  induction pattern with
  | empty => exact fun fragment => rfl
  | chars set =>
      intro fragment
      exact (Fragment.push_renumbered number fragment (.take set fragment.entry)).symm
  | look condition =>
      intro fragment
      exact (Fragment.push_renumbered number fragment (.look condition fragment.entry)).symm
  | cat first second ofFirst ofSecond =>
      intro fragment
      rw [renumbered, compile, ofSecond, ofFirst]
      rfl
  | alt left right ofLeft ofRight =>
      intro fragment
      have exits : (⟨((right.compile fragment).renumbered number).code,
          (fragment.renumbered number).entry⟩ : Fragment) =
          Fragment.renumbered number ⟨(right.compile fragment).code, fragment.entry⟩ := rfl
      have inside := ofLeft ⟨(right.compile fragment).code, fragment.entry⟩
      simp only [renumbered, compile, ofRight fragment, exits, inside, Fragment.push_renumbered]
      rfl
  | group old body ofBody =>
      intro fragment
      have marked : (fragment.renumbered number).push
          (.mark (number old) (fragment.renumbered number).entry) =
          (fragment.push (.mark old fragment.entry)).renumbered number :=
        (Fragment.push_renumbered number fragment (.mark old fragment.entry)).symm
      rw [renumbered, compile, marked, ofBody]
      rfl
  | repeated least most greedy body ofBody =>
      intro fragment
      cases most with
      | some bound =>
          have once := ofBody.upTo greedy fragment.entry (bound - least) fragment
          have again := ofBody.times least
            (Fragment.upTo body.compile greedy fragment.entry (bound - least) fragment)
          rw [← once] at again
          exact again
      | none =>
          have looped := ofBody.loop greedy fragment
          have lengths := least_length_renumbered number body
          cases least with
          | zero =>
              simp only [renumbered, compile, looped, lengths]
              split
              · rfl
              · rw [Fragment.push_renumbered, Fragment.choose_renumbered]
                rfl
          | succ count =>
              simp only [renumbered, compile, looped]
              exact ofBody.times count ⟨(Fragment.loop body.compile greedy fragment).1.code,
                (Fragment.loop body.compile greedy fragment).2⟩

theorem program_renumbered (number : Nat → Nat) (pattern : Pattern) :
    (pattern.renumbered number).program =
      ⟨pattern.program.code.map (·.copied id number), pattern.program.entry⟩ := by
  have alike := compile_renumbered number pattern ⟨#[.accept], 0⟩
  have start : Fragment.renumbered number ⟨#[.accept], 0⟩ = ⟨#[.accept], 0⟩ := by
    rw [Fragment.renumbered, Array.map_singleton, Instruction.copied]
  rw [start] at alike
  rw [program, alike]
  rfl

end Pattern

end SlrKit
