import SlrKit.Pattern.Program
import Mathlib.Logic.Function.Basic

/-!
# How threads settle

The threads of a program settle in one way, whatever the number of moves that is allowed for: each is
moved where its instruction leads, until it takes a character or accepts, unless a thread has been there
before. What one list of threads settles to comes before what another settles to after it.
-/

set_option autoImplicit false

namespace SlrKit

namespace Pattern

namespace Instruction

def rests : Instruction → Bool
  | take _ _ | accept => true
  | _ => false

def moves (before after : Option Char) (groups : List Nat) : Instruction → List Thread
  | fork first second => [⟨first, groups⟩, ⟨second, groups⟩]
  | look condition target => if condition.holds before after then [⟨target, groups⟩] else []
  | mark number target => [⟨target, if groups.contains number then groups else number :: groups⟩]
  | take _ _ | accept | fail => []

theorem moves_length (before after : Option Char) (groups : List Nat) (instruction : Instruction) :
    (instruction.moves before after groups).length ≤ 2 := by
  cases instruction with
  | look condition target =>
      rw [moves]
      split
      · exact Nat.le_succ 1
      · exact Nat.zero_le 2
  | fork first second => exact Nat.le_refl 2
  | mark number target => exact Nat.le_succ 1
  | take | accept | fail => exact Nat.zero_le 2

end Instruction

namespace Program

section Settling

variable (program : Program) (before after : Option Char)

def instruction (address : Nat) : Instruction := program.code.getD address .fail

/-- A thread rests where it is about to take a character or accepts. -/
def rests (thread : Thread) : Bool := (program.instruction thread.address).rests

/-- Where a thread that does not rest goes on. -/
def moves (thread : Thread) : List Thread :=
  (program.instruction thread.address).moves before after thread.groups

/-- Threads settle to others; `visited` tells where threads have been before and after that. -/
inductive Settles : List Thread → (Nat → Bool) → List Thread → (Nat → Bool) → Prop
  | done {visited : Nat → Bool} : Settles [] visited [] visited
  | seen {thread : Thread} {pending settled : List Thread} {visited final : Nat → Bool}
      (known : visited thread.address = true) (later : Settles pending visited settled final) :
      Settles (thread :: pending) visited settled final
  | rest {thread : Thread} {pending settled : List Thread} {visited final : Nat → Bool}
      (new : visited thread.address = false) (resting : program.rests thread = true)
      (later : Settles pending (Function.update visited thread.address true) settled final) :
      Settles (thread :: pending) visited (thread :: settled) final
  | move {thread : Thread} {pending settled : List Thread} {visited final : Nat → Bool}
      (new : visited thread.address = false) (moving : program.rests thread = false)
      (later : Settles (program.moves before after thread ++ pending)
        (Function.update visited thread.address true) settled final) :
      Settles (thread :: pending) visited settled final

variable {program before after}

theorem Settles.unique {pending settled other : List Thread} {visited final last : Nat → Bool}
    (one : Settles program before after pending visited settled final)
    (two : Settles program before after pending visited other last) :
    settled = other ∧ final = last := by
  induction one generalizing other last with
  | done =>
      cases two
      exact ⟨rfl, rfl⟩
  | seen known _ ih =>
      cases two with
      | seen _ later => exact ih later
      | rest new _ _ => exact absurd (known.symm.trans new) Bool.true_eq_false.mp
      | move new _ _ => exact absurd (known.symm.trans new) Bool.true_eq_false.mp
  | rest new resting _ ih =>
      cases two with
      | seen known _ => exact absurd (known.symm.trans new) Bool.true_eq_false.mp
      | rest _ _ later =>
          have same := ih later
          exact ⟨congrArg _ same.1, same.2⟩
      | move _ moving _ => exact absurd (resting.symm.trans moving) Bool.true_eq_false.mp
  | move new moving _ ih =>
      cases two with
      | seen known _ => exact absurd (known.symm.trans new) Bool.true_eq_false.mp
      | rest _ resting _ => exact absurd (resting.symm.trans moving) Bool.true_eq_false.mp
      | move _ _ later => exact ih later

theorem Settles.append {first second settled more : List Thread} {visited middle final : Nat → Bool}
    (one : Settles program before after first visited settled middle)
    (two : Settles program before after second middle more final) :
    Settles program before after (first ++ second) visited (settled ++ more) final := by
  induction one with
  | done => exact two
  | seen known _ ih => exact Settles.seen known (ih two)
  | rest new resting _ ih => exact Settles.rest new resting (ih two)
  | move new moving _ ih =>
      have later := ih two
      rw [List.append_assoc] at later
      exact Settles.move new moving later

/-- Where threads have been, by a list that tells it for the addresses of the code. -/
def visitedIn (visited : Array Bool) (address : Nat) : Bool := visited.getD address true

theorem visited_in_set (visited : Array Bool) (address : Nat) :
    visitedIn (visited.setIfInBounds address true) =
      Function.update (visitedIn visited) address true := by
  funext other
  unfold visitedIn
  rw [Array.getD_eq_getD_getElem?, Array.getElem?_setIfInBounds]
  by_cases same : address = other
  · rw [if_pos same, same, Function.update_self]
    split
    · rfl
    · rfl
  · rw [if_neg same, Function.update_of_ne (Ne.symm same), Array.getD_eq_getD_getElem?]

theorem unvisited_set (visited : Array Bool) (address : Nat)
    (new : visitedIn visited address = false) :
    (visited.setIfInBounds address true).count false + 1 = visited.count false := by
  unfold visitedIn at new
  rw [Array.getD_eq_getD_getElem?] at new
  have inside : address < visited.size := by
    by_contra outside
    rw [Array.getElem?_eq_none (Nat.le_of_not_lt outside)] at new
    cases new
  rw [Array.getElem?_eq_getElem inside, Option.getD_some] at new
  have occurs : 0 < visited.count false := by
    rw [Array.count_pos_iff, ← new]
    exact Array.getElem_mem inside
  rw [Array.setIfInBounds, dif_pos inside, Array.count_set inside, new]
  simp only [beq_self_eq_true, if_true, Bool.beq_eq_decide_eq, Bool.true_eq_false, decide_false,
    Bool.false_eq_true, if_false]
  omega

theorem settle_cons (fuel : Nat) (thread : Thread) (pending settled : List Thread)
    (visited : Array Bool) :
    program.settle before after (fuel + 1) (thread :: pending) visited settled =
      if visitedIn visited thread.address then
        program.settle before after fuel pending visited settled
      else if program.rests thread then
        program.settle before after fuel pending (visited.setIfInBounds thread.address true)
          (thread :: settled)
      else
        program.settle before after fuel (program.moves before after thread ++ pending)
          (visited.setIfInBounds thread.address true) settled := by
  rw [settle, visitedIn, rests, moves, instruction]
  cases program.code.getD thread.address .fail with
  | look condition target =>
      by_cases holds : condition.holds before after = true
      · simp [holds, Instruction.rests, Instruction.moves]
      · simp [holds, Instruction.rests, Instruction.moves]
  | take | fork | mark | accept | fail => rfl

/-- With moves for all addresses that have not been visited, threads settle. -/
theorem settle_spec (fuel : Nat) (pending : List Thread) (visited : Array Bool)
    (enough : 2 * visited.count false + pending.length < fuel) :
    ∃ settled final, Settles program before after pending (visitedIn visited) settled final ∧
      ∀ earlier, program.settle before after fuel pending visited earlier =
        settled.reverse ++ earlier := by
  induction fuel generalizing pending visited with
  | zero => omega
  | succ fuel ih =>
      cases pending with
      | nil => exact ⟨[], _, Settles.done, fun _ => rfl⟩
      | cons thread pending =>
          rw [List.length_cons] at enough
          simp only [settle_cons]
          cases known : visitedIn visited thread.address with
          | true =>
              rcases ih pending visited (by omega) with ⟨settled, final, settles, moved⟩
              exact ⟨settled, final, Settles.seen known settles, moved⟩
          | false =>
              have fewer := unvisited_set visited thread.address known
              cases resting : program.rests thread with
              | true =>
                  have bound : 2 * (visited.setIfInBounds thread.address true).count false +
                      pending.length < fuel := by omega
                  rcases ih _ _ bound with ⟨settled, final, settles, moved⟩
                  rw [visited_in_set] at settles
                  refine ⟨thread :: settled, final, Settles.rest known resting settles, ?_⟩
                  intro earlier
                  simp [moved]
              | false =>
                  have few := Instruction.moves_length before after thread.groups
                    (program.instruction thread.address)
                  have bound : 2 * (visited.setIfInBounds thread.address true).count false +
                      (program.moves before after thread ++ pending).length < fuel := by
                    rw [List.length_append, moves]
                    omega
                  rcases ih _ _ bound with ⟨settled, final, settles, moved⟩
                  rw [visited_in_set] at settles
                  exact ⟨settled, final, Settles.move known resting settles, moved⟩

/-- Where threads cannot go from the beginning: beyond the code. -/
def outside (program : Program) (address : Nat) : Bool := decide (program.code.size ≤ address)

theorem visited_in_replicate :
    visitedIn (Array.replicate program.code.size false) = program.outside := by
  funext address
  unfold visitedIn outside
  rw [Array.getD_eq_getD_getElem?, Array.getElem?_replicate]
  by_cases inside : address < program.code.size
  · simp [inside]
  · simp [inside, Nat.le_of_not_lt inside]

variable (program before after) in
theorem settled_spec (started : List Thread) :
    ∃ final, Settles program before after started program.outside
      (program.settled before after started) final := by
  have enough : 2 * (Array.replicate program.code.size false).count false + started.length <
      started.length + 2 * program.code.size + 1 := by
    rw [Array.count_replicate_self]
    omega
  rcases settle_spec _ started _ enough with ⟨reached, final, settles, moved⟩
  rw [visited_in_replicate] at settles
  refine ⟨final, ?_⟩
  rw [settled, moved, List.append_nil, List.reverse_reverse]
  exact settles

theorem settled_eq {started settled : List Thread} {final : Nat → Bool}
    (settles : Settles program before after started program.outside settled final) :
    program.settled before after started = settled := by
  rcases settled_spec program before after started with ⟨_, own⟩
  exact (own.unique settles).1

theorem Settles.keeps {pending settled : List Thread} {visited final : Nat → Bool}
    (settles : Settles program before after pending visited settled final) (address : Nat)
    (known : visited address = true) : final address = true := by
  have kept : ∀ {visited : Nat → Bool} (other : Nat), visited address = true →
      Function.update visited other true address = true := by
    intro visited other before
    by_cases same : address = other
    · rw [same, Function.update_self]
    · rw [Function.update_of_ne same, before]
  induction settles with
  | done => exact known
  | seen _ _ ih => exact ih known
  | rest _ _ _ ih => exact ih (kept _ known)
  | move _ _ _ ih => exact ih (kept _ known)

theorem exists_settles (pending : List Thread) (visited : Nat → Bool)
    (beyond : ∀ address, program.code.size ≤ address → visited address = true) :
    ∃ settled final, Settles program before after pending visited settled final := by
  let known := Array.ofFn fun address : Fin program.code.size => visited address
  have same : visitedIn known = visited := by
    funext address
    unfold visitedIn known
    rw [Array.getD_eq_getD_getElem?, Array.getElem?_ofFn]
    by_cases inside : address < program.code.size
    · rw [dif_pos inside, Option.getD_some]
    · rw [dif_neg inside, Option.getD_none, beyond address (Nat.le_of_not_lt inside)]
  rcases settle_spec _ pending known (Nat.lt_succ_self _) with ⟨settled, final, settles, _⟩
  rw [same] at settles
  exact ⟨settled, final, settles⟩

end Settling

end Program

end Pattern

end SlrKit
