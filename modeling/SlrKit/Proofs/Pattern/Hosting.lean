import SlrKit.Proofs.Pattern.Placement
import SlrKit.Proofs.Pattern.Settling
import Mathlib.Data.List.Basic

/-!
# Programs that hold copies of others

Where a program holds a copy of another one, its threads in the copy do what the threads of the other
program do: they settle alike, move alike, and accept alike, but for what the way out of the copy adds
to the groups of a match. Whatever happens elsewhere in the program makes no difference to them, apart
from the one address that all copies share, the end.
-/

set_option autoImplicit false

namespace SlrKit

namespace Pattern

namespace Program

/-- The program accepts at its first address alone, and leads to no address beyond its code. -/
structure Sealed (program : Program) : Prop where
  accepts : program.instruction 0 = .accept
  alone : ∀ address, program.instruction address = .accept → address = 0
  entry : program.entry < program.code.size
  within : ∀ address, ∀ target ∈ (program.instruction address).targets, target < program.code.size

theorem instruction_of_list {program : Program} {steps : List Instruction}
    (code : program.code.toList = steps) (address : Nat) :
    program.instruction address = steps.getD address .fail := by
  rw [instruction, ← code, Array.getD_eq_getD_getElem?, List.getD_eq_getElem?_getD,
    Array.getElem?_toList]

theorem size_of_list {program : Program} {steps : List Instruction}
    (code : program.code.toList = steps) : program.code.size = steps.length := by
  rw [← code, Array.length_toList]

theorem program_sealed (pattern : Pattern) : pattern.program.Sealed := by
  have code := own_code pattern
  have size := size_of_list code
  have inner : ∀ address, pattern.program.instruction (address + 1) = .fail ∨
      pattern.program.instruction (address + 1) ∈ pattern.own.steps := by
    intro address
    rw [instruction_of_list code, List.getD_cons_succ, List.getD_eq_getElem?_getD]
    cases found : pattern.own.steps[address]? with
    | none => exact Or.inl rfl
    | some instruction => exact Or.inr (List.mem_of_getElem? found)
  rw [List.length_cons] at size
  constructor
  · rw [instruction_of_list code]
    rfl
  · intro address accepts
    cases address with
    | zero => rfl
    | succ address =>
        rcases inner address with missing | among
        · rw [missing] at accepts
          cases accepts
        · exact absurd accepts (pattern.own.within _ among).1
  · rw [size]
    exact Nat.lt_succ_of_le pattern.own.inside
  · intro address target leads
    cases address with
    | zero =>
        rw [instruction_of_list code] at leads
        cases leads
    | succ address =>
        rcases inner address with missing | among
        · rw [missing] at leads
          cases leads
        · rw [size]
          exact Nat.lt_succ_of_le ((pattern.own.within _ among).2 target leads)

theorem moves_within (before after : Option Char) (groups : List Nat) (instruction : Instruction) :
    ∀ thread ∈ instruction.moves before after groups, thread.address ∈ instruction.targets := by
  intro thread member
  cases instruction with
  | take | accept | fail => cases member
  | fork first second =>
      simp only [Instruction.moves, List.mem_cons, List.not_mem_nil, or_false] at member
      rcases member with same | same
      · simp [same, Instruction.targets]
      · simp [same, Instruction.targets]
  | look condition target =>
      simp only [Instruction.moves] at member
      split at member
      · rw [List.mem_singleton.mp member]
        simp [Instruction.targets]
      · cases member
  | mark number target =>
      rw [Instruction.moves, List.mem_singleton] at member
      simp [member, Instruction.targets]

section Sealed

variable {before after : Option Char} {pending settled : List Thread} {visited final : Nat → Bool}

theorem Sealed.nonempty {program : Program} (closed : program.Sealed) : 0 < program.code.size :=
  Nat.lt_of_le_of_lt (Nat.zero_le _) closed.entry

theorem Sealed.rests_at_end {program : Program} (closed : program.Sealed) {thread : Thread}
    (last : thread.address = 0) : program.rests thread = true := by
  rw [rests, last, closed.accepts]
  rfl

theorem Sealed.moves_inside {program : Program} (closed : program.Sealed) {thread : Thread}
    (later : ∀ other ∈ pending, other.address < program.code.size) :
    ∀ other ∈ program.moves before after thread ++ pending, other.address < program.code.size := by
  intro other member
  rcases List.mem_append.mp member with moved | old
  · exact closed.within _ _ (moves_within before after _ _ other moved)
  · exact later other old

theorem Sealed.settled_inside {program : Program} (closed : program.Sealed)
    (settles : Settles program before after pending visited settled final)
    (inside : ∀ thread ∈ pending, thread.address < program.code.size) :
    ∀ thread ∈ settled, thread.address < program.code.size := by
  induction settles with
  | done => exact inside
  | seen _ _ ih => exact ih fun thread member => inside thread (List.mem_cons_of_mem _ member)
  | rest _ _ _ ih =>
      intro thread member
      rcases List.mem_cons.mp member with same | old
      · rw [same]
        exact inside _ List.mem_cons_self
      · exact ih (fun other among => inside other (List.mem_cons_of_mem _ among)) thread old
  | move _ _ _ ih =>
      exact ih (closed.moves_inside fun other among => inside other (List.mem_cons_of_mem _ among))

theorem Sealed.rests_of_finished {program : Program} (closed : program.Sealed)
    (settles : Settles program before after pending visited settled final)
    (new : visited 0 = false) (finished : final 0 = true) : ∃ thread ∈ settled, thread.address = 0 := by
  induction settles with
  | done =>
      rw [new] at finished
      cases finished
  | seen _ _ ih => exact ih new finished
  | @rest thread _ _ _ _ _ _ _ ih =>
      by_cases last : thread.address = 0
      · exact ⟨thread, List.mem_cons_self, last⟩
      · rw [Function.update_of_ne (Ne.symm last)] at ih
        rcases ih new finished with ⟨other, among, ended⟩
        exact ⟨other, List.mem_cons_of_mem _ among, ended⟩
  | @move thread _ _ _ _ _ moving _ ih =>
      by_cases last : thread.address = 0
      · rw [closed.rests_at_end last] at moving
        cases moving
      · rw [Function.update_of_ne (Ne.symm last)] at ih
        exact ih new finished

end Sealed

/-- A copy of the program `inner` in the program `outer`: where its addresses lie, how its groups are
numbered, and what the way from its end to the end of `outer` makes of the groups of a match. -/
structure Hosting (inner outer : Program) where
  spot : Nat → Nat
  number : Nat → Nat
  arrive : List Nat → List Nat
  copied : ∀ address, 0 < address → address < inner.code.size →
    outer.instruction (spot address) = (inner.instruction address).copied spot number
  apart : ∀ address other, address < inner.code.size → other < inner.code.size →
    spot address = spot other → address = other
  inside : ∀ address, address < inner.code.size → spot address < outer.code.size
  proper : ∀ address, 0 < address → address < inner.code.size → spot address ≠ 0
  injective : ∀ one other, number one = number other → one = other
  finish : ∀ {before after : Option Char} {groups : List Nat} {pending settled : List Thread}
    {visited final : Nat → Bool}, visited (spot 0) = false → visited 0 = false →
    Settles outer before after pending
      (Function.update (Function.update visited (spot 0) true) 0 true) settled final →
    Settles outer before after (⟨spot 0, groups⟩ :: pending) visited (⟨0, arrive groups⟩ :: settled)
      final

namespace Hosting

variable {inner outer : Program} (hosting : Hosting inner outer)

/-- The thread that is in the copy where a thread is in the original. -/
def enter (thread : Thread) : Thread :=
  ⟨hosting.spot thread.address, thread.groups.map hosting.number⟩

/-- The thread that has come to rest where a thread has in the original. -/
def leave (thread : Thread) : Thread :=
  if thread.address = 0 then ⟨0, hosting.arrive (thread.groups.map hosting.number)⟩
  else hosting.enter thread

/-- What a match of the original is for the program with the copy. -/
def lift (found : Match) : Match :=
  ⟨found.length, hosting.arrive (found.groups.map hosting.number)⟩

/-- The copy has been visited where the original has, and the end of the program with that of the
original. -/
structure Mirrors (visited outerVisited : Nat → Bool) : Prop where
  finish : outerVisited 0 = visited 0
  copy : ∀ address, address < inner.code.size →
    outerVisited (hosting.spot address) = visited address

/-- Neither the end of the program nor an address of the copy. -/
def Elsewhere (address : Nat) : Prop :=
  address ≠ 0 ∧ ∀ original, original < inner.code.size → hosting.spot original ≠ address

variable {hosting} {visited outerVisited : Nat → Bool}

theorem Mirrors.visit (mirrors : hosting.Mirrors visited outerVisited) (address : Nat)
    (positive : 0 < address) (bound : address < inner.code.size) :
    hosting.Mirrors (Function.update visited address true)
      (Function.update outerVisited (hosting.spot address) true) := by
  constructor
  · rw [Function.update_of_ne (hosting.proper address positive bound).symm,
      Function.update_of_ne (Nat.ne_of_lt positive)]
    exact mirrors.finish
  · intro other otherBound
    by_cases same : other = address
    · rw [same, Function.update_self, Function.update_self]
    · have apart : hosting.spot other ≠ hosting.spot address :=
        fun equal => same (hosting.apart other address otherBound bound equal)
      rw [Function.update_of_ne apart, Function.update_of_ne same]
      exact mirrors.copy other otherBound

theorem Mirrors.finished (mirrors : hosting.Mirrors visited outerVisited)
    (nonempty : 0 < inner.code.size) :
    hosting.Mirrors (Function.update visited 0 true)
      (Function.update (Function.update outerVisited (hosting.spot 0) true) 0 true) := by
  constructor
  · rw [Function.update_self, Function.update_self]
  · intro other otherBound
    by_cases first : other = 0
    · rw [first, Function.update_self]
      by_cases door : hosting.spot 0 = 0
      · rw [door, Function.update_self]
      · rw [Function.update_of_ne door, Function.update_self]
    · have positive := Nat.pos_of_ne_zero first
      have apart : hosting.spot other ≠ hosting.spot 0 :=
        fun equal => first (hosting.apart other 0 otherBound nonempty equal)
      rw [Function.update_of_ne (hosting.proper other positive otherBound),
        Function.update_of_ne apart, Function.update_of_ne first]
      exact mirrors.copy other otherBound

theorem Mirrors.undisturbed (mirrors : hosting.Mirrors visited outerVisited) {address : Nat}
    (elsewhere : hosting.Elsewhere address) :
    hosting.Mirrors visited (Function.update outerVisited address true) := by
  constructor
  · rw [Function.update_of_ne elsewhere.1.symm]
    exact mirrors.finish
  · intro original inside
    rw [Function.update_of_ne (elsewhere.2 original inside)]
    exact mirrors.copy original inside

theorem contains_number (groups : List Nat) (number : Nat) :
    (groups.map hosting.number).contains (hosting.number number) = groups.contains number := by
  rw [Bool.eq_iff_iff, List.contains_iff_mem, List.contains_iff_mem, List.mem_map]
  constructor
  · intro member
    rcases member with ⟨other, among, same⟩
    rw [← hosting.injective other number same]
    exact among
  · intro member
    exact ⟨number, member, rfl⟩

theorem rests_copied (instruction : Instruction) (address number : Nat → Nat) :
    (instruction.copied address number).rests = instruction.rests := by
  cases instruction <;> rfl

theorem moves_copied (before after : Option Char) (groups : List Nat) (instruction : Instruction) :
    (instruction.copied hosting.spot hosting.number).moves before after
        (groups.map hosting.number) =
      (instruction.moves before after groups).map hosting.enter := by
  cases instruction with
  | take | fork | accept | fail => rfl
  | look condition target =>
      simp only [Instruction.copied, Instruction.moves]
      split
      · rfl
      · rfl
  | mark number target =>
      simp only [Instruction.copied, Instruction.moves, contains_number]
      split
      · rfl
      · rfl

section Settling

variable {before after : Option Char} {pending settled : List Thread} {final : Nat → Bool}

/-- Threads settle in the copy as they do in the original, and disturb nothing elsewhere. -/
theorem settles_hosted (closed : inner.Sealed)
    (settles : Settles inner before after pending visited settled final)
    (inside : ∀ thread ∈ pending, thread.address < inner.code.size)
    (mirrors : hosting.Mirrors visited outerVisited) :
    ∃ last, Settles outer before after (pending.map hosting.enter) outerVisited
        (settled.map hosting.leave) last ∧ hosting.Mirrors final last ∧
      ∀ address, hosting.Elsewhere address → last address = outerVisited address := by
  induction settles generalizing outerVisited with
  | done => exact ⟨outerVisited, Settles.done, mirrors, fun _ _ => rfl⟩
  | @seen thread pending settled visited final known later ih =>
      have bound := inside thread List.mem_cons_self
      rcases ih (fun other among => inside other (List.mem_cons_of_mem _ among)) mirrors with
        ⟨last, outerSettles, mirrored, undisturbed⟩
      have knownThere : outerVisited (hosting.enter thread).address = true := by
        rw [← known]
        exact mirrors.copy thread.address bound
      exact ⟨last, Settles.seen knownThere outerSettles, mirrored, undisturbed⟩
  | @rest thread pending settled visited final new resting later ih =>
      have bound := inside thread List.mem_cons_self
      have others := fun other among => inside other (List.mem_cons_of_mem thread among)
      have newThere : outerVisited (hosting.enter thread).address = false := by
        rw [← new]
        exact mirrors.copy thread.address bound
      by_cases finished : thread.address = 0
      · rw [finished] at new ih
        rcases ih others (mirrors.finished closed.nonempty) with
          ⟨last, outerSettles, mirrored, undisturbed⟩
        have unfinished : outerVisited 0 = false := by
          rw [mirrors.finish, new]
        refine ⟨last, ?_, mirrored, ?_⟩
        · rw [List.map_cons, List.map_cons, leave, if_pos finished]
          have door : outerVisited (hosting.spot 0) = false := by
            rw [mirrors.copy 0 closed.nonempty, new]
          have entered : hosting.enter thread =
              ⟨hosting.spot 0, thread.groups.map hosting.number⟩ := by rw [enter, finished]
          rw [entered]
          exact hosting.finish door unfinished outerSettles
        · intro address elsewhere
          rw [undisturbed address elsewhere, Function.update_of_ne elsewhere.1,
            Function.update_of_ne (elsewhere.2 0 closed.nonempty).symm]
      · have positive := Nat.pos_of_ne_zero finished
        rcases ih others (mirrors.visit thread.address positive bound) with
          ⟨last, outerSettles, mirrored, undisturbed⟩
        refine ⟨last, ?_, mirrored, ?_⟩
        · have restingThere : outer.rests (hosting.enter thread) = true := by
            rw [rests, enter, hosting.copied _ positive bound, rests_copied]
            exact resting
          rw [List.map_cons, List.map_cons, leave, if_neg finished]
          exact Settles.rest newThere restingThere outerSettles
        · intro address elsewhere
          rw [undisturbed address elsewhere,
            Function.update_of_ne (elsewhere.2 thread.address bound).symm]
  | @move thread pending settled visited final new moving later ih =>
      have bound := inside thread List.mem_cons_self
      have others := fun other among => inside other (List.mem_cons_of_mem thread among)
      have positive : 0 < thread.address := by
        apply Nat.pos_of_ne_zero
        intro finished
        rw [closed.rests_at_end finished] at moving
        cases moving
      have newThere : outerVisited (hosting.enter thread).address = false := by
        rw [← new]
        exact mirrors.copy thread.address bound
      have movingThere : outer.rests (hosting.enter thread) = false := by
        rw [rests, enter, hosting.copied _ positive bound, rests_copied]
        exact moving
      have movesThere : outer.moves before after (hosting.enter thread) =
          (inner.moves before after thread).map hosting.enter := by
        rw [moves, enter, hosting.copied _ positive bound, moves_copied]
        rfl
      rcases ih (closed.moves_inside others) (mirrors.visit thread.address positive bound) with
        ⟨last, outerSettles, mirrored, undisturbed⟩
      rw [List.map_append, ← movesThere] at outerSettles
      refine ⟨last, Settles.move newThere movingThere outerSettles, mirrored, ?_⟩
      intro address elsewhere
      rw [undisturbed address elsewhere,
        Function.update_of_ne (elsewhere.2 thread.address bound).symm]

theorem mirrors_outside (closed : inner.Sealed) (outerClosed : outer.Sealed) :
    hosting.Mirrors inner.outside outer.outside := by
  constructor
  · have inner_end := closed.nonempty
    have outer_end := outerClosed.nonempty
    simp only [outside, decide_eq_decide]
    omega
  · intro address bound
    have there := hosting.inside address bound
    simp only [outside, decide_eq_decide]
    omega

end Settling

end Hosting

end Program

end Pattern

end SlrKit
