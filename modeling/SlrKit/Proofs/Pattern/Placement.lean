import SlrKit.Pattern.Program

/-!
# Where compiled patterns stand

A pattern is compiled to the same instructions whatever they lead to: in front of a fragment stands a
copy of the pattern's own program, moved behind the fragment's code, whose end leads to the entry of
the fragment. No copy leads anywhere else, and only the end of the own program accepts.
-/

set_option autoImplicit false

namespace SlrKit

namespace Pattern

/-- The place of an address of a program that is copied to `base`, without its end: what leads to the
end leads to `exit` instead. -/
def place (base exit : Nat) : Nat → Nat
  | 0 => exit
  | address + 1 => base + address

theorem place_self : place 1 0 = id := by
  funext address
  cases address with
  | zero => rfl
  | succ address => exact Nat.add_comm 1 address

theorem place_place (base exit size entry : Nat) :
    place base exit ∘ place (1 + size) entry = place (base + size) (place base exit entry) := by
  funext address
  cases address with
  | zero => rfl
  | succ address =>
      rw [Function.comp_apply, place, place, Nat.add_assoc, Nat.add_comm 1, place, Nat.add_assoc]

namespace Instruction

/-- The instruction with other addresses and other numbers of groups. -/
def copied (address number : Nat → Nat) : Instruction → Instruction
  | take set target => take set (address target)
  | fork first second => fork (address first) (address second)
  | look condition target => look condition (address target)
  | mark opened target => mark (number opened) (address target)
  | accept => accept
  | fail => fail

def targets : Instruction → List Nat
  | take _ target | look _ target | mark _ target => [target]
  | fork first second => [first, second]
  | accept | fail => []

theorem copied_copied (address other number : Nat → Nat) (instruction : Instruction) :
    (instruction.copied address id).copied other number =
      instruction.copied (other ∘ address) number := by
  cases instruction <;> rfl

theorem copied_id (instruction : Instruction) : instruction.copied id id = instruction := by
  cases instruction <;> rfl

theorem copied_choose (address : Nat → Nat) (greedy : Bool) (inside outside : Nat) :
    (choose greedy inside outside).copied address id =
      choose greedy (address inside) (address outside) := by
  cases greedy <;> rfl

/-- The instruction leads to no address beyond `size`, and does not accept. -/
def LeadsWithin (size : Nat) (instruction : Instruction) : Prop :=
  instruction ≠ accept ∧ ∀ target ∈ instruction.targets, target ≤ size

theorem LeadsWithin.mono {size larger : Nat} {instruction : Instruction}
    (within : instruction.LeadsWithin size) (order : size ≤ larger) :
    instruction.LeadsWithin larger :=
  ⟨within.1, fun target member => Nat.le_trans (within.2 target member) order⟩

theorem targets_copied (address number : Nat → Nat) (instruction : Instruction) :
    (instruction.copied address number).targets = instruction.targets.map address := by
  cases instruction <;> rfl

theorem copied_eq_accept_iff (address number : Nat → Nat) (instruction : Instruction) :
    instruction.copied address number = accept ↔ instruction = accept := by
  cases instruction <;> simp [copied]

theorem leads_within_choose (greedy : Bool) {inside outside size : Nat} (one : inside ≤ size)
    (other : outside ≤ size) : (choose greedy inside outside).LeadsWithin size := by
  cases greedy <;> simp [choose, LeadsWithin, targets, one, other]

end Instruction

theorem place_le {size more entry front : Nat} (inside : entry ≤ size) (bound : front ≤ more) :
    place (1 + size) entry front ≤ size + more := by
  cases front with
  | zero => exact Nat.le_trans inside (Nat.le_add_right _ _)
  | succ front =>
      rw [place]
      omega

theorem Fragment.same_of_code {one other : Fragment} (code : one.code.toList = other.code.toList)
    (entry : one.entry = other.entry) : one = other := by
  cases one
  cases other
  have arrays := Array.toList_inj.mp code
  cases arrays
  cases entry
  rfl

/-- Code that leads nowhere but into itself and to its end, the address 0. -/
@[ext] structure Segment where
  steps : List Instruction
  entry : Nat
  inside : entry ≤ steps.length
  within : ∀ instruction ∈ steps, instruction.LeadsWithin steps.length

namespace Segment

/-- Puts a copy of the code in front of a fragment. -/
def inFront (segment : Segment) (after : Fragment) : Fragment :=
  ⟨after.code ++ (segment.steps.map (·.copied (place after.code.size after.entry) id)).toArray,
    place after.code.size after.entry segment.entry⟩

def empty : Segment where
  steps := []
  entry := 0
  inside := Nat.le_refl 0
  within := by simp

def single (instruction : Instruction) (leads : instruction.LeadsWithin 0) : Segment where
  steps := [instruction]
  entry := 1
  inside := Nat.le_refl 1
  within := by
    intro other member
    rw [List.mem_singleton.mp member]
    exact leads.mono (Nat.zero_le 1)

/-- The same code, entered somewhere else. -/
def enteredAt (segment : Segment) (entry : Nat) (inside : entry ≤ segment.steps.length) : Segment :=
  { segment with entry, inside }

/-- The same code with another first instruction. -/
def startingWith (segment : Segment) (instruction : Instruction)
    (leads : instruction.LeadsWithin segment.steps.length) : Segment where
  steps := segment.steps.set 0 instruction
  entry := segment.entry
  inside := by
    rw [List.length_set]
    exact segment.inside
  within := by
    intro other member
    rw [List.length_set]
    rcases List.mem_or_eq_of_mem_set member with old | new
    · exact segment.within other old
    · rw [new]
      exact leads

/-- One more instruction, where the code is now entered. -/
def snoc (segment : Segment) (instruction : Instruction)
    (leads : instruction.LeadsWithin segment.steps.length) : Segment where
  steps := segment.steps ++ [instruction]
  entry := segment.steps.length + 1
  inside := by simp
  within := by
    intro other member
    rw [List.length_append]
    rcases List.mem_append.mp member with old | new
    · exact (segment.within other old).mono (Nat.le_add_right _ _)
    · rw [List.mem_singleton.mp new]
      exact leads.mono (Nat.le_add_right _ _)

/-- A copy of more code that leads to the entry of the code before it. -/
def followedBy (segment more : Segment) : Segment where
  steps := segment.steps ++
    more.steps.map (·.copied (place (1 + segment.steps.length) segment.entry) id)
  entry := place (1 + segment.steps.length) segment.entry more.entry
  inside := by
    rw [List.length_append, List.length_map]
    exact place_le segment.inside more.inside
  within := by
    intro instruction member
    rw [List.length_append, List.length_map]
    rw [List.mem_append, List.mem_map] at member
    rcases member with old | copy
    · exact (segment.within instruction old).mono (Nat.le_add_right _ _)
    · rcases copy with ⟨original, among, same⟩
      have leads := more.within original among
      rw [← same]
      constructor
      · intro accepts
        exact leads.1 ((Instruction.copied_eq_accept_iff _ _ original).mp accepts)
      · intro target reached
        rw [Instruction.targets_copied, List.mem_map] at reached
        rcases reached with ⟨address, among_targets, placed⟩
        rw [← placed]
        exact place_le segment.inside (leads.2 address among_targets)

section InFront

variable (segment more : Segment) (after : Fragment)

theorem list_in_front : (segment.inFront after).code.toList =
    after.code.toList ++
      segment.steps.map (·.copied (place after.code.size after.entry) id) := by
  rw [inFront, Array.toList_append]

theorem size_in_front :
    (segment.inFront after).code.size = after.code.size + segment.steps.length := by
  rw [← Array.length_toList, list_in_front, List.length_append, Array.length_toList,
    List.length_map]

theorem empty_in_front : empty.inFront after = after := by
  apply Fragment.same_of_code
  · rw [list_in_front]
    exact List.append_nil _
  · rfl

theorem single_in_front (instruction : Instruction) (leads : instruction.LeadsWithin 0) :
    (single instruction leads).inFront after =
      after.push (instruction.copied (place after.code.size after.entry) id) := by
  apply Fragment.same_of_code
  · rw [list_in_front, Fragment.push, Array.toList_push]
    rfl
  · rfl

theorem entered_at_in_front (entry : Nat) (inside : entry ≤ segment.steps.length) :
    (segment.enteredAt entry inside).inFront after =
      ⟨(segment.inFront after).code, place after.code.size after.entry entry⟩ := rfl

theorem starting_with_in_front (instruction : Instruction)
    (leads : instruction.LeadsWithin segment.steps.length) :
    (segment.startingWith instruction leads).inFront after =
      ⟨(segment.inFront after).code.setIfInBounds after.code.size
        (instruction.copied (place after.code.size after.entry) id),
        (segment.inFront after).entry⟩ := by
  apply Fragment.same_of_code
  · rw [list_in_front, startingWith, Array.toList_setIfInBounds, list_in_front, List.map_set,
      ← Array.length_toList, List.set_append_right _ _ (Nat.le_refl _), Nat.sub_self]
  · rfl

theorem followed_by_in_front :
    (segment.followedBy more).inFront after = more.inFront (segment.inFront after) := by
  have through : place (segment.inFront after).code.size (segment.inFront after).entry =
      place after.code.size after.entry ∘ place (1 + segment.steps.length) segment.entry := by
    rw [size_in_front, place_place]
    rfl
  apply Fragment.same_of_code
  · rw [list_in_front, list_in_front, list_in_front, through, followedBy, List.map_append,
      List.map_map, List.append_assoc]
    congr 2
    apply List.map_congr_left
    intro instruction _
    exact Instruction.copied_copied _ _ _ instruction
  · exact (congrFun through more.entry).symm

theorem snoc_in_front (instruction : Instruction)
    (leads : instruction.LeadsWithin segment.steps.length) :
    (segment.snoc instruction leads).inFront after = (segment.inFront after).push
      (instruction.copied (place after.code.size after.entry) id) := by
  apply Fragment.same_of_code
  · rw [Fragment.push, Array.toList_push, list_in_front, list_in_front, snoc, List.map_append,
      List.append_assoc]
    rfl
  · exact (size_in_front segment after).symm

end InFront

end Segment

/-- The part puts a copy of one and the same code in front of every fragment. -/
def Relocates (part : Fragment → Fragment) : Prop :=
  ∃ segment : Segment, ∀ after, part after = segment.inFront after

namespace Relocates

variable {part other : Fragment → Fragment}

theorem comp (first : Relocates part) (second : Relocates other) :
    Relocates fun after => part (other after) := by
  rcases first with ⟨more, placed⟩
  rcases second with ⟨segment, placed_first⟩
  refine ⟨segment.followedBy more, ?_⟩
  intro after
  change part (other after) = _
  rw [placed_first, placed, Segment.followed_by_in_front]

theorem push (instruction : Instruction) (leads : instruction.LeadsWithin 0) :
    Relocates fun after =>
      after.push (instruction.copied (place after.code.size after.entry) id) :=
  ⟨Segment.single instruction leads,
    fun after => (Segment.single_in_front after instruction leads).symm⟩

theorem times (body : Relocates part) (count : Nat) : Relocates (Fragment.times part count) := by
  induction count with
  | zero => exact ⟨Segment.empty, fun after => (Segment.empty_in_front after).symm⟩
  | succ count ih => exact body.comp ih

theorem upTo (body : Relocates part) (greedy : Bool) (count : Nat) :
    Relocates fun after => Fragment.upTo part greedy after.entry count after := by
  induction count with
  | zero => exact ⟨Segment.empty, fun after => (Segment.empty_in_front after).symm⟩
  | succ count ih =>
      rcases body.comp ih with ⟨inside, placed⟩
      refine ⟨inside.snoc (.choose greedy inside.entry 0)
        (Instruction.leads_within_choose greedy inside.inside (Nat.zero_le _)), ?_⟩
      intro after
      change (part _).push (.choose greedy (part _).entry after.entry) = _
      rw [Segment.snoc_in_front, Instruction.copied_choose, ← placed after]
      exact congrArg (Fragment.push _) (congrArg
        (fun entry => Instruction.choose greedy entry after.entry)
        (congrArg Fragment.entry (placed after)))

theorem loop (body : Relocates part) (greedy : Bool) :
    ∃ segment : Segment, ∃ inner, ∃ inside : inner ≤ segment.steps.length, ∀ after,
      Fragment.loop part greedy after = (segment.inFront after,
        ((segment.enteredAt inner inside).inFront after).entry) := by
  have failing : Instruction.LeadsWithin 0 .fail := ⟨by simp, by simp [Instruction.targets]⟩
  rcases body with ⟨turn, placed⟩
  let round := (Segment.single .fail failing).followedBy turn
  have started : 1 ≤ round.steps.length := by
    simp [round, Segment.followedBy, Segment.single]
  have leads := Instruction.leads_within_choose greedy round.inside (Nat.zero_le _)
  refine ⟨(round.startingWith (.choose greedy round.entry 0) leads).enteredAt 1
    (by rw [Segment.startingWith, List.length_set]; exact started), round.entry,
    (round.startingWith _ leads).inside, ?_⟩
  intro after
  have turned : part (after.push .fail) = round.inFront after := by
    rw [placed, Segment.followed_by_in_front, Segment.single_in_front]
    rfl
  rw [Segment.entered_at_in_front, Segment.starting_with_in_front, Instruction.copied_choose]
  simp only [Fragment.loop, turned]
  rfl

end Relocates

/-- Every pattern is compiled to the same code wherever it stands. -/
theorem compile_relocates (pattern : Pattern) : Relocates pattern.compile := by
  induction pattern with
  | empty => exact ⟨Segment.empty, fun after => (Segment.empty_in_front after).symm⟩
  | chars set => exact Relocates.push (.take set 0) ⟨by simp, by simp [Instruction.targets]⟩
  | look condition =>
      exact Relocates.push (.look condition 0) ⟨by simp, by simp [Instruction.targets]⟩
  | cat first second ofFirst ofSecond => exact ofFirst.comp ofSecond
  | alt left right ofLeft ofRight =>
      rcases ofLeft with ⟨leftSegment, leftPlaced⟩
      rcases ofRight with ⟨rightSegment, rightPlaced⟩
      let both := (rightSegment.enteredAt 0 (Nat.zero_le _)).followedBy leftSegment
      have right_inside : rightSegment.entry ≤ both.steps.length := by
        have bound := rightSegment.inside
        simp only [both, Segment.followedBy, Segment.enteredAt, List.length_append]
        omega
      have leads := Instruction.leads_within_choose true both.inside right_inside
      refine ⟨both.snoc (.choose true both.entry rightSegment.entry) leads, ?_⟩
      intro after
      have whole : left.compile ⟨(right.compile after).code, after.entry⟩ = both.inFront after := by
        rw [rightPlaced, leftPlaced, Segment.followed_by_in_front, Segment.entered_at_in_front]
        rfl
      rw [Segment.snoc_in_front, Instruction.copied_choose, compile, whole, rightPlaced]
      rfl
  | group number body ofBody =>
      exact ofBody.comp
        (Relocates.push (.mark number 0) ⟨by simp, by simp [Instruction.targets]⟩)
  | repeated least most greedy body ofBody =>
      cases most with
      | some bound => exact (ofBody.times least).comp (ofBody.upTo greedy (bound - least))
      | none =>
          rcases ofBody.loop greedy with ⟨segment, inner, inside, looped⟩
          cases least with
          | zero =>
              by_cases consumes : body.leastLength?.any (0 < ·) = true
              · refine ⟨segment, ?_⟩
                intro after
                simp only [compile, looped, consumes, if_true]
              · refine ⟨segment.snoc (.choose greedy inner 0)
                  (Instruction.leads_within_choose greedy inside (Nat.zero_le _)), ?_⟩
                intro after
                rw [Segment.snoc_in_front, Instruction.copied_choose]
                simp only [compile, looped, consumes]
                rfl
          | succ count =>
              have entered : Relocates (segment.enteredAt inner inside).inFront :=
                ⟨_, fun after => rfl⟩
              rcases (ofBody.times count).comp entered with ⟨whole, placed⟩
              refine ⟨whole, ?_⟩
              intro after
              rw [← placed after]
              simp only [compile, looped]
              rfl

theorem exists_own_segment (pattern : Pattern) :
    ∃ segment : Segment, segment.steps = pattern.program.code.toList.tail ∧
      segment.entry = pattern.program.entry ∧
      pattern.program.code.toList = .accept :: segment.steps ∧
      ∀ after, pattern.compile after = segment.inFront after := by
  rcases compile_relocates pattern with ⟨segment, placed⟩
  have alone : place (Fragment.mk #[.accept] 0).code.size (Fragment.mk #[.accept] 0).entry = id :=
    place_self
  have unmoved : segment.steps.map (·.copied id id) = segment.steps := by
    rw [List.map_congr_left fun instruction _ => Instruction.copied_id instruction, List.map_id']
  have code : pattern.program.code.toList = .accept :: segment.steps := by
    rw [program, placed, Segment.list_in_front, alone, unmoved]
    rfl
  refine ⟨segment, ?_, ?_, code, placed⟩
  · rw [code, List.tail_cons]
  · rw [program, placed, Segment.inFront, alone]
    rfl

/-- The program of a pattern, seen as code that can stand elsewhere. -/
def own (pattern : Pattern) : Segment where
  steps := pattern.program.code.toList.tail
  entry := pattern.program.entry
  inside := by
    rcases exists_own_segment pattern with ⟨segment, steps, entry, _⟩
    rw [← steps, ← entry]
    exact segment.inside
  within := by
    rcases exists_own_segment pattern with ⟨segment, steps, _⟩
    rw [← steps]
    exact segment.within

theorem own_eq (pattern : Pattern) : pattern.program.code.toList = .accept :: pattern.own.steps ∧
    ∀ after, pattern.compile after = pattern.own.inFront after := by
  rcases exists_own_segment pattern with ⟨segment, steps, entry, code, placed⟩
  have same : pattern.own = segment := Segment.ext steps.symm entry.symm
  rw [same]
  exact ⟨code, placed⟩

theorem own_code (pattern : Pattern) :
    pattern.program.code.toList = .accept :: pattern.own.steps := (own_eq pattern).1

/-- A compiled pattern is a copy of its own program, wherever it stands. -/
theorem compile_eq (pattern : Pattern) (after : Fragment) :
    pattern.compile after = pattern.own.inFront after := (own_eq pattern).2 after

end Pattern

end SlrKit
