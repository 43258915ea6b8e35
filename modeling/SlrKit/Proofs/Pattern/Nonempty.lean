import SlrKit.Proofs.Pattern.Documented

/-!
# Patterns that match no empty text

An address of a program is hungry if no thread comes from it to the end without taking a character. The
entry of a pattern is hungry wherever it stands, if its matches have at least one byte; in front of a
hungry entry, so is that of any pattern. What the searcher of such a pattern finds therefore ends after
the place where it begins.
-/

set_option autoImplicit false

namespace SlrKit

namespace Pattern

/-- The matches of the pattern have at least one byte. -/
def Consumes (pattern : Pattern) : Prop := ∃ size, pattern.leastLength? = some (size + 1)

theorem consumes_of_cat {first second : Pattern} (consumes : (cat first second).Consumes) :
    first.Consumes ∨ second.Consumes := by
  obtain ⟨size, least⟩ := consumes
  simp only [leastLength?] at least
  split at least
  · rename_i left right ofFirst ofSecond
    have whole := Option.some.inj least
    cases left with
    | zero =>
        rw [Nat.zero_add] at whole
        exact Or.inr ⟨size, whole ▸ ofSecond⟩
    | succ left => exact Or.inl ⟨left, ofFirst⟩
  · cases least

theorem consumes_of_alt {left right : Pattern} (consumes : (alt left right).Consumes) :
    left.Consumes ∧ right.Consumes := by
  obtain ⟨size, least⟩ := consumes
  simp only [leastLength?] at least
  split at least
  · rename_i ofLeft ofRight leastLeft leastRight
    have smaller := Option.some.inj least
    constructor
    · exact ⟨ofLeft - 1, by rw [leastLeft]; congr 1; omega⟩
    · exact ⟨ofRight - 1, by rw [leastRight]; congr 1; omega⟩
  · cases least

theorem consumes_of_repeated {least : Nat} {most : Option Nat} {greedy : Bool} {body : Pattern}
    (consumes : (repeated least most greedy body).Consumes) : body.Consumes ∧ 0 < least := by
  obtain ⟨size, whole⟩ := consumes
  simp only [leastLength?] at whole
  split at whole
  · cases whole
  · obtain ⟨once, ofBody, product⟩ := Option.map_eq_some_iff.mp whole
    cases once with
    | zero => cases product
    | succ once =>
        refine ⟨⟨once, ofBody⟩, Nat.pos_of_ne_zero ?_⟩
        intro zero
        rw [zero, Nat.zero_mul] at product
        cases product

/-- The instruction does not accept, and leads to hungry addresses unless it takes a character. -/
def Instruction.Withholds (hungry : Nat → Prop) (instruction : Instruction) : Prop :=
  instruction ≠ .accept ∧ (instruction.rests = false → ∀ target ∈ instruction.targets, hungry target)

theorem Instruction.Withholds.congr {hungry more : Nat → Prop} {instruction : Instruction}
    (withholds : instruction.Withholds hungry)
    (same : ∀ target ∈ instruction.targets, hungry target → more target) :
    instruction.Withholds more :=
  ⟨withholds.1, fun moving target member => same target member (withholds.2 moving target member)⟩

theorem Instruction.withholds_choose {hungry : Nat → Prop} (greedy : Bool) {inside outside : Nat}
    (one : hungry inside) (other : hungry outside) :
    (Instruction.choose greedy inside outside).Withholds hungry := by
  cases greedy <;> simp [choose, Withholds, targets, one, other]

namespace Fragment

@[simp]
theorem size_push (fragment : Fragment) (instruction : Instruction) :
    (fragment.push instruction).code.size = fragment.code.size + 1 := Array.size_push _

/-- What is said to be hungry is so. -/
structure Hungers (fragment : Fragment) (hungry : Nat → Prop) : Prop where
  entry : fragment.entry < fragment.code.size
  within : ∀ (address : Nat) (instruction : Instruction),
    fragment.code[address]? = some instruction →
      ∀ target ∈ instruction.targets, target < fragment.code.size
  withholds : ∀ (address : Nat) (instruction : Instruction),
    fragment.code[address]? = some instruction →
      hungry address → instruction.Withholds hungry

/-- The code of `after` has grown to that of `result`, and what was said of it still holds. -/
structure Grows (after : Fragment) (hungry : Nat → Prop) (result : Fragment) (more : Nat → Prop) :
    Prop where
  hungers : result.Hungers more
  larger : after.code.size ≤ result.code.size
  same : ∀ address, address < after.code.size → more address = hungry address

variable {after fragment result : Fragment} {hungry middle more : Nat → Prop}

theorem Hungers.grows_self (hungers : after.Hungers hungry) : after.Grows hungry after hungry :=
  ⟨hungers, Nat.le_refl _, fun _ _ => rfl⟩

theorem Grows.trans (first : after.Grows hungry fragment middle)
    (second : fragment.Grows middle result more) : after.Grows hungry result more where
  hungers := second.hungers
  larger := Nat.le_trans first.larger second.larger
  same address inside := by
    rw [second.same address (Nat.lt_of_lt_of_le inside first.larger), first.same address inside]

theorem Grows.enteredAt (grows : after.Grows hungry result more) {entry : Nat}
    (inside : entry < result.code.size) : after.Grows hungry ⟨result.code, entry⟩ more :=
  ⟨⟨inside, grows.hungers.within, grows.hungers.withholds⟩, grows.larger, grows.same⟩

theorem Grows.entry_inside (grows : after.Grows hungry result more) (entered : after.Hungers hungry) :
    after.entry < result.code.size := Nat.lt_of_lt_of_le entered.entry grows.larger

theorem Hungers.push (hungers : fragment.Hungers hungry) (instruction : Instruction)
    (leads : ∀ target ∈ instruction.targets, target < fragment.code.size) (new : Prop)
    (withholds : new → instruction.Withholds hungry) :
    fragment.Grows hungry (fragment.push instruction)
      (Function.update hungry fragment.code.size new) := by
  have old : ∀ address, address < fragment.code.size →
      Function.update hungry fragment.code.size new address = hungry address :=
    fun address inside => Function.update_of_ne (Nat.ne_of_lt inside) _ _
  have kept : ∀ other : Instruction, (∀ target ∈ other.targets, target < fragment.code.size) →
      other.Withholds hungry →
        other.Withholds (Function.update hungry fragment.code.size new) := by
    intro other inside held
    apply held.congr
    intro target member known
    rw [old target (inside target member)]
    exact known
  refine ⟨⟨?_, ?_, ?_⟩, ?_, old⟩
  · simp [Fragment.push]
  · intro address other placed target member
    rw [size_push]
    apply Nat.lt_succ_of_lt
    simp only [Fragment.push, Array.getElem?_push] at placed
    split at placed
    · cases placed
      exact leads target member
    · exact hungers.within address other placed target member
  · intro address other placed here
    simp only [Fragment.push, Array.getElem?_push] at placed
    split at placed
    · rename_i last
      cases placed
      rw [last, Function.update_self] at here
      exact kept _ leads (withholds here)
    · rename_i earlier
      rw [Function.update_of_ne earlier] at here
      exact kept other (hungers.within address other placed)
        (hungers.withholds address other placed here)
  · simp

theorem targets_choose_inside {inside outside size : Nat} (greedy : Bool) (one : inside < size)
    (other : outside < size) :
    ∀ target ∈ (Instruction.choose greedy inside outside).targets, target < size := by
  cases greedy <;> simp [Instruction.choose, Instruction.targets, one, other]

theorem Grows.choose_withholds (grows : after.Grows hungry result more)
    (started : after.Hungers hungry) (greedy : Bool) {inner : Nat}
    (entered : hungry after.entry → more inner) (known : hungry after.entry) :
    (Instruction.choose greedy inner after.entry).Withholds more := by
  apply Instruction.withholds_choose greedy (entered known)
  rw [grows.same _ started.entry]
  exact known

/-- A fork in front that can also lead past what has been put in front of `after`. -/
theorem Grows.choose (grows : after.Grows hungry result more) (started : after.Hungers hungry)
    (greedy : Bool) {inner : Nat} (inside : inner < result.code.size)
    (entered : hungry after.entry → more inner) :
    ∃ final : Nat → Prop,
      after.Grows hungry (result.push (.choose greedy inner after.entry)) final ∧
        (hungry after.entry → final (result.push (.choose greedy inner after.entry)).entry) := by
  have leads := targets_choose_inside greedy inside (grows.entry_inside started)
  have withholds := grows.choose_withholds started greedy entered
  refine ⟨_, grows.trans (grows.hungers.push _ leads (hungry after.entry) withholds), ?_⟩
  intro known
  simp only [Fragment.push, Function.update_self]
  exact known

theorem Hungers.replace (hungers : fragment.Hungers hungry) (address entry : Nat)
    {instruction : Instruction} (inside : entry < fragment.code.size)
    (leads : ∀ target ∈ instruction.targets, target < fragment.code.size)
    (withholds : hungry address → instruction.Withholds hungry) :
    (Fragment.mk (fragment.code.setIfInBounds address instruction) entry).Hungers hungry := by
  constructor
  · rw [Array.size_setIfInBounds]
    exact inside
  · intro other found placed
    rw [Array.size_setIfInBounds]
    rw [Array.getElem?_setIfInBounds] at placed
    split at placed
    · split at placed
      · cases placed
        exact leads
      · cases placed
    · exact hungers.within other found placed
  · intro other found placed here
    rw [Array.getElem?_setIfInBounds] at placed
    split at placed
    · rename_i same
      split at placed
      · cases placed
        exact withholds (same ▸ here)
      · cases placed
    · exact hungers.withholds other found placed here

end Fragment

/-- In front of a fragment the part leaves hungry what was so. Its entry is hungry if the part takes
characters, or if that of the fragment was so. -/
def KeepsHungry (part : Fragment → Fragment) (takes : Prop) : Prop :=
  ∀ (after : Fragment) (hungry : Nat → Prop), after.Hungers hungry →
    ∃ more : Nat → Prop, after.Grows hungry (part after) more ∧
      (takes ∨ hungry after.entry → more (part after).entry)

namespace KeepsHungry

variable {part other : Fragment → Fragment} {takes others : Prop}

theorem skip : KeepsHungry id False := by
  intro after hungry hungers
  exact ⟨hungry, hungers.grows_self, fun entered => entered.elim False.elim id⟩

theorem mono (keeps : KeepsHungry part takes) (fewer : others → takes) : KeepsHungry part others := by
  intro after hungry hungers
  obtain ⟨more, grows, entered⟩ := keeps after hungry hungers
  exact ⟨more, grows, fun reason => entered (reason.imp_left fewer)⟩

theorem comp (keeps : KeepsHungry part takes) (first : KeepsHungry other others) :
    KeepsHungry (fun after => part (other after)) (takes ∨ others) := by
  intro after hungry hungers
  obtain ⟨middle, grown, entered⟩ := first after hungry hungers
  obtain ⟨more, grows, arrived⟩ := keeps (other after) middle grown.hungers
  refine ⟨more, grown.trans grows, ?_⟩
  intro reason
  rw [or_assoc] at reason
  exact arrived (reason.imp_right entered)

theorem push (instruction : Nat → Instruction) (leads : ∀ entry, (instruction entry).targets = [entry])
    (rests : takes → ∀ entry, (instruction entry).rests = true)
    (proper : ∀ entry, instruction entry ≠ .accept) :
    KeepsHungry (fun after => after.push (instruction after.entry)) takes := by
  intro after hungry hungers
  have inside : ∀ target ∈ (instruction after.entry).targets, target < after.code.size := by
    intro target member
    rw [leads, List.mem_singleton] at member
    rw [member]
    exact hungers.entry
  have withholds : takes ∨ hungry after.entry →
      (instruction after.entry).Withholds hungry := by
    intro reason
    refine ⟨proper _, ?_⟩
    intro moving target member
    rw [leads, List.mem_singleton] at member
    cases reason with
    | inl takes =>
        rw [rests takes] at moving
        cases moving
    | inr entered => exact member ▸ entered
  refine ⟨_, hungers.push _ inside (takes ∨ hungry after.entry) withholds, ?_⟩
  intro reason
  simp only [Fragment.push, Function.update_self]
  exact reason

theorem times (keeps : KeepsHungry part takes) (count : Nat) :
    KeepsHungry (Fragment.times part count) (takes ∧ 0 < count) := by
  induction count with
  | zero => exact skip.mono fun positive => absurd positive.2 (Nat.lt_irrefl 0)
  | succ count ih => exact (keeps.comp ih).mono fun positive => Or.inl positive.1

theorem upTo (keeps : KeepsHungry part takes) (greedy : Bool) (count : Nat) :
    KeepsHungry (fun after => Fragment.upTo part greedy after.entry count after) False := by
  induction count with
  | zero => exact skip
  | succ count ih =>
      intro after hungry hungers
      obtain ⟨more, grows, entered⟩ := keeps.comp ih after hungry hungers
      obtain ⟨final, grown, arrived⟩ :=
        grows.choose hungers greedy grows.hungers.entry fun known => entered (Or.inr known)
      exact ⟨final, grown, fun reason => arrived (reason.elim False.elim id)⟩

/-- The fork of a loop is as hungry as what comes after it; its inner side is hungry if the part takes
characters. -/
theorem loop (keeps : KeepsHungry part takes) (greedy : Bool) {after : Fragment}
    {hungry : Nat → Prop} (hungers : after.Hungers hungry) :
    ∃ more : Nat → Prop, after.Grows hungry (Fragment.loop part greedy after).1 more ∧
      (hungry after.entry → more (Fragment.loop part greedy after).1.entry) ∧
      (Fragment.loop part greedy after).2 < (Fragment.loop part greedy after).1.code.size ∧
      (takes ∨ hungry after.entry → more (Fragment.loop part greedy after).2) := by
  -- Until the fork takes its place, the failure counts as hungry as the fork will be.
  have pushed := hungers.push .fail (by simp [Instruction.targets])
    (hungry after.entry) fun _ => ⟨by simp, by simp [Instruction.targets]⟩
  obtain ⟨more, grows, entered⟩ := keeps _ _ pushed.hungers
  have grown := pushed.trans grows
  have larger := grows.larger
  rw [Fragment.size_push] at larger
  have fork : more after.code.size = hungry after.entry := by
    have last : after.code.size < (after.push .fail).code.size := by simp
    rw [grows.same _ last, Function.update_self]
  have inner : takes ∨ hungry after.entry → more (part (after.push .fail)).entry := by
    intro reason
    apply entered
    simp only [Fragment.push, Function.update_self]
    exact reason
  have withholds : more after.code.size → (Instruction.choose greedy
      (part (after.push .fail)).entry after.entry).Withholds more := by
    intro known
    rw [fork] at known
    exact grown.choose_withholds hungers greedy (fun own => inner (Or.inr own)) known
  have leads := Fragment.targets_choose_inside greedy grows.hungers.entry (grown.entry_inside hungers)
  have replaced := grows.hungers.replace after.code.size after.code.size larger leads withholds
  have size : (Fragment.loop part greedy after).1.code.size =
      (part (after.push .fail)).code.size := Array.size_setIfInBounds
  refine ⟨more, ⟨replaced, ?_, grown.same⟩, fun known => fork.symm ▸ known, ?_, inner⟩
  · rw [size]
    exact grown.larger
  · rw [size]
    exact grows.hungers.entry

end KeepsHungry

theorem compile_keeps_hungry (pattern : Pattern) : KeepsHungry pattern.compile pattern.Consumes := by
  induction pattern with
  | empty => exact KeepsHungry.skip.mono fun ⟨_, least⟩ => by cases least
  | chars set =>
      exact KeepsHungry.push (.take set) (fun _ => rfl) (fun _ _ => rfl) fun _ => by simp
  | look condition =>
      have never : ¬(look condition).Consumes := fun ⟨_, least⟩ => by cases least
      exact KeepsHungry.push (.look condition) (fun _ => rfl) (fun takes => absurd takes never)
        fun _ => by simp
  | cat first second ofFirst ofSecond => exact (ofFirst.comp ofSecond).mono consumes_of_cat
  | alt left right ofLeft ofRight =>
      intro after hungry hungers
      obtain ⟨middle, grown, enteredRight⟩ := ofRight after hungry hungers
      have back := grown.enteredAt (grown.entry_inside hungers)
      obtain ⟨more, grows, enteredLeft⟩ := ofLeft _ middle back.hungers
      have sides : (alt left right).Consumes ∨ hungry after.entry →
          (Instruction.fork (left.compile ⟨(right.compile after).code, after.entry⟩).entry
            (right.compile after).entry).Withholds more := by
        intro reason
        have ofSides := reason.imp_left consumes_of_alt
        have first := enteredLeft (by
          rw [grown.same _ hungers.entry]
          exact ofSides.imp_left And.left)
        have second := enteredRight (ofSides.imp_left And.right)
        rw [← grows.same _ grown.hungers.entry] at second
        exact Instruction.withholds_choose true first second
      have leads := Fragment.targets_choose_inside true grows.hungers.entry
        (Nat.lt_of_lt_of_le grown.hungers.entry grows.larger)
      refine ⟨_, (back.trans grows).trans (grows.hungers.push _ leads _ sides), ?_⟩
      intro reason
      simp only [compile, Fragment.push, Function.update_self]
      exact reason
  | group number body ofBody =>
      have marks : KeepsHungry (fun after => after.push (.mark number after.entry)) False :=
        KeepsHungry.push (.mark number) (fun _ => rfl) (fun takes => takes.elim) fun _ => by simp
      exact (ofBody.comp marks).mono Or.inl
  | repeated least most greedy body ofBody =>
      cases most with
      | some bound =>
          have whole := (ofBody.times least).comp (ofBody.upTo greedy (bound - least))
          exact whole.mono fun consumes => Or.inl (consumes_of_repeated consumes)
      | none =>
          intro after hungry hungers
          obtain ⟨more, grows, entered, inside, enteredInside⟩ := ofBody.loop greedy hungers
          generalize looped : Fragment.loop body.compile greedy after = both at *
          obtain ⟨looping, inner⟩ := both
          cases least with
          | zero =>
              -- The repetition may be left at once, so only what comes after it makes it hungry.
              have only : (repeated 0 none greedy body).Consumes ∨ hungry after.entry →
                  hungry after.entry := fun reason =>
                reason.elim
                  (fun consumes => absurd (consumes_of_repeated consumes).2 (Nat.lt_irrefl 0)) id
              by_cases consumes : body.leastLength?.any (0 < ·) = true
              · simp only [compile, looped, consumes, if_true]
                exact ⟨more, grows, fun reason => entered (only reason)⟩
              · obtain ⟨final, grown, arrived⟩ :=
                  grows.choose hungers greedy inside fun known => enteredInside (Or.inr known)
                simp only [compile, looped, consumes, Bool.false_eq_true, if_false]
                exact ⟨final, grown, fun reason => arrived (only reason)⟩
          | succ count =>
              have started := grows.enteredAt inside
              obtain ⟨last, grown, arrived⟩ := ofBody.times count _ more started.hungers
              simp only [compile, looped]
              refine ⟨last, started.trans grown, ?_⟩
              intro reason
              apply arrived
              exact Or.inr (enteredInside (reason.imp_left fun consumes =>
                (consumes_of_repeated consumes).1))

section Running

theorem program_hungers {pattern : Pattern} (consumes : pattern.Consumes) :
    ∃ hungry : Nat → Prop, hungry pattern.program.entry ∧
      ∀ address, hungry address → (pattern.program.instruction address).Withholds hungry := by
  have alone : (Fragment.mk #[.accept] 0).Hungers fun _ => False := by
    refine ⟨Nat.zero_lt_one, ?_, fun _ _ _ here => here.elim⟩
    intro address instruction placed
    cases address with
    | zero =>
        cases placed
        simp [Instruction.targets]
    | succ address => cases placed
  obtain ⟨hungry, grows, entered⟩ := compile_keeps_hungry pattern _ _ alone
  refine ⟨hungry, entered (Or.inl consumes), ?_⟩
  intro address here
  rw [Program.instruction, Array.getD_eq_getD_getElem?]
  cases placed : pattern.program.code[address]? with
  | none => exact ⟨by simp, by simp [Instruction.targets]⟩
  | some instruction => exact grows.hungers.withholds address instruction placed here

variable {program : Program} {hungry : Nat → Prop}
  (withholds : ∀ address, hungry address → (program.instruction address).Withholds hungry)

include withholds

theorem settled_hungry {before after : Option Char} {pending settled : List Thread}
    {visited final : Nat → Bool}
    (settles : Program.Settles program before after pending visited settled final)
    (started : ∀ thread ∈ pending, hungry thread.address) :
    ∀ thread ∈ settled, hungry thread.address := by
  induction settles with
  | done => exact started
  | seen _ _ ih => exact ih fun thread member => started thread (List.mem_cons_of_mem _ member)
  | rest _ _ _ ih =>
      intro thread member
      cases List.mem_cons.mp member with
      | inl same => exact same ▸ started _ List.mem_cons_self
      | inr later =>
          exact ih (fun other among => started other (List.mem_cons_of_mem _ among)) thread later
  | @move thread _ _ _ _ _ moving _ ih =>
      apply ih
      intro other member
      cases List.mem_append.mp member with
      | inl moved =>
          have leads := withholds _ (started thread List.mem_cons_self)
          exact leads.2 moving _ (Program.moves_within before after _ _ other moved)
      | inr later => exact started other (List.mem_cons_of_mem _ later)

theorem unmatched_of_hungry {thread : Thread} (here : hungry thread.address) :
    program.isMatch thread = false := by
  rw [Program.isMatch, beq_eq_false_iff_ne]
  exact (withholds _ here).1

end Running

theorem length_of_advance {program : Program} {count : Nat} {threads : List Thread}
    {text : List Char} {found : Program.Match}
    (matched : program.advance count threads none text = some found) :
    count ≤ found.length ∧ found.length ≤ count + text.length := by
  have ofBetter : ∀ {count : Nat} {threads : List Thread} {found : Program.Match},
      program.better count threads none = some found → found.length = count := by
    intro count threads found better
    unfold Program.better at better
    split at better
    · cases better
      rfl
    · cases better
  induction text generalizing count threads with
  | nil =>
      have length := ofBetter matched
      simp [length]
  | cons c rest ih =>
      rw [Program.advance_cons, Program.advance_eq_or, Option.or_eq_some_iff] at matched
      rw [List.length_cons]
      cases matched with
      | inl later =>
          have bounds := ih later
          omega
      | inr here =>
          have length := ofBetter here.2
          omega

theorem length_of_run {pattern : Pattern} (consumes : pattern.Consumes) {before : Option Char}
    {text : List Char} {found : Program.Match}
    (matched : pattern.program.run before text = some found) :
    0 < found.length ∧ found.length ≤ text.length := by
  obtain ⟨hungry, entered, withholds⟩ := program_hungers consumes
  obtain ⟨_, settles⟩ := Program.settled_spec pattern.program before text.head?
    [⟨pattern.program.entry, []⟩]
  have started := settled_hungry withholds settles (by simpa using entered)
  have unmatched := Program.better_of_unmatched 0 _ fun thread member =>
    unmatched_of_hungry withholds (started thread member)
  rw [Program.run] at matched
  cases text with
  | nil =>
      rw [Program.advance, unmatched] at matched
      cases matched
  | cons c rest =>
      rw [Program.advance_cons, unmatched] at matched
      have bounds := length_of_advance matched
      rw [List.length_cons]
      omega

/-- Where the matches of a pattern have at least one byte, its searcher finds no other ones. -/
theorem ends_after_cursor {text : String} {search : Regex.Searcher} {size : Nat}
    (compiled : library.compile text = .ok search)
    (least : library.leastSize text = .ok (some (size + 1))) : Regex.EndsAfterCursor search := by
  obtain ⟨reading, read, rfl⟩ := read_of_compile compiled
  have consumes : reading.pattern.Consumes := by
    simp only [library, read] at least
    exact ⟨size, Except.ok.inj least⟩
  intro behind ahead shown searched
  obtain ⟨found, matched, rfl⟩ := Option.map_eq_some_iff.mp searched
  obtain ⟨positive, inside⟩ := length_of_run consumes matched
  refine ⟨ahead.take found.length, ?_, ?_⟩
  · rw [← List.length_pos_iff, List.length_take]
    omega
  · apply Text.takeBytes?_eq_some_iff.mpr
    exact ⟨ahead.drop found.length, (List.take_append_drop _ _).symm, rfl⟩

end Pattern

end SlrKit
