import Mathlib.Data.Finset.Card
import SlrKit.Grammar.IndexSet

/-!
# Growing to a fixed point

FIRST and FOLLOW sets grow until nothing is added. A value is described by the facts that hold
of it; a step that never drops a fact and has finitely many facts to add ends in a value that
it leaves alone, and so does every part of which the step is composed.
-/

set_option autoImplicit false

namespace SlrKit

/-- Taking the step again and again comes to the final value, which the step leaves alone. -/
inductive Settles {β : Type} (step : β → β) : β → β → Prop
  | still {final : β} (same : step final = final) : Settles step final final
  | move {current final : β} (changed : step current ≠ current)
      (later : Settles step (step current) final) : Settles step current final

section UntilStable

variable {β : Type} [DecidableEq β] {step : β → β}

theorem settles_until_stable (fuel : Nat) (current : β)
    (same : step (untilStable step fuel current) = untilStable step fuel current) :
    Settles step current (untilStable step fuel current) := by
  induction fuel generalizing current with
  | zero => exact .still same
  | succ fuel ih =>
      simp only [untilStable] at same ⊢
      split
      · rename_i stable
        exact .still stable
      · rename_i changed
        rw [if_neg changed] at same
        exact .move changed (ih (step current) same)

theorem until_stable_keeps (Holds : β → Prop)
    (keeps : ∀ current, Holds current → Holds (step current)) (fuel : Nat) (current : β)
    (holds : Holds current) : Holds (untilStable step fuel current) := by
  induction fuel generalizing current with
  | zero => exact holds
  | succ fuel ih =>
      simp only [untilStable]
      split
      · exact holds
      · exact ih (step current) (keeps current holds)

end UntilStable

/-- Values of one kind, each pinned down by the facts that hold of it. -/
structure Facts (β ι : Type) where
  valid : β → Prop
  holds : β → ι → Prop
  ext : ∀ left right, valid left → valid right →
    (∀ fact, holds left fact ↔ holds right fact) → left = right

namespace Facts

variable {β γ ι : Type} (facts : Facts β ι)

/-- The step keeps every fact. -/
def Grows (step : β → β) : Prop :=
  ∀ current, facts.valid current → facts.valid (step current) ∧
    ∀ fact, facts.holds current fact → facts.holds (step current) fact

variable {facts}

theorem grows_id : facts.Grows fun current => current :=
  fun _ valid => ⟨valid, fun _ holds => holds⟩

theorem Grows.comp {first second : β → β} (firstGrows : facts.Grows first)
    (secondGrows : facts.Grows second) : facts.Grows fun current => second (first current) := by
  intro current valid
  obtain ⟨between, kept⟩ := firstGrows current valid
  obtain ⟨after, keptAgain⟩ := secondGrows (first current) between
  exact ⟨after, fun fact holds => keptAgain fact (kept fact holds)⟩

theorem Grows.foldl (step : β → γ → β) (parts : List γ)
    (grows : ∀ part ∈ parts, facts.Grows fun current => step current part) :
    facts.Grows fun current => parts.foldl step current := by
  induction parts with
  | nil => exact grows_id
  | cons part rest ih =>
      have first := grows part List.mem_cons_self
      have others := ih fun other member => grows other (List.mem_cons_of_mem _ member)
      exact first.comp others

theorem Grows.fixed_of_comp {first second : β → β} (firstGrows : facts.Grows first)
    (secondGrows : facts.Grows second) (current : β) (valid : facts.valid current)
    (fixed : second (first current) = current) : first current = current := by
  obtain ⟨between, kept⟩ := firstGrows current valid
  obtain ⟨_, keptAgain⟩ := secondGrows (first current) between
  apply facts.ext _ _ between valid
  intro fact
  constructor
  · intro holds
    rw [← fixed]
    exact keptAgain fact holds
  · exact kept fact

theorem Grows.fixed_of_foldl (step : β → γ → β) (parts : List γ)
    (grows : ∀ part ∈ parts, facts.Grows fun current => step current part)
    (current : β) (valid : facts.valid current) (fixed : parts.foldl step current = current) :
    ∀ part ∈ parts, step current part = current := by
  induction parts with
  | nil =>
      intro part member
      cases member
  | cons part rest ih =>
      have first := grows part List.mem_cons_self
      have others : ∀ other ∈ rest, facts.Grows fun current => step current other :=
        fun other member => grows other (List.mem_cons_of_mem _ member)
      have same : step current part = current :=
        first.fixed_of_comp (Grows.foldl step rest others) current valid fixed
      rw [List.foldl_cons, same] at fixed
      intro other member
      rcases List.mem_cons.mp member with here | later
      · rw [here]
        exact same
      · exact ih others fixed other later

open Classical in
/-- The facts that hold, among finitely many. -/
noncomputable def known (facts : Facts β ι) (all : Finset ι) (current : β) : Finset ι :=
  all.filter (facts.holds current)

theorem mem_known (all : Finset ι) (current : β) (fact : ι) :
    fact ∈ facts.known all current ↔ fact ∈ all ∧ facts.holds current fact := by
  classical
  exact Finset.mem_filter

theorem Grows.known_lt {step : β → β} (grows : facts.Grows step) (all : Finset ι)
    (within : ∀ current fact, facts.valid current → facts.holds current fact → fact ∈ all)
    (current : β) (valid : facts.valid current) (changed : step current ≠ current) :
    (facts.known all current).card < (facts.known all (step current)).card := by
  obtain ⟨after, kept⟩ := grows current valid
  apply Finset.card_lt_card
  rw [Finset.ssubset_iff_subset_ne]
  constructor
  · intro fact member
    obtain ⟨inside, holds⟩ := (mem_known all current fact).mp member
    exact (mem_known all _ fact).mpr ⟨inside, kept fact holds⟩
  · intro same
    apply changed
    apply facts.ext _ _ after valid
    intro fact
    constructor
    · intro holds
      have member := (mem_known all _ fact).mpr ⟨within _ fact after holds, holds⟩
      rw [← same] at member
      exact ((mem_known all current fact).mp member).2
    · exact kept fact

/-- With room for all facts, the loop ends in a value that the step leaves alone. -/
theorem Grows.until_stable [DecidableEq β] {step : β → β} (grows : facts.Grows step)
    (all : Finset ι)
    (within : ∀ current fact, facts.valid current → facts.holds current fact → fact ∈ all)
    (fuel : Nat) (current : β) (valid : facts.valid current)
    (enough : all.card < (facts.known all current).card + fuel) :
    facts.valid (untilStable step fuel current) ∧
      (∀ fact, facts.holds current fact → facts.holds (untilStable step fuel current) fact) ∧
      step (untilStable step fuel current) = untilStable step fuel current := by
  induction fuel generalizing current with
  | zero =>
      have few : (facts.known all current).card ≤ all.card := by
        apply Finset.card_le_card
        intro fact member
        exact ((mem_known all current fact).mp member).1
      omega
  | succ fuel ih =>
      simp only [untilStable]
      split
      · rename_i stable
        exact ⟨valid, fun _ holds => holds, stable⟩
      · rename_i changed
        obtain ⟨after, kept⟩ := grows current valid
        have more := grows.known_lt all within current valid changed
        obtain ⟨final, keptAgain, fixed⟩ := ih (step current) after (by omega)
        exact ⟨final, fun fact holds => keptAgain fact (kept fact holds), fixed⟩

end Facts

end SlrKit
