import Mathlib.Data.List.Nodup

/-!
# Lists without repetitions

Erasing what comes again leaves a list without repetitions, and changes nothing but its repetitions.
-/

set_option autoImplicit false

namespace SlrKit

section Distinct

variable {β : Type}

theorem erase_dups_nodup [BEq β] [LawfulBEq β] (items : List β) : items.eraseDups.Nodup := by
  generalize size : items.length = count
  induction count using Nat.strongRecOn generalizing items with
  | ind count ih =>
      cases items with
      | nil => exact List.nodup_nil
      | cons first rest =>
          have shorter : (rest.filter fun other => !other == first).length < count := by
            have kept := List.length_filter_le (fun other => !other == first) rest
            rw [List.length_cons] at size
            omega
          rw [List.eraseDups_cons, List.nodup_cons]
          refine ⟨?_, ih _ shorter _ rfl⟩
          rw [List.mem_eraseDups]
          simp

theorem erase_dups_snoc [DecidableEq β] (items : List β) (last : β) :
    (items ++ [last]).eraseDups =
      if last ∈ items then items.eraseDups else items.eraseDups ++ [last] := by
  rw [List.eraseDups_append, List.removeAll, List.filter_singleton]
  by_cases known : last ∈ items
  · simp [known]
  · simp [known, List.eraseDups_cons]

theorem nodup_of_numbered {γ : Type} (numbers : List Nat) (part : Nat → List γ) (number : γ → Nat)
    (different : numbers.Nodup) (own : ∀ index ∈ numbers, ∀ item ∈ part index, number item = index)
    (distinct : ∀ index ∈ numbers, (part index).Nodup) : (numbers.flatMap part).Nodup := by
  rw [List.nodup_flatMap]
  refine ⟨distinct, different.imp_of_mem ?_⟩
  intro first second firstMember secondMember differ item here there
  exact differ ((own first firstMember item here).symm.trans (own second secondMember item there))

end Distinct

end SlrKit
