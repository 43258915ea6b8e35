import SlrKit.Proofs.Pattern.Nesting

/-!
# Names that clash

No pattern names two of its groups alike. So a pattern that stands in a group of a larger text cannot be
read there, if one of its names has been given before the group.
-/

set_option autoImplicit false

namespace SlrKit

namespace Pattern

namespace Reader

variable {reader next around : Reader} {number : Nat → Nat}

theorem names_nodup_of_apply {edit : Edit} (applied : edit.apply reader = some next)
    (distinct : reader.names.Nodup) : next.names.Nodup := by
  cases edit with
  | chars set | look condition | branch | group | scope flags | setting flags =>
      cases applied
      exact distinct
  | named name =>
      rw [Edit.apply] at applied
      split at applied
      · cases applied
      · rename_i unknown
        cases applied
        rw [List.contains_eq_mem, decide_eq_true_eq] at unknown
        exact List.nodup_cons.mpr ⟨unknown, distinct⟩
  | leave =>
      rw [Edit.apply, leave?] at applied
      split at applied
      · cases applied
      · cases applied
        exact distinct
  | again least most lazy =>
      rw [Edit.apply, repeatLast?] at applied
      split at applied
      · cases applied
        exact distinct
      · cases applied

theorem apply_clashing {edit : Edit} (applied : edit.apply reader = some next)
    (free : ∀ name ∈ reader.names, name ∉ around.names)
    (clash : ∃ name ∈ next.names, name ∈ around.names) :
    edit.apply (around.inside number reader) = none := by
  obtain ⟨taken, member, known⟩ := clash
  have unread : taken ∉ reader.names := fun earlier => free taken earlier known
  cases edit with
  | chars set | look condition | branch | group | scope flags | setting flags =>
      cases applied
      exact absurd member unread
  | named name =>
      rw [Edit.apply] at applied ⊢
      split at applied
      · cases applied
      · cases applied
        have own : taken = name := (List.mem_cons.mp member).resolve_right unread
        have there : (around.inside number reader).names.contains name = true := by
          rw [List.contains_eq_mem, decide_eq_true_eq, ← own]
          exact List.mem_append_right _ known
        rw [if_pos there]
  | leave =>
      rw [Edit.apply, leave?] at applied
      split at applied
      · cases applied
      · cases applied
        exact absurd member unread
  | again least most lazy =>
      rw [Edit.apply, repeatLast?] at applied
      split at applied
      · cases applied
        exact absurd member unread
      · cases applied

end Reader

section Reading

variable {reader final : Reader} {text : List Char}

theorem names_nodup_of_read_all (fuel : Nat) (read : readAll fuel reader text = some final)
    (distinct : reader.names.Nodup) : final.names.Nodup := by
  induction fuel generalizing reader text with
  | zero => cases read
  | succ fuel ih =>
      rw [readAll] at read
      split at read
      · split at read
        · cases read
          exact distinct
        · cases read
      · rcases Option.bind_eq_some_iff.mp read with ⟨⟨next, after⟩, part, later⟩
        rcases read_part_shut part with ⟨edit, applied, _⟩
        exact ih later (Reader.names_nodup_of_apply applied distinct)

/-- In a group that follows one of its names, the text cannot be read, whatever comes behind it. -/
def GetsStuck (reader : Reader) (text : List Char) (final : Reader) : Prop :=
  ∀ (around : Reader) (number : Nat → Nat) (behind : List Char) (more : Nat),
    (∀ count, number (count + 1) = around.groups + (count + 1)) →
    (∀ name ∈ reader.names, name ∉ around.names) → (∃ name ∈ final.names, name ∈ around.names) →
      readAll more (around.inside number reader) (text ++ ')' :: behind) = none

/-- By induction on the parts of the text, of which one gives the first name that is taken. -/
theorem read_all_stuck (fuel : Nat) (read : readAll fuel reader text = some final) :
    GetsStuck reader text final ∨ StaysInside reader text final := by
  induction fuel generalizing reader text with
  | zero => cases read
  | succ fuel ih =>
      rw [readAll] at read
      cases ahead : reader.flags.skip text with
      | nil =>
          rw [ahead] at read
          simp only at read
          split at read
          · cases read
            refine Or.inl ?_
            intro around number behind more _ free clash
            obtain ⟨taken, member, known⟩ := clash
            exact absurd known (free taken member)
          · cases read
      | cons c rest =>
          rw [ahead] at read
          rcases Option.bind_eq_some_iff.mp read with ⟨⟨next, after⟩, part, later⟩
          rcases read_part_shut part with ⟨edit, applied, alike | swallowed⟩
          · have kept := names_of_read_all fuel later
            rcases ih later with stuck | stays
            · refine Or.inl ?_
              intro around number behind more counts free clash
              cases more with
              | zero => rfl
              | succ more =>
                  have skipped : (around.inside number reader).flags.skip (text ++ ')' :: behind) =
                      c :: (rest ++ ')' :: behind) := skip_append reader.flags ahead
                  have unfolded := alike behind (around.inside number reader) rfl
                  simp only at unfolded
                  rw [readAll, skipped]
                  simp only [unfolded]
                  by_cases fresh : ∀ name ∈ next.names, name ∉ around.names
                  · rw [Reader.apply_inside counts applied fresh]
                    exact stuck around number behind more counts fresh clash
                  · push Not at fresh
                    rw [Reader.apply_clashing applied free fresh]
                    rfl
            · exact Or.inr (stays_inside_of_next (leads_in_of_alike ahead applied kept alike) stays)
          · exact Or.inr (stays_inside_of_swallowed ahead applied (names_of_read_all fuel later)
              swallowed)

theorem names_nodup_of_read {reading : Reading} (read : read? text = some reading) :
    reading.names.Nodup := by
  rcases Option.map_eq_some_iff.mp read with ⟨final, all, same⟩
  cases same
  exact names_nodup_of_read_all _ all List.nodup_nil

theorem stuck_in_group {reading : Reading} (parsed : SelfContained text reading) (around : Reader)
    (behind : List Char) (unset : around.flags = {})
    (clash : ∃ name ∈ reading.names, name ∈ around.names) (more : Nat) :
    readAll (1 + more) around ('(' :: (text ++ ')' :: behind)) = none := by
  rcases parsed with ⟨⟨whole, shut⟩, alone⟩
  have opens := opens_group alone around behind unset
  rcases Option.map_eq_some_iff.mp alone with ⟨final, all, same⟩
  cases same
  rcases read_all_stuck _ all with stuck | stays
  · have inside := stuck around.enterNumbered (around.groups + 1 + ·) behind more (fun _ => rfl)
      (fun _ member => absurd member List.not_mem_nil) clash
    rw [nothing_read_inside around unset] at inside
    rw [opens more, inside]
  · exact (closed_of_anchored shut stays).elim

end Reading

end Pattern

end SlrKit
