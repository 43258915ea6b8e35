import SlrKit.Automaton.Item
import SlrKit.Proofs.Grammar.WellFormed

/-!
# Closures of item sets

The closure of an item set is the least set that holds it and, with an item that has a rule
after its dot, every production of that rule with the dot in front. The work list that computes
it looks at every item once; the rules expanded so far have all their productions in the list.
-/

set_option autoImplicit false

namespace SlrKit

namespace Item

theorem next_eq_some_iff (grammar : Grammar) (item : Item) (symbol : Symbol) :
    item.next? grammar = some symbol ↔
      ∃ bound : item.dot < (grammar.symbols item.production).length,
        (grammar.symbols item.production)[item.dot] = symbol :=
  List.getElem?_eq_some_iff

theorem bound_of_next (grammar : Grammar) (item : Item) (symbol : Symbol)
    (next : item.next? grammar = some symbol) : item.production < grammar.productionCount := by
  apply grammar.bound_of_symbols_ne_nil
  intro empty
  simp [next?, empty] at next

theorem next_mem_symbols (grammar : Grammar) (item : Item) (symbol : Symbol)
    (next : item.next? grammar = some symbol) : symbol ∈ grammar.symbols item.production :=
  List.mem_of_getElem? next

theorem advance_injective : Function.Injective advance := by
  intro left right same
  cases left
  cases right
  simpa [advance] using same

theorem precedes_trans (first second third : Item) (low : first.precedes second = true)
    (high : second.precedes third = true) : first.precedes third = true := by
  simp only [precedes, Bool.or_eq_true, Bool.and_eq_true, decide_eq_true_eq, beq_iff_eq] at *
  omega

theorem precedes_total (left right : Item) :
    (left.precedes right || right.precedes left) = true := by
  simp only [precedes, Bool.or_eq_true, Bool.and_eq_true, decide_eq_true_eq, beq_iff_eq]
  omega

theorem precedes_antisymm (left right : Item) (low : left.precedes right = true)
    (high : right.precedes left = true) : left = right := by
  cases left
  cases right
  simp only [precedes, Bool.or_eq_true, Bool.and_eq_true, decide_eq_true_eq, beq_iff_eq,
    mk.injEq] at *
  omega

end Item

namespace ItemSet

/-- The least set that holds the given items and the productions of every rule that an item of
it has after its dot. -/
inductive Closure (grammar : Grammar) (items : ItemSet) : Item → Prop
  | given {item : Item} (member : item ∈ items) : Closure grammar items item
  | expand {item : Item} {rule production : Nat} (held : Closure grammar items item)
      (next : item.next? grammar = some (.rule rule))
      (produces : production ∈ grammar.productionsOf rule) :
      Closure grammar items ⟨production, 0⟩

variable (grammar : Grammar)

theorem mem_expansions (rule : Nat) (item : Item) :
    item ∈ expansions grammar rule ↔
      item.production ∈ grammar.productionsOf rule ∧ item.dot = 0 := by
  simp only [expansions, List.mem_map]
  constructor
  · rintro ⟨production, member, same⟩
    rw [← same]
    exact ⟨member, rfl⟩
  · rintro ⟨member, front⟩
    refine ⟨item.production, member, ?_⟩
    rw [← front]

theorem expansions_nodup (rule : Nat) : (expansions grammar rule).Nodup := by
  have distinct : (grammar.productionsOf rule).Nodup := List.nodup_range.filter _
  apply List.Pairwise.map _ _ distinct
  intro left right differ same
  exact differ (congrArg Item.production same)

/-- How many productions belong to rules that are not expanded yet. -/
def waiting (expanded : IndexSet) : Nat :=
  (List.range grammar.productionCount).countP fun production =>
    !expanded.contains (grammar.ruleOf production)

theorem waiting_insert (expanded : IndexSet) (rule : Nat)
    (fresh : expanded.contains rule = false) :
    waiting grammar (expanded.insert rule) + (grammar.productionsOf rule).length =
      waiting grammar expanded := by
  simp only [waiting, Grammar.productionsOf, ← List.countP_eq_length_filter,
    IndexSet.contains_insert]
  induction List.range grammar.productionCount with
  | nil => rfl
  | cons production rest ih =>
      simp only [List.countP_cons]
      by_cases own : rule = grammar.ruleOf production
      · rw [← own, fresh]
        simp only [decide_true, Bool.or_true, Bool.not_true, Bool.not_false, beq_self_eq_true,
          Bool.false_eq_true, if_true, if_false]
        omega
      · rw [decide_eq_false own, Bool.or_false, beq_eq_false_iff_ne.mpr (Ne.symm own)]
        simp only [Bool.false_eq_true, if_false]
        omega

theorem waiting_empty : waiting grammar .empty = grammar.productionCount := by
  simp [waiting]

/-- The state of the work list: the items before `pending` have been looked at. -/
structure Progress (items : ItemSet) (pending : List Item) (closed : ItemSet)
    (expanded : IndexSet) : Prop where
  done : ∃ seen, closed = seen ++ pending ∧ ∀ item ∈ seen, ∀ rule,
    item.next? grammar = some (.rule rule) → expanded.contains rule = true
  complete : ∀ rule, expanded.contains rule = true → ∀ item ∈ expansions grammar rule,
    item ∈ closed
  sound : ∀ item ∈ closed, Closure grammar items item
  keeps : items <+: closed

variable {grammar}

theorem Progress.initial (items : ItemSet) : Progress grammar items items items .empty where
  done := ⟨[], rfl, by simp⟩
  complete := by
    intro rule held
    simp at held
  sound := fun _ member => .given member
  keeps := List.prefix_refl items

theorem Progress.skip {items : ItemSet} {item : Item} {pending : List Item} {closed : ItemSet}
    {expanded : IndexSet} (progress : Progress grammar items (item :: pending) closed expanded)
    (settled : ∀ rule, item.next? grammar = some (.rule rule) →
      expanded.contains rule = true) :
    Progress grammar items pending closed expanded := by
  obtain ⟨seen, split, covered⟩ := progress.done
  refine ⟨⟨seen ++ [item], by simp [split], ?_⟩, progress.complete, progress.sound,
    progress.keeps⟩
  intro earlier member
  rcases List.mem_append.mp member with before | last
  · exact covered earlier before
  · rw [List.mem_singleton.mp last]
    exact settled

theorem Progress.expand {items : ItemSet} {item : Item} {pending : List Item}
    {closed : ItemSet} {expanded : IndexSet} {rule : Nat}
    (progress : Progress grammar items (item :: pending) closed expanded)
    (next : item.next? grammar = some (.rule rule)) :
    Progress grammar items
      (pending ++ (expansions grammar rule).filter fun item => !closed.contains item)
      (closed ++ (expansions grammar rule).filter fun item => !closed.contains item)
      (expanded.insert rule) := by
  obtain ⟨seen, split, covered⟩ := progress.done
  refine ⟨⟨seen ++ [item], by simp [split], ?_⟩, ?_, ?_, ?_⟩
  · intro earlier member other otherNext
    rw [IndexSet.contains_insert]
    rcases List.mem_append.mp member with before | last
    · rw [covered earlier before other otherNext, Bool.true_or]
    · rw [List.mem_singleton.mp last, next] at otherNext
      cases otherNext
      simp
  · intro other held fresh member
    rw [IndexSet.contains_insert, Bool.or_eq_true, decide_eq_true_eq] at held
    by_cases already : fresh ∈ closed
    · exact List.mem_append_left _ already
    · rcases held with before | same
      · exact absurd (progress.complete other before fresh member) already
      · rw [← same] at member
        exact List.mem_append_right _ (List.mem_filter.mpr ⟨member, by simpa using already⟩)
  · intro member inside
    rcases List.mem_append.mp inside with before | added
    · exact progress.sound member before
    · have produced := (mem_expansions grammar rule member).mp (List.mem_filter.mp added).1
      have held := progress.sound item (by simp [split])
      have reached := Closure.expand held next produced.1
      rw [← produced.2] at reached
      exact reached
  · exact progress.keeps.trans (List.prefix_append _ _)

theorem close_from_progress (fuel : Nat) {items : ItemSet} (pending : List Item)
    (closed : ItemSet) (expanded : IndexSet)
    (progress : Progress grammar items pending closed expanded)
    (enough : pending.length + waiting grammar expanded ≤ fuel) :
    ∃ all, Progress grammar items [] (closeFrom grammar fuel pending closed expanded) all := by
  induction fuel generalizing pending closed expanded with
  | zero =>
      have empty : pending = [] := List.length_eq_zero_iff.mp (by omega)
      subst empty
      exact ⟨expanded, progress⟩
  | succ fuel ih =>
      cases pending with
      | nil => exact ⟨expanded, progress⟩
      | cons item pending =>
          rw [List.length_cons] at enough
          simp only [closeFrom]
          split
          · rename_i rule next
            split
            · rename_i held
              apply ih _ _ _ (progress.skip ?_) (by omega)
              intro other otherNext
              rw [next] at otherNext
              cases otherNext
              exact held
            · rename_i absent
              have fresh : expanded.contains rule = false := by simpa using absent
              apply ih _ _ _ (progress.expand next)
              have budget := waiting_insert grammar expanded rule fresh
              have added := List.length_filter_le (fun item => !closed.contains item)
                (expansions grammar rule)
              rw [expansions, List.length_map] at added
              rw [List.length_append]
              simp only [expansions] at added ⊢
              omega
          · rename_i noRule
            apply ih _ _ _ (progress.skip ?_) (by omega)
            intro rule next
            exact absurd next (noRule rule)

theorem close_progress (grammar : Grammar) (items : ItemSet) :
    ∃ all, Progress grammar items [] (items.close grammar) all := by
  apply close_from_progress _ _ _ _ (Progress.initial items)
  exact Nat.le_of_eq (by rw [waiting_empty])

/-- The work list computes the closure. -/
theorem mem_close (grammar : Grammar) (items : ItemSet) (item : Item) :
    item ∈ items.close grammar ↔ Closure grammar items item := by
  obtain ⟨all, progress⟩ := close_progress grammar items
  constructor
  · exact progress.sound item
  · intro held
    induction held with
    | given member => exact progress.keeps.subset member
    | @expand item rule production held next produces ih =>
        obtain ⟨seen, split, covered⟩ := progress.done
        rw [List.append_nil] at split
        rw [split] at ih
        apply progress.complete rule (covered item ih rule next)
        exact (mem_expansions grammar rule _).mpr ⟨produces, rfl⟩

theorem close_from_nodup (grammar : Grammar) (fuel : Nat) (pending : List Item)
    (closed : ItemSet) (expanded : IndexSet) (distinct : closed.Nodup) :
    (closeFrom grammar fuel pending closed expanded).Nodup := by
  induction fuel generalizing pending closed expanded with
  | zero => exact distinct
  | succ fuel ih =>
      cases pending with
      | nil => exact distinct
      | cons item pending =>
          simp only [closeFrom]
          split
          · split
            · exact ih _ _ _ distinct
            · rename_i rule _ _
              apply ih
              rw [List.nodup_append]
              refine ⟨distinct, (expansions_nodup grammar rule).filter _, ?_⟩
              intro earlier member other added same
              have absent := (List.mem_filter.mp added).2
              rw [← same] at absent
              simp [member] at absent
          · exact ih _ _ _ distinct

theorem close_nodup (grammar : Grammar) (items : ItemSet) (distinct : items.Nodup) :
    (items.close grammar).Nodup :=
  close_from_nodup grammar _ _ _ _ distinct

theorem mem_goto (grammar : Grammar) (symbol : Symbol) (items : ItemSet) (item : Item) :
    item ∈ items.goto grammar symbol ↔
      ∃ earlier ∈ items, earlier.next? grammar = some symbol ∧ item = earlier.advance := by
  simp only [goto, List.mem_mergeSort, List.mem_map, List.mem_filter, beq_iff_eq]
  constructor
  · rintro ⟨earlier, ⟨member, next⟩, same⟩
    exact ⟨earlier, member, next, same.symm⟩
  · rintro ⟨earlier, member, next, same⟩
    exact ⟨earlier, ⟨member, next⟩, same.symm⟩

theorem mem_next_symbols (grammar : Grammar) (items : ItemSet) (symbol : Symbol) :
    symbol ∈ items.nextSymbols grammar ↔ ∃ item ∈ items, item.next? grammar = some symbol := by
  simp only [nextSymbols, List.mem_eraseDups, List.mem_filterMap]

/-- A kernel in the one form it is written in: without repetitions and in order. -/
structure InOrder (items : ItemSet) : Prop where
  distinct : items.Nodup
  sorted : items.Pairwise fun left right => left.precedes right = true

theorem InOrder.ext {left right : ItemSet} (leftOrder : InOrder left)
    (rightOrder : InOrder right) (same : ∀ item, item ∈ left ↔ item ∈ right) :
    left = right := by
  have permuted : left.Perm right :=
    (List.perm_ext_iff_of_nodup leftOrder.distinct rightOrder.distinct).mpr same
  apply List.Perm.eq_of_pairwise _ leftOrder.sorted rightOrder.sorted permuted
  intro first second _ _ low high
  exact Item.precedes_antisymm first second low high

theorem in_order_singleton (item : Item) : InOrder [item] :=
  ⟨by simp, List.pairwise_singleton _ item⟩

theorem goto_in_order (grammar : Grammar) (symbol : Symbol) (items : ItemSet)
    (distinct : items.Nodup) : InOrder (items.goto grammar symbol) where
  distinct := by
    apply (List.mergeSort_perm _ _).nodup_iff.mpr
    apply List.Pairwise.map _ _ (distinct.filter _)
    intro left right differ same
    exact differ (Item.advance_injective same)
  sorted := List.pairwise_mergeSort Item.precedes_trans Item.precedes_total _

end ItemSet

end SlrKit
