import SlrKit.Automaton.Scan
import SlrKit.Proofs.Automaton.Closure

/-!
# Closing in place gives the closure

An item set that is closed while it is scanned comes to the list that the work list computes, without
a fault and after finitely many steps, although each rule is expanded only once. The result does not
depend on the order of the items but for the order of its own, and closing it again adds nothing.
-/

set_option autoImplicit false

namespace SlrKit

namespace ItemSet

section Adding

theorem mem_add (items : ItemSet) (item other : Item) :
    other ∈ items.add item ↔ other ∈ items ∨ other = item := by
  unfold add
  split
  · rename_i known
    rw [List.contains_eq_mem, decide_eq_true_eq] at known
    constructor
    · exact .inl
    · rintro (member | rfl)
      · exact member
      · exact known
  · simp

theorem add_nodup (items : ItemSet) (item : Item) (distinct : items.Nodup) :
    (items.add item).Nodup := by
  unfold add
  split
  · exact distinct
  · rename_i fresh
    rw [List.contains_eq_mem, decide_eq_true_eq] at fresh
    rw [← List.concat_eq_append]
    exact distinct.concat fresh

theorem mem_add_all (added : List Item) (items : ItemSet) (item : Item) :
    item ∈ added.foldl add items ↔ item ∈ items ∨ item ∈ added := by
  induction added generalizing items with
  | nil => simp
  | cons first rest ih =>
      rw [List.foldl_cons, ih, mem_add, List.mem_cons, or_assoc]

theorem add_all_nodup (added : List Item) (items : ItemSet) (distinct : items.Nodup) :
    (added.foldl add items).Nodup := by
  induction added generalizing items with
  | nil => exact distinct
  | cons first rest ih => exact ih _ (add_nodup items first distinct)

theorem add_all_eq (added : List Item) (items : ItemSet) (different : added.Nodup) :
    added.foldl add items = items ++ added.filter fun item => !items.contains item := by
  induction added generalizing items with
  | nil => simp
  | cons first rest ih =>
      obtain ⟨alone, others⟩ := List.nodup_cons.mp different
      rw [List.foldl_cons, ih _ others]
      by_cases known : first ∈ items
      · simp [add, known]
      · have kept : (rest.filter fun item => !(items ++ [first]).contains item) =
            rest.filter fun item => !items.contains item := by
          apply List.filter_congr
          intro item member
          have other : item ≠ first := fun same => alone (same ▸ member)
          simp [other]
        have appended : items.add first = items ++ [first] := by simp [add, known]
        rw [appended, kept, List.filter_cons_of_pos (by simpa using known), List.append_assoc,
          List.singleton_append]

end Adding

end ItemSet

namespace Scan

variable {grammar : Grammar}

theorem step_ended {scan : Scan} (ended : scan.items.length ≤ scan.looked) :
    scan.step grammar = .ok none := by
  rw [step, List.getElem?_eq_none ended]

theorem step_expands {scan : Scan} {item : Item} {rule : Nat}
    (there : scan.items[scan.looked]? = some item)
    (known : item.production < grammar.productionCount)
    (next : item.next? grammar = some (.rule rule)) (bound : rule < grammar.ruleCount)
    (fresh : scan.expanded.contains rule = false) :
    scan.step grammar = .ok (some (scan.expand grammar rule)) := by
  simp only [step, there, if_neg (Nat.not_le.mpr known), next, if_neg (Nat.not_le.mpr bound), fresh,
    Bool.false_eq_true, if_false]

theorem step_passes {scan : Scan} {item : Item} (there : scan.items[scan.looked]? = some item)
    (known : item.production < grammar.productionCount)
    (settled : ∀ rule, item.next? grammar = some (.rule rule) →
      rule < grammar.ruleCount ∧ scan.expanded.contains rule = true) :
    scan.step grammar = .ok (some scan.pass) := by
  simp only [step, there, if_neg (Nat.not_le.mpr known)]
  split
  · rename_i rule next
    obtain ⟨bound, held⟩ := settled rule next
    rw [if_neg (Nat.not_le.mpr bound), if_pos held]
  · rfl

section Steps

variable (seen pending : List Item) (item : Item) (expanded : IndexSet)

theorem pass_eq : pass ⟨seen ++ item :: pending, seen.length, expanded⟩ =
    ⟨(seen ++ [item]) ++ pending, (seen ++ [item]).length, expanded⟩ := by
  simp [pass]

theorem expand_eq (rule : Nat) :
    expand grammar rule ⟨seen ++ item :: pending, seen.length, expanded⟩ =
      ⟨(seen ++ [item]) ++ (pending ++ (ItemSet.expansions grammar rule).filter fun other =>
          !(seen ++ item :: pending).contains other),
        (seen ++ [item]).length, expanded.insert rule⟩ := by
  have added := ItemSet.add_all_eq (ItemSet.expansions grammar rule) (seen ++ item :: pending)
    (ItemSet.expansions_nodup grammar rule)
  rw [ItemSet.expansions, List.foldl_map] at added
  rw [expand, added]
  simp [ItemSet.expansions]

end Steps

/-- By induction on the bound of the work list: a step of the scan takes the next item from the list. -/
theorem ends_of_close_from (wellFormed : grammar.WellFormed) (fuel : Nat)
    (seen pending : List Item) (expanded : IndexSet)
    (known : ∀ item ∈ seen ++ pending, item.production < grammar.productionCount)
    (enough : pending.length + ItemSet.waiting grammar expanded ≤ fuel) :
    Ends grammar ⟨seen ++ pending, seen.length, expanded⟩
      (ItemSet.closeFrom grammar fuel pending (seen ++ pending) expanded) := by
  induction fuel generalizing seen pending expanded with
  | zero =>
      obtain rfl : pending = [] := List.length_eq_zero_iff.mp (by omega)
      exact .done (step_ended (by simp))
  | succ fuel ih =>
      cases pending with
      | nil => exact .done (step_ended (by simp))
      | cons item pending =>
          rw [List.length_cons] at enough
          have there : (seen ++ item :: pending)[seen.length]? = some item := by simp
          have own : item.production < grammar.productionCount := known item (by simp)
          have passed (settled : ∀ rule, item.next? grammar = some (.rule rule) →
              rule < grammar.ruleCount ∧ expanded.contains rule = true) :
              Ends grammar ⟨seen ++ item :: pending, seen.length, expanded⟩
                (ItemSet.closeFrom grammar fuel pending (seen ++ item :: pending) expanded) := by
            have later := ih (seen ++ [item]) pending expanded (by simpa using known) (by omega)
            rw [← pass_eq, List.append_assoc, List.singleton_append] at later
            exact .next (step_passes there own settled) later
          rw [ItemSet.closeFrom]
          split
          · rename_i rule next
            have bound : rule < grammar.ruleCount :=
              (wellFormed.symbolsOccur item.production (.rule rule)
                (Item.next_mem_symbols grammar item _ next)).2
            split
            · rename_i held
              apply passed
              intro other otherNext
              rw [next] at otherNext
              cases otherNext
              exact ⟨bound, held⟩
            · rename_i absent
              have fresh : expanded.contains rule = false := by simpa using absent
              have budget := ItemSet.waiting_insert grammar expanded rule fresh
              have few := List.length_filter_le
                (fun other => !(seen ++ item :: pending).contains other)
                (ItemSet.expansions grammar rule)
              have count : (ItemSet.expansions grammar rule).length =
                  (grammar.productionsOf rule).length := List.length_map _
              have later := ih (seen ++ [item])
                (pending ++ (ItemSet.expansions grammar rule).filter fun other =>
                  !(seen ++ item :: pending).contains other)
                (expanded.insert rule) ?_ ?_
              · rw [← expand_eq] at later
                refine .next (step_expands there own next bound fresh) ?_
                simpa using later
              · intro other member
                rw [← List.append_assoc] at member
                rcases List.mem_append.mp member with before | added
                · exact known other (by simpa using before)
                · have produced := (ItemSet.mem_expansions grammar rule other).mp
                    (List.mem_filter.mp added).1
                  exact ((Grammar.mem_productions_of grammar rule _).mp produced.1).1
              · rw [List.length_append]
                omega
          · rename_i noRule
            exact passed fun rule next => absurd next (noRule rule)

end Scan

namespace ItemSet

theorem close_from_closed (grammar : Grammar) (closed : ItemSet)
    (complete : ∀ item ∈ closed, ∀ rule, item.next? grammar = some (.rule rule) →
      ∀ other ∈ expansions grammar rule, other ∈ closed)
    (fuel : Nat) (pending : List Item) (within : ∀ item ∈ pending, item ∈ closed)
    (expanded : IndexSet) : closeFrom grammar fuel pending closed expanded = closed := by
  induction fuel generalizing pending expanded with
  | zero => rfl
  | succ fuel ih =>
      cases pending with
      | nil => rfl
      | cons item pending =>
          have rest := fun other member => within other (List.mem_cons_of_mem item member)
          rw [closeFrom]
          split
          · rename_i rule next
            split
            · exact ih pending rest expanded
            · have nothing : ((expansions grammar rule).filter fun other =>
                  !closed.contains other) = [] := by
                rw [List.filter_eq_nil_iff]
                intro other member
                simpa using complete item (within item List.mem_cons_self) rule next other member
              simp only [nothing, List.append_nil]
              exact ih pending rest (expanded.insert rule)
          · exact ih pending rest expanded

theorem close_close (grammar : Grammar) (items : ItemSet) :
    (items.close grammar).close grammar = items.close grammar := by
  apply close_from_closed
  · intro item member rule next other added
    rw [mem_close] at member ⊢
    obtain ⟨produced, front⟩ := (mem_expansions grammar rule other).mp added
    have expanded := Closure.expand member next produced
    rw [← front] at expanded
    exact expanded
  · exact fun _ member => member

theorem Closure.mono {grammar : Grammar} {items others : ItemSet}
    (within : ∀ item ∈ items, item ∈ others) {item : Item} (held : Closure grammar items item) :
    Closure grammar others item := by
  induction held with
  | given member => exact .given (within _ member)
  | expand _ next produces ih => exact .expand ih next produces

theorem mem_close_congr (grammar : Grammar) {items others : ItemSet}
    (same : ∀ item, item ∈ items ↔ item ∈ others) (item : Item) :
    item ∈ items.close grammar ↔ item ∈ others.close grammar := by
  rw [mem_close, mem_close]
  exact ⟨.mono fun other => (same other).mp, .mono fun other => (same other).mpr⟩

/-- Sets of the same items have the same kernels, since kernels are in order. -/
theorem goto_congr (grammar : Grammar) (symbol : Symbol) {items others : ItemSet}
    (distinct : items.Nodup) (otherDistinct : others.Nodup)
    (same : ∀ item, item ∈ items ↔ item ∈ others) :
    items.goto grammar symbol = others.goto grammar symbol := by
  apply InOrder.ext (goto_in_order grammar symbol items distinct)
    (goto_in_order grammar symbol others otherDistinct)
  intro item
  simp only [mem_goto, same]

/-- Items of productions that a compiled grammar has, added to a set one after the other, are closed by
a scan that expands each rule once. It ends without a fault; the result has no repetitions, starts with
the set, holds what the closure of the set holds, and is closed. Sets of the same items are closed to
the same items, from which every symbol leads to the same kernel. -/
theorem scan_closes_exactly {α π : Type} (width : IndexWidth) (declarations : Declarations α π)
    (grammar : Grammar) (compiled : Grammar.compile width declarations = .ok grammar)
    (added : List Item) (known : ∀ item ∈ added, item.production < grammar.productionCount) :
    let items := added.foldl add []
    Scan.Ends grammar { items } (items.close grammar) ∧
      (items.close grammar).Nodup ∧
      items <+: items.close grammar ∧
      (∀ item, item ∈ items.close grammar ↔ Closure grammar items item) ∧
      (items.close grammar).close grammar = items.close grammar ∧
      ∀ readded : List Item, (∀ item, item ∈ readded.foldl add [] ↔ item ∈ items) →
        let others := readded.foldl add []
        (∀ item, item ∈ others.close grammar ↔ item ∈ items.close grammar) ∧
        ∀ symbol, (others.close grammar).goto grammar symbol =
          (items.close grammar).goto grammar symbol := by
  intro items
  have wellFormed := Grammar.compile_well_formed width declarations grammar compiled
  have distinct (given : List Item) : ((given.foldl add []).close grammar).Nodup :=
    close_nodup grammar _ (add_all_nodup given [] List.nodup_nil)
  have scanned : Scan.Ends grammar { items } (items.close grammar) := by
    apply Scan.ends_of_close_from wellFormed _ [] items
    · intro item member
      exact known item (by simpa [items, mem_add_all] using member)
    · exact Nat.le_of_eq (by rw [waiting_empty])
  obtain ⟨_, progress⟩ := close_progress grammar items
  refine ⟨scanned, distinct added, progress.keeps, mem_close grammar items,
    close_close grammar items, ?_⟩
  intro readded alike others
  have closures := mem_close_congr grammar alike
  exact ⟨closures, fun symbol =>
    goto_congr grammar symbol (distinct readded) (distinct added) closures⟩

/-- With the atom of sums in front of the start item, only the sum is added for the rule of both; put
the other way round, they are closed to another list with the same kernels. -/
theorem atom_and_start_are_closed :
    (∀ item ∈ [Item.mk 1 0, ⟨2, 0⟩], item.production < Sums.grammar.productionCount) ∧
      (∀ item, item ∈ [Item.mk 2 0, ⟨1, 0⟩].foldl add [] ↔
        item ∈ [Item.mk 1 0, ⟨2, 0⟩].foldl add []) ∧
      Scan.Ends Sums.grammar { items := [⟨1, 0⟩, ⟨2, 0⟩] } [⟨1, 0⟩, ⟨2, 0⟩, ⟨0, 0⟩] ∧
      ∀ symbol, goto Sums.grammar symbol [⟨2, 0⟩, ⟨1, 0⟩, ⟨0, 0⟩] =
        goto Sums.grammar symbol [⟨1, 0⟩, ⟨2, 0⟩, ⟨0, 0⟩] := by
  have known : ∀ item ∈ [Item.mk 1 0, ⟨2, 0⟩], item.production < Sums.grammar.productionCount := by
    decide
  have alike : ∀ item, item ∈ [Item.mk 2 0, ⟨1, 0⟩].foldl add [] ↔
      item ∈ [Item.mk 1 0, ⟨2, 0⟩].foldl add [] := by
    intro item
    rw [mem_add_all, mem_add_all]
    simp [or_comm]
  have closed : close Sums.grammar [⟨1, 0⟩, ⟨2, 0⟩] = [⟨1, 0⟩, ⟨2, 0⟩, ⟨0, 0⟩] := by decide
  have other : close Sums.grammar [⟨2, 0⟩, ⟨1, 0⟩] = [⟨2, 0⟩, ⟨1, 0⟩, ⟨0, 0⟩] := by decide
  obtain ⟨ends, _, _, _, _, order⟩ := scan_closes_exactly .bits32 Sums.declarations Sums.grammar
    Sums.compiled [⟨1, 0⟩, ⟨2, 0⟩] known
  have kernels := (order [⟨2, 0⟩, ⟨1, 0⟩] alike).2
  refine ⟨known, alike, ?_, ?_⟩
  · rw [← closed]
    exact ends
  · rw [← closed, ← other]
    exact kernels

end ItemSet

end SlrKit
