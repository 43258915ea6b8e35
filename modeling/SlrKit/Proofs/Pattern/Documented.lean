import SlrKit.Pattern.Library
import SlrKit.Proofs.Pattern.Choices
import SlrKit.Proofs.Regex.Assumptions

/-!
# Patterns are put together as documented

The library of patterns obeys the rules that a lexer relies on: a group of a choice matches as its
pattern does by itself, the first alternative that matches is taken, and groups are numbered by their
opening parentheses.
-/

set_option autoImplicit false

namespace SlrKit

namespace Pattern

/-- How many groups a pattern opens, whether they can take part in a match or not. -/
def explicitGroups (text : String) : Nat :=
  match read? text.toList with
  | none => 0
  | some reading => reading.groups

section Compiling

variable {text : String} {search : Regex.Searcher}

theorem read_of_compile (compiled : library.compile text = .ok search) :
    ∃ reading, read? text.toList = some reading ∧ search = reading.pattern.program.searcher := by
  simp only [library] at compiled
  split at compiled
  · cases compiled
  · rename_i reading read
    cases compiled
    exact ⟨reading, read, rfl⟩

theorem compile_of_read {reading : Reading} (read : read? text.toList = some reading) :
    library.compile text = .ok reading.pattern.program.searcher := by
  simp only [library, read]

theorem anchored_text (text : String) : (Regex.anchored text).toList = anchored text.toList := by
  simp [Regex.anchored, anchored]

theorem exists_part (accepted : library.Accepts text) : ∃ part : Part, part.text = text := by
  obtain ⟨count, inside⟩ := accepted.inside
  obtain ⟨least, alone⟩ := accepted.alone
  simp only [library] at inside alone
  split at inside
  · cases inside
  · rename_i whole shut
    split at alone
    · cases alone
    · rename_i reading read
      rw [anchored_text] at shut
      exact ⟨⟨text, reading, ⟨whole, shut⟩, read⟩, rfl⟩

theorem exists_parts (texts : List String) (accepted : ∀ text ∈ texts, library.Accepts text) :
    ∃ parts : List Part, parts.map Part.text = texts := by
  induction texts with
  | nil => exact ⟨[], rfl⟩
  | cons first others ih =>
      obtain ⟨part, same⟩ := exists_part (accepted first List.mem_cons_self)
      obtain ⟨parts, equal⟩ := ih fun text member => accepted text (List.mem_cons_of_mem first member)
      exact ⟨part :: parts, by rw [List.map_cons, same, equal]⟩

end Compiling

section Running

variable (before : Option Char) (rest : List Char)

theorem zero_not_in_groups {text : List Char} {reading : Reading} {found : Program.Match}
    (read : read? text = some reading)
    (matched : reading.pattern.program.run before rest = some found) : 0 ∉ found.groups := by
  have raised : reading.pattern =
      (reading.pattern.renumbered (· - 1)).renumbered (· + 1) := by
    rw [renumbered_renumbered]
    exact (numbered_from_one read).symm
  have injective : ∀ one other : Nat, one + 1 = other + 1 → one = other :=
    fun _ _ same => Nat.succ.inj same
  rw [raised, run_renumbered before rest (· + 1) injective] at matched
  rcases Option.map_eq_some_iff.mp matched with ⟨lower, _, same⟩
  rw [← same]
  intro zero
  rcases List.mem_map.mp zero with ⟨number, _, impossible⟩
  cases impossible

theorem run_shifted (count : Nat) (pattern : Pattern) :
    (pattern.renumbered (count + ·)).program.run before rest =
      (pattern.program.run before rest).map (Program.Match.renumbered (count + ·)) :=
  run_renumbered before rest (count + ·) (fun _ _ same => Nat.add_left_cancel same) pattern

/-- A pattern in a group: the group takes part, and the numbers are counted on. -/
theorem run_enclosed (opening : Nat) {text : List Char} {reading : Reading}
    (read : read? text = some reading) :
    (group opening (reading.pattern.renumbered (opening + ·))).program.run before rest =
      (reading.pattern.program.run before rest).map fun found =>
        ⟨found.length, opening :: found.groups.map (opening + ·)⟩ := by
  rw [run_group, run_shifted, Option.map_map]
  apply Option.map_congr
  intro found matched
  have later : opening ∉ found.groups.map (opening + ·) := by
    intro member
    rcases List.mem_map.mp member with ⟨number, inside, same⟩
    have zero : number = 0 := by omega
    exact zero_not_in_groups before rest read matched (zero ▸ inside)
  have unlisted : ¬(found.groups.map (opening + ·)).contains opening = true := by
    rw [List.contains_eq_mem, decide_eq_true_eq]
    exact later
  exact congrArg (Program.Match.mk found.length) (if_neg unlisted)

theorem enclosed_from_shifted (count opening : Nat) (parts : List Part) :
    enclosedFrom (count + opening) parts =
      (enclosedFrom opening parts).map (renumbered (count + ·)) := by
  induction parts generalizing opening with
  | nil => rfl
  | cons part parts ih =>
      have numbers : (fun number => count + (opening + number)) =
          fun number => count + opening + number := by
        funext number
        exact (Nat.add_assoc _ _ _).symm
      rw [enclosedFrom, enclosedFrom, List.map_cons, renumbered, renumbered_renumbered, numbers,
        ← ih, Nat.add_assoc count, Nat.add_assoc count]

theorem find_shifted (count : Nat) (patterns : List Pattern) :
    ((patterns.map (renumbered (count + ·))).findSome? fun pattern =>
      pattern.program.run before rest) =
        (patterns.findSome? fun pattern => pattern.program.run before rest).map
          (Program.Match.renumbered (count + ·)) := by
  induction patterns with
  | nil => rfl
  | cons pattern patterns ih =>
      rw [List.map_cons, List.findSome?_cons, List.findSome?_cons, ih, run_shifted]
      cases pattern.program.run before rest with
      | none => rfl
      | some found => rfl

end Running

section Choosing

variable {first : Part} {others : List Part}

theorem choice_of_read {reading : Reading} (read : read? (choiceText (first :: others)) = some reading) :
    (namesOf (first :: others)).Nodup ∧
      reading.pattern = alternatives (enclosedFrom 1 (first :: others)) := by
  by_cases distinct : (namesOf (first :: others)).Nodup
  · obtain ⟨other, again, pattern⟩ := read_choice_text first others distinct
    rw [read] at again
    exact ⟨distinct, Option.some.inj again ▸ pattern⟩
  · rw [choice_text_unread first others distinct] at read
    cases read

theorem run_choice {reading : Reading} (read : read? (choiceText (first :: others)) = some reading)
    (before : Option Char) (rest : List Char) :
    reading.pattern.program.run before rest =
      (enclosedFrom 1 (first :: others)).findSome? fun pattern => pattern.program.run before rest := by
  rw [(choice_of_read read).2]
  exact run_alternatives before rest _ _

theorem searcher_of_choice {search : Regex.Searcher}
    (compiled : library.compile (Regex.choiceOf ((first :: others).map Part.text)) = .ok search)
    (behind ahead : List Char) :
    search behind ahead = ((enclosedFrom 1 (first :: others)).findSome? fun pattern =>
      pattern.program.run behind.head? ahead).map (·.shown ahead) := by
  obtain ⟨reading, read, rfl⟩ := read_of_compile compiled
  rw [Program.searcher, run_choice read]

theorem compile_choice (distinct : (namesOf (first :: others)).Nodup) : ∃ search reading,
    library.compile (Regex.choiceOf ((first :: others).map Part.text)) = .ok search ∧
      read? (choiceText (first :: others)) = some reading := by
  obtain ⟨reading, read, _⟩ := read_choice_text first others distinct
  exact ⟨_, reading, compile_of_read read, read⟩

theorem searcher_of_single {part : Part} {search : Regex.Searcher}
    (compiled : library.compile (Regex.choiceOf [part.text]) = .ok search) (behind ahead : List Char) :
    search behind ahead =
      ((part.reading.pattern.program.run behind.head? ahead).map fun found =>
        (Program.Match.mk found.length (1 :: found.groups.map (1 + ·))).shown ahead) := by
  have found := @searcher_of_choice part [] search compiled behind ahead
  rw [found, enclosedFrom, enclosedFrom, List.findSome?_cons,
    run_enclosed behind.head? ahead 1 part.selfContained.alone]
  cases part.reading.pattern.program.run behind.head? ahead with
  | none => rfl
  | some found => rfl

/-- What a choice finds is what its first part finds, or else what the others find together. -/
theorem find_enclosed (behind ahead : List Char) (parts : List Part) :
    ((enclosedFrom 1 (first :: parts)).findSome? fun pattern =>
        pattern.program.run behind.head? ahead) =
      ((first.reading.pattern.program.run behind.head? ahead).map fun found =>
          Program.Match.mk found.length (1 :: found.groups.map (1 + ·))).or
        (((enclosedFrom 1 parts).findSome? fun pattern => pattern.program.run behind.head? ahead).map
          (Program.Match.renumbered (first.reading.groups + 1 + ·))) := by
  have counted : 1 + 1 + first.reading.groups = first.reading.groups + 1 + 1 := by omega
  rw [enclosedFrom, List.findSome?_cons, run_enclosed behind.head? ahead 1 first.selfContained.alone,
    counted, enclosed_from_shifted, find_shifted]
  cases first.reading.pattern.program.run behind.head? ahead with
  | none => rfl
  | some found => rfl

theorem shown_enclosed (ahead : List Char) (found : Program.Match) :
    (Program.Match.mk found.length (1 :: found.groups.map (1 + ·))).shown ahead =
      (found.shown ahead).enclosed := by
  have same : ∀ number, (number == 0 || (1 :: found.groups.map (1 + ·)).contains number) =
      (decide (number ≤ 1) || (number - 1 == 0 || found.groups.contains (number - 1))) := by
    intro number
    match number with
    | 0 => rfl
    | 1 => simp
    | number + 2 => simp [Nat.add_comm 1]
  exact congrArg (Regex.Match.mk _) (funext same)

theorem shown_renumbered (count : Nat) (ahead : List Char) {found : Program.Match}
    (proper : 0 ∉ found.groups) :
    (found.renumbered (count + ·)).shown ahead = (found.shown ahead).behindGroups count := by
  have same : ∀ number, (number == 0 || (found.groups.map (count + ·)).contains number) =
      (number == 0 || (decide (count < number) &&
        (number - count == 0 || found.groups.contains (number - count)))) := by
    intro number
    congr 1
    rw [Bool.eq_iff_iff]
    simp only [List.contains_eq_mem, decide_eq_true_eq, List.mem_map, Bool.and_eq_true,
      Bool.or_eq_true, beq_iff_eq]
    constructor
    · rintro ⟨group, member, rfl⟩
      have positive : group ≠ 0 := fun zero => proper (zero ▸ member)
      refine ⟨by omega, Or.inr ?_⟩
      rwa [Nat.add_sub_cancel_left]
    · rintro ⟨above, zero | member⟩
      · omega
      · exact ⟨number - count, member, by omega⟩
  exact congrArg (Regex.Match.mk _) (funext same)

theorem explicit_of_part (part : Part) : explicitGroups part.text = part.reading.groups := by
  rw [explicitGroups, part.selfContained.alone]

end Choosing

theorem library_documented : library.Documented explicitGroups where
  group accepted compiled := by
    obtain ⟨part, rfl⟩ := exists_part accepted
    refine ⟨_, compile_of_read part.selfContained.alone, ?_⟩
    intro behind ahead
    rw [searcher_of_single compiled, Program.searcher, Option.map_map]
    exact Option.map_congr fun own _ => shown_enclosed ahead own
  alternation accepted compiled := by
    obtain ⟨parts, texts⟩ := exists_parts _ accepted
    match parts, texts with
    | first :: second :: others, rfl =>
        obtain ⟨reading, read, _⟩ := read_of_compile compiled
        -- The whole choice is read, so no name clashes in it, nor in either of its sides.
        have distinct := (@choice_of_read first (second :: others) reading read).1
        rw [namesOf, List.flatMap_cons] at distinct
        have alone : (namesOf [first]).Nodup := by
          rw [namesOf, List.flatMap_singleton]
          exact (List.nodup_append.mp distinct).1
        obtain ⟨left, _, compiledLeft, _⟩ := compile_choice alone
        obtain ⟨right, later, compiledRight, readLater⟩ :=
          @compile_choice second others (List.nodup_append.mp distinct).2.1
        refine ⟨left, right, compiledLeft, compiledRight, ?_⟩
        intro behind ahead
        have whole := @searcher_of_choice first (second :: others) _ compiled behind ahead
        have back := searcher_of_choice compiledRight behind ahead
        rw [whole, find_enclosed, searcher_of_single compiledLeft, back, Option.map_or,
          Option.map_map, Option.map_map, Option.map_map, explicit_of_part]
        congr 1
        apply Option.map_congr
        intro found matched
        rw [← run_choice readLater] at matched
        exact shown_renumbered _ ahead (zero_not_in_groups behind.head? ahead readLater matched)

end Pattern

end SlrKit
