import SlrKit.Proofs.Pattern.Alternation
import SlrKit.Proofs.Pattern.Clashing
import SlrKit.Regex

/-!
# The text of a choice

The text of a choice between patterns, each in a group, is read as the alternation of these patterns,
with their groups counted on from one to the next, unless two of them name a group alike: then it is not
a pattern at all.
-/

set_option autoImplicit false

namespace SlrKit

namespace Pattern

/-- A text that is a pattern by itself and in a group, with what it reads as. -/
structure Part where
  text : String
  reading : Reading
  selfContained : SelfContained text.toList reading

/-- The patterns of parts, each in a group, with all groups numbered on from the first. -/
def enclosedFrom : Nat → List Part → List Pattern
  | _, [] => []
  | opening, part :: rest =>
      .group opening (part.reading.pattern.renumbered (opening + ·)) ::
        enclosedFrom (opening + 1 + part.reading.groups) rest

def Part.enclosed (part : Part) : List Char := '(' :: (part.text.toList ++ [')'])

theorem Part.enclosed_append (part : Part) (behind : List Char) :
    part.enclosed ++ behind = '(' :: (part.text.toList ++ ')' :: behind) := by
  simp [Part.enclosed]

def alternativesText (parts : List Part) : List Char := ['|'].intercalate (parts.map Part.enclosed)

def choiceText (parts : List Part) : List Char := (Regex.choiceOf (parts.map Part.text)).toList

def namesOf (parts : List Part) : List (List Char) := parts.flatMap (·.reading.names)

theorem choice_text_eq (parts : List Part) :
    choiceText parts = '(' :: '?' :: ':' :: (alternativesText parts ++ [')']) := by
  have texts : ((parts.map Part.text).map fun pattern => "(" ++ pattern ++ ")").map String.toList =
      parts.map Part.enclosed := by
    rw [List.map_map, List.map_map]
    apply List.map_congr_left
    intro part _
    simp [Part.enclosed]
  simp only [choiceText, Regex.choiceOf, String.toList_append, String.toList_intercalate, texts]
  rfl

section Reading

theorem leads_through_part (part : Part) (reader : Reader)
    (behind : List Char) (unset : reader.flags = {})
    (fresh : ∀ name ∈ part.reading.names, name ∉ reader.names) :
    ∃ steps, steps ≤ part.enclosed.length ∧
      Leads steps reader (part.enclosed ++ behind) (reader.hold part.reading) behind := by
  rcases leads_through_group part.selfContained reader behind unset fresh with ⟨steps, few, leads⟩
  have length : part.enclosed.length = part.text.toList.length + 2 := by simp [Part.enclosed]
  rw [← length] at few
  rw [← part.enclosed_append] at leads
  exact ⟨steps, few, leads⟩

theorem row_pattern_hold (reader : Reader) (reading : Reading) (begins : reader.row = []) :
    (reader.hold reading).rowPattern =
      .group (reader.groups + 1) (reading.pattern.renumbered (reader.groups + 1 + ·)) := by
  rw [Reader.rowPattern, Reader.hold, begins]
  rfl

theorem enclosed_from_hold (reader : Reader) (first : Part) (others : List Part)
    (begins : reader.row = []) :
    enclosedFrom (reader.groups + 1) (first :: others) =
      (reader.hold first.reading).rowPattern ::
        enclosedFrom ((reader.hold first.reading).groups + 1) others := by
  have groups : (reader.hold first.reading).groups = reader.groups + 1 + first.reading.groups := rfl
  rw [row_pattern_hold reader first.reading begins, groups, Nat.add_right_comm]
  rfl

theorem alternatives_text_cons (first second : Part) (others : List Part) :
    alternativesText (first :: second :: others) =
      first.enclosed ++ '|' :: alternativesText (second :: others) := by
  have several : alternativesText (first :: second :: others) =
      first.enclosed ++ ['|'] ++ alternativesText (second :: others) := List.intercalate_cons_cons
  rw [several, List.append_assoc, List.singleton_append]

theorem leads_to_next_part (part : Part) (reader : Reader) (behind : List Char)
    (unset : reader.flags = {})
    (fresh : ∀ name ∈ part.reading.names, name ∉ reader.names) :
    ∃ steps, steps ≤ part.enclosed.length ∧
      Leads (steps + 1) reader (part.enclosed ++ '|' :: behind)
        (reader.hold part.reading).nextBranch behind := by
  rcases leads_through_part part reader ('|' :: behind) unset fresh with ⟨steps, few, leads⟩
  have unsetHeld : (reader.hold part.reading).flags = {} := unset
  have ahead : (reader.hold part.reading).flags.skip ('|' :: behind) = '|' :: behind := by
    rw [unsetHeld, skip_plain]
  exact ⟨steps, few, leads.trans (leads_of_part ahead rfl)⟩

theorem leads_through_parts (first : Part) (others : List Part) (reader : Reader)
    (behind : List Char)
    (unset : reader.flags = {}) (begins : reader.row = [])
    (distinct : (namesOf (first :: others) ++ reader.names).Nodup) :
    ∃ steps final, steps ≤ (alternativesText (first :: others)).length ∧
      Leads steps reader (alternativesText (first :: others) ++ behind) final behind ∧
      final.flags = {} ∧ final.outer = reader.outer ∧
      final.rowPattern :: final.branches =
        (enclosedFrom (reader.groups + 1) (first :: others)).reverse ++ reader.branches := by
  induction others generalizing first reader with
  | nil =>
      have fresh : ∀ name ∈ first.reading.names, name ∉ reader.names := by
        rw [namesOf, List.flatMap_singleton] at distinct
        exact fun name here there => List.disjoint_of_nodup_append distinct here there
      rcases leads_through_part first reader behind unset fresh with
        ⟨steps, few, leads⟩
      have alone : alternativesText [first] = first.enclosed := List.intercalate_singleton
      rw [alone, enclosed_from_hold reader first [] begins]
      exact ⟨steps, reader.hold first.reading, few, leads, unset, rfl, rfl⟩
  | cons second others ih =>
      rw [namesOf, List.flatMap_cons] at distinct
      have fresh : ∀ name ∈ first.reading.names, name ∉ reader.names := by
        intro name here there
        exact List.disjoint_of_nodup_append distinct (List.mem_append_left _ here) there
      let held := reader.hold first.reading
      rcases leads_to_next_part first reader
        (alternativesText (second :: others) ++ behind) unset fresh with ⟨steps, few, leads⟩
      have distinctNext :
          (namesOf (second :: others) ++ held.nextBranch.names).Nodup := by
        rw [List.append_assoc] at distinct
        exact (List.perm_append_comm_assoc _ _ _).nodup distinct
      rcases ih second held.nextBranch unset rfl distinctNext with
        ⟨more, final, fewer, goes, flags, outer, collected⟩
      refine ⟨steps + 1 + more, final, ?_, ?_, flags, outer, ?_⟩
      · rw [alternatives_text_cons, List.length_append, List.length_cons]
        omega
      · rw [alternatives_text_cons, List.append_assoc, List.cons_append]
        exact leads.trans goes
      · have branchesNext : held.nextBranch.branches = held.rowPattern :: reader.branches := rfl
        have groupsNext : held.nextBranch.groups = held.groups := rfl
        rw [collected, branchesNext, groupsNext,
          enclosed_from_hold reader first (second :: others) begins, List.reverse_cons,
          List.append_assoc, List.singleton_append]

/-- Groups are not put together into one set. -/
theorem choice_of_enclosed (opening : Nat) (first : Part) (others : List Part) :
    choice (enclosedFrom opening (first :: others)) =
      alternatives (enclosedFrom opening (first :: others)) := by
  have unset : (enclosedFrom opening (first :: others)).mapM severalChars? = none := by
    rw [enclosedFrom, List.mapM_cons]
    rfl
  unfold choice
  rw [unset]
  split
  · rename_i same
    cases same
  · rfl

/-- The reader behind the opening parenthesis of a choice. -/
abbrev insideChoice : Reader := ({} : Reader).enter none {}

theorem opens_choice (rest : List Char) :
    Leads 1 {} ('(' :: '?' :: ':' :: rest) insideChoice rest := leads_of_part rfl rfl

theorem read_choice_text (first : Part) (others : List Part)
    (distinct : (namesOf (first :: others)).Nodup) :
    ∃ reading, read? (choiceText (first :: others)) = some reading ∧
      reading.pattern = alternatives (enclosedFrom 1 (first :: others)) := by
  have unnamed : (namesOf (first :: others) ++ insideChoice.names).Nodup := by
    rw [show insideChoice.names = [] from rfl, List.append_nil]
    exact distinct
  rcases leads_through_parts first others insideChoice [')'] rfl rfl unnamed with
    ⟨steps, final, few, leads, flags, outer, collected⟩
  have body : final.body = alternatives (enclosedFrom 1 (first :: others)) := by
    have branches : (enclosedFrom (insideChoice.groups + 1) (first :: others)).reverse ++
        insideChoice.branches = (enclosedFrom 1 (first :: others)).reverse := List.append_nil _
    rw [Reader.body, collected, branches, List.reverse_reverse, choice_of_enclosed]
  let left : Reader := { final with flags := {}, branches := [], row := [.part final.body],
                                     outer := [] }
  have closes : Leads 1 final [')'] left [] := by
    have ahead : final.flags.skip [')'] = [')'] := by rw [flags, skip_plain]
    have leaves : final.leave? = some left := by
      rw [Reader.leave?, outer]
      rfl
    apply leads_of_part ahead
    exact congrArg (Option.map fun next => (next, [])) leaves
  have whole := ((opens_choice _).trans leads).trans closes
  have enough : (choiceText (first :: others)).length + 1 =
      1 + steps + 1 + ((alternativesText (first :: others)).length - steps + 2 + 1) := by
    rw [choice_text_eq]
    simp only [List.length_cons, List.length_append, List.length_nil]
    omega
  have ends : readAll ((alternativesText (first :: others)).length - steps + 2 + 1) left [] =
      some left := rfl
  refine ⟨{ pattern := left.body, groups := left.groups, names := left.names }, ?_, body⟩
  rw [read?, enough, choice_text_eq, whole, ends]
  rfl

theorem stuck_in_part (part : Part) (reader : Reader) (behind : List Char) (unset : reader.flags = {})
    (clash : ∃ name ∈ part.reading.names, name ∈ reader.names) (more : Nat)
    (enough : part.enclosed.length ≤ more) : readAll more reader (part.enclosed ++ behind) = none := by
  have positive : 1 + (more - 1) = more := by
    rw [Part.enclosed, List.length_cons] at enough
    omega
  have stuck := stuck_in_group part.selfContained reader behind unset clash (more - 1)
  rwa [positive, ← part.enclosed_append] at stuck

/-- Parts that name a group alike stop the reader where the second of them gives the name. By induction
on the parts, of which each gives its names to those behind it. -/
theorem stuck_in_parts (first : Part) (others : List Part) (reader : Reader) (behind : List Char)
    (unset : reader.flags = {}) (given : reader.names.Nodup)
    (clash : ¬(namesOf (first :: others) ++ reader.names).Nodup) (more : Nat)
    (enough : (alternativesText (first :: others)).length ≤ more) :
    readAll more reader (alternativesText (first :: others) ++ behind) = none := by
  by_cases fresh : ∀ name ∈ first.reading.names, name ∉ reader.names
  · have named : (first.reading.names ++ reader.names).Nodup := by
      rw [List.nodup_append]
      refine ⟨names_nodup_of_read first.selfContained.alone, given, ?_⟩
      intro name here other there same
      exact fresh name here (same ▸ there)
    cases others with
    | nil =>
        rw [namesOf, List.flatMap_singleton] at clash
        exact absurd named clash
    | cons second others =>
        have text := alternatives_text_cons first second others
        obtain ⟨steps, few, leads⟩ := leads_to_next_part first reader
          (alternativesText (second :: others) ++ behind) unset fresh
        have clashNext : ¬(namesOf (second :: others) ++
            (reader.hold first.reading).nextBranch.names).Nodup := by
          intro distinct
          apply clash
          rw [namesOf, List.flatMap_cons, List.append_assoc]
          exact (List.perm_append_comm_assoc _ _ _).nodup distinct
        rw [text, List.length_append, List.length_cons] at enough
        have stuck := stuck_in_parts second others (reader.hold first.reading).nextBranch behind
          unset named clashNext (more - (steps + 1)) (by omega)
        have fuel : more = steps + 1 + (more - (steps + 1)) := by omega
        rw [fuel, text, List.append_assoc, List.cons_append, leads]
        exact stuck
  · push Not at fresh
    cases others with
    | nil =>
        have alone : alternativesText [first] = first.enclosed := List.intercalate_singleton
        rw [alone] at enough ⊢
        exact stuck_in_part first reader behind unset fresh more enough
    | cons second others =>
        rw [alternatives_text_cons, List.length_append] at enough
        rw [alternatives_text_cons, List.append_assoc]
        exact stuck_in_part first reader _ unset fresh more (by omega)

theorem choice_text_unread (first : Part) (others : List Part)
    (clash : ¬(namesOf (first :: others)).Nodup) :
    read? (choiceText (first :: others)) = none := by
  have named : insideChoice.names = [] := rfl
  have fuel : (choiceText (first :: others)).length + 1 =
      1 + ((alternativesText (first :: others)).length + 4) := by
    rw [choice_text_eq]
    simp only [List.length_cons, List.length_append, List.length_nil]
    omega
  have stuck := stuck_in_parts first others insideChoice [')'] rfl List.nodup_nil
    (by rwa [named, List.append_nil]) ((alternativesText (first :: others)).length + 4) (by omega)
  rw [read?, fuel, choice_text_eq, opens_choice, stuck]
  rfl

end Reading

end Pattern

end SlrKit
