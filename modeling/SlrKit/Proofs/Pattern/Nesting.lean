import SlrKit.Proofs.Pattern.Edits
import SlrKit.Proofs.Pattern.Renumbering

/-!
# Patterns inside groups

A text that is a pattern by itself, and also as the content of a group, is read alike inside a group of
any text: its groups are counted on from those that were begun before it, and behind its closing
parenthesis the reader is back in what stands around it.
-/

set_option autoImplicit false

namespace SlrKit

namespace Pattern

section Renumbering

variable (number : Nat → Nat)

theorem sequence_renumbered (parts : List Pattern) :
    (sequence parts).renumbered number = sequence (parts.map (renumbered number)) := by
  induction parts with
  | nil => rfl
  | cons first rest ih =>
      cases rest with
      | nil => rfl
      | cons second rest => exact congrArg (cat (first.renumbered number)) ih

theorem alternatives_renumbered (branches : List Pattern) :
    (alternatives branches).renumbered number =
      alternatives (branches.map (renumbered number)) := by
  induction branches with
  | nil => rfl
  | cons first rest ih =>
      cases rest with
      | nil => rfl
      | cons second rest => exact congrArg (alt (first.renumbered number)) ih

theorem choice_renumbered (branches : List Pattern) :
    (choice branches).renumbered number = choice (branches.map (renumbered number)) := by
  have sets : (branches.map (renumbered number)).mapM severalChars? = branches.mapM severalChars? := by
    induction branches with
    | nil => rfl
    | cons first rest ih =>
        have same : (first.renumbered number).severalChars? = first.severalChars? := by
          cases first <;> rfl
        rw [List.map_cons, List.mapM_cons, List.mapM_cons, same, ih]
  have several := alternatives_renumbered number branches
  unfold choice
  rw [sets]
  cases branches with
  | nil => rfl
  | cons first rest =>
      cases rest with
      | nil => rfl
      | cons second rest =>
          cases (first :: second :: rest).mapM severalChars? with
          | none => exact several
          | some members => rfl

def Piece.renumbered : Piece → Piece
  | .part pattern => .part (pattern.renumbered number)
  | .setting => .setting

def OpenGroup.renumbered (opened : OpenGroup) : OpenGroup where
  number := opened.number.map number
  flags := opened.flags
  branches := opened.branches.map (Pattern.renumbered number)
  row := opened.row.map (Piece.renumbered number)

end Renumbering

namespace Reader

/-- The reader of a text inside a group of another one, where `around` is the reader behind the opening
parenthesis, and `number` gives the groups of the text their numbers. -/
def inside (around : Reader) (number : Nat → Nat) (reader : Reader) : Reader where
  flags := reader.flags
  branches := reader.branches.map (renumbered number)
  row := reader.row.map (Piece.renumbered number)
  outer := reader.outer.map (OpenGroup.renumbered number) ++ around.outer
  groups := around.groups + reader.groups
  names := reader.names ++ around.names

variable (around : Reader) (number : Nat → Nat)

theorem row_pattern_inside (reader : Reader) :
    (around.inside number reader).rowPattern = reader.rowPattern.renumbered number := by
  rw [rowPattern, rowPattern, sequence_renumbered, List.map_filterMap, inside, ← List.map_reverse,
    List.filterMap_map]
  congr 2
  funext piece
  cases piece <;> rfl

theorem body_inside (reader : Reader) :
    (around.inside number reader).body = reader.body.renumbered number := by
  rw [body, body, choice_renumbered, row_pattern_inside, inside, List.map_reverse, List.map_cons]

variable {around number} {reader next : Reader}

theorem enter_inside (counts : ∀ count, number (count + 1) = around.groups + (count + 1)) :
    (around.inside number reader).enterNumbered = around.inside number reader.enterNumbered := by
  have counted : some (around.groups + reader.groups + 1) =
      (some (reader.groups + 1)).map number := congrArg some (counts reader.groups).symm
  simp only [enterNumbered, enter, inside, List.map_nil, List.map_cons, List.cons_append, counted,
    OpenGroup.renumbered]
  rfl

theorem leave_inside (left : reader.leave? = some next) :
    (around.inside number reader).leave? = some (around.inside number next) := by
  rw [leave?] at left ⊢
  cases opened : reader.outer with
  | nil =>
      rw [opened] at left
      cases left
  | cons enclosing others =>
      rw [opened] at left
      cases left
      have outer : (around.inside number reader).outer = enclosing.renumbered number ::
          (others.map (OpenGroup.renumbered number) ++ around.outer) := by
        rw [inside, opened, List.map_cons, List.cons_append]
      rw [outer]
      simp only [body_inside, OpenGroup.renumbered]
      cases held : enclosing.number with
      | none =>
          simp only [inside, Option.map_none, List.map_cons]
          rfl
      | some old =>
          simp only [inside, Option.map_some, List.map_cons]
          rfl

theorem repeat_inside {least : Nat} {most : Option Nat} {lazy : Bool}
    (again : reader.repeatLast? least most lazy = some next) :
    (around.inside number reader).repeatLast? least most lazy =
      some (around.inside number next) := by
  rw [repeatLast?] at again ⊢
  cases row : reader.row with
  | nil =>
      rw [row] at again
      cases again
  | cons last earlier =>
      rw [row] at again
      cases last with
      | setting => cases again
      | part pattern =>
          cases again
          have last : (around.inside number reader).row =
              .part (pattern.renumbered number) :: earlier.map (Piece.renumbered number) := by
            rw [inside, row, List.map_cons, Piece.renumbered]
          rw [last]
          rfl

/-- An edit does the same inside a group, unless a name it gives is taken there. -/
theorem apply_inside {edit : Edit}
    (counts : ∀ count, number (count + 1) = around.groups + (count + 1))
    (applied : edit.apply reader = some next) (fresh : ∀ name ∈ next.names, name ∉ around.names) :
    edit.apply (around.inside number reader) = some (around.inside number next) := by
  cases edit with
  | chars set | look condition | scope flags | setting flags =>
      cases applied
      rfl
  | branch =>
      cases applied
      simp only [Edit.apply, nextBranch, row_pattern_inside]
      rfl
  | group =>
      cases applied
      exact congrArg some (enter_inside counts)
  | named name =>
      rw [Edit.apply] at applied ⊢
      split at applied
      · cases applied
      · rename_i unnamed
        cases applied
        have unknown : ¬(around.inside number reader).names.contains name = true := by
          have elsewhere := fresh name List.mem_cons_self
          simp only [List.contains_eq_mem, decide_eq_true_eq] at unnamed ⊢
          intro known
          rcases List.mem_append.mp known with here | there
          · exact unnamed here
          · exact elsewhere there
        rw [if_neg unknown, enter_inside counts]
        rfl
  | leave => exact leave_inside applied
  | again least most lazy => exact repeat_inside applied

theorem names_of_apply {edit : Edit} (applied : edit.apply reader = some next) :
    reader.names ⊆ next.names := by
  cases edit with
  | chars set | look condition | branch | group | scope flags | setting flags =>
      cases applied
      exact List.Subset.refl _
  | named name =>
      rw [Edit.apply] at applied
      split at applied
      · cases applied
      · cases applied
        exact List.subset_cons_self _ _
  | leave =>
      rw [Edit.apply, leave?] at applied
      split at applied
      · cases applied
      · cases applied
        exact List.Subset.refl _
  | again least most lazy =>
      rw [Edit.apply, repeatLast?] at applied
      split at applied
      · cases applied
        exact List.Subset.refl _
      · cases applied

end Reader

section Reading

variable {reader next final : Reader} {text after : List Char}

/-- So many parts lead from one reader and text to another reader and what is left of the text. -/
def Leads (steps : Nat) (reader : Reader) (text : List Char) (next : Reader) (after : List Char) :
    Prop :=
  ∀ more, readAll (steps + more) reader text = readAll more next after

theorem Leads.trans {first second : Nat} {last : Reader} {rest : List Char}
    (begun : Leads first reader text next after) (goes : Leads second next after last rest) :
    Leads (first + second) reader text last rest := by
  intro more
  rw [Nat.add_assoc, begun, goes]

theorem leads_of_part {c : Char} {rest : List Char} (ahead : reader.flags.skip text = c :: rest)
    (read : readPart reader c rest = some (next, after)) : Leads 1 reader text next after := by
  intro more
  rw [Nat.add_comm, readAll, ahead]
  simp only [read, Option.bind_some]

theorem read_all_open (fuel : Nat) (nothing : reader.flags.skip text = [])
    (opened : reader.outer ≠ []) : readAll fuel reader text = none := by
  cases fuel with
  | zero => rfl
  | succ fuel =>
      have inside : reader.outer.isEmpty = false := by simpa using opened
      rw [readAll, nothing]
      simp [inside]

theorem names_of_read_all (fuel : Nat) (read : readAll fuel reader text = some final) :
    reader.names ⊆ final.names := by
  induction fuel generalizing reader text with
  | zero => cases read
  | succ fuel ih =>
      rw [readAll] at read
      split at read
      · split at read
        · cases read
          exact List.Subset.refl _
        · cases read
      · rcases Option.bind_eq_some_iff.mp read with ⟨⟨next, after⟩, part, later⟩
        rcases read_part_shut part with ⟨edit, applied, _⟩
        exact List.Subset.trans (Reader.names_of_apply applied) (ih later)

theorem outer_of_read_all (fuel : Nat) (read : readAll fuel reader text = some final) :
    final.outer = [] := by
  induction fuel generalizing reader text with
  | zero => cases read
  | succ fuel ih =>
      rw [readAll] at read
      split at read
      · split at read
        · rename_i closed
          cases read
          exact List.isEmpty_iff.mp closed
        · cases read
      · rcases Option.bind_eq_some_iff.mp read with ⟨⟨next, after⟩, part, later⟩
        exact ih later

/-- The numbers of groups inside `around` go on from those before it, and the names are new to it. -/
structure Fits (around : Reader) (number : Nat → Nat) (final : Reader) : Prop where
  counts : ∀ count, number (count + 1) = around.groups + (count + 1)
  fresh : ∀ name ∈ final.names, name ∉ around.names

/-- Inside any group that the text fits in, so many parts lead through it and through the closing
parenthesis of the group. -/
def LeavesIn (steps : Nat) (reader : Reader) (text : List Char) (final : Reader) : Prop :=
  ∀ (around : Reader) (number : Nat → Nat) (behind : List Char) (left : Reader),
    Fits around number final → (around.inside number final).leave? = some left →
      Leads steps (around.inside number reader) (text ++ ')' :: behind) left behind

/-- A closing parenthesis behind the text does not close the group that the text stands in. -/
def StaysInside (reader : Reader) (text : List Char) (final : Reader) : Prop :=
  ∀ (around : Reader) (number : Nat → Nat) (more : Nat), Fits around number final →
    around.outer ≠ [] → readAll more (around.inside number reader) (text ++ [')']) = none

theorem inside_open (around reader : Reader) (number : Nat → Nat) (opened : around.outer ≠ []) :
    (around.inside number reader).outer ≠ [] :=
  List.append_ne_nil_of_right_ne_nil _ opened

theorem leaves_at_end (nothing : reader.flags.skip text = []) :
    LeavesIn 1 reader text reader ∨ StaysInside reader text reader := by
  rcases skip_ignored_shut reader.flags.extended text false nothing with seen | swallowed
  · refine Or.inl ?_
    intro around number behind left _ leaves
    have shut : (around.inside number reader).flags.skip (text ++ ')' :: behind) =
        ')' :: behind := seen behind
    apply leads_of_part shut
    exact congrArg (Option.map fun next => (next, behind)) leaves
  · refine Or.inr ?_
    intro around number more _ opened
    exact read_all_open more swallowed (inside_open around reader number opened)

theorem stays_inside_of_swallowed {c : Char} {rest : List Char} {edit : Edit}
    (ahead : reader.flags.skip text = c :: rest) (applied : edit.apply reader = some next)
    (kept : next.names ⊆ final.names)
    (swallowed : Edits (fun reader text => readPart reader c text) reader.flags (rest ++ [')']) edit
      []) : StaysInside reader text final := by
  intro around number more fits opened
  have inside : edit.apply (around.inside number reader) = some (around.inside number next) :=
    Reader.apply_inside fits.counts applied fun name member => fits.fresh name (kept member)
  have step : Leads 1 (around.inside number reader) (text ++ [')'])
      (around.inside number next) [] := by
    have skipped : (around.inside number reader).flags.skip (text ++ [')']) = c :: (rest ++ [')']) :=
      skip_append reader.flags ahead
    apply leads_of_part skipped
    exact (swallowed (around.inside number reader) rfl).trans (congrArg _ inside)
  cases more with
  | zero => rfl
  | succ more =>
      rw [Nat.add_comm, step more]
      exact read_all_open more rfl (inside_open around next number opened)

/-- From one part to the next inside any group that the rest of the text fits in. -/
def LeadsIn (reader : Reader) (text : List Char) (next : Reader) (after : List Char)
    (final : Reader) : Prop :=
  ∀ (around : Reader) (number : Nat → Nat) (behind : List Char), Fits around number final →
    Leads 1 (around.inside number reader) (text ++ ')' :: behind) (around.inside number next)
      (after ++ ')' :: behind)

theorem leads_in_of_alike {c : Char} {rest : List Char} {edit : Edit}
    (ahead : reader.flags.skip text = c :: rest) (applied : edit.apply reader = some next)
    (kept : next.names ⊆ final.names)
    (alike : ∀ behind, Edits (fun reader text => readPart reader c text) reader.flags
      (rest ++ ')' :: behind) edit (after ++ ')' :: behind)) :
    LeadsIn reader text next after final := by
  intro around number behind fits
  have inside : edit.apply (around.inside number reader) = some (around.inside number next) :=
    Reader.apply_inside fits.counts applied fun name member => fits.fresh name (kept member)
  have skipped : (around.inside number reader).flags.skip (text ++ ')' :: behind) =
      c :: (rest ++ ')' :: behind) := skip_append reader.flags ahead
  apply leads_of_part skipped
  exact (alike behind (around.inside number reader) rfl).trans (congrArg _ inside)

theorem stays_inside_of_next (step : LeadsIn reader text next after final)
    (stays : StaysInside next after final) : StaysInside reader text final := by
  intro around number more fits opened
  cases more with
  | zero => rfl
  | succ more =>
      rw [Nat.add_comm, step around number [] fits more]
      exact stays around number more fits opened

theorem part_inside {c : Char} {rest : List Char} (ahead : reader.flags.skip text = c :: rest)
    (part : readPart reader c rest = some (next, after)) (kept : next.names ⊆ final.names) :
    LeadsIn reader text next after final ∨ StaysInside reader text final := by
  rcases read_part_shut part with ⟨edit, applied, alike | swallowed⟩
  · exact Or.inl (leads_in_of_alike ahead applied kept alike)
  · exact Or.inr (stays_inside_of_swallowed ahead applied kept swallowed)

/-- A text read to its end by itself is read alike inside a group up to its closing parenthesis. Or
else a comment in it takes the parenthesis, and the group is never closed. -/
theorem read_all_inside (fuel : Nat) (read : readAll fuel reader text = some final) :
    (∃ steps, steps ≤ fuel ∧ LeavesIn steps reader text final) ∨ StaysInside reader text final := by
  induction fuel generalizing reader text with
  | zero => cases read
  | succ fuel ih =>
      rw [readAll] at read
      cases ahead : reader.flags.skip text with
      | nil =>
          rw [ahead] at read
          simp only at read
          split at read
          · cases read
            rcases leaves_at_end ahead with leaves | stays
            · exact Or.inl ⟨1, Nat.succ_le_succ (Nat.zero_le fuel), leaves⟩
            · exact Or.inr stays
          · cases read
      | cons c rest =>
          rw [ahead] at read
          rcases Option.bind_eq_some_iff.mp read with ⟨⟨next, after⟩, part, later⟩
          rcases part_inside ahead part (names_of_read_all fuel later) with step | stays
          · rcases ih later with ⟨steps, few, leaves⟩ | stays
            · refine Or.inl ⟨1 + steps, by omega, ?_⟩
              intro around number behind left fits leaving
              exact (step around number behind fits).trans
                (leaves around number behind left fits leaving)
            · exact Or.inr (stays_inside_of_next step stays)
          · exact Or.inr stays

theorem skip_plain (text : List Char) : ({} : Flags).skip text = text := by
  cases text <;> rfl

theorem head_of_read {reading : Reading} (read : read? text = some reading) :
    text.head? ≠ some '?' := by
  intro sign
  rcases List.head?_eq_some_iff.mp sign with ⟨rest, shape⟩
  rcases Option.map_eq_some_iff.mp read with ⟨final, all, _⟩
  have nothing : readPart {} '?' rest = none := by
    refine (read_repetition_eq {} 0 (some 1) rest).trans ?_
    split
    · rfl
    · rfl
  rw [shape, readAll, skip_plain] at all
  simp only [nothing, Option.bind_none] at all
  cases all

/-- The reader behind a group around a pattern that was read by itself. -/
def Reader.hold (reader : Reader) (reading : Reading) : Reader :=
  { reader with
    row := .part (.group (reader.groups + 1)
      (reading.pattern.renumbered (reader.groups + 1 + ·))) :: reader.row
    groups := reader.groups + 1 + reading.groups
    names := reading.names ++ reader.names }

def anchored (text : List Char) : List Char :=
  ['\\', 'A', '(', '?', ':'] ++ text ++ [')']

/-- The text is a pattern by itself and also as the content of a group. -/
structure SelfContained (text : List Char) (reading : Reading) : Prop where
  shut : ∃ whole, read? (anchored text) = some whole
  alone : read? text = some reading

/-- No comment of a pattern that can stand in a larger one takes the parenthesis behind it. -/
theorem closed_of_anchored {whole : Reading} (shut : read? (anchored text) = some whole) :
    ¬StaysInside {} text final := by
  intro stays
  let started : Reader := ({} : Reader).addAtom (.look .textStart)
  let around : Reader := started.enter none {}
  have start : Leads 1 {} (anchored text) started ('(' :: '?' :: ':' :: (text ++ [')'])) :=
    leads_of_part rfl rfl
  have opening : Leads 1 started ('(' :: '?' :: ':' :: (text ++ [')'])) around (text ++ [')']) :=
    leads_of_part rfl rfl
  have begun := start.trans opening
  have fits : Fits around (around.groups + ·) final := ⟨fun _ => rfl, fun _ _ => List.not_mem_nil⟩
  rcases Option.map_eq_some_iff.mp shut with ⟨last, all, _⟩
  have stuck := stays around (around.groups + ·) (text.length + 5) fits (List.cons_ne_nil _ _)
  have unread : around.inside (around.groups + ·) {} = around := rfl
  have fuel : (anchored text).length + 1 = 1 + 1 + (text.length + 5) := by
    simp only [anchored, List.length_append, List.length_cons, List.length_nil]
    omega
  rw [fuel, begun, ← unread, stuck] at all
  cases all

theorem nothing_read_inside (around : Reader) (unset : around.flags = {}) (number : Nat → Nat) :
    around.enterNumbered.inside number {} = around.enterNumbered := by
  simp only [Reader.enterNumbered, Reader.enter, Reader.inside, unset]
  rfl

theorem opens_group {reading : Reading} (alone : read? text = some reading) (around : Reader)
    (behind : List Char) (unset : around.flags = {}) :
    Leads 1 around ('(' :: (text ++ ')' :: behind)) around.enterNumbered (text ++ ')' :: behind) := by
  have unsigned := head_of_read alone
  have ahead : around.flags.skip ('(' :: (text ++ ')' :: behind)) =
      '(' :: (text ++ ')' :: behind) := by rw [unset, skip_plain]
  apply leads_of_part ahead
  refine (read_group_eq around _).trans ?_
  rw [unset, skip_plain, if_neg]
  cases text with
  | nil => simp
  | cons c rest => exact unsigned

theorem leads_through_group {reading : Reading} (parsed : SelfContained text reading)
    (around : Reader) (behind : List Char) (unset : around.flags = {})
    (fresh : ∀ name ∈ reading.names, name ∉ around.names) :
    ∃ steps, steps ≤ text.length + 2 ∧
      Leads steps around ('(' :: (text ++ ')' :: behind)) (around.hold reading) behind := by
  rcases parsed with ⟨⟨whole, shut⟩, alone⟩
  have opens := opens_group alone around behind unset
  rcases Option.map_eq_some_iff.mp alone with ⟨final, all, same⟩
  cases same
  rcases read_all_inside _ all with ⟨steps, few, leaves⟩ | stays
  · refine ⟨1 + steps, by omega, ?_⟩
    let number : Nat → Nat := (around.groups + 1 + ·)
    have leaving : (around.enterNumbered.inside number final).leave? = some (around.hold
        { pattern := final.body, groups := final.groups, names := final.names }) := by
      have outer : (around.enterNumbered.inside number final).outer =
          ⟨some (around.groups + 1), around.flags, around.branches, around.row⟩ ::
            around.outer := by
        rw [Reader.inside, outer_of_read_all _ all]
        rfl
      rw [Reader.leave?, outer]
      simp only [Reader.body_inside]
      rfl
    have fits : Fits around.enterNumbered number final := ⟨fun _ => rfl, fresh⟩
    have through := leaves around.enterNumbered number behind _ fits leaving
    rw [nothing_read_inside around unset] at through
    exact opens.trans through
  · exact (closed_of_anchored shut stays).elim

theorem unmoved_of_read_all {number : Nat → Nat} (counts : ∀ count, number (count + 1) = count + 1)
    (fuel : Nat) (unmoved : ({} : Reader).inside number reader = reader)
    (read : readAll fuel reader text = some final) : ({} : Reader).inside number final = final := by
  induction fuel generalizing reader text with
  | zero => cases read
  | succ fuel ih =>
      rw [readAll] at read
      split at read
      · split at read
        · cases read
          exact unmoved
        · cases read
      · rcases Option.bind_eq_some_iff.mp read with ⟨⟨next, after⟩, part, later⟩
        rcases read_part_shut part with ⟨edit, applied, _⟩
        have counted : ∀ count, number (count + 1) = ({} : Reader).groups + (count + 1) := by
          intro count
          rw [counts]
          exact (Nat.zero_add _).symm
        have again := Reader.apply_inside counted applied fun _ _ => List.not_mem_nil
        rw [unmoved, applied] at again
        exact ih (Option.some.inj again).symm later

theorem numbered_from_one {reading : Reading} (read : read? text = some reading) :
    reading.pattern.renumbered (fun number => number - 1 + 1) = reading.pattern := by
  rcases Option.map_eq_some_iff.mp read with ⟨last, all, same⟩
  cases same
  have counts : ∀ count : Nat, count + 1 - 1 + 1 = count + 1 := fun _ => rfl
  have unmoved := @unmoved_of_read_all _ _ _ (fun number => number - 1 + 1) counts _ rfl all
  have bodies := congrArg Reader.body unmoved
  rw [Reader.body_inside] at bodies
  exact bodies

end Reading

end Pattern

end SlrKit
