import SlrKit.Proofs.Pattern.Locality

/-!
# What parts do to a reader

Reading a part of a pattern takes some of the text and edits the reader. Which edit it is depends on
the flags of the reader alone, and is the same in front of a closing parenthesis, as long as no
comment takes the parenthesis.
-/

set_option autoImplicit false

namespace SlrKit

namespace Pattern

/-- What a part of a pattern can do to its reader. -/
inductive Edit where
  | chars (set : CharSet)
  | look (condition : Look)
  | branch
  | group
  | named (name : List Char)
  | scope (flags : Flags)
  | setting (flags : Flags)
  | leave
  | again (least : Nat) (most : Option Nat) (lazy : Bool)

namespace Edit

def apply (reader : Reader) : Edit → Option Reader
  | chars set => some (reader.add (.chars set))
  | look condition => some (reader.add (.look condition))
  | branch => some reader.nextBranch
  | group => some reader.enterNumbered
  | named name =>
      if reader.names.contains name then none
      else some { reader.enterNumbered with names := name :: reader.names }
  | scope flags => some (reader.enter none flags)
  | setting flags => some { reader with flags, row := .setting :: reader.row }
  | leave => reader.leave?
  | again least most lazy => reader.repeatLast? least most lazy

def ofAtom (flags : Flags) : Atom → Edit
  | .char c => chars (flags.fold (.singleton c))
  | .set members => chars members
  | .look condition => look condition

theorem apply_of_atom (reader : Reader) (atom : Atom) :
    (ofAtom reader.flags atom).apply reader = some (reader.addAtom atom) := by
  cases atom <;> rfl

end Edit

/-- Some function of the reader and the text edits every reader with these flags in the same way, and
leaves the same text. -/
def Edits (part : Reader → List Char → Option (Reader × List Char)) (flags : Flags)
    (text : List Char) (edit : Edit) (after : List Char) : Prop :=
  ∀ reader : Reader, reader.flags = flags →
    part reader text = (edit.apply reader).map fun next => (next, after)

/-- What the function does at the end of a text it does in front of a closing parenthesis, unless a
comment takes the parenthesis. -/
def EditsShut (part : Reader → List Char → Option (Reader × List Char)) (flags : Flags)
    (text : List Char) (edit : Edit) (after : List Char) : Prop :=
  (∀ behind, Edits part flags (text ++ ')' :: behind) edit (after ++ ')' :: behind)) ∨
    Edits part flags (text ++ [')']) edit []

section Parts

variable {reader next : Reader} {text after : List Char}

theorem read_group_name_eq (reader : Reader) (text : List Char) :
    readGroupName reader text = (groupName? text).bind fun read =>
      ((Edit.named read.1).apply reader).map fun next => (next, read.2) := by
  unfold readGroupName groupName?
  simp only
  by_cases ends : '>' ∈ text
  · rcases take_while_shut [] ends with ⟨_, rest, dropped, _⟩
    rw [← List.drop_drop, dropped]
    cases named : text.takeWhile (· != '>') with
    | nil => simp
    | cons first others =>
        simp only [ends, List.head?_cons, Option.any_some, List.tail_cons, true_and, Edit.apply]
        by_cases starts : isGroupNameChar true first = true
        · by_cases goes : others.all (isGroupNameChar false) = true
          · by_cases known : first :: others ∈ reader.names
            · simp [starts, goes, known]
            · simp [starts, goes, known]
          · simp [goes]
        · simp [starts]
  · have whole : text.takeWhile (· != '>') = text := by
      rw [List.takeWhile_eq_self_iff]
      intro c member
      have differs : c ≠ '>' := fun same => ends (same ▸ member)
      simpa using differs
    rw [whole, List.drop_length, if_neg fun valid => ends valid.1]
    rfl

/-- Reads a group behind its parenthesis and a question mark: a name, or letters of flags. -/
def readSigned (reader : Reader) (text : List Char) : Option (Reader × List Char) :=
  match nameBegun? text with
  | some named => readGroupName reader named
  | none => (readFlags reader.flags true [] text).bind fun read =>
      if read.2.2.1 = ':' then some (reader.enter none read.1, read.2.2.2)
      else if read.2.1 = [] then none
      else some ({ reader with flags := read.1, row := .setting :: reader.row }, read.2.2.2)

theorem read_group_eq (reader : Reader) (text : List Char) :
    readGroup reader text =
      if (reader.flags.skip text).head? = some '?' then
        readSigned reader (reader.flags.skip text).tail
      else some (reader.enterNumbered, reader.flags.skip text) := by
  unfold readGroup
  split
  · rename_i rest ahead
    rw [ahead]
    rfl
  · rename_i rest ahead
    rw [ahead]
    rfl
  · rename_i rest long short ahead
    have unnamed : nameBegun? rest = none := by
      unfold nameBegun?
      split
      · exact (long _ rfl).elim
      · exact (short _ rfl).elim
      · rfl
    rw [ahead, List.head?_cons, if_pos rfl, List.tail_cons, readSigned, unnamed]
  · rename_i rest plain
    rw [if_neg]
    intro sign
    rcases List.head?_eq_some_iff.mp sign with ⟨others, ahead⟩
    exact plain others ahead

theorem read_signed_shut (read : readSigned reader text = some (next, after)) :
    ∃ edit : Edit, edit.apply reader = some next ∧
      ∀ behind, Edits readSigned reader.flags (text ++ ')' :: behind) edit
        (after ++ ')' :: behind) := by
  have further := fun behind => name_begun_shut behind text
  unfold readSigned at read
  cases begun : nameBegun? text with
  | some named =>
      rw [begun] at read
      simp only [read_group_name_eq] at read
      simp only [begun, Option.map_some] at further
      rcases Option.bind_eq_some_iff.mp read with ⟨⟨name, behindName⟩, found, edited⟩
      rcases Option.map_eq_some_iff.mp edited with ⟨reached, applied, same⟩
      cases same
      refine ⟨.named name, applied, fun behind other same => ?_⟩
      rw [readSigned, further]
      simp only [read_group_name_eq, group_name_shut behind found, Option.bind_some]
  | none =>
      rw [begun] at read
      simp only [begun, Option.map_none] at further
      rcases Option.bind_eq_some_iff.mp read with
        ⟨⟨changed, letters, closing, behindFlags⟩, flags, edited⟩
      have more := fun behind => read_flags_append reader.flags (')' :: behind) true [] flags
      simp only at edited
      split at edited
      · rename_i colon
        cases edited
        refine ⟨.scope changed, rfl, fun behind other same => ?_⟩
        rw [readSigned, further, same]
        simp only [more, Option.bind_some, if_pos colon]
        rfl
      · rename_i parenthesis
        split at edited
        · cases edited
        · rename_i lettered
          cases edited
          refine ⟨.setting changed, rfl, fun behind other same => ?_⟩
          rw [readSigned, further, same]
          simp only [more, Option.bind_some, if_neg parenthesis, if_neg lettered]
          rfl

theorem read_group_shut (read : readGroup reader text = some (next, after)) :
    ∃ edit : Edit, edit.apply reader = some next ∧
      EditsShut readGroup reader.flags text edit after := by
  rw [read_group_eq] at read
  cases ahead : reader.flags.skip text with
  | nil =>
      rw [ahead] at read
      cases read
      refine ⟨.group, rfl, ?_⟩
      rcases skip_ignored_shut reader.flags.extended text false ahead with seen | swallowed
      · refine Or.inl fun behind other same => ?_
        have skipped : other.flags.skip (text ++ ')' :: behind) = ')' :: behind := by
          rw [same]
          exact seen behind
        rw [read_group_eq, skipped]
        rfl
      · refine Or.inr fun other same => ?_
        have skipped : other.flags.skip (text ++ [')']) = [] := by
          rw [same]
          exact swallowed
        rw [read_group_eq, skipped]
        rfl
  | cons c rest =>
      rw [ahead, List.head?_cons, List.tail_cons] at read
      have skipped : ∀ (other : Reader) (behind : List Char), other.flags = reader.flags →
          other.flags.skip (text ++ ')' :: behind) = c :: (rest ++ ')' :: behind) := by
        intro other behind same
        rw [same, skip_append reader.flags ahead]
      split at read
      · rename_i sign
        rcases read_signed_shut read with ⟨edit, applied, shut⟩
        refine ⟨edit, applied, Or.inl fun behind other same => ?_⟩
        rw [read_group_eq, skipped other behind same, List.head?_cons, if_pos sign, List.tail_cons]
        exact shut behind other same
      · rename_i plain
        cases read
        refine ⟨.group, rfl, Or.inl fun behind other same => ?_⟩
        rw [read_group_eq, skipped other behind same, List.head?_cons, if_neg plain]
        rfl

theorem read_counted_shut (read : readCounted reader text = some (next, after)) :
    ∃ edit : Edit, edit.apply reader = some next ∧
      EditsShut readCounted reader.flags text edit after := by
  rw [read_counted_eq] at read
  rcases Option.bind_eq_some_iff.mp read with ⟨⟨least, afterLeast⟩, counted, bounded⟩
  rcases Option.bind_eq_some_iff.mp bounded with ⟨⟨most, closing⟩, limited, closed⟩
  rcases Option.bind_eq_some_iff.mp counted with ⟨begun, ahead, digits⟩
  simp only at limited
  unfold repeatBetween at closed
  simp only at closed
  split at closed
  · rename_i brace
    split at closed
    · cases closed
    · rename_i ordered
      rcases Option.map_eq_some_iff.mp closed with ⟨reached, applied, same⟩
      cases same
      refine ⟨.again least most _, applied, ?_⟩
      have closes : closing ≠ [] := by
        intro nothing
        rw [nothing] at brace
        cases brace
      have goes : afterLeast ≠ [] := by
        intro nothing
        rw [nothing] at limited
        cases limited
        exact closes rfl
      have onwards : ∀ (more : List Char) (other : Reader), other.flags = reader.flags →
          readCounted other (text ++ more) =
            (other.repeatLast? least most (readLaziness reader.flags (closing.tail ++ more)).1).map
              fun next => (next, (readLaziness reader.flags (closing.tail ++ more)).2) := by
        intro more other same
        rw [read_counted_eq, same, skip_some_append reader.flags ahead, Option.bind_some,
          read_count_append reader.flags more goes digits, Option.bind_some,
          read_most_append reader.flags more least closes limited, Option.bind_some]
        rcases List.head?_eq_some_iff.mp brace with ⟨body, shut⟩
        rw [shut, List.cons_append, repeatBetween, same]
        simp only [List.head?_cons, List.tail_cons, if_true, if_neg ordered]
      rcases read_laziness_shut reader.flags closing.tail with seen | swallowed
      · refine Or.inl fun behind other same => ?_
        rw [onwards _ other same, seen behind]
        rfl
      · refine Or.inr fun other same => ?_
        rw [onwards _ other same, swallowed]
        rfl
  · cases closed

theorem read_repetition_eq (reader : Reader) (least : Nat) (most : Option Nat) (text : List Char) :
    readRepetition reader least most text =
      if text.head? = some '?' then
        (reader.repeatLast? least most true).map fun next => (next, text.tail)
      else (reader.repeatLast? least most false).map fun next => (next, text) := by
  unfold readRepetition
  split
  · rfl
  · rename_i eager
    rw [if_neg]
    intro sign
    rcases List.head?_eq_some_iff.mp sign with ⟨rest, ahead⟩
    exact eager rest ahead

theorem read_repetition_shut {least : Nat} {most : Option Nat}
    (read : readRepetition reader least most text = some (next, after)) :
    ∃ edit : Edit, edit.apply reader = some next ∧
      EditsShut (fun reader text => readRepetition reader least most text) reader.flags text edit
        after := by
  rw [read_repetition_eq] at read
  cases text with
  | nil =>
      rcases Option.map_eq_some_iff.mp read with ⟨reached, applied, same⟩
      cases same
      exact ⟨.again least most false, applied, Or.inl fun behind other _ =>
        read_repetition_eq other least most (')' :: behind)⟩
  | cons c rest =>
      rw [List.head?_cons, List.tail_cons] at read
      split at read
      · rename_i sign
        rcases Option.map_eq_some_iff.mp read with ⟨reached, applied, same⟩
        cases same
        refine ⟨.again least most true, applied, Or.inl fun behind other _ => ?_⟩
        exact (read_repetition_eq other least most (c :: (after ++ ')' :: behind))).trans
          (if_pos sign)
      · rename_i eager
        rcases Option.map_eq_some_iff.mp read with ⟨reached, applied, same⟩
        cases same
        refine ⟨.again least most false, applied, Or.inl fun behind other _ => ?_⟩
        exact (read_repetition_eq other least most (c :: (rest ++ ')' :: behind))).trans
          (if_neg eager)

theorem read_class_edit {set : CharSet} {cls : OpenClass} {body : List Char}
    (opened : openClass reader.flags text = some (cls, body))
    (closed : readClass reader.flags (text.length + 1) cls [] body = some (set, after)) :
    EditsShut (fun reader text => readPart reader '[' text) reader.flags text (.chars set)
      after := by
  refine Or.inl fun behind other same => ?_
  have further := read_class_shut reader.flags behind (text.length + 1) (behind.length + 1) cls []
    closed
  have enough : (text ++ ')' :: behind).length + 1 = text.length + 1 + (behind.length + 1) := by
    rw [List.length_append, List.length_cons]
    omega
  have unfolded : readPart other '[' (text ++ ')' :: behind) =
      (openClass other.flags (text ++ ')' :: behind)).bind fun begun =>
        (readClass other.flags ((text ++ ')' :: behind).length + 1) begun.1 [] begun.2).map
          fun read => (other.add (.chars read.1), read.2) := rfl
  refine unfolded.trans ?_
  rw [same, open_class_shut reader.flags behind opened, Option.bind_some, enough,
    further]
  rfl

theorem read_plain_eq {c : Char}
    (plain : c ∉ ['(', ')', '|', '[', '?', '*', '+', '\x7b', '\\', '.', '^', '$'])
    (reader : Reader) (text : List Char) :
    readPart reader c text = some (reader.addAtom (.char c), text) := by
  unfold readPart
  split
  all_goals first
    | rfl
    | exact (plain (by decide)).elim

/-- A part that is read at the end of a text edits the reader in a way that does not depend on what
the reader has read, and does the same in front of a closing parenthesis. -/
theorem read_part_shut {c : Char} (read : readPart reader c text = some (next, after)) :
    ∃ edit : Edit, edit.apply reader = some next ∧
      EditsShut (fun reader text => readPart reader c text) reader.flags text edit after := by
  by_cases special : c ∈ ['(', ')', '|', '[', '?', '*', '+', '\x7b', '\\', '.', '^', '$']
  · simp only [List.mem_cons, List.not_mem_nil, or_false] at special
    rcases special with rfl | rfl | rfl | rfl | rfl | rfl | rfl | rfl | rfl | rfl | rfl | rfl
    · exact read_group_shut read
    · rcases Option.map_eq_some_iff.mp read with ⟨left, leaves, same⟩
      cases same
      exact ⟨.leave, leaves, Or.inl fun _ _ _ => rfl⟩
    · cases read
      exact ⟨.branch, rfl, Or.inl fun _ _ _ => rfl⟩
    · rcases Option.bind_eq_some_iff.mp read with ⟨⟨cls, body⟩, opened, members⟩
      rcases Option.map_eq_some_iff.mp members with ⟨⟨set, behindClass⟩, closed, same⟩
      cases same
      exact ⟨.chars set, rfl, read_class_edit opened closed⟩
    · exact read_repetition_shut read
    · exact read_repetition_shut read
    · exact read_repetition_shut read
    · exact read_counted_shut read
    · rcases Option.map_eq_some_iff.mp read with ⟨⟨atom, behindAtom⟩, escaped, same⟩
      cases same
      refine ⟨.ofAtom reader.flags atom, Edit.apply_of_atom reader atom,
        Or.inl fun behind other same => ?_⟩
      have further := read_escape_append reader.flags (')' :: behind) escaped
      have unfolded : readPart other '\\' (text ++ ')' :: behind) =
          (readEscape other.flags (text ++ ')' :: behind)).map
            fun read => (other.addAtom read.1, read.2) := rfl
      refine unfolded.trans ?_
      rw [same, further, ← same, Edit.apply_of_atom]
      rfl
    · cases read
      refine ⟨.chars _, rfl, Or.inl fun behind other same => ?_⟩
      rw [← same]
      rfl
    · cases read
      refine ⟨.look _, rfl, Or.inl fun behind other same => ?_⟩
      rw [← same]
      rfl
    · cases read
      refine ⟨.look _, rfl, Or.inl fun behind other same => ?_⟩
      rw [← same]
      rfl
  · rw [read_plain_eq special] at read
    cases read
    refine ⟨.ofAtom reader.flags (.char c), Edit.apply_of_atom reader (.char c),
      Or.inl fun behind other same => ?_⟩
    simp only [read_plain_eq special]
    rw [← same, Edit.apply_of_atom]
    rfl

end Parts

end Pattern

end SlrKit
