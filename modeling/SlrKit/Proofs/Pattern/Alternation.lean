import SlrKit.Proofs.Pattern.Advancing
import SlrKit.Proofs.Pattern.Renumbering
import Mathlib.Data.List.GetD

/-!
# Matches of alternations, groups and renumbered patterns

An alternation finds what its left side finds, and where that finds nothing, what its right side finds.
A group adds its number to what its body finds, and other numbers in a pattern are other numbers in what
it finds.
-/

set_option autoImplicit false

namespace SlrKit

namespace Pattern

namespace Program

/-- The match of a group around what was found. -/
def Match.within (number : Nat) (found : Match) : Match :=
  { found with
    groups := if found.groups.contains number then found.groups else number :: found.groups }

def Match.renumbered (number : Nat → Nat) (found : Match) : Match :=
  { found with groups := found.groups.map number }

namespace Hosting

section Blocks

variable {pattern : Pattern} {outer : Program} {front back : List Instruction} {exit : Nat}
  {number : Nat → Nat} {address : Nat}

theorem copied_of_block (code : outer.code.toList = front ++
      pattern.own.steps.map (·.copied (place front.length exit) number) ++ back)
    (positive : 0 < address) (inside : address < pattern.program.code.size) :
    outer.instruction (place front.length exit address) =
      (pattern.program.instruction address).copied (place front.length exit) number := by
  rw [size_of_list (own_code pattern), List.length_cons] at inside
  rw [instruction_of_list (own_code pattern), instruction_of_list code]
  cases address with
  | zero => cases positive
  | succ address =>
      have within : address < pattern.own.steps.length := Nat.lt_of_succ_lt_succ inside
      rw [place, List.getD_cons_succ, List.append_assoc, List.getD_append_right _ _ _ _ (by omega),
        Nat.add_sub_cancel_left, List.getD_append _ _ _ _ (by simpa using within),
        List.getD_eq_getElem _ _ within, List.getD_eq_getElem _ _ (by simpa using within),
        List.getElem_map]

theorem place_injective {base : Nat} (before : exit < base) {other : Nat}
    (same : place base exit address = place base exit other) : address = other := by
  cases address with
  | zero =>
      cases other with
      | zero => rfl
      | succ other =>
          simp only [place] at same
          omega
  | succ address =>
      cases other with
      | zero =>
          simp only [place] at same
          omega
      | succ other =>
          simp only [place] at same
          omega

theorem place_inside_block (code : outer.code.toList = front ++
      pattern.own.steps.map (·.copied (place front.length exit) number) ++ back)
    (before : exit < front.length) (inside : address < pattern.program.code.size) :
    place front.length exit address < outer.code.size := by
  rw [size_of_list (own_code pattern), List.length_cons] at inside
  rw [size_of_list code]
  simp only [List.length_append, List.length_map]
  cases address with
  | zero =>
      rw [place]
      omega
  | succ address =>
      rw [place]
      omega

theorem place_proper {base : Nat} (before : exit < base) (positive : 0 < address) :
    place base exit address ≠ 0 := by
  cases address with
  | zero => cases positive
  | succ address =>
      rw [place]
      omega

/-- The copy of a pattern's program that some of the code of a program is. -/
def ofBlock (pattern : Pattern) {outer : Program} (front back : List Instruction) (exit : Nat)
    (number : Nat → Nat) (arrive : List Nat → List Nat)
    (code : outer.code.toList = front ++
      pattern.own.steps.map (·.copied (place front.length exit) number) ++ back)
    (before : exit < front.length) (injective : ∀ one other, number one = number other → one = other)
    (finish : ∀ {before after : Option Char} {groups : List Nat} {pending settled : List Thread}
      {visited final : Nat → Bool}, visited exit = false → visited 0 = false →
      Settles outer before after pending
        (Function.update (Function.update visited exit true) 0 true) settled final →
      Settles outer before after (⟨exit, groups⟩ :: pending) visited (⟨0, arrive groups⟩ :: settled)
        final) :
    Hosting pattern.program outer where
  spot := place front.length exit
  number
  arrive
  copied _ positive inside := copied_of_block code positive inside
  apart _ _ _ _ same := place_injective before same
  inside _ inside := place_inside_block code before inside
  proper _ positive _ := place_proper before positive
  injective
  finish := finish

end Blocks

theorem elsewhere_of_block {pattern : Pattern} {outer : Program} (hosting : Hosting pattern.program outer)
    (base : Nat) (placed : hosting.spot = place base 0) {address : Nat} (proper : address ≠ 0)
    (outside : address < base ∨ base + pattern.own.steps.length ≤ address) :
    hosting.Elsewhere address := by
  refine ⟨proper, ?_⟩
  intro original inside
  rw [size_of_list (own_code pattern), List.length_cons] at inside
  rw [placed]
  cases original with
  | zero => exact Ne.symm proper
  | succ original =>
      rw [place]
      omega

theorem finish_at_end {outer : Program} (closed : outer.Sealed) {before after : Option Char}
    {groups : List Nat} {pending settled : List Thread} {visited final : Nat → Bool}
    (new : visited 0 = false)
    (later : Settles outer before after pending
      (Function.update (Function.update visited 0 true) 0 true) settled final) :
    Settles outer before after (⟨0, groups⟩ :: pending) visited (⟨0, id groups⟩ :: settled)
      final := by
  rw [Function.update_idem] at later
  exact Settles.rest new (closed.rests_at_end rfl) later

theorem finish_at_mark {outer : Program} (closed : outer.Sealed) (exit number : Nat)
    (marks : outer.instruction exit = .mark number 0) {before after : Option Char}
    {groups : List Nat} {pending settled : List Thread} {visited final : Nat → Bool}
    (new : visited exit = false) (unfinished : visited 0 = false)
    (later : Settles outer before after pending
      (Function.update (Function.update visited exit true) 0 true) settled final) :
    Settles outer before after (⟨exit, groups⟩ :: pending) visited
      (⟨0, if groups.contains number then groups else number :: groups⟩ :: settled) final := by
  have passing : outer.rests ⟨exit, groups⟩ = false := by
    rw [rests, marks]
    rfl
  have proper : exit ≠ 0 := by
    intro same
    rw [same, closed.accepts] at marks
    cases marks
  apply Settles.move new passing
  rw [moves, marks]
  apply Settles.rest _ (closed.rests_at_end rfl) later
  rw [Function.update_of_ne (Ne.symm proper), unfinished]

end Hosting

end Program

section Copies

open Program

variable (before : Option Char) (text : List Char)

theorem run_renumbered (number : Nat → Nat)
    (injective : ∀ one other, number one = number other → one = other) (pattern : Pattern) :
    (pattern.renumbered number).program.run before text =
      (pattern.program.run before text).map (Match.renumbered number) := by
  have closed := program_sealed (pattern.renumbered number)
  have code : (pattern.renumbered number).program.code.toList =
      [.accept] ++ pattern.own.steps.map (·.copied (place 1 0) number) ++ [] := by
    rw [program_renumbered, Array.toList_map, own_code, List.map_cons, place_self, List.append_nil]
    rfl
  let hosting := Hosting.ofBlock pattern [.accept] [] 0 number id code (Nat.zero_lt_succ 0) injective
    fun new _ => Hosting.finish_at_end closed new
  have entry : (pattern.renumbered number).program.entry = hosting.spot pattern.program.entry := by
    have same := congrArg Program.entry (program_renumbered number pattern)
    exact same.trans (congrFun place_self _).symm
  exact hosting.run_of_hosting (program_sealed pattern) closed entry before text

theorem run_group (number : Nat) (body : Pattern) :
    (group number body).program.run before text =
      (body.program.run before text).map (Match.within number) := by
  have closed := program_sealed (group number body)
  have made : (group number body).program =
      ⟨(body.own.inFront ⟨#[.accept, .mark number 0], 1⟩).code,
        (body.own.inFront ⟨#[.accept, .mark number 0], 1⟩).entry⟩ := by
    rw [program, compile, compile_eq]
    rfl
  have code : (group number body).program.code.toList =
      [.accept, .mark number 0] ++ body.own.steps.map (·.copied (place 2 1) id) ++ [] := by
    rw [made, Segment.list_in_front, List.append_nil]
    rfl
  have marks : (group number body).program.instruction 1 = .mark number 0 := by
    rw [instruction_of_list code]
    rfl
  let hosting := Hosting.ofBlock body [.accept, .mark number 0] [] 1 id
    (fun groups => if groups.contains number then groups else number :: groups) code
    (Nat.lt_succ_self 1) (fun _ _ same => same) (Hosting.finish_at_mark closed 1 number marks)
  have entry : (group number body).program.entry = hosting.spot body.program.entry :=
    congrArg Program.entry made
  have lifted : hosting.lift = Match.within number := by
    funext found
    have same : found.groups.map hosting.number = found.groups := List.map_id found.groups
    rw [Hosting.lift, same]
    rfl
  rw [hosting.run_of_hosting (program_sealed body) closed entry before text, lifted]

/-- The program of an alternation: that of its right side, a copy of the code of its left side, and a
fork that prefers the copy. -/
theorem program_alt (left right : Pattern) :
    (alt left right).program.code.toList = right.program.code.toList ++
        left.own.steps.map (·.copied (place right.program.code.size 0) id) ++
        [.fork (place right.program.code.size 0 left.program.entry) right.program.entry] ∧
      (alt left right).program.entry = right.program.code.size + left.own.steps.length := by
  let ofLeft := left.own.inFront ⟨right.program.code, 0⟩
  let fork := Instruction.fork ofLeft.entry right.program.entry
  have made : (alt left right).program = ⟨(ofLeft.push fork).code, (ofLeft.push fork).entry⟩ := by
    have placed := compile_eq left ⟨right.program.code, 0⟩
    simp only [ofLeft, fork, ← placed]
    rfl
  rw [made]
  constructor
  · rw [Fragment.push, Array.toList_push, Segment.list_in_front]
    rfl
  · exact Segment.size_in_front left.own ⟨right.program.code, 0⟩

/-- The copy of the left side in an alternation. -/
def hostingLeft (left right : Pattern) : Hosting left.program (alt left right).program :=
  Hosting.ofBlock left right.program.code.toList _ 0 id id
    (by rw [Array.length_toList]; exact (program_alt left right).1)
    (by rw [Array.length_toList]; exact (program_sealed right).nonempty)
    (fun _ _ same => same) fun new _ => Hosting.finish_at_end (program_sealed (alt left right)) new

theorem spot_left (left right : Pattern) :
    (hostingLeft left right).spot = place right.program.code.size 0 := by
  rw [← Array.length_toList]
  rfl

theorem program_alt_right (left right : Pattern) :
    (alt left right).program.code.toList =
      [.accept] ++ right.own.steps.map (·.copied (place 1 0) id) ++
        (left.own.steps.map (·.copied (place right.program.code.size 0) id) ++
          [.fork (place right.program.code.size 0 left.program.entry) right.program.entry]) := by
  have unmoved : right.own.steps.map (·.copied (place 1 0) id) = right.own.steps := by
    rw [place_self, List.map_congr_left fun instruction _ => Instruction.copied_id instruction,
      List.map_id']
  rw [(program_alt left right).1, own_code right, unmoved, List.append_assoc, List.append_assoc]
  rfl

/-- The program of the right side, at the beginning of that of an alternation. -/
def hostingRight (left right : Pattern) : Hosting right.program (alt left right).program :=
  Hosting.ofBlock right [.accept] _ 0 id id (program_alt_right left right) (Nat.zero_lt_succ 0)
    (fun _ _ same => same) fun new _ => Hosting.finish_at_end (program_sealed (alt left right)) new

theorem spot_right (left right : Pattern) : (hostingRight left right).spot = id := place_self

/-- An alternation finds what its left side finds, or else what its right side finds. -/
theorem run_alt (left right : Pattern) :
    (alt left right).program.run before text =
      (left.program.run before text).or (right.program.run before text) := by
  let ofLeft := hostingLeft left right
  let ofRight := hostingRight left right
  rcases program_alt left right with ⟨code, entry⟩
  have rightSize : right.program.code.size = 1 + right.own.steps.length := by
    rw [size_of_list (own_code right), List.length_cons, Nat.add_comm]
  have forked : (alt left right).program.instruction (alt left right).program.entry =
      .fork (ofLeft.spot left.program.entry) (ofRight.spot right.program.entry) := by
    rw [instruction_of_list code, entry, spot_left, spot_right,
      List.getD_append_right _ _ _ _ (by simp), List.length_append, List.length_map,
      Array.length_toList, Nat.sub_self]
    rfl
  have apart : Apart ofLeft ofRight := by
    intro address positive inside
    rw [spot_right]
    exact ofLeft.elsewhere_of_block _ (spot_left left right) (Nat.ne_of_gt positive) (Or.inl inside)
  have notLeft : ofLeft.Elsewhere (alt left right).program.entry := by
    apply ofLeft.elsewhere_of_block _ (spot_left left right)
    · omega
    · exact Or.inr (Nat.le_of_eq entry.symm)
  have notRight : ofRight.Elsewhere (alt left right).program.entry := by
    apply ofRight.elsewhere_of_block 1 rfl
    · omega
    · exact Or.inr (by omega)
  have same : ∀ found : Match, Match.mk found.length (found.groups.map id) = found := by
    intro found
    rw [List.map_id]
  have liftLeft : ofLeft.lift = id := funext same
  have liftRight : ofRight.lift = id := funext same
  have chosen := run_of_fork (program_sealed left) (program_sealed right)
    (program_sealed (alt left right)) (congrFun (spot_right left right) 0) apart before text forked
    notLeft notRight
  rw [liftLeft, liftRight, Option.map_id] at chosen
  exact chosen

theorem run_alternatives (first : Pattern) (others : List Pattern) :
    (alternatives (first :: others)).program.run before text =
      (first :: others).findSome? fun pattern => pattern.program.run before text := by
  induction others generalizing first with
  | nil =>
      rw [alternatives, List.findSome?_cons]
      cases first.program.run before text with
      | none => rfl
      | some found => rfl
  | cons second others ih =>
      have later := ih second
      have split : alternatives (first :: second :: others) =
          alt first (alternatives (second :: others)) := rfl
      rw [split, run_alt, later]
      cases found : first.program.run before text with
      | none => simp only [List.findSome?_cons, found, Option.none_or]
      | some whole => simp only [List.findSome?_cons, found, Option.some_or]

end Copies

end Pattern

end SlrKit
