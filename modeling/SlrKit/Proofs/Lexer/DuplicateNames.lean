import Mathlib.Data.List.Induction
import SlrKit.Lexer.Register
import SlrKit.Proofs.Distinct

/-!
# Names that are declared more than once

The names of a language are those of its token rules without and with a handler, its keywords and its
literals, in this order. Each that comes more than once is reported where it comes first, with all the
places where it is declared. A register of the names comes to the same report.
-/

set_option autoImplicit false

namespace SlrKit

namespace Lexer

variable {α π : Type}

/-- The kinds of declarations in the order in which they are read. -/
def OriginKind.inOrder : List OriginKind := [.token, .handlerToken, .keyword, .literal]

def namesOfKind (declarations : Declarations α π) : OriginKind → List String
  | .token => declarations.simpleTokens.map (·.name)
  | .handlerToken => declarations.handlerTokens.map (·.name)
  | .keyword => declarations.keywords
  | .literal => declarations.literals.map Char.toString

def declaredNames (declarations : Declarations α π) : List String :=
  OriginKind.inOrder.flatMap (namesOfKind declarations)

/-- Where a name is declared: of each kind, the numbers of the declarations that have it. -/
def placesOf (declarations : Declarations α π) (name : String) : List Origin :=
  OriginKind.inOrder.flatMap fun kind =>
    ((List.range (namesOfKind declarations kind).length).filter fun index =>
      (namesOfKind declarations kind)[index]? = some name).map (Origin.mk kind)

/-- Every name that is declared more than once is reported, with all its places, in the order of the
first declarations; so none is reported twice. -/
structure ReportsDuplicates (declarations : Declarations α π) (errors : List LexerError) : Prop where
  reported : ∀ name, (∃ error ∈ errors, error.name = name) ↔
    1 < (declaredNames declarations).count name
  places : ∀ error ∈ errors, error.cause = .duplicateName (placesOf declarations error.name)
  ordered : errors.Pairwise fun earlier later =>
    (declaredNames declarations).idxOf earlier.name < (declaredNames declarations).idxOf later.name

section Places

theorem origins_of_kind_eq (kind : OriginKind) (names : List String) (name : String) :
    originsOf (originsOfKind kind names) name =
      ((List.range names.length).filter fun index => names[index]? = some name).map
        (Origin.mk kind) := by
  induction names using List.reverseRecOn with
  | nil => rfl
  | append_singleton names last ih =>
      have before : (List.range names.length).filter (fun index =>
          decide ((names ++ [last])[index]? = some name)) =
          (List.range names.length).filter fun index => names[index]? = some name := by
        apply List.filter_congr
        intro index member
        rw [List.getElem?_append_left (List.mem_range.mp member)]
      have split : originsOfKind kind (names ++ [last]) =
          originsOfKind kind names ++ [(last, ⟨kind, names.length⟩)] := by
        simp [originsOfKind, List.zipIdx_append]
      rw [split, originsOf, List.filterMap_append, ← originsOf, ih, List.length_append,
        List.length_singleton, List.range_succ, List.filter_append, List.map_append, before]
      by_cases same : last = name
      · simp [same]
      · simp [same]

theorem origins_eq (declarations : Declarations α π) :
    origins declarations =
      OriginKind.inOrder.flatMap fun kind => originsOfKind kind (namesOfKind declarations kind) := by
  simp [origins, OriginKind.inOrder, namesOfKind]

theorem origins_of_append (front back : List (String × Origin)) (name : String) :
    originsOf (front ++ back) name = originsOf front name ++ originsOf back name :=
  List.filterMap_append

theorem length_origins_of (all : List (String × Origin)) (name : String) :
    (originsOf all name).length = (all.map Prod.fst).count name := by
  induction all with
  | nil => rfl
  | cons declared rest ih =>
      obtain ⟨other, origin⟩ := declared
      rw [originsOf] at ih ⊢
      by_cases same : other = name
      · simp [same, ih]
      · simp [same, ih]

theorem names_of_origins (declarations : Declarations α π) :
    (origins declarations).map Prod.fst = declaredNames declarations := by
  rw [origins_eq, List.map_flatMap, declaredNames]
  congr 1
  funext kind
  rw [originsOfKind, List.map_map]
  exact List.zipIdx_map_fst 0 _

theorem origins_of_origins (declarations : Declarations α π) (name : String) :
    originsOf (origins declarations) name = placesOf declarations name := by
  rw [origins_eq, originsOf, List.filterMap_flatMap, placesOf]
  congr 1
  funext kind
  exact origins_of_kind_eq kind _ name

theorem length_places_of (declarations : Declarations α π) (name : String) :
    (placesOf declarations name).length = (declaredNames declarations).count name := by
  rw [← origins_of_origins, length_origins_of, names_of_origins]

end Places

section Report

theorem erase_dups_in_order {β : Type} [DecidableEq β] (items : List β) :
    items.eraseDups.Pairwise fun earlier later => items.idxOf earlier < items.idxOf later := by
  induction items using List.reverseRecOn with
  | nil => exact List.Pairwise.nil
  | append_singleton items last ih =>
      have before : ∀ item ∈ items.eraseDups, (items ++ [last]).idxOf item = items.idxOf item := by
        intro item member
        exact List.idxOf_append_of_mem (List.mem_eraseDups.mp member)
      have kept : items.eraseDups.Pairwise fun earlier later =>
          (items ++ [last]).idxOf earlier < (items ++ [last]).idxOf later := by
        apply ih.imp_of_mem
        intro earlier later earlierMember laterMember order
        rwa [before earlier earlierMember, before later laterMember]
      rw [erase_dups_snoc]
      split
      · exact kept
      · rename_i fresh
        rw [List.pairwise_append]
        refine ⟨kept, List.pairwise_singleton _ _, ?_⟩
        intro earlier member later alone
        rw [List.mem_singleton.mp alone, before earlier member, List.idxOf_append_of_notMem fresh]
        have bound := List.idxOf_lt_length_of_mem (List.mem_eraseDups.mp member)
        omega

theorem mem_duplicate_names (declarations : Declarations α π) (error : LexerError) :
    error ∈ duplicateNames declarations ↔
      1 < (declaredNames declarations).count error.name ∧
        error.cause = .duplicateName (placesOf declarations error.name) := by
  simp only [duplicateNames, List.mem_filterMap, List.mem_eraseDups, names_of_origins,
    origins_of_origins, length_places_of]
  constructor
  · rintro ⟨name, _, made⟩
    split at made
    · rename_i several
      cases made
      exact ⟨several, rfl⟩
    · cases made
  · rintro ⟨several, cause⟩
    refine ⟨error.name, List.count_pos_iff.mp (by omega), ?_⟩
    rw [if_pos several, ← cause]

theorem duplicate_names_report (declarations : Declarations α π) :
    ReportsDuplicates declarations (duplicateNames declarations) where
  reported := by
    intro name
    constructor
    · rintro ⟨error, member, rfl⟩
      exact ((mem_duplicate_names declarations error).mp member).1
    · intro several
      exact ⟨⟨.duplicateName (placesOf declarations name), name⟩,
        (mem_duplicate_names declarations _).mpr ⟨several, rfl⟩, rfl⟩
  places := fun error member => ((mem_duplicate_names declarations error).mp member).2
  ordered := by
    rw [duplicateNames, List.pairwise_filterMap, names_of_origins]
    apply (erase_dups_in_order (declaredNames declarations)).imp
    intro earlier later order first firstMade second secondMade
    simp only at firstMade secondMade
    split at firstMade
    · split at secondMade
      · cases firstMade
        cases secondMade
        exact order
      · cases secondMade
    · cases firstMade

theorem duplicate_names_eq_nil_iff (declarations : Declarations α π) :
    duplicateNames declarations = [] ↔ (declaredNames declarations).Nodup := by
  rw [List.nodup_iff_count_le_one, List.eq_nil_iff_forall_not_mem]
  constructor
  · intro nothing name
    by_contra several
    exact nothing ⟨.duplicateName (placesOf declarations name), name⟩
      ((mem_duplicate_names declarations _).mpr ⟨Nat.lt_of_not_le several, rfl⟩)
  · intro single error member
    have several := ((mem_duplicate_names declarations error).mp member).1
    exact absurd (single error.name) (Nat.not_le.mpr several)

end Report

namespace Register

/-- A register of some declarations: their names as they come first, and of each the places so far. -/
structure Holds (declared : List (String × Origin)) (register : Register) : Prop where
  order : register.order = (declared.map Prod.fst).eraseDups
  places : ∀ name, register.places name =
    if name ∈ declared.map Prod.fst then some (originsOf declared name) else none

theorem origins_of_unknown (declared : List (String × Origin)) (name : String)
    (unknown : name ∉ declared.map Prod.fst) : originsOf declared name = [] := by
  rw [← List.length_eq_zero_iff, length_origins_of, List.count_eq_zero]
  exact unknown

theorem Holds.note {declared : List (String × Origin)} {register : Register}
    (holds : Holds declared register) (last : String × Origin) :
    Holds (declared ++ [last]) (register.note last) := by
  have own : (register.places last.1).getD [] = originsOf declared last.1 := by
    rw [holds.places]
    split
    · rfl
    · rename_i unknown
      exact (origins_of_unknown declared last.1 unknown).symm
  constructor
  · rw [List.map_append, List.map_singleton, erase_dups_snoc, ← holds.order, Register.note,
      holds.places]
    by_cases known : last.1 ∈ declared.map Prod.fst
    · simp only [if_pos known, Option.isSome_some, if_true]
    · simp only [if_neg known, Option.isSome_none, Bool.false_eq_true, if_false]
  · intro name
    simp only [Register.note, replace, own, origins_of_append, List.map_append, List.map_singleton]
    by_cases same : name = last.1
    · simp [same, originsOf]
    · have elsewhere : originsOf [last] name = [] := by simp [originsOf, Ne.symm same]
      simp only [if_false, holds.places, List.mem_append, List.mem_singleton, same, or_false, elsewhere,
        List.append_nil]

theorem holds_of_notes (declared more : List (String × Origin)) (register : Register)
    (holds : Holds declared register) : Holds (declared ++ more) (more.foldl Register.note register) := by
  induction more generalizing declared register with
  | nil => simpa using holds
  | cons next more ih =>
      have further := ih (declared ++ [next]) (register.note next) (holds.note next)
      simpa using further

theorem report_eq (found : String → List Origin) (places : String → Option (List Origin))
    (order : List String) (distinct : order.Nodup)
    (known : ∀ name ∈ order, places name = some (found name)) :
    report places order = order.filterMap fun name =>
      if 1 < (found name).length then some ⟨.duplicateName (found name), name⟩ else none := by
  induction order generalizing places with
  | nil => rfl
  | cons name rest ih =>
      obtain ⟨alone, others⟩ := List.nodup_cons.mp distinct
      have later := ih (replace places name none) others (by
        intro other member
        have differs : other ≠ name := fun same => alone (same ▸ member)
        rw [replace, if_neg differs]
        exact known other (List.mem_cons_of_mem name member))
      rw [report, known name List.mem_cons_self, List.filterMap_cons]
      simp only [later]
      split
      · rfl
      · rfl

theorem duplicates_of_declarations (declarations : Declarations α π) :
    (ofDeclarations declarations).duplicates = duplicateNames declarations := by
  have holds : Holds (origins declarations) (ofDeclarations declarations) :=
    holds_of_notes [] (origins declarations) {} ⟨rfl, fun _ => rfl⟩
  rw [duplicates, holds.order]
  apply report_eq (originsOf (origins declarations))
  · exact erase_dups_nodup _
  · intro name member
    rw [holds.places, if_pos (List.mem_eraseDups.mp member)]

end Register

end Lexer

end SlrKit
