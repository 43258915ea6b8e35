import SlrKit.Pattern.Library
import SlrKit.Proofs.Lexer.Priority
import SlrKit.Proofs.Pattern.Documented
import SlrKit.Proofs.Regex.Assumptions

/-!
# The combined pattern

What the combined pattern of a lexer matches is what the first rule that matches does by itself. The
groups that are counted up from rule to rule tell which rule that is, if the library counts the groups
of each pattern as they are numbered.
-/

set_option autoImplicit false

namespace SlrKit

namespace Lexer

open Regex

variable {library : Library} {explicit : String → Nat}

/-- The preferred match of the pattern of a rule by itself. -/
def Rule.preferred? (library : Library) (rule : Rule) (behind ahead : List Char) : Option Match :=
  match library.compile rule.pattern with
  | .ok search => search behind ahead
  | .error _ => none

/-- The rule is the first of those that match, and its own match has `size` bytes. -/
def FirstMatching (library : Library) (rules : List Rule) (behind ahead : List Char) (rule : Rule)
    (size : Nat) : Prop :=
  ∃ earlier later found, rules = earlier ++ rule :: later ∧
    (∀ other ∈ earlier, other.preferred? library behind ahead = none) ∧
    rule.preferred? library behind ahead = some found ∧ found.size = size

/-- What trying the rules one by one comes to. -/
def firstMatch? (library : Library) (rules : List Rule) (behind ahead : List Char) :
    Option (Rule × Nat) :=
  rules.findSome? fun rule =>
    (rule.preferred? library behind ahead).map fun found => (rule, found.size)

/-- The rule that a match belongs to, if `count` groups are counted before the first rule. -/
def owner? (count : Nat) (rules : List Rule) (found : Match) : Option (Rule × Nat) :=
  ((branchesFrom (count + 1) rules).find? fun branch =>
    (found.behindGroups count).hasGroup branch.group).map fun branch => (branch.rule, found.size)

/-- The library reads the pattern of the rule, and the rule counts its groups as they are numbered. -/
structure Rule.Numbered (library : Library) (explicit : String → Nat) (rule : Rule) : Prop where
  accepted : library.Accepts rule.pattern
  counted : rule.groups = explicit rule.pattern

theorem numbered_of_declaration {declared : TokenDeclaration} {rule : Rule}
    (made : Rule.ofDeclaration library declared = .ok rule)
    (counts : library.CountsGroups explicit rule.pattern) : rule.Numbered library explicit := by
  unfold Rule.ofDeclaration at made
  split at made
  · cases made
  · rename_i count inside
    split at made
    · cases made
    · cases made
    · rename_i least _ alone
      cases made
      rw [Library.CountsGroups, inside] at counts
      refine ⟨⟨⟨count, inside⟩, least, alone⟩, ?_⟩
      rw [Except.ok.inj counts]
      rfl

section Owner

variable (behind ahead : List Char)

theorem owner_of_enclosed (count : Nat) (first : Rule) (others : List Rule) (own : Match) :
    owner? count (first :: others) own.enclosed = some (first, own.size) := by
  have took : (own.enclosed.behindGroups count).hasGroup
      (Branch.mk first (count + 1)).group = true := by
    simp [Match.behindGroups, Match.enclosed]
  rw [owner?, branchesFrom, List.find?_cons, took]
  rfl

theorem owner_of_behind (count : Nat) (first : Rule) (others : List Rule) (found : Match) :
    owner? count (first :: others) (found.behindGroups (first.groups + 1)) =
      owner? (count + (first.groups + 1)) others found := by
  have untaken : ((found.behindGroups (first.groups + 1)).behindGroups count).hasGroup
      (Branch.mk first (count + 1)).group = false := by
    simp [Match.behindGroups]
  have later : count + 1 + 1 + first.groups = count + (first.groups + 1) + 1 := by omega
  rw [owner?, branchesFrom, List.find?_cons, untaken, Match.behind_groups_behind, later]
  rfl

theorem accepted_patterns {rules : List Rule}
    (numbered : ∀ rule ∈ rules, rule.Numbered library explicit) :
    ∀ pattern ∈ rules.map (·.pattern), library.Accepts pattern := by
  intro pattern member
  obtain ⟨rule, among, rfl⟩ := List.mem_map.mp member
  exact (numbered rule among).accepted

/-- By induction on the rules: the first alternative of their choice is the group of the first rule,
and the others are the choice of the others. -/
theorem owner_of_choice (documented : library.Documented explicit) (first : Rule)
    (others : List Rule) (numbered : ∀ rule ∈ first :: others, rule.Numbered library explicit)
    {search : Searcher}
    (compiled : library.compile (combinedText (first :: others)) = .ok search) (count : Nat) :
    (search behind ahead).bind (owner? count (first :: others)) =
      firstMatch? library (first :: others) behind ahead := by
  induction others generalizing first search count with
  | nil =>
      have accepted := (numbered first List.mem_cons_self).accepted
      obtain ⟨own, alone, matches_own⟩ := documented.group accepted compiled
      rw [matches_own, firstMatch?, List.findSome?_cons, Rule.preferred?, alone]
      simp only
      cases own behind ahead with
      | none => rfl
      | some found => exact owner_of_enclosed count first [] found
  | cons second others ih =>
      have accepted := accepted_patterns numbered
      obtain ⟨left, right, compiledLeft, compiledRight, chosen⟩ :=
        documented.alternation accepted compiled
      have numberedFirst := numbered first List.mem_cons_self
      obtain ⟨own, alone, matches_own⟩ := documented.group numberedFirst.accepted compiledLeft
      -- The group of the first rule and those inside it are counted before the others.
      have later := ih second (fun rule member => numbered rule (List.mem_cons_of_mem first member))
        compiledRight (count + (first.groups + 1))
      rw [chosen, matches_own, ← numberedFirst.counted, firstMatch?, List.findSome?_cons,
        Rule.preferred?, alone]
      simp only
      cases own behind ahead with
      | some found => exact owner_of_enclosed count first _ found
      | none =>
          rw [Option.map_none, Option.map_none, Option.none_or, Option.bind_map]
          simp only
          rw [← firstMatch?, ← later]
          congr 1
          funext found
          exact owner_of_behind count first _ found

theorem first_match_eq_some_iff (rules : List Rule) (rule : Rule) (size : Nat) :
    firstMatch? library rules behind ahead = some (rule, size) ↔
      FirstMatching library rules behind ahead rule size := by
  rw [firstMatch?, List.findSome?_eq_some_iff]
  constructor
  · rintro ⟨earlier, other, later, split, own, failed⟩
    obtain ⟨found, matched, same⟩ := Option.map_eq_some_iff.mp own
    cases same
    exact ⟨earlier, later, found, split,
      fun other member => Option.map_eq_none_iff.mp (failed other member), matched, rfl⟩
  · rintro ⟨earlier, later, found, split, failed, matched, size⟩
    refine ⟨earlier, rule, later, split, ?_, ?_⟩
    · rw [matched, ← size]
      rfl
    · intro other member
      exact Option.map_eq_none_iff.mpr (failed other member)

theorem first_match_eq_none_iff (rules : List Rule) :
    firstMatch? library rules behind ahead = none ↔
      ∀ rule ∈ rules, rule.preferred? library behind ahead = none := by
  rw [firstMatch?, List.findSome?_eq_none_iff]
  simp only [Option.map_eq_none_iff]

theorem group_pos (count : Nat) (rules : List Rule) :
    ∀ branch ∈ branchesFrom (count + 1) rules, 0 < branch.group := by
  induction rules generalizing count with
  | nil => simp [branchesFrom]
  | cons rule rules ih =>
      intro branch member
      rw [branchesFrom, List.mem_cons] at member
      rcases member with rfl | later
      · exact Nat.succ_pos count
      · rw [Nat.add_right_comm] at later
        exact ih _ branch later

/-- With no groups before the first rule, the owner is told by the groups of the match itself. -/
theorem owner_of_first (rules : List Rule) (found : Match) :
    owner? 0 rules found = ((branchesFrom 1 rules).find? fun branch =>
      found.hasGroup branch.group).map fun branch => (branch.rule, found.size) := by
  have same : ∀ branch ∈ branchesFrom 1 rules,
      (found.behindGroups 0).hasGroup branch.group = found.hasGroup branch.group := by
    intro branch member
    have positive := group_pos 0 rules branch member
    simp [Match.behindGroups, positive, Nat.ne_of_gt positive]
  rw [owner?, List.find?_congr same]

theorem compile_of_searcher {first : Rule} {others : List Rule} {searcher? : Option Searcher}
    (compiled : searcherOf library (first :: others) = .ok searcher?) :
    ∃ search, library.compile (combinedText (first :: others)) = .ok search ∧
      searcher? = some search := by
  simp only [searcherOf, List.isEmpty_cons, Bool.false_eq_true, if_false] at compiled
  cases ofText : library.compile (combinedText (first :: others)) with
  | error reason =>
      rw [ofText] at compiled
      cases compiled
  | ok search =>
      rw [ofText] at compiled
      exact ⟨search, rfl, (Except.ok.inj compiled).symm⟩

/-- A lexer finds what trying its rules one by one comes to. -/
theorem match_rule_eq {definition : Definition} (documented : library.Documented explicit)
    (made : definition.branches = branchesFrom 1 definition.rules)
    (compiled : searcherOf library definition.rules = .ok definition.searcher?)
    (numbered : ∀ rule ∈ definition.rules, rule.Numbered library explicit) :
    definition.matchRule? behind ahead =
      firstMatch? library definition.rules behind ahead := by
  cases rules : definition.rules with
  | nil =>
      rw [rules] at compiled
      rw [Definition.matchRule?, ← Except.ok.inj compiled]
      rfl
  | cons first others =>
      rw [rules] at compiled numbered made
      obtain ⟨search, ofText, searches⟩ := compile_of_searcher compiled
      have owned := owner_of_choice behind ahead documented first others numbered ofText 0
      rw [Definition.matchRule?, searches, made, ← owned, Option.bind_some]
      congr 1
      funext found
      exact (owner_of_first (first :: others) found).symm

end Owner

theorem compiles_of_choice (documented : library.Documented explicit) (first : Rule)
    (others : List Rule) (numbered : ∀ rule ∈ first :: others, rule.Numbered library explicit)
    {search : Searcher}
    (compiled : library.compile (combinedText (first :: others)) = .ok search) :
    ∀ rule ∈ first :: others, ∃ own, library.compile rule.pattern = .ok own := by
  induction others generalizing first search with
  | nil =>
      intro rule member
      have accepted := (numbered first List.mem_cons_self).accepted
      obtain ⟨own, alone, _⟩ := documented.group accepted compiled
      rw [List.mem_singleton.mp member]
      exact ⟨own, alone⟩
  | cons second others ih =>
      have accepted := accepted_patterns numbered
      obtain ⟨left, right, compiledLeft, compiledRight, _⟩ :=
        documented.alternation accepted compiled
      have later := ih second (fun rule member => numbered rule (List.mem_cons_of_mem first member))
        compiledRight
      intro rule member
      cases List.mem_cons.mp member with
      | inl same =>
          obtain ⟨own, alone, _⟩ := documented.group (accepted _ List.mem_cons_self) compiledLeft
          rw [same]
          exact ⟨own, alone⟩
      | inr among => exact later rule among

/-- Trying the combined pattern is trying the token rules one by one: the rules with a handler in the
order of their declarations, then the others, longer patterns first. The rule of a match is the first
that matches by itself, and the match is its own preferred one. -/
theorem combined_pattern_tries_rules_in_order {α π : Type} {declarations : Declarations α π}
    {definition : Definition} (documented : library.Documented explicit)
    (defined : (define library declarations).value = .ok definition)
    (counted : ∀ rule ∈ definition.rules, library.CountsGroups explicit rule.pattern) :
    InPriority library declarations definition.rules ∧
      (∀ rule ∈ definition.rules, ∃ own, library.compile rule.pattern = .ok own) ∧
      (∀ behind ahead rule size, definition.matchRule? behind ahead = some (rule, size) ↔
        FirstMatching library definition.rules behind ahead rule size) ∧
      ∀ behind ahead, definition.matchRule? behind ahead = none ↔
        ∀ rule ∈ definition.rules, rule.preferred? library behind ahead = none := by
  obtain ⟨order, made, compiled⟩ := rules_of_define defined
  have numbered : ∀ rule ∈ definition.rules, rule.Numbered library explicit := by
    intro rule member
    obtain ⟨declared, _, ofDeclared⟩ := exists_declaration order rule member
    exact numbered_of_declaration ofDeclared (counted rule member)
  have tries := fun behind ahead => match_rule_eq behind ahead documented made compiled numbered
  refine ⟨order, ?_, ?_, ?_⟩
  · cases rules : definition.rules with
    | nil => simp
    | cons first others =>
        rw [rules] at compiled numbered
        obtain ⟨search, ofText, _⟩ := compile_of_searcher compiled
        exact compiles_of_choice documented first others numbered ofText
  · intro behind ahead rule size
    rw [tries]
    exact first_match_eq_some_iff behind ahead _ rule size
  · intro behind ahead
    rw [tries]
    exact first_match_eq_none_iff behind ahead _

/-! Three rules, two of them with groups of their own: the one with a handler is tried first, then the
one with the longer pattern. -/
namespace Nested

def declarations : Declarations Nat Nat where
  tokens := [⟨"letter", "c", none⟩, ⟨"pair", "(a)(b)", none⟩,
    ⟨"bang", "(!)", some fun token => (token, .discard)⟩]

def definition : Definition := definitionOf Pattern.library declarations

def text : List Char := "ab!".toList

theorem rules_and_match :
    (definition.rules.map fun rule => (rule.name, rule.pattern),
      (definition.matchRule? [] text).map fun found => (found.1.name, found.2)) =
    ([("bang", "(!)"), ("pair", "(a)(b)"), ("letter", "c")], some ("pair", 2)) := by cbv

theorem rules_shown : (definition.rules.map fun rule => (rule.name, rule.pattern)) =
    [("bang", "(!)"), ("pair", "(a)(b)"), ("letter", "c")] :=
  congrArg Prod.fst rules_and_match

theorem is_made : (define Pattern.library declarations).value = .ok definition := by
  apply define_of_rules
  intro nothing
  have shown := rules_shown
  rw [definition, nothing] at shown
  cases shown

theorem counts_groups : ∀ rule ∈ definition.rules,
    Pattern.library.CountsGroups Pattern.explicitGroups rule.pattern := by
  intro rule member
  have listed := List.mem_map_of_mem (f := fun rule : Rule => (rule.name, rule.pattern)) member
  rw [rules_shown, List.mem_cons, List.mem_cons, List.mem_singleton] at listed
  obtain bang | pair | letter := listed
  · rw [(Prod.mk.inj bang).2, Library.CountsGroups]
    cbv
  · rw [(Prod.mk.inj pair).2, Library.CountsGroups]
    cbv
  · rw [(Prod.mk.inj letter).2, Library.CountsGroups]
    cbv

theorem pair_is_first_matching :
    Pattern.library.Documented Pattern.explicitGroups ∧
    (define Pattern.library declarations).value = .ok definition ∧
    (∀ rule ∈ definition.rules, Pattern.library.CountsGroups Pattern.explicitGroups rule.pattern) ∧
    ∃ rule, rule.name = "pair" ∧
      FirstMatching Pattern.library definition.rules [] text rule 2 := by
  have tried := (combined_pattern_tries_rules_in_order Pattern.library_documented is_made
    counts_groups).2.2.1
  obtain ⟨⟨rule, size⟩, found, same⟩ :=
    Option.map_eq_some_iff.mp (congrArg Prod.snd rules_and_match)
  obtain ⟨named, two⟩ := Prod.mk.inj same
  rw [show size = 2 from two] at found
  exact ⟨Pattern.library_documented, is_made, counts_groups, rule, named,
    (tried [] text rule 2).mp found⟩

end Nested

end Lexer

end SlrKit
