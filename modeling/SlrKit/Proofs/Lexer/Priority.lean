import Mathlib.Data.List.Sort
import SlrKit.Lexer.Definition

/-!
# The order of token rules

Rules with a handler keep the order of their declarations, and the others are sorted by the length of
their patterns, where equally long ones keep theirs. A lexer that is made has the rules of all its
declarations in this order, and what looks for their matches is compiled from them.
-/

set_option autoImplicit false

namespace SlrKit

/-- The same items, the largest first, where equally large ones are in their original order. -/
structure StablySorted {α : Type} (size : α → Nat) (sorted original : List α) : Prop where
  same : sorted.Perm original
  descending : sorted.Pairwise fun earlier later => size later ≤ size earlier
  ties : ∀ common, (sorted.filter fun item => size item = common) =
    original.filter fun item => size item = common

theorem merge_sort_stably_sorted {α : Type} (size : α → Nat) (items : List α) :
    StablySorted size (items.mergeSort fun left right => size right ≤ size left) items := by
  have transitive : ∀ left middle right : α, decide (size middle ≤ size left) = true →
      decide (size right ≤ size middle) = true → decide (size right ≤ size left) = true := by
    intro left middle right first second
    have lower := of_decide_eq_true second
    exact decide_eq_true (lower.trans (of_decide_eq_true first))
  have total : ∀ left right : α,
      (decide (size right ≤ size left) || decide (size left ≤ size right)) = true := by
    intro left right
    rcases Nat.le_total (size right) (size left) with below | above
    · simp [below]
    · simp [above]
  have shuffled := List.mergeSort_perm items fun left right => size right ≤ size left
  constructor
  · exact shuffled
  · have ordered := List.pairwise_mergeSort transitive total items
    exact ordered.imp fun {_ _} before => of_decide_eq_true before
  · intro common
    let level := items.filter fun item => size item = common
    have level_sorted : level.Pairwise fun left right => decide (size right ≤ size left) = true := by
      rw [List.pairwise_iff_forall_sublist]
      intro left right inside
      have member : ∀ item ∈ [left, right], size item = common := by
        intro item among
        have kept := List.mem_filter.mp (inside.subset among)
        exact of_decide_eq_true kept.2
      apply decide_eq_true
      rw [member left (by simp), member right (by simp)]
    have inside := List.sublist_mergeSort transitive total level_sorted List.filter_sublist
    have kept := inside.filter fun item => size item = common
    rw [List.filter_filter] at kept
    simp only [Bool.and_self] at kept
    exact (kept.eq_of_length (shuffled.filter _).length_eq.symm).symm

namespace Lexer

/-- The rules are those of the declarations: first those with a handler in the order of their
declarations, then the others, longer patterns first and equally long ones in the order of their
declarations. -/
def InPriority {α π : Type} (library : Regex.Library) (declarations : Declarations α π)
    (rules : List Rule) : Prop :=
  ∃ handled plain sorted, rules = handled ++ sorted ∧
    declarations.handlerTokens.map (Rule.ofDeclaration library) = handled.map .ok ∧
    declarations.simpleTokens.map (Rule.ofDeclaration library) = plain.map .ok ∧
    StablySorted Rule.patternLength sorted plain

theorem successes_of_no_failures (results : List (Except LexerError Rule))
    (clean : failures results = []) : results = (successes results).map .ok := by
  induction results with
  | nil => rfl
  | cons result results ih =>
      cases result with
      | error error => cases clean
      | ok rule =>
          have later : failures results = [] := clean
          have read := congrArg (List.cons (Except.ok rule)) (ih later)
          exact read

theorem rules_of_branches (group : Nat) (rules : List Rule) :
    (branchesFrom group rules).map (·.rule) = rules := by
  induction rules generalizing group with
  | nil => rfl
  | cons rule rules ih => rw [branchesFrom, List.map_cons, ih]

variable {α π : Type} {library : Regex.Library} {declarations : Declarations α π}
  {definition : Definition}

theorem in_priority_of_no_failures
    (handled : failures (declarations.handlerTokens.map (Rule.ofDeclaration library)) = [])
    (plain : failures (declarations.simpleTokens.map (Rule.ofDeclaration library)) = []) :
    InPriority library declarations
      (inPriority (successes (declarations.handlerTokens.map (Rule.ofDeclaration library)))
        (successes (declarations.simpleTokens.map (Rule.ofDeclaration library)))) :=
  ⟨_, _, _, rfl, successes_of_no_failures _ handled, successes_of_no_failures _ plain,
    merge_sort_stably_sorted Rule.patternLength _⟩

theorem rules_of_define (defined : (define library declarations).value = .ok definition) :
    InPriority library declarations definition.rules ∧
      definition.branches = branchesFrom 1 definition.rules ∧
      searcherOf library definition.rules = .ok definition.searcher? := by
  unfold define at defined
  simp only at defined
  split at defined
  · cases defined
  · rename_i clean
    rw [List.append_eq_nil_iff, List.append_eq_nil_iff] at clean
    split at defined
    · rename_i searcher? compiled
      cases defined
      have rules : ∀ all : List Rule,
          (⟨branchesFrom 1 all, searcher?, declarations.literals, declarations.onLexError⟩ :
            Definition).rules = all := rules_of_branches 1
      rw [rules]
      exact ⟨in_priority_of_no_failures clean.1.2 clean.2, rfl, compiled⟩
    · cases defined

theorem exists_declaration {rules : List Rule} (order : InPriority library declarations rules) :
    ∀ rule ∈ rules, ∃ declared ∈ declarations.tokens, Rule.ofDeclaration library declared = .ok rule := by
  obtain ⟨handled, plain, sorted, split, ofHandled, ofPlain, stable⟩ := order
  have listed : ∀ (tokens : List TokenDeclaration) (made : List Rule),
      tokens.map (Rule.ofDeclaration library) = made.map .ok → ∀ rule ∈ made,
        ∃ declared ∈ tokens, Rule.ofDeclaration library declared = .ok rule := by
    intro tokens made same rule among
    have result : Except.ok rule ∈ tokens.map (Rule.ofDeclaration library) := by
      rw [same]
      exact List.mem_map_of_mem among
    exact List.mem_map.mp result
  intro rule member
  rw [split] at member
  rcases List.mem_append.mp member with withHandler | without
  · obtain ⟨declared, among, made⟩ := listed _ _ ofHandled rule withHandler
    exact ⟨declared, List.mem_of_mem_filter among, made⟩
  · obtain ⟨declared, among, made⟩ := listed _ _ ofPlain rule (stable.same.mem_iff.mp without)
    exact ⟨declared, List.mem_of_mem_filter among, made⟩

/-- The lexer of declarations; one without rules if they have a mistake. -/
def definitionOf (library : Regex.Library) (declarations : Declarations α π) : Definition :=
  match (define library declarations).value with
  | .ok made => made
  | .error _ => ⟨[], none, [], fun _ _ => 0⟩

theorem define_of_rules (ruled : (definitionOf library declarations).rules ≠ []) :
    (define library declarations).value = .ok (definitionOf library declarations) := by
  cases made : (define library declarations).value with
  | ok definition => rw [definitionOf, made]
  | error errors =>
      rw [definitionOf, made] at ruled
      exact absurd rfl ruled

end Lexer

end SlrKit
