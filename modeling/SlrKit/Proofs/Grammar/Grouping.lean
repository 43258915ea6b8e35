import SlrKit.Proofs.Grammar.DerivationTree
import SlrKit.Proofs.Grammar.OperatorGrammar

/-!
# Grouping by precedence

A tree of an operator grammar is grouped as the precedences tell if on either side of every
operator there is an operand that may stand there. Whatever a grouped operand holds may stand there
as well, so two grouped trees over the same tokens cannot differ: of the operators at their roots
each would be inside the other. And atoms with operators between them have a grouped tree: another
operator and atom are attached where the right operands first bind less tightly than the operator.
-/

set_option autoImplicit false

namespace SlrKit

namespace Grammar

/-- The operator of a production that has one between two operands. -/
def signOf? (grammar : Grammar) (production : Nat) : Option Nat :=
  match grammar.symbols production with
  | [.rule _, .token sign, .rule _] => some sign
  | _ => none

/-- The operator at the root of a tree. -/
def rootSign? (grammar : Grammar) : Tree → Option Nat
  | .leaf _ => none
  | .node production _ => grammar.signOf? production

/-- At every operator of the tree, the operators at the roots of its operands may stand on their
sides of it. -/
inductive Grouped (grammar : Grammar) : Tree → Prop
  | atom {production : Nat} {token : Token} : Grouped grammar (.node production [.leaf token])
  | join {production sign : Nat} {left right : Tree} {token : Token}
      (root : grammar.signOf? production = some sign)
      (leftGrouped : Grouped grammar left) (rightGrouped : Grouped grammar right)
      (leftInside : ∀ inner, grammar.rootSign? left = some inner →
        grammar.Inside .left inner sign)
      (rightInside : ∀ inner, grammar.rootSign? right = some inner →
        grammar.Inside .right inner sign) :
      Grouped grammar (.node production [left, .leaf token, right])

/-- Atoms with an operator between every two of them. -/
inductive Alternates (grammar : Grammar) (operators : List Nat) (atom : Nat) : List Token → Prop
  | atom {token : Token} (named : grammar.tokenName? atom = some token.name) :
      Alternates grammar operators atom [token]
  | join {tokens : List Token} {sign : Nat} {token last : Token}
      (before : Alternates grammar operators atom tokens) (among : sign ∈ operators)
      (named : grammar.tokenName? sign = some token.name)
      (lastNamed : grammar.tokenName? atom = some last.name) :
      Alternates grammar operators atom (tokens ++ [token, last])

/-- All operators at the leaves of the tree may stand on that side of the outer one. -/
def AllInside (grammar : Grammar) (operators : List Nat) (side : Assoc) (tree : Tree)
    (outer : Nat) : Prop :=
  ∀ token ∈ tree.leaves, ∀ sign ∈ operators, grammar.tokenName? sign = some token.name →
    grammar.Inside side sign outer

theorem leaves_atom (production : Nat) (token : Token) :
    (Tree.node production [.leaf token]).leaves = [token] := rfl

theorem mem_leaves_join {production : Nat} {left right : Tree} {token found : Token} :
    found ∈ (Tree.node production [left, .leaf token, right]).leaves ↔
      found ∈ left.leaves ∨ found = token ∨ found ∈ right.leaves := by
  simp [Tree.leaves, Forest.leaves]

theorem leaves_join (production : Nat) (left right : Tree) (token : Token) :
    (Tree.node production [left, .leaf token, right]).leaves =
      left.leaves ++ token :: right.leaves := by
  simp [Tree.leaves, Forest.leaves]

theorem Grouped.leaves_ne_nil {grammar : Grammar} {tree : Tree} (grouped : Grouped grammar tree) :
    tree.leaves ≠ [] := by
  cases grouped with
  | atom => exact List.cons_ne_nil _ _
  | join _ _ _ _ _ =>
      rw [leaves_join]
      exact List.append_ne_nil_of_right_ne_nil _ (List.cons_ne_nil _ _)

/-- Two splits of a list around an element are the same, or each element is on the other's side. -/
theorem split_around_cases {element other : Token} {front back before after : List Token}
    (same : front ++ element :: back = before ++ other :: after) :
    front = before ∧ element = other ∧ back = after ∨
      element ∈ before ∧ other ∈ back ∨ other ∈ front ∧ element ∈ after := by
  rcases List.append_eq_append_iff.mp same with ⟨between, split, rest⟩ | ⟨between, split, rest⟩
  · cases between with
    | nil =>
        rw [List.append_nil] at split
        cases rest
        exact Or.inl ⟨split.symm, rfl, rfl⟩
    | cons first between =>
        cases rest
        apply Or.inr ∘ Or.inl
        rw [split]
        exact ⟨by simp, by simp⟩
  · cases between with
    | nil =>
        rw [List.append_nil] at split
        cases rest
        exact Or.inl ⟨split, rfl, rfl⟩
    | cons first between =>
        cases rest
        apply Or.inr ∘ Or.inr
        rw [split]
        exact ⟨by simp, by simp⟩

namespace OperatorGrammar

variable {grammar : Grammar} {operators : List Nat} {atom : Nat}
  (shape : OperatorGrammar grammar operators atom)

include shape

section Trees

variable {production : Nat} {left right tree : Tree} {token : Token}

theorem terminal_unique {first second : Nat} {name : String}
    (one : grammar.tokenName? first = some name) (other : grammar.tokenName? second = some name) :
    first = second := by
  have index := token_index_of_name shape.wellFormed first name one
  rw [token_index_of_name shape.wellFormed second name other] at index
  exact (Option.some.inj index).symm

theorem production_bound_of_derives {children : List Tree}
    (derives : Tree.Derives grammar grammar.operand (.node production children)) :
    production < grammar.startProduction := by
  rcases derives.of_node with ⟨bound, rule, _⟩
  apply (shape.bound_iff production).mpr
  refine ⟨bound, ?_⟩
  intro last
  rw [last, shape.wellFormed.startsAtStartRule] at rule
  exact Nat.ne_of_lt shape.wellFormed.user_start_bounds.1 rule

theorem derives_of_atom (derives : Tree.Derives grammar grammar.operand
      (.node production [.leaf token])) :
    grammar.symbols production = [.token atom] ∧ grammar.tokenName? atom = some token.name := by
  have bound := shape.production_bound_of_derives derives
  have below := derives.of_node.2.2
  rcases shape.symbols_cases bound with single | ⟨sign, _, joins⟩
  · rw [single] at below
    cases below with
    | cons first _ =>
        cases first with
        | leaf named => exact ⟨single, named⟩
  · rw [joins] at below
    cases below with
    | cons _ rest => cases rest

theorem derives_of_join (derives : Tree.Derives grammar grammar.operand
      (.node production [left, .leaf token, right])) :
    ∃ sign ∈ operators,
      grammar.symbols production = [grammar.operand, .token sign, grammar.operand] ∧
      grammar.tokenName? sign = some token.name ∧
      Tree.Derives grammar grammar.operand left ∧ Tree.Derives grammar grammar.operand right := by
  have bound := shape.production_bound_of_derives derives
  have below := derives.of_node.2.2
  rcases shape.symbols_cases bound with single | ⟨sign, among, joins⟩
  · rw [single] at below
    cases below with
    | cons _ rest => cases rest
  · rw [joins] at below
    cases below with
    | cons leftDerives rest =>
        cases rest with
        | cons middle last =>
            cases last with
            | cons rightDerives _ =>
                cases middle with
                | leaf named => exact ⟨sign, among, joins, named, leftDerives, rightDerives⟩

omit shape in
theorem sign_of_join {sign : Nat}
    (joins : grammar.symbols production = [grammar.operand, .token sign, grammar.operand]) :
    grammar.signOf? production = some sign := by
  rw [signOf?, joins]

omit shape in
theorem sign_of_atom (single : grammar.symbols production = [.token atom]) :
    grammar.signOf? production = none := by
  rw [signOf?, single]

theorem all_inside {side : Assoc} {outer : Nat} (grouped : Grouped grammar tree)
    (derives : Tree.Derives grammar grammar.operand tree)
    (root : ∀ inner, grammar.rootSign? tree = some inner → grammar.Inside side inner outer) :
    grammar.AllInside operators side tree outer := by
  induction grouped generalizing side outer with
  | atom =>
      intro found member sign among named
      rcases shape.derives_of_atom derives with ⟨_, atomNamed⟩
      rw [leaves_atom, List.mem_singleton] at member
      rw [member] at named
      rw [shape.terminal_unique named atomNamed] at among
      exact absurd among shape.apart
  | @join production sign left right token joins _ _ leftInside rightInside leftAll rightAll =>
      rcases shape.derives_of_join derives with
        ⟨own, _, symbols, named, leftDerives, rightDerives⟩
      rw [sign_of_join symbols] at joins
      cases joins
      have shallow := root sign (sign_of_join symbols)
      intro found member inner among innerNamed
      rcases mem_leaves_join.mp member with inLeft | here | inRight
      · have deep := leftAll leftDerives leftInside found inLeft inner among innerNamed
        exact shape.inside_trans deep shallow
      · rw [here] at innerNamed
        rw [shape.terminal_unique innerNamed named]
        exact shallow
      · have deep := rightAll rightDerives rightInside found inRight inner among innerNamed
        exact shape.inside_trans deep shallow

end Trees

/-- Two grouped trees over the same tokens are the same. -/
theorem grouped_unique {tree other : Tree} (one : Grouped grammar tree)
    (two : Grouped grammar other) (derives : Tree.Derives grammar grammar.operand tree)
    (otherDerives : Tree.Derives grammar grammar.operand other)
    (same : tree.leaves = other.leaves) : tree = other := by
  have bound := @shape.production_bound_of_derives
  induction one generalizing other with
  | @atom production token =>
      rcases shape.derives_of_atom derives with ⟨single, _⟩
      cases two with
      | @atom again found =>
          rcases shape.derives_of_atom otherDerives with ⟨alike, _⟩
          cases same
          rw [shape.production_unique (bound derives) (bound otherDerives)
            (single.trans alike.symm)]
      | @join _ _ left _ _ _ leftGrouped _ _ _ =>
          rw [leaves_atom, leaves_join] at same
          cases leaves : left.leaves with
          | nil => exact absurd leaves leftGrouped.leaves_ne_nil
          | cons _ _ => simp [leaves] at same
  | @join production sign left right token joins leftGrouped rightGrouped leftInside rightInside
      leftSame rightSame =>
      rcases shape.derives_of_join derives with
        ⟨_, among, symbols, named, leftDerives, rightDerives⟩
      rw [sign_of_join symbols] at joins
      cases joins
      cases two with
      | atom =>
          rw [leaves_atom, leaves_join] at same
          cases leaves : left.leaves with
          | nil => exact absurd leaves leftGrouped.leaves_ne_nil
          | cons _ _ => simp [leaves] at same
      | @join again other before after found joins beforeGrouped afterGrouped beforeInside
          afterInside =>
          rcases shape.derives_of_join otherDerives with
            ⟨_, around, alike, foundNamed, beforeDerives, afterDerives⟩
          rw [sign_of_join alike] at joins
          cases joins
          rw [leaves_join, leaves_join] at same
          rcases split_around_cases same with
            ⟨front, middle, back⟩ | ⟨inBefore, inRight⟩ | ⟨inLeft, inAfter⟩
          · rw [middle] at named
            rw [shape.terminal_unique named foundNamed, ← alike] at symbols
            rw [leftSame beforeGrouped leftDerives beforeDerives front,
              rightSame afterGrouped rightDerives afterDerives back, middle,
              shape.production_unique (bound derives) (bound otherDerives) symbols]
          · -- The root of each tree is in an operand of the root of the other.
            have first := shape.all_inside beforeGrouped beforeDerives beforeInside token inBefore
              sign among named
            have second := shape.all_inside rightGrouped rightDerives rightInside found inRight
              other around foundNamed
            exact (shape.not_inside_both first second).elim
          · have first := shape.all_inside leftGrouped leftDerives leftInside found inLeft
              other around foundNamed
            have second := shape.all_inside afterGrouped afterDerives afterInside token inAfter
              sign among named
            exact (shape.not_inside_both first second).elim

section Existence

variable {sign : Nat} {token last : Token}

theorem exists_atom_tree (named : grammar.tokenName? atom = some last.name) :
    ∃ production, Tree.Derives grammar grammar.operand (.node production [.leaf last]) ∧
      grammar.signOf? production = none := by
  rcases shape.exists_atom with ⟨production, bound, single⟩
  have below : Forest.Derives grammar (grammar.symbols production) [.leaf last] := by
    rw [single]
    exact .singleton (.leaf named)
  have derives := Tree.Derives.node ((shape.bound_iff production).mp bound).1 below
  rw [shape.rule_of bound] at derives
  exact ⟨production, derives, sign_of_atom single⟩

theorem exists_join_tree (among : sign ∈ operators)
    (named : grammar.tokenName? sign = some token.name) {left right : Tree}
    (leftDerives : Tree.Derives grammar grammar.operand left)
    (rightDerives : Tree.Derives grammar grammar.operand right) :
    ∃ production,
      Tree.Derives grammar grammar.operand (.node production [left, .leaf token, right]) ∧
      grammar.signOf? production = some sign := by
  rcases shape.exists_join among with ⟨production, bound, joins⟩
  have below : Forest.Derives grammar (grammar.symbols production) [left, .leaf token, right] := by
    rw [joins]
    exact .cons leftDerives (.cons (.leaf named) (.singleton rightDerives))
  have derives := Tree.Derives.node ((shape.bound_iff production).mp bound).1 below
  rw [shape.rule_of bound] at derives
  exact ⟨production, derives, sign_of_join joins⟩

theorem exists_appended {tree : Tree} (grouped : Grouped grammar tree)
    (derives : Tree.Derives grammar grammar.operand tree) (among : sign ∈ operators)
    (named : grammar.tokenName? sign = some token.name)
    (lastNamed : grammar.tokenName? atom = some last.name)
    (inside : ∀ inner, grammar.rootSign? tree = some inner → grammar.Inside .left inner sign) :
    ∃ grown, Grouped grammar grown ∧ Tree.Derives grammar grammar.operand grown ∧
      grown.leaves = tree.leaves ++ [token, last] ∧ grammar.rootSign? grown = some sign := by
  rcases shape.exists_atom_tree lastNamed with ⟨single, atomDerives, plain⟩
  rcases shape.exists_join_tree among named derives atomDerives with ⟨production, joined, root⟩
  refine ⟨_, .join root grouped .atom inside ?_, joined, ?_, root⟩
  · intro inner found
    rw [rootSign?, plain] at found
    cases found
  · rw [leaves_join, leaves_atom]

theorem exists_attached {tree : Tree} (grouped : Grouped grammar tree)
    (derives : Tree.Derives grammar grammar.operand tree) (among : sign ∈ operators)
    (named : grammar.tokenName? sign = some token.name)
    (lastNamed : grammar.tokenName? atom = some last.name) :
    ∃ grown, Grouped grammar grown ∧ Tree.Derives grammar grammar.operand grown ∧
      grown.leaves = tree.leaves ++ [token, last] ∧
      (grammar.rootSign? grown = some sign ∨
        grammar.rootSign? grown = grammar.rootSign? tree) := by
  induction grouped with
  | @atom production first =>
      have plain := sign_of_atom (shape.derives_of_atom derives).1
      rcases shape.exists_appended .atom derives among named lastNamed (by
        intro inner found
        rw [rootSign?, plain] at found
        cases found) with ⟨grown, grouped, grownDerives, leaves, root⟩
      exact ⟨grown, grouped, grownDerives, leaves, Or.inl root⟩
  | @join production outer left right middle joins leftGrouped rightGrouped leftInside rightInside
      _ rightAttached =>
      rcases shape.derives_of_join derives with
        ⟨own, around, symbols, middleNamed, leftDerives, rightDerives⟩
      rw [sign_of_join symbols] at joins
      cases joins
      rcases shape.inside_total around among with looser | tighter
      · rcases shape.exists_appended
          (.join (sign_of_join symbols) leftGrouped rightGrouped leftInside rightInside) derives
          among named lastNamed (by
            intro inner found
            rw [rootSign?, sign_of_join symbols] at found
            cases found
            exact looser) with ⟨grown, grouped, grownDerives, leaves, root⟩
        exact ⟨grown, grouped, grownDerives, leaves, Or.inl root⟩
      · rcases rightAttached rightDerives with ⟨grown, grouped, grownDerives, leaves, root⟩
        rcases shape.exists_join_tree around middleNamed leftDerives grownDerives with
          ⟨again, whole, same⟩
        refine ⟨_, .join same leftGrouped grouped leftInside ?_, whole, ?_, Or.inr ?_⟩
        · intro inner found
          rcases root with new | old
          · rw [new] at found
            cases found
            exact tighter
          · rw [old] at found
            exact rightInside inner found
        · rw [leaves_join, leaves_join, leaves, List.append_assoc, List.cons_append]
        · rw [rootSign?, rootSign?, same, sign_of_join symbols]

/-- Atoms with operators between them have a grouped tree. -/
theorem exists_grouped {tokens : List Token}
    (alternates : Alternates grammar operators atom tokens) :
    ∃ tree, Grouped grammar tree ∧ Tree.Derives grammar grammar.operand tree ∧
      tree.leaves = tokens := by
  induction alternates with
  | atom named =>
      rcases shape.exists_atom_tree named with ⟨production, derives, _⟩
      exact ⟨_, .atom, derives, leaves_atom _ _⟩
  | join _ among named lastNamed ih =>
      rcases ih with ⟨tree, grouped, derives, leaves⟩
      rcases shape.exists_attached grouped derives among named lastNamed with
        ⟨grown, grownGrouped, grownDerives, grownLeaves, _⟩
      rw [leaves] at grownLeaves
      exact ⟨grown, grownGrouped, grownDerives, grownLeaves⟩

end Existence

end OperatorGrammar

end Grammar

end SlrKit
