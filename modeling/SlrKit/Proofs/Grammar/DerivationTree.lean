import SlrKit.Declarations
import SlrKit.Grammar.Basic

/-!
# Derivation trees

A derivation tree has tokens at its leaves and productions at its inner nodes. Its value is
computed from the bottom up and from left to right: the parameter runs through the actions in
that order, and the action of a node gets the values of its children, oldest first.
-/

set_option autoImplicit false

namespace SlrKit

/-- A tree of tokens and productions. -/
inductive Tree where
  | leaf (token : Token)
  | node (production : Nat) (children : List Tree)

mutual

/-- The tokens at the leaves, from left to right. -/
def Tree.leaves : Tree → List Token
  | .leaf token => [token]
  | .node _ children => Forest.leaves children

/-- The tokens at the leaves of a row of trees. -/
def Forest.leaves : List Tree → List Token
  | [] => []
  | tree :: rest => tree.leaves ++ Forest.leaves rest

end

mutual

/-- The tree derives its leaves from the symbol by productions of the grammar. A leaf stands for
the terminal whose name its token has. -/
inductive Tree.Derives (grammar : Grammar) : Symbol → Tree → Prop
  | leaf {terminal : Nat} {token : Token}
      (named : grammar.tokenName? terminal = some token.name) :
      Tree.Derives grammar (.token terminal) (.leaf token)
  | node {production : Nat} {children : List Tree}
      (bound : production < grammar.productionCount)
      (below : Forest.Derives grammar (grammar.symbols production) children) :
      Tree.Derives grammar (.rule (grammar.ruleOf production)) (.node production children)

/-- Each tree derives its leaves from the symbol in its place. -/
inductive Forest.Derives (grammar : Grammar) : List Symbol → List Tree → Prop
  | nil : Forest.Derives grammar [] []
  | cons {symbol : Symbol} {symbols : List Symbol} {tree : Tree} {trees : List Tree}
      (first : Tree.Derives grammar symbol tree) (rest : Forest.Derives grammar symbols trees) :
      Forest.Derives grammar (symbol :: symbols) (tree :: trees)

end

section Values

variable {α π : Type} [Inhabited α] (grammar : Grammar) (action? : Nat → Option (Action α π))

mutual

/-- The operand a tree stands for and the parameter after its actions. A node calls the action of
the declaration its production stands in once; without one it has the default value. -/
def Tree.evaluate : Tree → π → Operand α × π
  | .leaf token, param => (.lexeme token, param)
  | .node production children, param =>
      let below := Forest.evaluate children param
      match (grammar.declarationOf production).bind action? with
      | some action =>
          let result := action below.2 below.1
          (.value result.1, result.2)
      | none => (.value default, below.2)

/-- The operands of a row of trees, and the parameter after all their actions. -/
def Forest.evaluate : List Tree → π → List (Operand α) × π
  | [], param => ([], param)
  | tree :: rest, param =>
      let first := Tree.evaluate tree param
      let others := Forest.evaluate rest first.2
      (first.1 :: others.1, others.2)

end

end Values

theorem Tree.Derives.of_node {grammar : Grammar} {rule production : Nat} {children : List Tree}
    (derives : Tree.Derives grammar (.rule rule) (.node production children)) :
    production < grammar.productionCount ∧ grammar.ruleOf production = rule ∧
      Forest.Derives grammar (grammar.symbols production) children := by
  generalize same : Symbol.rule rule = symbol at derives
  cases derives with
  | node bound below =>
      cases same
      exact ⟨bound, rfl, below⟩

namespace Forest

theorem leaves_append (left right : List Tree) :
    leaves (left ++ right) = leaves left ++ leaves right := by
  induction left with
  | nil => rfl
  | cons tree rest ih => rw [List.cons_append, leaves, leaves, ih, List.append_assoc]

theorem leaves_singleton (tree : Tree) : leaves [tree] = tree.leaves := by
  rw [leaves, leaves, List.append_nil]

theorem Derives.append {grammar : Grammar} {symbols others : List Symbol}
    {trees more : List Tree} (left : Derives grammar symbols trees)
    (right : Derives grammar others more) :
    Derives grammar (symbols ++ others) (trees ++ more) := by
  induction trees generalizing symbols with
  | nil =>
      cases left
      exact right
  | cons tree rest ih =>
      cases left with
      | cons first below => exact .cons first (ih below)

theorem Derives.split {grammar : Grammar} {symbols others : List Symbol} {trees : List Tree}
    (derives : Derives grammar (symbols ++ others) trees) :
    ∃ left right, trees = left ++ right ∧ Derives grammar symbols left ∧
      Derives grammar others right := by
  induction symbols generalizing trees with
  | nil => exact ⟨[], trees, rfl, .nil, derives⟩
  | cons symbol symbols ih =>
      cases derives with
      | cons first rest =>
          obtain ⟨left, right, same, leftDerives, rightDerives⟩ := ih rest
          exact ⟨_ :: left, right, by rw [same, List.cons_append], .cons first leftDerives,
            rightDerives⟩

theorem Derives.split_at {grammar : Grammar} {symbols : List Symbol} {trees : List Tree}
    (derives : Derives grammar symbols.reverse trees) (depth : Nat) :
    ∃ older newest, trees = older ++ newest ∧
      Derives grammar (symbols.drop depth).reverse older ∧
        Derives grammar (symbols.take depth).reverse newest := by
  rw [← List.take_append_drop depth symbols, List.reverse_append] at derives
  exact derives.split

/-- The newest trees of a stack, as many as the row has symbols, derive the row. -/
theorem Derives.split_top {grammar : Grammar} {symbols : List Symbol} {trees : List Tree}
    (derives : Derives grammar symbols.reverse trees) (row : List Symbol)
    (behind : (symbols.take row.length).reverse = row) :
    ∃ older newest, trees = older ++ newest ∧
      Derives grammar (symbols.drop row.length).reverse older ∧ Derives grammar row newest := by
  have parts := derives.split_at row.length
  rw [behind] at parts
  exact parts

theorem Derives.length_eq {grammar : Grammar} {symbols : List Symbol} {trees : List Tree}
    (derives : Derives grammar symbols trees) : trees.length = symbols.length := by
  induction trees generalizing symbols with
  | nil =>
      cases derives
      rfl
  | cons tree rest ih =>
      cases derives with
      | cons first below => rw [List.length_cons, List.length_cons, ih below]

theorem Derives.singleton {grammar : Grammar} {symbol : Symbol} {tree : Tree}
    (derives : Tree.Derives grammar symbol tree) : Derives grammar [symbol] [tree] :=
  .cons derives .nil

section Values

variable {α π : Type} [Inhabited α] (grammar : Grammar) (action? : Nat → Option (Action α π))

theorem evaluate_append (left right : List Tree) (param : π) :
    evaluate grammar action? (left ++ right) param =
      ((evaluate grammar action? left param).1 ++
          (evaluate grammar action? right (evaluate grammar action? left param).2).1,
        (evaluate grammar action? right (evaluate grammar action? left param).2).2) := by
  induction left generalizing param with
  | nil => rfl
  | cons tree rest ih => simp only [List.cons_append, evaluate, ih]

theorem evaluate_singleton (tree : Tree) (param : π) :
    evaluate grammar action? [tree] param =
      ([(tree.evaluate grammar action? param).1], (tree.evaluate grammar action? param).2) := by
  simp only [evaluate]

theorem evaluate_length (trees : List Tree) (param : π) :
    (evaluate grammar action? trees param).1.length = trees.length := by
  induction trees generalizing param with
  | nil => rfl
  | cons tree rest ih => simp only [evaluate, List.length_cons, ih]

end Values

end Forest

end SlrKit
