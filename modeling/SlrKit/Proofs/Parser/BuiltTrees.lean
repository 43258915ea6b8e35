import SlrKit.Proofs.Parser.Soundness

/-!
# The trees that a parse builds

A shift adds a leaf to the trees built so far, and a reduction makes the newest of them, as many as
its production has symbols, the children of a node. What has been built accounts for the stacks, so
the tree that is left when the input is accepted is a derivation tree of it with its value.
-/

set_option autoImplicit false

namespace SlrKit

namespace Parser

variable {α π τ : Type} [Inhabited α]

/-- Steps from one configuration to another that shift and reduce, and what they make of the trees
built so far, the newest first. -/
inductive Builds (parser : Parser α π τ) (config : Config α π τ) (trees : List Tree) :
    Config α π τ → List Tree → Prop
  | refl : Builds parser config trees config trees
  | shift {middle after : Config α π τ} {grown : List Tree} {top target : Nat} {below : List Nat}
      {token : Token} (before : Builds parser config trees middle grown)
      (phase : middle.phase = .parsing) (states : middle.states = top :: below)
      (cell : parser.cellFor top middle.lookahead = .shift target)
      (lookahead : middle.lookahead = some token)
      (next : parser.step middle = .proceed after) :
      Builds parser config trees after (.leaf token :: grown)
  | reduce {middle after : Config α π τ} {grown : List Tree} {top production : Nat}
      {below : List Nat} (before : Builds parser config trees middle grown)
      (phase : middle.phase = .parsing) (states : middle.states = top :: below)
      (cell : parser.cellFor top middle.lookahead = .reduce production)
      (next : parser.step middle = .proceed after) :
      Builds parser config trees after
        (.node production (grown.take (parser.grammar.symbols production).length).reverse ::
          grown.drop (parser.grammar.symbols production).length)

variable {parser : Parser α π τ} {graph : StateGraph} {param : π} {tokens : List Token}
  {ending : Option LexError} {config middle after : Config α π τ} {symbols : List Symbol}
  {trees grown final : List Tree}

theorem Builds.trans (front : Builds parser config trees middle grown)
    (back : Builds parser middle grown after final) : Builds parser config trees after final := by
  induction back with
  | refl => exact front
  | shift _ phase states cell lookahead next ih => exact .shift ih phase states cell lookahead next
  | reduce _ phase states cell next ih => exact .reduce ih phase states cell next

theorem Builds.goes (builds : Builds parser config trees after grown) :
    parser.Goes config after := by
  induction builds with
  | refl => exact .refl
  | shift _ _ _ _ _ next ih => exact ih.tail next
  | reduce _ _ _ _ next ih => exact ih.tail next

theorem Built.grown_of_builds (built : parser.Built graph)
    (builds : Builds parser config trees after grown)
    (start : Grown parser graph param tokens ending config symbols trees.reverse) :
    ∃ symbols, Grown parser graph param tokens ending after symbols grown.reverse := by
  induction builds with
  | refl => exact ⟨symbols, start⟩
  | @shift middle after before top target below token _ phase states cell lookahead next ih =>
      rcases ih with ⟨symbols, account⟩
      have bound := built.canonical.path_bound account.stands.path states
      rcases built.shift_cell top bound middle.lookahead target cell with
        ⟨found, terminal, here, named, edge⟩
      rw [lookahead] at here
      cases here
      have pulled := pull_pulled parser (shifted middle token target)
      rw [← parser.step_of_shift phase states cell lookahead, next] at pulled
      have kept := account.shift states lookahead named edge pulled
      rw [← List.reverse_cons] at kept
      exact ⟨_, kept⟩
  | @reduce middle after before top production below _ phase states cell next ih =>
      rcases ih with ⟨symbols, account⟩
      rcases built.reduce_cell account.stands.path states middle.lookahead production cell with
        ⟨bound, _, enough, behind, prior, rest, target, cut, goto, edge⟩
      rw [parser.step_of_reduce phase states cell cut goto] at next
      cases next
      rcases account.reduce bound enough behind cut edge with
        ⟨older, children, split, count, kept⟩
      have newest : before = children.reverse ++ older.reverse := by
        rw [← List.reverse_append, ← split, List.reverse_reverse]
      have height : children.reverse.length = (parser.grammar.symbols production).length := by
        rw [List.length_reverse, count]
      rw [newest, List.take_left' height, List.drop_left' height, List.reverse_reverse,
        List.reverse_cons, List.reverse_reverse]
      exact ⟨_, kept⟩

/-- The one tree built when the input is accepted has the value that the parse ends with. -/
theorem Built.evaluate_of_builds (built : parser.Built graph) {source : τ}
    (supplies : Supplies parser.next source tokens ending)
    (first : parser.start param source = .proceed config) {tree : Tree}
    (builds : Builds parser config [] after [tree]) {outcome : Outcome α π τ} {value : α}
    (ends : parser.step after = .halt outcome) (accepted : outcome.value = some value) :
    tree.evaluate parser.grammar parser.action? param = (.value value, outcome.param) := by
  have start := (built.start_grown supplies first).2.2
  rcases built.grown_of_builds builds start with ⟨symbols, account⟩
  have last := (built.step_effect account.stands).accepted ends accepted
  have values := account.values
  rw [List.reverse_singleton, Forest.evaluate_singleton, last.operands,
    List.reverse_singleton] at values
  rcases Prod.mk.inj values with ⟨stacked, final⟩
  rw [← List.singleton_inj.mp stacked, last.outcome]
  exact Prod.ext rfl final

end Parser

end SlrKit
