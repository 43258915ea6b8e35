import SlrKit.Proofs.Parser.Safety

/-!
# Accepted inputs have derivation trees

As long as no error arises, the operands on the stack are the values of a row of trees. Read
from left to right, the leaves of the trees and the tokens ahead are the input, and the
parameter has run through the actions of the trees in that order. A shift adds a leaf; a
reduction makes the newest trees the children of a node.
-/

set_option autoImplicit false

namespace SlrKit

namespace Parser

variable {α π τ : Type} [Inhabited α]

/-- The trees, oldest first, account for the stacks, the parameter and what has been read. -/
structure Grown (parser : Parser α π τ) (graph : StateGraph) (param : π) (tokens : List Token)
    (ending : Option LexError) (config : Config α π τ) (symbols : List Symbol)
    (trees : List Tree) : Prop where
  stands : Stands parser graph config symbols
  derives : Forest.Derives parser.grammar symbols.reverse trees
  values : Forest.evaluate parser.grammar parser.action? trees param =
    (config.operands.reverse, config.param)
  reads : ∃ rest, Ahead parser.next config.lookahead config.source rest ending ∧
    Forest.leaves trees ++ rest = tokens

variable {parser : Parser α π τ} {graph : StateGraph} {param : π} {tokens : List Token}
  {ending : Option LexError} {config : Config α π τ} {symbols : List Symbol} {trees : List Tree}

theorem Grown.shift (grown : Grown parser graph param tokens ending config symbols trees)
    {top terminal target : Nat} {below : List Nat} {token : Token} {after : Config α π τ}
    (states : config.states = top :: below) (lookahead : config.lookahead = some token)
    (named : parser.grammar.tokenIndex? token.name = some terminal)
    (edge : graph.edge? top (.token terminal) = some target)
    (pulled : Pulled parser (shifted config token target) (.proceed after)) :
    Grown parser graph param tokens ending after (.token terminal :: symbols)
      (trees ++ [.leaf token]) := by
  have operands : after.operands = .lexeme token :: config.operands := pulled.kept.operands
  have left : after.param = config.param := pulled.kept.param
  constructor
  · exact (grown.stands.shift states named edge).pulled pulled
  · rw [List.reverse_cons]
    apply grown.derives.append
    exact .singleton (.leaf (Grammar.token_name_of_index token.name terminal named))
  · rw [Forest.evaluate_append, Forest.evaluate_singleton, grown.values, operands, left,
      List.reverse_cons, Tree.evaluate]
  · rcases grown.reads with ⟨rest, ahead, whole⟩
    rw [lookahead] at ahead
    cases ahead with
    | @token _ _ others _ supplies =>
        refine ⟨others, pulled.ahead supplies, ?_⟩
        rw [Forest.leaves_append, Forest.leaves_singleton, Tree.leaves, List.append_assoc]
        exact whole

theorem Grown.reduce (grown : Grown parser graph param tokens ending config symbols trees)
    {production prior target : Nat} {rest : List Nat}
    (bound : production < parser.grammar.productionCount)
    (enough : (parser.grammar.symbols production).length ≤ symbols.length)
    (behind : (symbols.take (parser.grammar.symbols production).length).reverse =
      parser.grammar.symbols production)
    (cut : config.states.drop (parser.grammar.symbols production).length = prior :: rest)
    (edge : graph.edge? prior (.rule (parser.grammar.ruleOf production)) = some target) :
    ∃ older children, trees = older ++ children ∧
      children.length = (parser.grammar.symbols production).length ∧
      Grown parser graph param tokens ending (parser.reduced config production target)
        (.rule (parser.grammar.ruleOf production) ::
          symbols.drop (parser.grammar.symbols production).length)
        (older ++ [.node production children]) := by
  rcases grown.derives.split_top _ behind with ⟨older, children, split, olderDerive, childrenDerive⟩
  refine ⟨older, children, split, childrenDerive.length_eq, ?_⟩
  have values := grown.values
  rw [split, Forest.evaluate_append] at values
  generalize olderValues : Forest.evaluate parser.grammar parser.action? older param = first
    at values
  generalize childValues :
    Forest.evaluate parser.grammar parser.action? children first.2 = second at values
  rcases Prod.mk.inj values with ⟨stacked, last⟩
  -- The children are as many as the symbols, so their operands are the ones on top.
  have count : second.1.length = (parser.grammar.symbols production).length := by
    rw [← childValues, Forest.evaluate_length]
    exact childrenDerive.length_eq
  have operands : config.operands = second.1.reverse ++ first.1.reverse := by
    rw [← List.reverse_append, stacked, List.reverse_reverse]
  rcases parser.reduced_of_stacked config production target second.1 first.1.reverse operands
    count with ⟨values, ends⟩
  constructor
  · exact grown.stands.reduce enough cut edge
  · rw [List.reverse_cons]
    exact olderDerive.append (.singleton (.node bound childrenDerive))
  · rw [Forest.evaluate_append, Forest.evaluate_singleton, olderValues, evaluate_node,
      childValues]
    rw [values, ends, List.reverse_cons, List.reverse_reverse, ← last]
  · rcases grown.reads with ⟨others, ahead, whole⟩
    refine ⟨others, ahead, ?_⟩
    rw [Forest.leaves_append, Forest.leaves_singleton, Tree.leaves, ← Forest.leaves_append,
      ← split]
    exact whole

theorem Built.start_grown (built : parser.Built graph) {source : τ} {config : Config α π τ}
    (supplies : Supplies parser.next source tokens ending)
    (first : parser.start param source = .proceed config) :
    config.errors = [] ∧ config.phase = .parsing ∧
      Grown parser graph param tokens ending config [] [] := by
  have pulled := pull_pulled parser (parser.opening param source)
  rw [start_eq_pull] at first
  rw [first] at pulled
  have stands := (built.opening_stands param source).pulled pulled
  refine ⟨pulled.kept.errors, pulled.kept.phase, stands, .nil, ?_, tokens,
    pulled.ahead supplies, rfl⟩
  rw [pulled.kept.operands, pulled.kept.param, Forest.evaluate]
  rfl

theorem Grown.step (grown : Grown parser graph param tokens ending config symbols trees)
    (phase : config.phase = .parsing) {step : Step α π τ} {after : Config α π τ}
    (effect : Effect parser graph config symbols step) (next : step = .proceed after)
    (clean : after.errors = []) :
    after.phase = .parsing ∧
      ∃ symbols trees, Grown parser graph param tokens ending after symbols trees := by
  cases effect with
  | @shift _ _ target _ token _ states _ lookahead named edge =>
      have pulled := pull_pulled parser (shifted config token target)
      rw [next] at pulled
      refine ⟨?_, _, _, grown.shift states lookahead named edge pulled⟩
      rw [pulled.kept.phase]
      exact phase
  | reduce _ _ _ bound _ enough behind cut _ edge =>
      cases next
      rcases grown.reduce bound enough behind cut edge with ⟨older, children, _, _, kept⟩
      exact ⟨phase, _, _, kept⟩
  | accept _ _ _ _ _ _ => cases next
  | @reject top _ _ _ _ =>
      have rejected := reject_rejected parser config top
      rw [next] at rejected
      cases rejected with
      | recover _ _ => simp at clean
  | resume recovering _ _ =>
      rw [phase] at recovering
      cases recovering
  | discard recovering _ =>
      rw [phase] at recovering
      cases recovering

/-- Without an error so far there are trees that account for everything. -/
theorem Built.reachable_grown (built : parser.Built graph) {source : τ}
    (supplies : Supplies parser.next source tokens ending)
    (reachable : Reachable parser param source config) (clean : config.errors = []) :
    config.phase = .parsing ∧
      ∃ symbols trees, Grown parser graph param tokens ending config symbols trees := by
  induction reachable with
  | start first =>
      rcases built.start_grown supplies first with ⟨_, phase, grown⟩
      exact ⟨phase, _, _, grown⟩
  | step before next ih =>
      rcases (built.reachable_sane before).stands with ⟨path, stands⟩
      rcases (built.step_effect stands).errors_grow next with ⟨more, grew⟩
      rw [clean] at grew
      rcases ih (List.append_eq_nil_iff.mp grew.symm).1 with ⟨phase, symbols, trees, grown⟩
      exact grown.step phase (built.step_effect grown.stands) next clean

theorem Grown.accept (built : parser.Built graph)
    (grown : Grown parser graph param tokens ending config symbols trees) {value : α}
    (lookahead : config.lookahead = none) (operands : config.operands = [.value value])
    (whole : symbols = parser.grammar.symbols parser.grammar.startProduction) :
    ∃ tree, Tree.Derives parser.grammar (.rule parser.grammar.userStart) tree ∧
      tree.leaves = tokens ∧
      tree.evaluate parser.grammar parser.action? param = (.value value, config.param) := by
  have derives := grown.derives
  rw [whole, built.wellFormed.start_symbols_eq, List.reverse_singleton] at derives
  cases derives with
  | @cons _ _ tree _ first others =>
      cases others
      refine ⟨tree, first, ?_, ?_⟩
      · rcases grown.reads with ⟨rest, ahead, all⟩
        rw [lookahead] at ahead
        cases ahead
        rw [Forest.leaves_singleton, List.append_nil] at all
        exact all
      · have values := grown.values
        rw [Forest.evaluate_singleton, operands, List.reverse_singleton] at values
        rcases Prod.mk.inj values with ⟨stacked, last⟩
        rw [← List.singleton_inj.mp stacked, ← last]

/-- A value without an error is the value of a derivation tree of the input. -/
theorem accepted_value_is_tree_value (width : IndexWidth) (declarations : Declarations α π)
    (parser : Parser α π τ) (graph : StateGraph)
    (compiled : Grammar.compile width declarations = .ok parser.grammar)
    (made : (Table.ofGrammar parser.grammar).value = .ok (graph, parser.table))
    (param : π) (source : τ) (tokens : List Token)
    (supplies : Supplies parser.next source tokens none) (limit : Nat)
    (outcome : Outcome α π τ) (ran : parser.run limit param source = some (.ok outcome))
    (value : α) (accepted : outcome.value = some value) (clean : outcome.errors = []) :
    ∃ tree, Tree.Derives parser.grammar (.rule parser.grammar.userStart) tree ∧
      tree.leaves = tokens ∧
      tree.evaluate parser.grammar parser.action? param = (.value value, outcome.param) := by
  have built := built_of_compile width declarations compiled made
  rcases run_result limit _ ran with first | ⟨last, reachable, ends⟩
  · have pulled := pull_pulled parser (parser.opening param source)
    rw [← start_eq_pull, Step.halt_of_result outcome first] at pulled
    rw [pulled.value_eq_none] at accepted
    cases accepted
  · -- Accepting adds no error, so the account has been kept up to the last step.
    rcases (built.reachable_sane reachable).stands with ⟨path, stands⟩
    have whole := (built.step_effect stands).accepted (Step.halt_of_result outcome ends) accepted
    rw [whole.outcome] at clean
    rcases built.reachable_grown supplies reachable clean with ⟨_, symbols, trees, grown⟩
    have same := (built.step_effect grown.stands).accepted (Step.halt_of_result outcome ends)
      accepted
    rw [same.outcome]
    exact grown.accept built same.lookahead same.operands same.symbols

theorem sum_of_two_has_tree :
    ∃ tree, Tree.Derives Sums.grammar (.rule Sums.grammar.userStart) tree ∧
      tree.leaves = [Sums.sign "n" 1, Sums.sign "+" 2, Sums.sign "n" 3] ∧
      tree.evaluate Sums.grammar Sums.declarations.action? 0 = (.value 3, 3) := by
  have ran : ∃ outcome, (Sums.parser .none).run 8 0 (List.map Except.ok
      [Sums.sign "n" 1, Sums.sign "+" 2, Sums.sign "n" 3]) = some (.ok outcome) ∧
      outcome.value = some 3 ∧ outcome.errors = [] ∧ outcome.param = 3 := by
    refine ⟨_, by cbv, ?_, ?_, ?_⟩
    · rfl
    · rfl
    · rfl
  rcases ran with ⟨outcome, ran, accepted, clean, param⟩
  have found := accepted_value_is_tree_value .bits32 Sums.declarations (Sums.parser .none)
    Sums.graph Sums.compiled Sums.made 0 _ _ (supplies_read_list _) 8 outcome ran 3 accepted clean
  rw [param] at found
  exact found

end Parser

end SlrKit
