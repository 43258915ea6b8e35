import SlrKit.Proofs.Parser.Safety

/-!
# Recovered values have derivation trees

After errors, too, the operands on the stack are the values of a row of trees, if the values that
actions compute do not depend on the parameter. Recovery drops the newest trees or the lookahead,
so the leaves of the trees that are left stay in the order of the input; some of it is missing.
-/

set_option autoImplicit false

namespace SlrKit

/-- The values that the actions compute do not depend on the parameter. -/
def Steady {α π : Type} (action? : Nat → Option (Action α π)) : Prop :=
  ∀ declaration action, action? declaration = some action →
    ∀ first second operands, (action first operands).1 = (action second operands).1

namespace Parser

variable {α π τ : Type} [Inhabited α]

theorem evaluate_steady (parser : Parser α π τ) (steady : Steady parser.action?)
    (production : Nat) (first second : π) (operands : List (Operand α)) :
    (parser.evaluate production first operands).1 =
      (parser.evaluate production second operands).1 := by
  unfold evaluate
  cases found : (parser.grammar.declarationOf production).bind parser.action? with
  | none => rfl
  | some action =>
      rcases Option.bind_eq_some_iff.mp found with ⟨declaration, _, own⟩
      exact steady declaration action own first second operands

/-- The trees, oldest first, account for the stacks. Their leaves are among what has been read. -/
structure Salvaged (parser : Parser α π τ) (graph : StateGraph) (tokens : List Token)
    (ending : Option LexError) (config : Config α π τ) (symbols : List Symbol)
    (trees : List Tree) : Prop where
  stands : Stands parser graph config symbols
  derives : Forest.Derives parser.grammar symbols.reverse trees
  values : ∀ param, (Forest.evaluate parser.grammar parser.action? trees param).1 =
    config.operands.reverse
  reads : ∃ read rest, Ahead parser.next config.lookahead config.source rest ending ∧
    read ++ rest = tokens ∧ (Forest.leaves trees).Sublist read

variable {parser : Parser α π τ} {graph : StateGraph} {tokens : List Token}
  {ending : Option LexError} {config : Config α π τ} {symbols : List Symbol} {trees : List Tree}

theorem Salvaged.shift (salvaged : Salvaged parser graph tokens ending config symbols trees)
    {top terminal target : Nat} {below : List Nat} {token : Token} {after : Config α π τ}
    (states : config.states = top :: below) (lookahead : config.lookahead = some token)
    (named : parser.grammar.tokenIndex? token.name = some terminal)
    (edge : graph.edge? top (.token terminal) = some target)
    (pulled : Pulled parser (shifted config token target) (.proceed after)) :
    Salvaged parser graph tokens ending after (.token terminal :: symbols)
      (trees ++ [.leaf token]) := by
  have operands : after.operands = .lexeme token :: config.operands := pulled.kept.operands
  constructor
  · exact (salvaged.stands.shift states named edge).pulled pulled
  · rw [List.reverse_cons]
    apply salvaged.derives.append
    exact .singleton (.leaf (Grammar.token_name_of_index token.name terminal named))
  · intro param
    rw [Forest.evaluate_append, Forest.evaluate_singleton, salvaged.values, operands,
      List.reverse_cons, Tree.evaluate]
  · rcases salvaged.reads with ⟨read, rest, ahead, whole, leaves⟩
    rw [lookahead] at ahead
    cases ahead with
    | @token _ _ others _ supplies =>
        refine ⟨read ++ [token], others, pulled.ahead supplies, ?_, ?_⟩
        · rw [List.append_assoc]
          exact whole
        · rw [Forest.leaves_append, Forest.leaves_singleton, Tree.leaves]
          exact leaves.append_right [token]

theorem Salvaged.reduce (salvaged : Salvaged parser graph tokens ending config symbols trees)
    (steady : Steady parser.action?) {production prior target : Nat} {rest : List Nat}
    (bound : production < parser.grammar.productionCount)
    (enough : (parser.grammar.symbols production).length ≤ symbols.length)
    (behind : (symbols.take (parser.grammar.symbols production).length).reverse =
      parser.grammar.symbols production)
    (cut : config.states.drop (parser.grammar.symbols production).length = prior :: rest)
    (edge : graph.edge? prior (.rule (parser.grammar.ruleOf production)) = some target) :
    ∃ trees, Salvaged parser graph tokens ending (parser.reduced config production target)
      (.rule (parser.grammar.ruleOf production) ::
        symbols.drop (parser.grammar.symbols production).length) trees := by
  rcases salvaged.derives.split_top _ behind with ⟨older, children, split, olderDerive, below⟩
  refine ⟨older ++ [.node production children], ?_, ?_, ?_, ?_⟩
  · exact salvaged.stands.reduce enough cut edge
  · rw [List.reverse_cons]
    exact olderDerive.append (.singleton (.node bound below))
  · intro param
    have values := salvaged.values param
    rw [split, Forest.evaluate_append] at values
    rw [Forest.evaluate_append, Forest.evaluate_singleton, evaluate_node]
    generalize Forest.evaluate parser.grammar parser.action? older param = first at values
    generalize childValues :
      Forest.evaluate parser.grammar parser.action? children first.2 = second at values
    dsimp only at values
    have count : second.1.length = (parser.grammar.symbols production).length := by
      rw [← childValues, Forest.evaluate_length]
      exact below.length_eq
    have operands : config.operands = second.1.reverse ++ first.1.reverse := by
      rw [← List.reverse_append, values, List.reverse_reverse]
    rw [(parser.reduced_of_stacked config production target second.1 first.1.reverse operands
      count).1, List.reverse_cons, List.reverse_reverse]
    simp only [evaluate_steady parser steady production second.2 config.param]
  · rcases salvaged.reads with ⟨read, others, ahead, whole, leaves⟩
    refine ⟨read, others, ahead, whole, ?_⟩
    rw [Forest.leaves_append, Forest.leaves_singleton, Tree.leaves, ← Forest.leaves_append,
      ← split]
    exact leaves

/-- Recovery keeps the older trees and drops the newest. -/
theorem Salvaged.resume (salvaged : Salvaged parser graph tokens ending config symbols trees)
    {depth : Nat} {discarded : Bool} (within : depth ≤ symbols.length) :
    ∃ trees, Salvaged parser graph tokens ending (config.resume depth discarded)
      (symbols.drop depth) trees := by
  have height : (symbols.take depth).reverse.length = depth := by
    rw [List.length_reverse, List.length_take_of_le within]
  have derives := salvaged.derives.split_top (symbols.take depth).reverse (by rw [height])
  rw [height] at derives
  rcases derives with ⟨older, dropped, split, olderDerive, droppedDerive⟩
  refine ⟨older, salvaged.stands.resume within, olderDerive, ?_, ?_⟩
  · intro param
    have values := salvaged.values param
    rw [split, Forest.evaluate_append, ← List.take_append_drop depth config.operands,
      List.reverse_append] at values
    -- As many operands are dropped as trees.
    have count := droppedDerive.length_eq
    rw [height] at count
    refine (List.append_inj' values ?_).1
    rw [Forest.evaluate_length, List.length_reverse, count, List.length_take_of_le]
    rw [← salvaged.stands.fits.length_eq]
    exact within
  · rcases salvaged.reads with ⟨read, rest, ahead, whole, leaves⟩
    rw [split, Forest.leaves_append] at leaves
    exact ⟨read, rest, ahead, whole, (List.sublist_append_left _ _).trans leaves⟩

theorem Salvaged.discard (salvaged : Salvaged parser graph tokens ending config symbols trees)
    {token : Token} {log : Array Record} {after : Config α π τ}
    (lookahead : config.lookahead = some token)
    (pulled : Pulled parser { config with phase := .recovering false true, log }
      (.proceed after)) :
    Salvaged parser graph tokens ending after symbols trees := by
  refine ⟨salvaged.stands.same pulled.kept.states pulled.kept.operands, salvaged.derives, ?_, ?_⟩
  · intro param
    rw [salvaged.values, pulled.kept.operands]
  · rcases salvaged.reads with ⟨read, rest, ahead, whole, leaves⟩
    rw [lookahead] at ahead
    cases ahead with
    | @token _ _ others _ supplies =>
        refine ⟨read ++ [token], others, pulled.ahead supplies, ?_, ?_⟩
        · rw [List.append_assoc]
          exact whole
        · exact leaves.trans (List.sublist_append_left _ _)

theorem Built.start_salvaged (built : parser.Built graph) {param : π} {source : τ}
    (supplies : Supplies parser.next source tokens ending)
    (first : parser.start param source = .proceed config) :
    Salvaged parser graph tokens ending config [] [] := by
  have pulled := pull_pulled parser (parser.opening param source)
  rw [start_eq_pull] at first
  rw [first] at pulled
  refine ⟨(built.opening_stands param source).pulled pulled, .nil, ?_, ?_⟩
  · intro param
    rw [pulled.kept.operands]
    rfl
  · exact ⟨[], tokens, pulled.ahead supplies, rfl, .slnil⟩

theorem Salvaged.step (salvaged : Salvaged parser graph tokens ending config symbols trees)
    (steady : Steady parser.action?) {step : Step α π τ} {after : Config α π τ}
    (effect : Effect parser graph config symbols step) (next : step = .proceed after) :
    ∃ symbols trees, Salvaged parser graph tokens ending after symbols trees := by
  cases effect with
  | @shift _ _ target _ token _ states _ lookahead named edge =>
      have pulled := pull_pulled parser (shifted config token target)
      rw [next] at pulled
      exact ⟨_, _, salvaged.shift states lookahead named edge pulled⟩
  | reduce _ _ _ bound _ enough behind cut _ edge =>
      cases next
      rcases salvaged.reduce steady bound enough behind cut edge with ⟨trees, kept⟩
      exact ⟨_, trees, kept⟩
  | accept _ _ _ _ _ _ => cases next
  | @reject top _ _ _ _ =>
      have rejected := reject_rejected parser config top
      rw [next] at rejected
      cases rejected with
      | recover _ _ =>
          exact ⟨symbols, trees, salvaged.stands.same rfl rfl, salvaged.derives, salvaged.values,
            salvaged.reads⟩
  | resume _ _ within =>
      cases next
      rcases salvaged.resume within with ⟨trees, kept⟩
      exact ⟨_, trees, kept⟩
  | discard _ _ =>
      have discarded := discard_discarded parser config
      rw [next] at discarded
      cases discarded with
      | token lookahead pulled => exact ⟨symbols, trees, salvaged.discard lookahead pulled⟩

theorem Built.reachable_salvaged (built : parser.Built graph) (steady : Steady parser.action?)
    {param : π} {source : τ} (supplies : Supplies parser.next source tokens ending)
    (reachable : Reachable parser param source config) :
    ∃ symbols trees, Salvaged parser graph tokens ending config symbols trees := by
  induction reachable with
  | start first => exact ⟨_, _, built.start_salvaged supplies first⟩
  | step _ next ih =>
      rcases ih with ⟨symbols, trees, salvaged⟩
      exact salvaged.step steady (built.step_effect salvaged.stands) next

theorem Salvaged.accept (built : parser.Built graph)
    (salvaged : Salvaged parser graph tokens ending config symbols trees) {value : α}
    (operands : config.operands = [.value value])
    (whole : symbols = parser.grammar.symbols parser.grammar.startProduction) :
    ∃ tree, Tree.Derives parser.grammar (.rule parser.grammar.userStart) tree ∧
      tree.leaves.Sublist tokens ∧
      ∀ param, (tree.evaluate parser.grammar parser.action? param).1 = .value value := by
  have derives := salvaged.derives
  rw [whole, built.wellFormed.start_symbols_eq, List.reverse_singleton] at derives
  cases derives with
  | @cons _ _ tree _ first others =>
      cases others
      refine ⟨tree, first, ?_, ?_⟩
      · rcases salvaged.reads with ⟨read, rest, _, all, leaves⟩
        rw [Forest.leaves_singleton] at leaves
        rw [← all]
        exact leaves.trans (List.sublist_append_left _ _)
      · intro param
        have values := salvaged.values param
        rw [Forest.evaluate_singleton, operands, List.reverse_singleton] at values
        exact List.singleton_inj.mp values

/-- A value, after any number of errors, is the value of a derivation tree whose leaves are some
tokens of the input in their order. -/
theorem recovered_value_is_tree_value (width : IndexWidth) (declarations : Declarations α π)
    (parser : Parser α π τ) (graph : StateGraph)
    (compiled : Grammar.compile width declarations = .ok parser.grammar)
    (made : (Table.ofGrammar parser.grammar).value = .ok (graph, parser.table))
    (steady : Steady parser.action?) (param : π) (source : τ) (tokens : List Token)
    (ending : Option LexError) (supplies : Supplies parser.next source tokens ending)
    (limit : Nat) (outcome : Outcome α π τ)
    (ran : parser.run limit param source = some (.ok outcome)) (value : α)
    (accepted : outcome.value = some value) :
    ∃ tree, Tree.Derives parser.grammar (.rule parser.grammar.userStart) tree ∧
      tree.leaves.Sublist tokens ∧
      ∀ param, (tree.evaluate parser.grammar parser.action? param).1 = .value value := by
  have built := built_of_compile width declarations compiled made
  rcases run_result limit _ ran with first | ⟨last, reachable, ends⟩
  · have pulled := pull_pulled parser (parser.opening param source)
    rw [← start_eq_pull, Step.halt_of_result outcome first] at pulled
    rw [pulled.value_eq_none] at accepted
    cases accepted
  · rcases built.reachable_salvaged steady supplies reachable with ⟨symbols, trees, salvaged⟩
    have whole := (built.step_effect salvaged.stands).accepted
      (Step.halt_of_result outcome ends) accepted
    exact salvaged.accept built whole.operands whole.symbols

/-- An unknown sign inside a sum is dropped. -/
theorem sum_without_unknown_sign :
    ∃ tree, Tree.Derives Sums.grammar (.rule Sums.grammar.userStart) tree ∧
      tree.leaves.Sublist
        [Sums.sign "n" 1, Sums.sign "?" 2, Sums.sign "+" 3, Sums.sign "n" 4] ∧
      ∀ param, (tree.evaluate Sums.grammar Sums.declarations.action? param).1 = .value 3 := by
  have ran : ∃ outcome, (Sums.parser .panic).run 12 0 (List.map Except.ok
      [Sums.sign "n" 1, Sums.sign "?" 2, Sums.sign "+" 3, Sums.sign "n" 4]) =
        some (.ok outcome) ∧ outcome.value = some 3 := by
    refine ⟨_, by cbv, ?_⟩
    rfl
  rcases ran with ⟨outcome, ran, accepted⟩
  have steady : Steady (Sums.parser .panic).action? := by
    intro declaration action found
    cases declaration with
    | zero =>
        cases found
        intro _ _ _
        rfl
    | succ _ => cases found
  exact recovered_value_is_tree_value .bits32 Sums.declarations (Sums.parser .panic) Sums.graph
    Sums.compiled Sums.made steady 0 _ _ none (supplies_read_list _) 12 outcome ran 3 accepted

end Parser

end SlrKit
