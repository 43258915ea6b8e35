import SlrKit.Proofs.Grammar.FollowSets
import SlrKit.Proofs.Parser.Steps

/-!
# Sentences are accepted

Where no cell has two candidates, a parser reads every sentence along any of its derivation
trees: it shifts the leaves from left to right and reduces every node once its children are on
the stacks. The token after a node follows its rule, so that the reduction is the candidate of
its cell.
-/

set_option autoImplicit false

namespace SlrKit

namespace Parser

variable {α π τ : Type}

/-- The parser comes from one configuration to the other without an error. -/
structure Reads [Inhabited α] (parser : Parser α π τ) (config after : Config α π τ)
    (states : List Nat) (operands : List (Operand α)) (param : π) (rest : List Token) : Prop where
  goes : parser.Goes config after
  phase : after.phase = .parsing
  states : after.states = states
  operands : after.operands = operands
  param : after.param = param
  errors : after.errors = config.errors
  ahead : Ahead parser.next after.lookahead after.source rest none

theorem Reads.refl [Inhabited α] {parser : Parser α π τ} {config : Config α π τ} {rest : List Token}
    (phase : config.phase = .parsing)
    (ahead : Ahead parser.next config.lookahead config.source rest none) :
    Reads parser config config config.states config.operands config.param rest :=
  ⟨.refl, phase, rfl, rfl, rfl, rfl, ahead⟩

theorem Reads.trans [Inhabited α] {parser : Parser α π τ} {config middle after : Config α π τ}
    {states others : List Nat} {operands values : List (Operand α)} {param last : π}
    {tokens rest : List Token} (first : Reads parser config middle states operands param tokens)
    (second : Reads parser middle after others values last rest) :
    Reads parser config after others values last rest :=
  ⟨first.goes.trans second.goes, second.phase, second.states, second.operands, second.param,
    second.errors.trans first.errors, second.ahead⟩

variable {parser : Parser α π τ} {graph : StateGraph}

theorem token_of_admitted {lookahead : Option Token} {source : τ} {rule : Nat}
    {rest : List Token} (ahead : Ahead parser.next lookahead source rest none)
    (admits : Follows.Admits parser.grammar rule rest) :
    ∃ terminal, parser.tokenOf lookahead = some terminal ∧
      ((Follows.ofGrammar parser.grammar).ofRule rule).contains terminal = true := by
  cases ahead with
  | ended => exact ⟨_, rfl, admits⟩
  | token _ => exact admits

section Productions

variable (built : parser.Built graph) (free : Table.ConflictFree parser.grammar graph)

include built free

theorem Built.cell_of_candidate {state terminal : Nat} (bound : state < graph.stateCount)
    {lookahead : Option Token} (known : parser.tokenOf lookahead = some terminal) {cell : Cell}
    (candidate : Table.Candidate parser.grammar graph state terminal cell) :
    parser.cellFor state lookahead = cell := by
  have tokenBound := (token_of_cases lookahead terminal known).1
  rw [cellFor, known]
  exact built.holds.cell_of_candidate free bound tokenBound cell candidate

variable [Inhabited α]

theorem Built.leaf_runs {config : Config α π τ} (phase : config.phase = .parsing) {top : Nat}
    {below : List Nat} (states : config.states = top :: below) {terminal target : Nat}
    (edge : graph.edge? top (.token terminal) = some target) {token : Token}
    (named : parser.grammar.tokenName? terminal = some token.name) {rest : List Token}
    (ahead : Ahead parser.next config.lookahead config.source (token :: rest) none) :
    ∃ after, Reads parser config after (target :: config.states)
      (.lexeme token :: config.operands) config.param rest := by
  have lookahead := ahead.lookahead_eq
  rw [List.head?_cons] at lookahead
  rw [lookahead] at ahead
  cases ahead with
  | token supplies =>
      rcases (built.canonical.edge top _).mp ⟨target, edge⟩ with ⟨item, member, _⟩
      have bound := StateGraph.bound_of_mem_closed top item member
      have known : parser.tokenOf config.lookahead = some terminal := by
        rw [lookahead]
        exact Grammar.token_index_of_name built.wellFormed terminal token.name named
      have cell := built.cell_of_candidate free bound known (.shift edge)
      have step := parser.step_of_shift phase states cell lookahead
      have supplies : Supplies parser.next (shifted config token target).source rest none :=
        supplies
      rcases pull_proceeds _ supplies with ⟨after, drawn, pulled⟩
      rw [drawn] at step
      refine ⟨after, .single step, ?_, pulled.kept.states, pulled.kept.operands,
        pulled.kept.param, pulled.kept.errors, pulled.ahead supplies⟩
      rw [pulled.kept.phase]
      exact phase

/-- A production whose symbols have just been read is reduced if the next token follows it. -/
theorem Built.node_runs {config after : Config α π τ} {top production target : Nat}
    {below pushed : List Nat} {values : List (Operand α)} {param : π} {rest : List Token}
    (states : config.states = top :: below)
    (reads : Reads parser config after (pushed ++ config.states)
      (values.reverse ++ config.operands) param rest)
    (height : pushed.length = (parser.grammar.symbols production).length)
    (count : values.length = (parser.grammar.symbols production).length)
    {last : Nat} {others : List Nat} (highest : pushed ++ config.states = last :: others)
    (member : ⟨production, (parser.grammar.symbols production).length⟩ ∈ graph.closed last)
    (inner : production ≠ parser.grammar.startProduction)
    (edge : graph.edge? top (.rule (parser.grammar.ruleOf production)) = some target)
    (admits : Follows.Admits parser.grammar (parser.grammar.ruleOf production) rest) :
    ∃ reduced, Reads parser config reduced (target :: config.states)
      (.value (parser.evaluate production param values).1 :: config.operands)
      (parser.evaluate production param values).2 rest := by
  rcases token_of_admitted reads.ahead admits with ⟨terminal, known, follows⟩
  have complete : Item.isComplete parser.grammar
      ⟨production, (parser.grammar.symbols production).length⟩ = true := beq_self_eq_true _
  have cell := built.cell_of_candidate free
    (StateGraph.bound_of_mem_closed last _ member) known (.reduce member complete inner follows)
  have cut : after.states.drop (parser.grammar.symbols production).length = top :: below := by
    rw [reads.states, List.drop_left' height, states]
  rcases parser.reduced_of_stacked after production target values config.operands reads.operands
    count with ⟨operands, ends⟩
  rw [reads.param] at operands ends
  rcases (built.canonical.edge top _).mp ⟨target, edge⟩ with ⟨item, before, _⟩
  have goto := built.holds.goto top (parser.grammar.ruleOf production)
    (StateGraph.bound_of_mem_closed top item before) (built.wellFormed.ruleBound production)
  rw [edge] at goto
  have step := parser.step_of_reduce reads.phase (reads.states.trans highest) cell cut goto
  refine ⟨parser.reduced after production target, reads.goes.tail step, reads.phase, ?_, operands,
    ends, reads.errors, reads.ahead⟩
  simp only [reduced, cut, states]

end Productions

section Trees

variable [Inhabited α]

mutual

/-- Where an edge leads over a symbol, the parser reads what a tree derives from it. -/
theorem Built.tree_runs (built : parser.Built graph)
    (free : Table.ConflictFree parser.grammar graph) {symbol : Symbol} {tree : Tree}
    (derives : Tree.Derives parser.grammar symbol tree) (config : Config α π τ)
    (phase : config.phase = .parsing) (top : Nat) (below : List Nat)
    (states : config.states = top :: below) (target : Nat)
    (edge : graph.edge? top symbol = some target) (rest : List Token)
    (ahead : Ahead parser.next config.lookahead config.source (tree.leaves ++ rest) none)
    (admits : ∀ rule, symbol = .rule rule → Follows.Admits parser.grammar rule rest) :
    ∃ after, Reads parser config after (target :: config.states)
      ((tree.evaluate parser.grammar parser.action? config.param).1 :: config.operands)
      (tree.evaluate parser.grammar parser.action? config.param).2 rest := by
  cases derives with
  | leaf named =>
      rw [Tree.leaves] at ahead
      rw [Tree.evaluate]
      exact built.leaf_runs free phase states edge named ahead
  | @node production children bound inside =>
      rcases (built.canonical.edge top _).mp ⟨target, edge⟩ with ⟨item, member, next⟩
      have began := built.canonical.begin_mem_closed member next
        ((Grammar.mem_productions_of parser.grammar _ production).mpr ⟨bound, rfl⟩)
      have inner : production ≠ parser.grammar.startProduction := by
        intro same
        rw [same, built.wellFormed.startsAtStartRule] at next
        exact StateGraph.not_next_start_rule built.wellFormed item next
      rw [Tree.leaves] at ahead
      rcases built.forest_runs free inside config phase top below states production 0 began
        rfl rest ahead (admits _ rfl) with
        ⟨after, pushed, last, others, reads, height, highest, complete⟩
      rw [Nat.zero_add, inside.length_eq] at complete
      rw [evaluate_node]
      apply built.node_runs free states reads (height.trans inside.length_eq) _ highest complete
        inner edge (admits _ rfl)
      rw [Forest.evaluate_length, inside.length_eq]

theorem Built.forest_runs (built : parser.Built graph)
    (free : Table.ConflictFree parser.grammar graph) {symbols : List Symbol} {trees : List Tree}
    (derives : Forest.Derives parser.grammar symbols trees) (config : Config α π τ)
    (phase : config.phase = .parsing) (top : Nat) (below : List Nat)
    (states : config.states = top :: below) (production dot : Nat)
    (member : ⟨production, dot⟩ ∈ graph.closed top)
    (left : (parser.grammar.symbols production).drop dot = symbols) (rest : List Token)
    (ahead : Ahead parser.next config.lookahead config.source (Forest.leaves trees ++ rest) none)
    (admits : Follows.Admits parser.grammar (parser.grammar.ruleOf production) rest) :
    ∃ after pushed last others, Reads parser config after (pushed ++ config.states)
        ((Forest.evaluate parser.grammar parser.action? trees config.param).1.reverse ++
          config.operands)
        (Forest.evaluate parser.grammar parser.action? trees config.param).2 rest ∧
      pushed.length = trees.length ∧ pushed ++ config.states = last :: others ∧
      ⟨production, dot + trees.length⟩ ∈ graph.closed last := by
  cases derives with
  | nil => exact ⟨config, [], top, below, .refl phase ahead, rfl, states, member⟩
  | @cons symbol symbols tree trees first others =>
      have split : parser.grammar.symbols production =
          (parser.grammar.symbols production).take dot ++ symbol :: symbols := by
        rw [← left, List.take_append_drop]
      have next : Item.next? parser.grammar ⟨production, dot⟩ = some symbol := by
        rw [Item.next?, ← List.head?_drop, left]
        rfl
      -- The first tree is read over the edge of the item, and the item moves on with it.
      rcases built.canonical.edge_of_next member next with ⟨target, edge⟩
      have advanced := built.canonical.advance_mem_closed member next edge
      rw [Forest.leaves, List.append_assoc] at ahead
      have inside : ∀ rule, symbol = .rule rule →
          Follows.Admits parser.grammar rule (Forest.leaves trees ++ rest) := by
        intro rule same
        rw [same] at split
        exact Follows.admits_of_derives built.wellFormed split others admits
      rcases built.tree_runs free first config phase top below states target edge _ ahead
        inside with ⟨middle, read⟩
      have after : (parser.grammar.symbols production).drop (dot + 1) = symbols := by
        rw [← List.drop_drop, left]
        rfl
      rcases built.forest_runs free others middle read.phase target config.states read.states
        production (dot + 1) advanced after rest read.ahead admits with
        ⟨final, pushed, last, under, reads, height, highest, complete⟩
      rw [read.states, read.operands, read.param] at reads
      rw [read.states] at highest
      have count : dot + (tree :: trees).length = dot + 1 + trees.length := by
        rw [List.length_cons]
        omega
      refine ⟨final, pushed ++ [target], last, under, ?_, ?_, ?_, ?_⟩
      · rw [Forest.evaluate]
        simp only [List.reverse_cons, List.append_assoc, List.singleton_append]
        exact read.trans reads
      · rw [List.length_append, height, List.length_cons]
        rfl
      · rw [List.append_assoc, List.singleton_append]
        exact highest
      · rw [count]
        exact complete

end

theorem evaluate_rule (parser : Parser α π τ) {rule : Nat} {tree : Tree}
    (derives : Tree.Derives parser.grammar (.rule rule) tree) (param : π) :
    ∃ value, (tree.evaluate parser.grammar parser.action? param).1 = .value value := by
  cases derives with
  | node _ _ =>
      rw [evaluate_node]
      exact ⟨_, rfl⟩

/-- A sentence is read to its end, with the value of its tree. -/
theorem Built.sentence_runs (built : parser.Built graph)
    (free : Table.ConflictFree parser.grammar graph) {tree : Tree}
    (derives : Tree.Derives parser.grammar (.rule parser.grammar.userStart) tree) (param : π)
    (source : τ) (supplies : Supplies parser.next source tree.leaves none) :
    ∃ bound value outcome,
      (∀ limit, bound ≤ limit → parser.run limit param source = some (.ok outcome)) ∧
      outcome.value = some value ∧ outcome.errors = [] ∧
      tree.evaluate parser.grammar parser.action? param = (.value value, outcome.param) := by
  have starts := built.wellFormed.start_symbols_eq
  have admits := Follows.start_admits_nil built.wellFormed
  rw [← built.wellFormed.startsAtStartRule] at admits
  rcases pull_proceeds (parser.opening param source) supplies with
    ⟨first, drawn, pulled⟩
  have ahead := pulled.ahead supplies
  rw [← Forest.leaves_singleton, ← List.append_nil (Forest.leaves [tree])] at ahead
  have states : first.states = [StateGraph.startState] := by
    rw [pulled.kept.states, opening, built.holds.start]
  rcases built.forest_runs free (.singleton derives) first pulled.kept.phase _ _ states _ 0
    built.canonical.start_mem_closed starts [] ahead admits with
    ⟨after, pushed, last, others, reads, _, highest, finished⟩
  have lookahead := reads.ahead.lookahead_eq
  have known : parser.tokenOf after.lookahead = some parser.grammar.endToken := by
    rw [lookahead]
    rfl
  have cell := built.cell_of_candidate free (StateGraph.bound_of_mem_closed last _ finished)
    known (.accept rfl finished)
  have values := reads.operands
  have ends := reads.param
  rw [Forest.evaluate_singleton, pulled.kept.operands, pulled.kept.param] at values
  rw [Forest.evaluate_singleton, pulled.kept.param] at ends
  rcases evaluate_rule parser derives param with ⟨value, computed⟩
  change after.operands = [(tree.evaluate parser.grammar parser.action? param).1] at values
  change after.param = (tree.evaluate parser.grammar parser.action? param).2 at ends
  rw [computed] at values
  have step := parser.step_of_accept reads.phase (reads.states.trans highest) cell
    lookahead values
  have result : (parser.step after).result? = some (.ok (after.finish (some value))) := by
    rw [step]
    rfl
  rcases advance_of_goes reads.goes _ result with ⟨bound, runs⟩
  refine ⟨bound, value, after.finish (some value), ?_, rfl, ?_, ?_⟩
  · intro limit enough
    rw [run, start_eq_pull, drawn]
    exact runs limit enough
  · exact reads.errors.trans pulled.kept.errors
  · rw [Config.finish, ends, ← computed]

/-- Without conflicts the table of a grammar is made, and a parser with that table reads every
sentence of the grammar to its end. Its value is that of the derivation tree. -/
theorem sentences_are_accepted (width : IndexWidth) (declarations : Declarations α π)
    (grammar : Grammar) (compiled : Grammar.compile width declarations = .ok grammar)
    (free : Table.ConflictFree grammar (StateGraph.ofGrammar grammar)) :
    ∃ table, (Table.ofGrammar grammar).value = .ok (StateGraph.ofGrammar grammar, table) ∧
      ∀ parser : Parser α π τ, parser.grammar = grammar → parser.table = table →
        ∀ tree, Tree.Derives grammar (.rule grammar.userStart) tree →
          ∀ param source, Supplies parser.next source tree.leaves none →
            ∃ bound value outcome,
              (∀ limit, bound ≤ limit → parser.run limit param source = some (.ok outcome)) ∧
              outcome.value = some value ∧ outcome.errors = [] ∧
              tree.evaluate grammar parser.action? param = (.value value, outcome.param) := by
  rcases Table.of_graph_of_conflict_free free with ⟨table, filled⟩
  have made : (Table.ofGrammar grammar).value = .ok (StateGraph.ofGrammar grammar, table) := by
    simp only [Table.ofGrammar, filled]
    rfl
  refine ⟨table, made, ?_⟩
  intro parser sameGrammar sameTable tree derives param source supplies
  rw [← sameGrammar, ← sameTable] at made
  rw [← sameGrammar] at compiled free derives ⊢
  have built := built_of_compile width declarations compiled made
  exact built.sentence_runs free derives param source supplies

end Trees

end Parser

namespace Rows

def declarations : Declarations Nat Nat where
  literals := ['a']
  productions := [⟨"R : R 'a' | ", some fun calls operands => (operands.length, calls + 1)⟩]

/-- Rows of one letter, which can be empty. -/
def grammar : Grammar where
  ruleNames := #["^", "R"]
  namedTokens := #[⟨"a", none⟩]
  productions := #[
    ⟨1, [.rule 1, .token 0], none, some 0⟩, ⟨1, [], none, some 0⟩, ⟨0, [.rule 1], none, none⟩]
  expectShiftReduce := none
  expectReduceReduce := none

theorem compiled : Grammar.compile .bits32 declarations = .ok grammar := by cbv

set_option maxRecDepth 4000 in
theorem conflict_free : Table.ConflictFree grammar (StateGraph.ofGrammar grammar) := by
  apply (Table.is_conflict_free_iff _ _).mp
  cbv

def parser (table : Table) : Parser Nat Nat (List (Except LexError Token)) where
  grammar := grammar
  table := table
  action? := declarations.action?
  recovery := .panic
  next := Parser.readList

def graph : StateGraph := StateGraph.ofGrammar grammar

def table : Table :=
  match (Table.ofGrammar grammar).value with
  | .ok (_, table) => table
  | .error _ => ⟨0, 0, #[], #[], 0, 0, {}⟩

set_option maxRecDepth 4000 in
theorem made : (Table.ofGrammar grammar).value = .ok (graph, table) := by cbv

def letter (column : Nat) : Token := ⟨"a", "a", .ofLength (column - 1) 1, 1, column⟩

def tree : Tree := .node 0 [.node 0 [.node 1 [], .leaf (letter 1)], .leaf (letter 2)]

theorem derives : Tree.Derives grammar (.rule grammar.userStart) tree := by
  have bound : ∀ production, production < 3 → production < grammar.productionCount := fun _ => id
  have empty : Tree.Derives grammar (.rule (grammar.ruleOf 1)) (.node 1 []) :=
    .node (bound 1 (by decide)) .nil
  have one : Tree.Derives grammar (.rule (grammar.ruleOf 0))
      (.node 0 [.node 1 [], .leaf (letter 1)]) :=
    .node (bound 0 (by decide)) (.cons empty (.singleton (.leaf rfl)))
  have two : Tree.Derives grammar (.rule (grammar.ruleOf 0)) tree :=
    .node (bound 0 (by decide)) (.cons one (.singleton (.leaf rfl)))
  exact two

end Rows

namespace Parser

theorem row_of_two_is_accepted :
    ∃ table, (Table.ofGrammar Rows.grammar).value =
        .ok (StateGraph.ofGrammar Rows.grammar, table) ∧
      ∃ bound outcome,
        (∀ limit, bound ≤ limit →
          (Rows.parser table).run limit 0 [.ok (Rows.letter 1), .ok (Rows.letter 2)] =
            some (.ok outcome)) ∧
        outcome.value = some 2 ∧ outcome.errors = [] ∧ outcome.param = 3 := by
  rcases sentences_are_accepted .bits32 Rows.declarations Rows.grammar Rows.compiled
    Rows.conflict_free with ⟨table, made, accepts⟩
  rcases accepts (Rows.parser table) rfl rfl Rows.tree Rows.derives 0 _
    (supplies_read_list [Rows.letter 1, Rows.letter 2]) with
    ⟨bound, value, outcome, runs, accepted, clean, computed⟩
  have known : Rows.tree.evaluate Rows.grammar (Rows.parser table).action? 0 =
      ((.value 2, 3) : Operand Nat × Nat) := rfl
  rw [known] at computed
  rcases Prod.mk.inj computed with ⟨two, three⟩
  cases two
  exact ⟨table, made, bound, outcome, runs, accepted, clean, three.symm⟩

end Parser

end SlrKit
