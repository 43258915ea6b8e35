import SlrKit.Proofs.Grammar.Grouping
import SlrKit.Proofs.Parser.BuiltTrees
import SlrKit.Proofs.Table.OperatorTable

/-!
# Expressions are parsed as they group

From where an operand is to come, the parser of an operator grammar reads the leaves of a grouped
tree and builds that tree, provided that all its operators may stand inside the operator before it
and inside the one behind it. Within a tree that holds of the operands of every operator. So the
parser reads every expression to its end, and the tree it builds is the one that is grouped.
-/

set_option autoImplicit false

namespace SlrKit

namespace Parser

variable {α π τ : Type}

/-- No error has been met, the stacks stand for the symbols, and the tokens come next. -/
structure Poised (parser : Parser α π τ) (graph : StateGraph) (config : Config α π τ)
    (symbols : List Symbol) (rest : List Token) : Prop where
  phase : config.phase = .parsing
  clean : config.errors = []
  stands : Stands parser graph config symbols
  ahead : Ahead parser.next config.lookahead config.source rest none

/-- All operators of the tree may stand on the right of the operator that has been read last. -/
def OpensBehind (parser : Parser α π τ) (operators : List Nat) (tree : Tree)
    (symbols : List Symbol) : Prop :=
  ∀ outer ∈ operators, ∀ older, symbols = .token outer :: older →
    parser.grammar.AllInside operators .right tree outer

/-- The input ends, or goes on with an operator on the left of which all operators of the tree may
stand. -/
def ClosesBefore (parser : Parser α π τ) (operators : List Nat) (tree : Tree)
    (rest : List Token) : Prop :=
  ∃ terminal, parser.tokenOf rest.head? = some terminal ∧
    (terminal ∈ operators ∧ parser.grammar.AllInside operators .left tree terminal ∨
      terminal = parser.grammar.endToken)

variable {parser : Parser α π τ} {graph : StateGraph} {config : Config α π τ}
  {symbols : List Symbol} {rest : List Token}

theorem Built.start_poised (built : parser.Built graph) {param : π} {source : τ}
    {tokens : List Token} (supplies : Supplies parser.next source tokens none) :
    ∃ first, parser.start param source = .proceed first ∧
      Poised parser graph first [] tokens := by
  rcases pull_proceeds (parser.opening param source) supplies with ⟨first, drawn, pulled⟩
  refine ⟨first, drawn, ?_, ?_, ?_, ?_⟩
  · exact pulled.kept.phase
  · exact pulled.kept.errors
  · exact (built.opening_stands param source).pulled pulled
  · exact pulled.ahead supplies

section Steps

variable (built : parser.Built graph) (agree : parser.grammar.LevelsAgree)

include built agree

theorem Built.cell_of_entry {top terminal : Nat} {below : List Nat}
    (path : graph.Path (top :: below) symbols) {lookahead : Option Token}
    (known : parser.tokenOf lookahead = some terminal) {cell : Cell}
    (entry : Table.Entry parser.grammar graph top terminal cell) :
    parser.cellFor top lookahead = cell := by
  have bound := built.canonical.path_bound path rfl
  have tokenBound := (token_of_cases lookahead terminal known).1
  rw [cellFor, known]
  exact (built.holds.cell_eq_iff built.wellFormed agree bound tokenBound cell).mpr entry

variable [Inhabited α]

theorem Built.shift_builds {token : Token} {terminal : Nat}
    (poised : Poised parser graph config symbols (token :: rest))
    (named : parser.grammar.tokenName? terminal = some token.name)
    (entry : ∀ top below, graph.Path (top :: below) symbols →
      ∃ target, graph.edge? top (.token terminal) = some target ∧
        Table.Entry parser.grammar graph top terminal (.shift target)) (trees : List Tree) :
    ∃ after, Builds parser config trees after (.leaf token :: trees) ∧
      Poised parser graph after (.token terminal :: symbols) rest := by
  rcases poised.stands.path.top with ⟨top, below, states⟩
  have path := poised.stands.path
  rw [states] at path
  rcases entry top below path with ⟨target, edge, entry⟩
  have index := Grammar.token_index_of_name built.wellFormed terminal token.name named
  have ahead := poised.ahead
  have lookahead : config.lookahead = some token := ahead.lookahead_eq
  have known : parser.tokenOf config.lookahead = some terminal := by
    rw [lookahead]
    exact index
  have cell := built.cell_of_entry agree path known entry
  rw [lookahead] at ahead
  cases ahead with
  | token supplies =>
      have supplies : Supplies parser.next (shifted config token target).source rest none :=
        supplies
      rcases pull_proceeds _ supplies with ⟨after, drawn, pulled⟩
      have next := parser.step_of_shift poised.phase states cell lookahead
      rw [drawn] at next
      refine ⟨after, .shift .refl poised.phase states cell lookahead next, ?_, ?_, ?_, ?_⟩
      · rw [pulled.kept.phase]
        exact poised.phase
      · rw [pulled.kept.errors]
        exact poised.clean
      · exact (poised.stands.shift states index edge).pulled pulled
      · exact pulled.ahead supplies

theorem Built.reduce_builds {terminal production : Nat}
    (poised : Poised parser graph config symbols rest)
    (known : parser.tokenOf rest.head? = some terminal)
    (entry : ∀ top below, graph.Path (top :: below) symbols →
      Table.Entry parser.grammar graph top terminal (.reduce production)) (trees : List Tree) :
    ∃ after,
      Builds parser config trees after
        (.node production (trees.take (parser.grammar.symbols production).length).reverse ::
          trees.drop (parser.grammar.symbols production).length) ∧
      Poised parser graph after
        (.rule (parser.grammar.ruleOf production) ::
          symbols.drop (parser.grammar.symbols production).length) rest := by
  rcases poised.stands.path.top with ⟨top, below, states⟩
  have path := poised.stands.path
  rw [states] at path
  rw [← poised.ahead.lookahead_eq] at known
  have cell := built.cell_of_entry agree path known (entry top below path)
  rcases built.reduce_cell poised.stands.path states config.lookahead production cell with
    ⟨_, _, enough, _, prior, others, target, cut, goto, edge⟩
  have next := parser.step_of_reduce poised.phase states cell cut goto
  exact ⟨_, .reduce .refl poised.phase states cell next, poised.phase, poised.clean,
    poised.stands.reduce enough cut edge, poised.ahead⟩

end Steps

section Trees

variable [Inhabited α] {operators : List Nat} {atom : Nat} (built : parser.Built graph)
  (shape : parser.grammar.OperatorGrammar operators atom)

include built shape

theorem Built.atom_builds {production : Nat} {token : Token}
    (derives : Tree.Derives parser.grammar parser.grammar.operand (.node production [.leaf token]))
    (poised : Poised parser graph config symbols (token :: rest))
    (before : BeforeOperand operators symbols)
    (closes : ClosesBefore parser operators (.node production [.leaf token]) rest)
    (trees : List Tree) :
    ∃ after, Builds parser config trees after (.node production [.leaf token] :: trees) ∧
      Poised parser graph after (parser.grammar.operand :: symbols) rest := by
  have bound := shape.production_bound_of_derives derives
  rcases shape.derives_of_atom derives with ⟨single, named⟩
  rcases built.shift_builds shape.agree poised named (by
    intro top below path
    rcases shape.atom_edge built.canonical path before with ⟨target, edge⟩
    exact ⟨target, edge, shape.atom_entry built.canonical path before edge⟩) trees with
    ⟨middle, shifts, shifted⟩
  rcases closes with ⟨terminal, known, follows⟩
  rcases built.reduce_builds shape.agree shifted known (by
    intro top below path
    apply shape.atom_done_entry built.canonical path bound single
    exact follows.imp And.left id) (.leaf token :: trees) with ⟨after, reduces, reduced⟩
  rw [single] at reduces reduced
  rw [shape.rule_of bound] at reduced
  exact ⟨after, shifts.trans reduces, reduced⟩

theorem Built.sign_builds {sign : Nat} {token : Token} (among : sign ∈ operators)
    (named : parser.grammar.tokenName? sign = some token.name)
    (poised : Poised parser graph config (parser.grammar.operand :: symbols) (token :: rest))
    (inside : ∀ outer ∈ operators, ∀ older, symbols = .token outer :: older →
      parser.grammar.Inside .right sign outer) (trees : List Tree) :
    ∃ after, Builds parser config trees after (.leaf token :: trees) ∧
      Poised parser graph after (.token sign :: parser.grammar.operand :: symbols) rest := by
  apply built.shift_builds shape.agree poised named
  intro top below path
  rcases shape.sign_edge built.canonical path among with ⟨target, edge⟩
  exact ⟨target, edge, shape.sign_entry built.canonical path among edge inside⟩

theorem Built.join_builds {production sign : Nat} {left right : Tree} {token : Token}
    (bound : production < parser.grammar.startProduction) (among : sign ∈ operators)
    (joins : parser.grammar.symbols production =
      [parser.grammar.operand, .token sign, parser.grammar.operand])
    (poised : Poised parser graph config
      (parser.grammar.operand :: .token sign :: parser.grammar.operand :: symbols) rest)
    {terminal : Nat} (known : parser.tokenOf rest.head? = some terminal)
    (follows : terminal ∈ operators ∧ parser.grammar.Inside .left sign terminal ∨
      terminal = parser.grammar.endToken) (trees : List Tree) :
    ∃ after,
      Builds parser config (right :: .leaf token :: left :: trees) after
        (.node production [left, .leaf token, right] :: trees) ∧
      Poised parser graph after (parser.grammar.operand :: symbols) rest := by
  have reduces := built.reduce_builds shape.agree poised known
    (fun _ _ path => shape.join_done_entry built.canonical path among bound joins follows)
    (right :: .leaf token :: left :: trees)
  rw [joins, shape.rule_of bound] at reduces
  exact reduces

/-- The parser builds every grouped tree whose operators may stand inside those around it. -/
theorem Built.grouped_builds {tree : Tree} (grouped : parser.grammar.Grouped tree)
    (derives : Tree.Derives parser.grammar parser.grammar.operand tree)
    (config : Config α π τ) (symbols : List Symbol) (rest : List Token) (trees : List Tree)
    (poised : Poised parser graph config symbols (tree.leaves ++ rest))
    (before : BeforeOperand operators symbols)
    (opens : OpensBehind parser operators tree symbols)
    (closes : ClosesBefore parser operators tree rest) :
    ∃ after, Builds parser config trees after (tree :: trees) ∧
      Poised parser graph after (parser.grammar.operand :: symbols) rest := by
  induction grouped generalizing config symbols rest trees with
  | atom =>
      rw [Grammar.leaves_atom] at poised
      exact built.atom_builds shape derives poised before closes trees
  | @join production sign left right token root leftGrouped rightGrouped leftInside rightInside
      leftBuilds rightBuilds =>
      have bound := shape.production_bound_of_derives derives
      rcases shape.derives_of_join derives with
        ⟨_, among, joins, named, leftDerives, rightDerives⟩
      rw [Grammar.OperatorGrammar.sign_of_join joins] at root
      cases root
      rw [Grammar.leaves_join, List.append_assoc, List.cons_append] at poised
      have member : token ∈ (Tree.node production [left, .leaf token, right]).leaves :=
        Grammar.mem_leaves_join.mpr (Or.inr (Or.inl rfl))
      rcases closes with ⟨terminal, known, follows⟩
      -- The left operand opens behind what is before the tree and closes before its operator.
      have leftOpens : OpensBehind parser operators left symbols := by
        intro outer around older same found inLeft
        exact opens outer around older same found (Grammar.mem_leaves_join.mpr (Or.inl inLeft))
      have leftCloses : ClosesBefore parser operators left (token :: (right.leaves ++ rest)) :=
        ⟨sign, Grammar.token_index_of_name shape.wellFormed sign token.name named,
          Or.inl ⟨among, shape.all_inside leftGrouped leftDerives leftInside⟩⟩
      rcases leftBuilds leftDerives config symbols _ trees poised before leftOpens leftCloses with
        ⟨behind, leftBuilt, read⟩
      have inside : ∀ outer ∈ operators, ∀ older, symbols = .token outer :: older →
          parser.grammar.Inside .right sign outer :=
        fun outer around older same => opens outer around older same token member sign among named
      rcases built.sign_builds shape among named read inside (left :: trees) with
        ⟨between, shifts, shifted⟩
      -- The right operand opens behind the operator and closes before what comes after the tree.
      have rightOpens : OpensBehind parser operators right
          (.token sign :: parser.grammar.operand :: symbols) := by
        intro outer _ older same
        cases same
        exact shape.all_inside rightGrouped rightDerives rightInside
      have rightCloses : ClosesBefore parser operators right rest := by
        refine ⟨terminal, known, ?_⟩
        rcases follows with ⟨after, all⟩ | last
        · apply Or.inl
          refine ⟨after, ?_⟩
          intro found inRight
          exact all found (Grammar.mem_leaves_join.mpr (Or.inr (Or.inr inRight)))
        · exact Or.inr last
      rcases rightBuilds rightDerives between _ rest _ shifted (Or.inr ⟨sign, among, _, rfl⟩)
        rightOpens rightCloses with ⟨complete, rightBuilt, ended⟩
      have next : terminal ∈ operators ∧ parser.grammar.Inside .left sign terminal ∨
          terminal = parser.grammar.endToken := by
        rcases follows with ⟨after, all⟩ | last
        · exact Or.inl ⟨after, all token member sign among named⟩
        · exact Or.inr last
      rcases built.join_builds shape bound among joins ended known next trees with
        ⟨after, reduces, reduced⟩
      exact ⟨after, leftBuilt.trans (shifts.trans (rightBuilt.trans reduces)), reduced⟩

theorem Built.operand_accepted (poised : Poised parser graph config [parser.grammar.operand] []) :
    ∃ value, parser.step config = .halt (config.finish (some value)) := by
  rcases poised.stands.path.top with ⟨top, below, states⟩
  have path := poised.stands.path
  rw [states] at path
  have lookahead : config.lookahead = none := poised.ahead.lookahead_eq
  have known : parser.tokenOf config.lookahead = some parser.grammar.endToken := by
    rw [lookahead]
    rfl
  have cell := built.cell_of_entry shape.agree path known
    (shape.accept_entry built.canonical path)
  rcases built.value_of_start poised.stands shape.wellFormed.start_symbols_eq.symm with
    ⟨value, operands⟩
  exact ⟨value, parser.step_of_accept poised.phase states cell lookahead operands⟩

theorem Built.grouped_accepted {tree : Tree} (grouped : parser.grammar.Grouped tree)
    (derives : Tree.Derives parser.grammar parser.grammar.operand tree) (param : π) (source : τ)
    (supplies : Supplies parser.next source tree.leaves none) :
    ∃ first last value outcome, parser.start param source = .proceed first ∧
      Builds parser first [] last [tree] ∧ parser.step last = .halt outcome ∧
      outcome.value = some value ∧ outcome.errors = [] := by
  rcases built.start_poised supplies with ⟨first, start, poised⟩
  rw [← List.append_nil tree.leaves] at poised
  rcases built.grouped_builds shape grouped derives first [] [] [] poised (Or.inl rfl)
    (by
      intro _ _ _ same
      cases same)
    ⟨_, rfl, Or.inr rfl⟩ with ⟨last, builds, read⟩
  rcases built.operand_accepted shape read with ⟨value, ends⟩
  exact ⟨first, last, value, _, start, builds, ends, rfl, read.clean⟩

end Trees

/-- The table of an operator grammar without precedence clauses is made without a conflict, and its
parser reads every row of atoms with operators between them. The tree it builds is grouped by the
precedences of the operators, and no other derivation tree of the row is. -/
theorem expressions_parse_as_they_group [Inhabited α] (width : IndexWidth)
    (declarations : Declarations α π) (book : RuleBook) (grammar : Grammar)
    (read : RuleBook.ofDeclarations declarations = .ok book)
    (compiled : Grammar.compile width declarations = .ok grammar)
    (plain : ∀ written ∈ book.productions, written.precedence = none)
    (operators : List Nat) (atom : Nat) (has : grammar.HasOperators operators atom) :
    ∃ table, (Table.ofGrammar grammar).value = .ok (StateGraph.ofGrammar grammar, table) ∧
      table.conflicts.isEmpty = true ∧
      ∀ tokens, grammar.Alternates operators atom tokens →
        ∃ tree, grammar.Grouped tree ∧ Tree.Derives grammar grammar.operand tree ∧
          tree.leaves = tokens ∧
          (∀ other, grammar.Grouped other → Tree.Derives grammar grammar.operand other →
            other.leaves = tokens → other = tree) ∧
          ∀ parser : Parser α π τ, parser.grammar = grammar → parser.table = table →
            ∀ param source, Supplies parser.next source tokens none →
              ∃ first last value outcome, parser.start param source = .proceed first ∧
                Builds parser first [] last [tree] ∧ parser.step last = .halt outcome ∧
                outcome.value = some value ∧ outcome.errors = [] ∧
                tree.evaluate grammar parser.action? param = (.value value, outcome.param) ∧
                ∃ bound, ∀ limit, bound ≤ limit →
                  parser.run limit param source = some (.ok outcome) := by
  have shape := Grammar.OperatorGrammar.of_compile width read compiled plain has
  rcases shape.exists_table with ⟨table, made, quiet⟩
  refine ⟨table, made, quiet, ?_⟩
  intro tokens alternates
  rcases shape.exists_grouped alternates with ⟨tree, grouped, derives, leaves⟩
  refine ⟨tree, grouped, derives, leaves, ?_, ?_⟩
  · intro other otherGrouped otherDerives otherLeaves
    exact shape.grouped_unique otherGrouped grouped otherDerives derives
      (otherLeaves.trans leaves.symm)
  · intro parser sameGrammar sameTable param source supplies
    rw [← sameGrammar] at shape compiled grouped derives made ⊢
    rw [← sameTable] at made
    rw [← leaves] at supplies
    have built := built_of_compile width declarations compiled made
    rcases built.grouped_accepted shape grouped derives param source supplies with
      ⟨first, last, value, outcome, start, builds, ends, accepted, clean⟩
    have result : (parser.step last).result? = some (.ok outcome) := by
      rw [ends]
      rfl
    rcases advance_of_goes builds.goes _ result with ⟨bound, runs⟩
    refine ⟨first, last, value, outcome, start, builds, ends, accepted, clean,
      built.evaluate_of_builds supplies start builds ends accepted, bound, ?_⟩
    intro limit enough
    rw [run, start]
    exact runs limit enough

end Parser

/-! Expressions with a sum, which associates to the left, and a power, which binds tighter and
associates to the right. Their value is their text with all parentheses. -/

namespace Powers

def text : Operand String → String
  | .lexeme token => token.value
  | .value written => written

def enclose (operands : List (Operand String)) : String :=
  match operands with
  | [single] => text single
  | _ => "(" ++ String.join (operands.map text) ++ ")"

def declarations : Declarations String Nat where
  literals := ['+', '^', 'n']
  precedence := [⟨.left, ["+"]⟩, ⟨.right, ["^"]⟩]
  productions := [⟨"E : E '+' E | E '^' E | 'n'",
    some fun calls operands => (enclose operands, calls + 1)⟩]

def grammar : Grammar where
  ruleNames := #["^", "E"]
  namedTokens := #[⟨"+", some ⟨1, .left⟩⟩, ⟨"^", some ⟨2, .right⟩⟩, ⟨"n", none⟩]
  productions := #[
    ⟨1, [.rule 1, .token 0, .rule 1], some ⟨1, .left⟩, some 0⟩,
    ⟨1, [.rule 1, .token 1, .rule 1], some ⟨2, .right⟩, some 0⟩,
    ⟨1, [.token 2], none, some 0⟩,
    ⟨0, [.rule 1], none, none⟩]
  expectShiftReduce := none
  expectReduceReduce := none

theorem compiled : Grammar.compile .bits32 declarations = .ok grammar := by cbv

theorem plain : ∃ book, RuleBook.ofDeclarations declarations = .ok book ∧
    ∀ written ∈ book.productions, written.precedence = none := by
  refine ⟨_, by cbv, ?_⟩
  decide

theorem has_operators : grammar.HasOperators [0, 1] 2 where
  oneRule := rfl
  distinct := by decide
  apart := by decide
  productions := by decide
  associates := by
    intro sign among
    rcases List.mem_pair.mp among with same | same
    · rw [same]
      exact ⟨_, rfl, Assoc.noConfusion⟩
    · rw [same]
      exact ⟨_, rfl, Assoc.noConfusion⟩

def parser (table : Table) : Parser String Nat (List (Except LexError Token)) where
  grammar := grammar
  table := table
  action? := declarations.action?
  recovery := .none
  next := Parser.readList

def atom (column : Nat) : Tree := .node 2 [.leaf (Sums.sign "n" column)]

def power : Tree :=
  .node 1 [atom 1, .leaf (Sums.sign "^" 2), .node 1 [atom 3, .leaf (Sums.sign "^" 4), atom 5]]

def tree : Tree := .node 0 [power, .leaf (Sums.sign "+" 6), atom 7]

theorem derives_atom (column : Nat) :
    Tree.Derives grammar (.rule (grammar.ruleOf 2)) (atom column) :=
  .node (show 2 < 4 by decide) (.singleton (.leaf rfl))

theorem derives : Tree.Derives grammar grammar.operand tree := by
  have inner : Tree.Derives grammar (.rule (grammar.ruleOf 1))
      (.node 1 [atom 3, .leaf (Sums.sign "^" 4), atom 5]) :=
    .node (show 1 < 4 by decide)
      (.cons (derives_atom 3) (.cons (.leaf rfl) (.singleton (derives_atom 5))))
  have whole : Tree.Derives grammar (.rule (grammar.ruleOf 1)) power :=
    .node (show 1 < 4 by decide)
      (.cons (derives_atom 1) (.cons (.leaf rfl) (.singleton inner)))
  have sum : Tree.Derives grammar (.rule (grammar.ruleOf 0)) tree :=
    .node (show 0 < 4 by decide)
      (.cons whole (.cons (.leaf rfl) (.singleton (derives_atom 7))))
  exact sum

theorem grouped : grammar.Grouped tree := by
  have inside : ∀ inner, grammar.rootSign? power = some inner → grammar.Inside .left inner 0 := by
    intro inner found
    cases found
    exact ⟨_, _, rfl, rfl, Or.inl (by decide)⟩
  have right : ∀ inner, grammar.rootSign? (.node 1 [atom 3, .leaf (Sums.sign "^" 4), atom 5]) =
      some inner → grammar.Inside .right inner 1 := by
    intro inner found
    cases found
    exact ⟨_, _, rfl, rfl, Or.inr ⟨rfl, rfl⟩⟩
  have single : ∀ side outer column inner, grammar.rootSign? (atom column) = some inner →
      grammar.Inside side inner outer := by
    intro side outer column inner found
    cases found
  exact .join rfl
    (.join rfl .atom (.join rfl .atom .atom (single _ _ _) (single _ _ _)) (single _ _ _) right)
    .atom inside (single _ _ _)

theorem alternates : grammar.Alternates [0, 1] 2 tree.leaves :=
  .join
    (.join
      (.join (.atom rfl) (show 1 ∈ [0, 1] by decide) rfl rfl)
      (show 1 ∈ [0, 1] by decide) rfl rfl)
    (show 0 ∈ [0, 1] by decide) rfl rfl

end Powers

namespace Parser

theorem power_of_power_groups_right :
    ∃ table, (Table.ofGrammar Powers.grammar).value =
        .ok (StateGraph.ofGrammar Powers.grammar, table) ∧
      table.conflicts.isEmpty = true ∧
      ∃ bound outcome,
        (∀ limit, bound ≤ limit →
          (Powers.parser table).run limit 0 (Powers.tree.leaves.map Except.ok) =
            some (.ok outcome)) ∧
        outcome.value = some "((n^(n^n))+n)" ∧ outcome.errors = [] ∧ outcome.param = 7 := by
  rcases Powers.plain with ⟨book, read, plain⟩
  rcases expressions_parse_as_they_group .bits32 Powers.declarations book Powers.grammar read
    Powers.compiled plain [0, 1] 2 Powers.has_operators with ⟨table, made, quiet, reads⟩
  rcases reads Powers.tree.leaves Powers.alternates with ⟨tree, _, _, _, unique, parses⟩
  rcases parses (Powers.parser table) rfl rfl 0 _ (supplies_read_list Powers.tree.leaves) with
    ⟨_, _, value, outcome, _, _, _, accepted, clean, computed, bound, runs⟩
  rw [← unique Powers.tree Powers.grouped Powers.derives rfl] at computed
  have known : Powers.tree.evaluate Powers.grammar (Powers.parser table).action? 0 =
      ((.value "((n^(n^n))+n)", 7) : Operand String × Nat) := by cbv
  rw [known] at computed
  rcases Prod.mk.inj computed with ⟨written, calls⟩
  cases written
  exact ⟨table, made, quiet, bound, outcome, runs, accepted, clean, calls.symm⟩

end Parser

end SlrKit
