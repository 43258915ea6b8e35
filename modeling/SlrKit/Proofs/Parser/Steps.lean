import SlrKit.Proofs.Automaton.Path
import SlrKit.Proofs.Grammar.DerivationTree
import SlrKit.Proofs.Parser.Reach
import SlrKit.Proofs.Table.Cells

/-!
# What a step does

The stacks of a parser stand for a path through the state graph: the states are those of the
path, and the operands fit the symbols of its edges. On such stacks a step has one of a few
effects, whatever conflicts the table decided and whatever recovery has cut away.
-/

set_option autoImplicit false

namespace SlrKit

/-- An operand that can stand for the symbol. -/
inductive Operand.Fits {α : Type} (grammar : Grammar) : Symbol → Operand α → Prop
  | lexeme {terminal : Nat} {token : Token}
      (named : grammar.tokenName? terminal = some token.name) :
      Operand.Fits grammar (.token terminal) (.lexeme token)
  | value {rule : Nat} {value : α} : Operand.Fits grammar (.rule rule) (.value value)

namespace Parser

variable {α π τ : Type} (parser : Parser α π τ) (graph : StateGraph)

/-- The parser follows the table that was made for its grammar and the graph. -/
structure Built : Prop where
  wellFormed : parser.grammar.WellFormed
  canonical : StateGraph.IsCanonical parser.grammar graph
  holds : Table.Holds parser.grammar graph parser.table

/-- The stacks of a configuration stand for a path over the symbols, newest first. -/
structure Stands (config : Config α π τ) (symbols : List Symbol) : Prop where
  path : graph.Path config.states symbols
  fits : List.Forall₂ (Operand.Fits parser.grammar) symbols config.operands

/-- The configuration before the first item is drawn. -/
def opening (param : π) (source : τ) : Config α π τ :=
  { states := [parser.table.startState], operands := [], lookahead := none, param, source }

/-- The configuration after shifting a token, before the next one is drawn. -/
def shifted (config : Config α π τ) (token : Token) (target : Nat) : Config α π τ :=
  { config with
    states := target :: config.states
    operands := .lexeme token :: config.operands
    resynced := false }

/-- The value of a production from the newest operands, and the parameter after its action. -/
def evaluateTop [Inhabited α] (config : Config α π τ) (production : Nat) : α × π :=
  parser.evaluate production config.param
    (config.operands.take (parser.grammar.symbols production).length).reverse

/-- The configuration after reducing a production. -/
def reduced [Inhabited α] (config : Config α π τ) (production target : Nat) : Config α π τ :=
  { config with
    states := target :: config.states.drop (parser.grammar.symbols production).length
    operands := .value (parser.evaluateTop config production).1 ::
      config.operands.drop (parser.grammar.symbols production).length
    param := (parser.evaluateTop config production).2 }

theorem reduced_of_stacked [Inhabited α] (config : Config α π τ) (production target : Nat)
    (values rest : List (Operand α)) (stacked : config.operands = values.reverse ++ rest)
    (count : values.length = (parser.grammar.symbols production).length) :
    (parser.reduced config production target).operands =
        .value (parser.evaluate production config.param values).1 :: rest ∧
      (parser.reduced config production target).param =
        (parser.evaluate production config.param values).2 := by
  have height : values.reverse.length = (parser.grammar.symbols production).length := by
    rw [List.length_reverse, count]
  simp only [reduced, evaluateTop, stacked, List.take_left' height, List.drop_left' height,
    List.reverse_reverse, and_self]

theorem evaluate_node [Inhabited α] (parser : Parser α π τ) (production : Nat)
    (children : List Tree) (param : π) :
    (Tree.node production children).evaluate parser.grammar parser.action? param =
      let below := Forest.evaluate parser.grammar parser.action? children param
      (.value (parser.evaluate production below.2 below.1).1,
        (parser.evaluate production below.2 below.1).2) := by
  rw [Tree.evaluate]
  simp only [evaluate]
  cases (parser.grammar.declarationOf production).bind parser.action? with
  | none => rfl
  | some action => rfl

section Cases

variable {config : Config α π τ} {top : Nat} {below : List Nat}

theorem step_of_shift [Inhabited α] (phase : config.phase = .parsing)
    (states : config.states = top :: below) {target : Nat}
    (cell : parser.cellFor top config.lookahead = .shift target) {token : Token}
    (lookahead : config.lookahead = some token) :
    parser.step config = parser.pull (shifted config token target) := by
  have chosen : parser.step config = parser.shift config target := by
    simp only [step, phase, states, cell]
  rw [chosen]
  simp only [shift, lookahead, shifted]

theorem step_of_reduce [Inhabited α] (phase : config.phase = .parsing)
    (states : config.states = top :: below) {production prior target : Nat} {rest : List Nat}
    (cell : parser.cellFor top config.lookahead = .reduce production)
    (cut : config.states.drop (parser.grammar.symbols production).length = prior :: rest)
    (goto : parser.table.goto? prior (parser.grammar.ruleOf production) = some target) :
    parser.step config = .proceed (parser.reduced config production target) := by
  have chosen : parser.step config = parser.reduce config production := by
    simp only [step, phase, states, cell]
  rw [chosen]
  simp only [reduce, cut, goto, reduced, evaluateTop]

theorem step_of_accept [Inhabited α] (phase : config.phase = .parsing)
    (states : config.states = top :: below)
    (cell : parser.cellFor top config.lookahead = .accept) {value : α}
    (lookahead : config.lookahead = none) (operands : config.operands = [.value value]) :
    parser.step config = .halt (config.finish (some value)) := by
  have chosen : parser.step config = config.accept := by
    simp only [step, phase, states, cell]
  rw [chosen]
  simp only [Config.accept, lookahead, operands]

end Cases

/-- What a step can do to a configuration whose stacks stand for a path. -/
inductive Effect [Inhabited α] (config : Config α π τ) (symbols : List Symbol) :
    Step α π τ → Prop
  | shift {top terminal target : Nat} {below : List Nat} {token : Token}
      (phase : config.phase = .parsing) (states : config.states = top :: below)
      (cell : parser.cellFor top config.lookahead = .shift target)
      (lookahead : config.lookahead = some token)
      (named : parser.grammar.tokenIndex? token.name = some terminal)
      (edge : graph.edge? top (.token terminal) = some target) :
      Effect config symbols (parser.pull (shifted config token target))
  | reduce {top production prior target : Nat} {below rest : List Nat}
      (phase : config.phase = .parsing) (states : config.states = top :: below)
      (cell : parser.cellFor top config.lookahead = .reduce production)
      (bound : production < parser.grammar.productionCount)
      (inner : production ≠ parser.grammar.startProduction)
      (enough : (parser.grammar.symbols production).length ≤ symbols.length)
      (behind : (symbols.take (parser.grammar.symbols production).length).reverse =
        parser.grammar.symbols production)
      (cut : config.states.drop (parser.grammar.symbols production).length = prior :: rest)
      (goto : parser.table.goto? prior (parser.grammar.ruleOf production) = some target)
      (edge : graph.edge? prior (.rule (parser.grammar.ruleOf production)) = some target) :
      Effect config symbols (.proceed (parser.reduced config production target))
  | accept {top : Nat} {below : List Nat} {value : α}
      (phase : config.phase = .parsing) (states : config.states = top :: below)
      (cell : parser.cellFor top config.lookahead = .accept)
      (lookahead : config.lookahead = none) (operands : config.operands = [.value value])
      (whole : symbols = parser.grammar.symbols parser.grammar.startProduction) :
      Effect config symbols (.halt (config.finish (some value)))
  | reject {top : Nat} {below : List Nat}
      (phase : config.phase = .parsing) (states : config.states = top :: below)
      (cell : parser.cellFor top config.lookahead = .error) :
      Effect config symbols (parser.reject config top)
  | resume {discarded : Bool} {depth : Nat} (phase : config.phase = .recovering false discarded)
      (found : parser.resumeDepth? config = some depth) (within : depth ≤ symbols.length) :
      Effect config symbols (.proceed (config.resume depth discarded))
  | discard {skip discarded : Bool} (phase : config.phase = .recovering skip discarded)
      (stuck : skip = true ∨ parser.resumeDepth? config = none) :
      Effect config symbols (parser.discard config)

variable {parser : Parser α π τ} {graph : StateGraph}

theorem built_of_compile (width : IndexWidth) (declarations : Declarations α π)
    (compiled : Grammar.compile width declarations = .ok parser.grammar)
    (made : (Table.ofGrammar parser.grammar).value = .ok (graph, parser.table)) :
    parser.Built graph := by
  have wellFormed := Grammar.compile_well_formed width declarations _ compiled
  simp only [Table.ofGrammar] at made
  cases filled : (Table.ofGraph parser.grammar (StateGraph.ofGrammar parser.grammar)).value with
  | error _ =>
      rw [filled] at made
      cases made
  | ok table =>
      rw [filled] at made
      cases made
      exact ⟨wellFormed, StateGraph.of_grammar_is_canonical _ wellFormed.nonempty,
        Table.of_graph_holds _ filled⟩

theorem start_eq_pull (param : π) (source : τ) :
    parser.start param source = parser.pull (parser.opening param source) := rfl

theorem start_pulled (parser : Parser α π τ) (param : π) (source : τ) :
    Pulled parser (parser.opening param source) (parser.start param source) := pull_pulled parser _

theorem token_of_cases (lookahead : Option Token) (terminal : Nat)
    (known : parser.tokenOf lookahead = some terminal) :
    terminal < parser.grammar.tokenCount ∧
      (lookahead = none ∧ terminal = parser.grammar.endToken ∨
        ∃ token, lookahead = some token ∧ parser.grammar.tokenIndex? token.name = some terminal ∧
          terminal < parser.grammar.endToken) := by
  cases lookahead with
  | none =>
      cases known
      exact ⟨Nat.lt_succ_self _, Or.inl ⟨rfl, rfl⟩⟩
  | some token =>
      have bound := Grammar.token_index_bound token.name terminal known
      exact ⟨Nat.lt_succ_of_lt bound, Or.inr ⟨token, rfl, known, bound⟩⟩

section Built

variable (built : parser.Built graph)

include built

theorem Built.candidate_of_cell (state : Nat) (bound : state < graph.stateCount)
    (lookahead : Option Token) (cell : Cell) (told : parser.cellFor state lookahead = cell)
    (filled : cell ≠ .error) :
    ∃ terminal, parser.tokenOf lookahead = some terminal ∧
      Table.Candidate parser.grammar graph state terminal cell := by
  unfold cellFor at told
  cases known : parser.tokenOf lookahead with
  | none =>
      rw [known] at told
      exact absurd told.symm filled
  | some terminal =>
      rw [known] at told
      have tokenBound := (token_of_cases lookahead terminal known).1
      rw [← told] at filled ⊢
      exact ⟨terminal, rfl, built.holds.candidate bound tokenBound filled⟩

theorem Built.shift_cell (state : Nat) (bound : state < graph.stateCount)
    (lookahead : Option Token) (target : Nat)
    (cell : parser.cellFor state lookahead = .shift target) :
    ∃ token terminal, lookahead = some token ∧
      parser.grammar.tokenIndex? token.name = some terminal ∧
      graph.edge? state (.token terminal) = some target := by
  obtain ⟨terminal, known, candidate⟩ :=
    built.candidate_of_cell state bound lookahead _ cell Cell.noConfusion
  cases candidate with
  | shift edge =>
      rcases (token_of_cases lookahead terminal known).2 with ⟨_, last⟩ | ⟨token, here, index, _⟩
      · obtain ⟨item, _, next⟩ := (built.canonical.edge state _).mp ⟨target, edge⟩
        have occurs := built.wellFormed.symbolsOccur _ _
          (Item.next_mem_symbols parser.grammar item _ next)
        rw [last] at occurs
        exact absurd occurs (Nat.lt_irrefl _)
      · exact ⟨token, terminal, here, index, edge⟩

theorem Built.reduce_cell {states : List Nat} {symbols : List Symbol}
    (path : graph.Path states symbols) {top : Nat} {below : List Nat}
    (last : states = top :: below) (lookahead : Option Token) (production : Nat)
    (cell : parser.cellFor top lookahead = .reduce production) :
    production < parser.grammar.productionCount ∧
      production ≠ parser.grammar.startProduction ∧
      (parser.grammar.symbols production).length ≤ symbols.length ∧
      (symbols.take (parser.grammar.symbols production).length).reverse =
        parser.grammar.symbols production ∧
      ∃ prior rest target,
        states.drop (parser.grammar.symbols production).length = prior :: rest ∧
        parser.table.goto? prior (parser.grammar.ruleOf production) = some target ∧
        graph.edge? prior (.rule (parser.grammar.ruleOf production)) = some target := by
  have bound := built.canonical.path_bound path last
  obtain ⟨terminal, known, candidate⟩ :=
    built.candidate_of_cell top bound lookahead _ cell Cell.noConfusion
  cases candidate with
  | @reduce item member complete inner follows =>
      have ends : item.dot = (parser.grammar.symbols item.production).length :=
        beq_iff_eq.mp complete
      have member : ⟨item.production, item.dot⟩ ∈ graph.closed top := member
      rw [ends] at member
      obtain ⟨enough, same, prior, rest, cut, began⟩ :=
        built.canonical.path_behind path last member
      have priorPath := path.drop _ enough
      obtain ⟨productionBound, target, edge⟩ :=
        built.canonical.goto_of_begin priorPath cut inner began
      have goto := built.holds.goto prior (parser.grammar.ruleOf item.production)
        (StateGraph.bound_of_mem_closed prior _ began) (built.wellFormed.ruleBound item.production)
      rw [List.take_length] at same
      rw [edge] at goto
      exact ⟨productionBound, inner, enough, same, prior, rest, target, cut, goto, edge⟩

theorem Built.accept_cell {states : List Nat} {symbols : List Symbol}
    (path : graph.Path states symbols) {top : Nat} {below : List Nat}
    (last : states = top :: below) (lookahead : Option Token)
    (cell : parser.cellFor top lookahead = .accept) :
    lookahead = none ∧ symbols = parser.grammar.symbols parser.grammar.startProduction := by
  have bound := built.canonical.path_bound path last
  obtain ⟨terminal, known, candidate⟩ :=
    built.candidate_of_cell top bound lookahead _ cell Cell.noConfusion
  cases candidate with
  | accept ends finished =>
      refine ⟨?_, built.canonical.path_of_finish built.wellFormed path last finished⟩
      rcases (token_of_cases lookahead terminal known).2 with ⟨here, _⟩ | ⟨_, _, _, before⟩
      · exact here
      · rw [ends] at before
        exact absurd before (Nat.lt_irrefl _)

/-- The operands of a whole input are the one value of the rule it starts with. -/
theorem Built.value_of_start {config : Config α π τ} {symbols : List Symbol}
    (stands : Stands parser graph config symbols)
    (whole : symbols = parser.grammar.symbols parser.grammar.startProduction) :
    ∃ value, config.operands = [.value value] := by
  obtain ⟨rule, starts⟩ := built.wellFormed.startSymbols
  have fits := stands.fits
  rw [whole, starts] at fits
  generalize config.operands = operands at fits
  cases fits with
  | cons first rest =>
      cases rest
      cases first
      exact ⟨_, rfl⟩

theorem Built.step_effect [Inhabited α] {config : Config α π τ} {symbols : List Symbol}
    (stands : Stands parser graph config symbols) :
    Effect parser graph config symbols (parser.step config) := by
  cases phase : config.phase with
  | parsing =>
      obtain ⟨top, below, states⟩ := stands.path.top
      have bound := built.canonical.path_bound stands.path states
      cases cell : parser.cellFor top config.lookahead with
      | shift target =>
          obtain ⟨token, terminal, lookahead, named, edge⟩ :=
            built.shift_cell top bound config.lookahead target cell
          rw [parser.step_of_shift phase states cell lookahead]
          exact .shift phase states cell lookahead named edge
      | reduce production =>
          obtain ⟨productionBound, inner, enough, behind, prior, rest, target, cut, goto, edge⟩ :=
            built.reduce_cell stands.path states config.lookahead production cell
          rw [parser.step_of_reduce phase states cell cut goto]
          exact .reduce phase states cell productionBound inner enough behind cut goto edge
      | accept =>
          obtain ⟨lookahead, whole⟩ :=
            built.accept_cell stands.path states config.lookahead cell
          obtain ⟨value, operands⟩ := built.value_of_start stands whole
          rw [parser.step_of_accept phase states cell lookahead operands]
          exact .accept phase states cell lookahead operands whole
      | error =>
          simp only [step, phase, states, cell]
          exact .reject phase states cell
  | recovering skip discarded =>
      simp only [step, phase]
      cases skip with
      | true => exact .discard phase (Or.inl rfl)
      | false =>
          simp only [Bool.false_eq_true, if_false]
          cases found : parser.resumeDepth? config with
          | none => exact .discard phase (Or.inr found)
          | some depth =>
              have within : depth < config.states.length :=
                (List.findIdx?_eq_some_iff_getElem.mp found).1
              rw [stands.path.length_eq] at within
              exact .resume phase found (Nat.le_of_lt_succ within)

end Built

section Stacks

variable {config : Config α π τ} {symbols : List Symbol}

theorem Built.opening_stands (built : parser.Built graph) (param : π) (source : τ) :
    Stands parser graph (parser.opening param source) [] where
  path := by
    rw [opening, built.holds.start]
    exact .start
  fits := .nil

theorem Stands.same {after : Config α π τ} (stands : Stands parser graph config symbols)
    (states : after.states = config.states) (operands : after.operands = config.operands) :
    Stands parser graph after symbols := by
  constructor
  · rw [states]
    exact stands.path
  · rw [operands]
    exact stands.fits

theorem Stands.pulled {after : Config α π τ} (stands : Stands parser graph config symbols)
    (pulled : Pulled parser config (.proceed after)) : Stands parser graph after symbols :=
  stands.same pulled.kept.states pulled.kept.operands

theorem Stands.shift {top terminal target : Nat} {below : List Nat} {token : Token}
    (stands : Stands parser graph config symbols) (states : config.states = top :: below)
    (named : parser.grammar.tokenIndex? token.name = some terminal)
    (edge : graph.edge? top (.token terminal) = some target) :
    Stands parser graph (shifted config token target) (.token terminal :: symbols) where
  path := stands.path.extend states edge
  fits := .cons (.lexeme (Grammar.token_name_of_index token.name terminal named)) stands.fits

theorem Stands.reduce [Inhabited α] {production prior target : Nat} {rest : List Nat}
    (stands : Stands parser graph config symbols)
    (enough : (parser.grammar.symbols production).length ≤ symbols.length)
    (cut : config.states.drop (parser.grammar.symbols production).length = prior :: rest)
    (edge : graph.edge? prior (.rule (parser.grammar.ruleOf production)) = some target) :
    Stands parser graph (parser.reduced config production target)
      (.rule (parser.grammar.ruleOf production) ::
        symbols.drop (parser.grammar.symbols production).length) where
  path := (stands.path.drop _ enough).extend cut edge
  fits := .cons .value (List.forall₂_drop _ stands.fits)

theorem Stands.resume {depth : Nat} {discarded : Bool}
    (stands : Stands parser graph config symbols) (within : depth ≤ symbols.length) :
    Stands parser graph (config.resume depth discarded) (symbols.drop depth) where
  path := stands.path.drop depth within
  fits := List.forall₂_drop depth stands.fits

theorem Effect.errors_grow [Inhabited α] {step : Step α π τ} {after : Config α π τ}
    (effect : Effect parser graph config symbols step) (next : step = .proceed after) :
    ∃ more, after.errors = config.errors ++ more := by
  cases effect with
  | @shift _ _ target _ token _ _ _ _ _ _ =>
      have pulled := pull_pulled parser (shifted config token target)
      rw [next] at pulled
      exact ⟨[], by rw [pulled.kept.errors, List.append_nil]; rfl⟩
  | reduce _ _ _ _ _ _ _ _ _ _ =>
      cases next
      exact ⟨[], (List.append_nil _).symm⟩
  | accept _ _ _ _ _ _ => cases next
  | @reject top _ _ _ _ =>
      have rejected := reject_rejected parser config top
      rw [next] at rejected
      cases rejected with
      | recover _ _ => exact ⟨_, rfl⟩
  | resume _ _ _ =>
      cases next
      exact ⟨[], (List.append_nil _).symm⟩
  | discard _ _ =>
      have discarded := discard_discarded parser config
      rw [next] at discarded
      cases discarded with
      | token _ pulled => exact ⟨[], by rw [pulled.kept.errors, List.append_nil]⟩

/-- The configuration accepts its input with the value. -/
structure Accepts (parser : Parser α π τ) (config : Config α π τ) (symbols : List Symbol)
    (outcome : Outcome α π τ) (value : α) : Prop where
  lookahead : config.lookahead = none
  operands : config.operands = [.value value]
  symbols : symbols = parser.grammar.symbols parser.grammar.startProduction
  outcome : outcome = config.finish (some value)

theorem Effect.accepted [Inhabited α] {step : Step α π τ} {outcome : Outcome α π τ} {value : α}
    (effect : Effect parser graph config symbols step) (ends : step = .halt outcome)
    (accepted : outcome.value = some value) : Accepts parser config symbols outcome value := by
  cases effect with
  | @shift _ _ target _ token _ _ _ _ _ _ =>
      have pulled := pull_pulled parser (shifted config token target)
      rw [ends] at pulled
      rw [pulled.value_eq_none] at accepted
      cases accepted
  | reduce _ _ _ _ _ _ _ _ _ _ => cases ends
  | accept _ _ _ lookahead operands whole =>
      cases ends
      cases accepted
      exact ⟨lookahead, operands, whole, rfl⟩
  | @reject top _ _ _ _ =>
      have rejected := reject_rejected parser config top
      rw [ends] at rejected
      cases rejected with
      | stop _ _ => cases accepted
  | resume _ _ _ => cases ends
  | discard _ _ =>
      have discarded := discard_discarded parser config
      rw [ends] at discarded
      cases discarded with
      | token _ pulled =>
          rw [pulled.value_eq_none] at accepted
          cases accepted
      | stuck _ _ => cases accepted

end Stacks

end Parser

namespace Sums

/-- The parser of sums, for tokens in a list. -/
def parser (recovery : Recovery) : Parser Nat Nat (List (Except LexError Token)) where
  grammar := grammar
  table := table
  action? := declarations.action?
  recovery := recovery
  next := Parser.readList

/-- A token whose name and text are one character. -/
def sign (name : String) (column : Nat) : Token :=
  ⟨name, name, .ofLength (column - 1) 1, 1, column⟩

end Sums

end SlrKit
