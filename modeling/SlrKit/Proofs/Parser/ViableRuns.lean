import SlrKit.Proofs.Parser.EarliestError

/-!
# Viable stacks are met on the way to a sentence

Without conflicts, and if every rule derives some tokens, a row of trees that can stand on the
stack of a parser does so while some sentence is read: the one that begins with the leaves of the
trees and goes on with what the topmost item awaits. Reading that sentence takes a step for every
node of the trees. What is read after the leaves does not matter but for its first terminal, and
there are finitely many of these. So the trees over the same leaves cannot grow for ever.
-/

set_option autoImplicit false

namespace SlrKit

namespace Parser

variable {α π τ : Type} {parser : Parser α π τ} {graph : StateGraph}

section Awaited

variable [Inhabited α] (built : parser.Built graph)
  (free : Table.ConflictFree parser.grammar graph)

include built free

/-- From a state that holds an item, the parser reads a tree for the symbol after its dot, and the
item moves on with it. -/
theorem Built.move_runs {item : Item} {symbol : Symbol}
    (next : item.next? parser.grammar = some symbol) {config middle : Config α π τ} {top : Nat}
    {below : List Nat} {operands : List (Operand α)} {param : π} {tree : Tree} {rest : List Token}
    (reads : Reads parser config middle (top :: below) operands param (tree.leaves ++ rest))
    (member : item ∈ graph.closed top) (derives : Tree.Derives parser.grammar symbol tree)
    (admits : ∀ rule, symbol = .rule rule → Follows.Admits parser.grammar rule rest) :
    ∃ after target, Reads parser config after (target :: top :: below)
        ((tree.evaluate parser.grammar parser.action? param).1 :: operands)
        (tree.evaluate parser.grammar parser.action? param).2 rest ∧
      item.advance ∈ graph.closed target := by
  obtain ⟨target, edge⟩ := built.canonical.edge_of_next member next
  obtain ⟨after, onto⟩ := built.tree_runs free derives middle reads.phase top below reads.states
    target edge rest reads.ahead admits
  rw [reads.states, reads.operands, reads.param] at onto
  exact ⟨after, target, reads.trans onto, built.canonical.advance_mem_closed member next edge⟩

/-- The parser reads trees for the symbols that a run of the automaton has gone over, and comes to
a state that holds the item of the run. -/
theorem Built.awaited_runs {symbols : List Symbol} {item : Item} {rest : List Token}
    (awaits : Item.Awaits parser.grammar symbols item rest) {front back : List Tree}
    (read : Forest.Derives parser.grammar symbols front)
    (left : Forest.Derives parser.grammar
      ((parser.grammar.symbols item.production).drop item.dot) back)
    (config : Config α π τ) (phase : config.phase = .parsing)
    (states : config.states = [StateGraph.startState])
    (ahead : Ahead parser.next config.lookahead config.source
      (Forest.leaves front ++ (Forest.leaves back ++ rest)) none) :
    ∃ after top below, Reads parser config after (top :: below)
        ((Forest.evaluate parser.grammar parser.action? front config.param).1.reverse ++
          config.operands)
        (Forest.evaluate parser.grammar parser.action? front config.param).2
        (Forest.leaves back ++ rest) ∧
      item ∈ graph.closed top := by
  induction awaits generalizing front back with
  | start =>
      cases read
      have reads := Reads.refl phase ahead
      rw [states] at reads
      exact ⟨config, _, _, reads, built.canonical.start_mem_closed⟩
  | @move symbols item symbol rest before next ih =>
      obtain ⟨older, newest, rfl, first, last⟩ := read.split
      cases last with
      | @cons _ _ tree _ own others =>
          cases others
          have both : Forest.Derives parser.grammar
              ((parser.grammar.symbols item.production).drop item.dot) (tree :: back) := by
            rw [Item.drop_of_next next]
            exact .cons own left
          have admits : ∀ rule, symbol = .rule rule →
              Follows.Admits parser.grammar rule (Forest.leaves back ++ rest) := by
            rintro rule rfl
            exact Follows.admits_of_derives built.wellFormed (Item.split_of_next next) left
              (before.admits built.wellFormed)
          have grouped : Forest.leaves (older ++ [tree]) ++ (Forest.leaves back ++ rest) =
              Forest.leaves older ++ (Forest.leaves (tree :: back) ++ rest) := by
            rw [Forest.leaves_append, Forest.leaves_singleton, Forest.leaves]
            simp only [List.append_assoc]
          rw [grouped] at ahead
          obtain ⟨middle, top, below, reads, member⟩ := ih first both ahead
          rw [Forest.leaves, List.append_assoc] at reads
          obtain ⟨after, target, onto, moved⟩ :=
            built.move_runs free next reads member own admits
          refine ⟨after, target, top :: below, ?_, moved⟩
          rw [Forest.evaluate_append, Forest.evaluate_singleton, List.reverse_append]
          exact onto
  | @expand symbols item rule production rest trees before next produces after ih =>
      obtain ⟨bound, own⟩ :=
        (Grammar.mem_productions_of parser.grammar rule production).mp produces
      have node : Tree.Derives parser.grammar (.rule rule) (.node production back) := by
        rw [← own]
        exact .node bound left
      have both : Forest.Derives parser.grammar
          ((parser.grammar.symbols item.production).drop item.dot)
          (.node production back :: trees) := by
        rw [Item.drop_of_next next]
        exact .cons node after
      have grouped : Forest.leaves back ++ (Forest.leaves trees ++ rest) =
          Forest.leaves (.node production back :: trees) ++ rest := by
        rw [Forest.leaves, Tree.leaves, List.append_assoc]
      rw [grouped] at ahead ⊢
      obtain ⟨last, top, below, reads, member⟩ := ih read both ahead
      exact ⟨last, top, below, reads, built.canonical.begin_mem_closed member next produces⟩

end Awaited

/-- How often reading the trees calls an action. -/
def calls (parser : Parser α π τ) (trees : List Tree) : Nat :=
  (Forest.evaluate parser.grammar parser.counting.action? trees 0).2

/-- Every production that can be reduced has been declared somewhere. -/
def Declared (parser : Parser α π τ) : Prop :=
  ∀ production, production < parser.grammar.productionCount →
    production ≠ parser.grammar.startProduction →
      ∃ declaration, parser.grammar.declarationOf production = some declaration

theorem Declared.calls_node (declared : parser.Declared) {production : Nat}
    (bound : production < parser.grammar.productionCount)
    (inner : production ≠ parser.grammar.startProduction) (older children : List Tree) :
    parser.calls (older ++ [.node production children]) =
      parser.calls (older ++ children) + 1 := by
  obtain ⟨declaration, own⟩ := declared production bound inner
  rw [calls, calls, Forest.evaluate_append, Forest.evaluate_append, Forest.evaluate_singleton,
    Tree.evaluate, own]
  rfl

/-- While a sentence is read, the tokens before what is left of it have been read after so many
steps, without an error. -/
structure Visits (parser : Parser α π τ) (read rest : List Token) (count : Nat) : Prop where
  sentence : ∃ tree, Tree.Derives parser.grammar (.rule parser.grammar.userStart) tree ∧
    tree.leaves = read ++ rest
  reached : ∃ config, ReachedIn parser.counting 0 ((read ++ rest).map .ok) count config ∧
    config.errors = [] ∧ HasRead parser.counting (read ++ rest) none config read.length

/-- Whatever comes after the same tokens, only its first terminal is seen up to there. -/
theorem alike_up_to (read : List Token) {rest others : List Token}
    (same : parser.tokenOf rest.head? = parser.tokenOf others.head?) (place : Nat)
    (inside : place ≤ read.length) :
    parser.tokenOf (read ++ rest)[place]? = parser.tokenOf (read ++ others)[place]? := by
  rcases Nat.lt_or_eq_of_le inside with before | rfl
  · rw [List.getElem?_append_left before, List.getElem?_append_left before]
  · rw [List.getElem?_append_right (Nat.le_refl _), List.getElem?_append_right (Nat.le_refl _),
      Nat.sub_self, ← List.head?_eq_getElem?, ← List.head?_eq_getElem?]
    exact same

section ConflictFree

variable (built : parser.Built graph) (free : Table.ConflictFree parser.grammar graph)

include built free

theorem Built.exists_visits (productive : parser.grammar.Productive) {states : List Nat}
    {symbols : List Symbol} (path : graph.Path states symbols) {trees : List Tree}
    (derives : Forest.Derives parser.grammar symbols.reverse trees) :
    ∃ rest count, Visits parser (Forest.leaves trees) rest count ∧ parser.calls trees ≤ count := by
  obtain ⟨item, reached⟩ := built.canonical.exists_reached path
  obtain ⟨rest, awaits⟩ := reached.exists_awaits built.wellFormed productive
  obtain ⟨back, left⟩ := productive.exists_forest
    ((parser.grammar.symbols item.production).drop item.dot)
    fun symbol member => built.wellFormed.symbolsOccur _ symbol (List.mem_of_mem_drop member)
  have supplies := supplies_read_list (Forest.leaves trees ++ (Forest.leaves back ++ rest))
  obtain ⟨first, drawn, pulled⟩ :=
    @pull_proceeds _ _ _ parser.counting (parser.counting.opening 0 _) _ supplies
  have states : first.states = [StateGraph.startState] := by
    rw [pulled.kept.states, opening, built.counting.holds.start]
  obtain ⟨after, top, below, reads, _⟩ := built.counting.awaited_runs free awaits derives left
    first pulled.kept.phase states (pulled.ahead supplies)
  obtain ⟨count, counted⟩ := (ReachedIn.start drawn).goes reads.goes
  refine ⟨Forest.leaves back ++ rest, count, ⟨awaits.exists_tree built.wellFormed derives left,
    after, counted, reads.errors.trans pulled.kept.errors, ?_⟩, ?_⟩
  · refine ⟨by simp, ?_⟩
    rw [List.drop_left]
    exact reads.ahead
  · have few := built.calls_le_count counted
    rw [reads.param, pulled.kept.param] at few
    exact few

/-- After the same tokens, sentences that go on with the same terminal are read alike, so the steps
up to there are fewer than those of reading any one of them. -/
theorem Built.visits_bounded_after (read : List Token) (class? : Option Nat) :
    ∃ bound, ∀ rest count, Visits parser read rest count →
      parser.tokenOf rest.head? = class? → count < bound := by
  by_cases known : ∃ rest count, Visits parser read rest count ∧
    parser.tokenOf rest.head? = class?
  · obtain ⟨others, _, ⟨⟨tree, derives, leaves⟩, _⟩, own⟩ := known
    have supplied := supplies_read_list tree.leaves
    obtain ⟨bound, _, outcome, runs, _⟩ :=
      built.counting.sentence_runs free derives 0 _ supplied
    refine ⟨bound, ?_⟩
    rintro rest count ⟨_, config, reached, clean, has⟩ same
    obtain ⟨place, again, follows⟩ := built.counting.reached_followed
      (supplies_read_list (read ++ rest)) read.length (alike_up_to read (same.trans own.symm))
      reached clean
    have here : place = read.length :=
      Ahead.place_unique again.within has.within again.ahead has.ahead
    obtain ⟨other, followed⟩ := follows (Nat.le_of_eq here)
    have counted := followed.reached
    rw [← leaves] at counted
    exact counted.count_lt bound _ (runs bound (Nat.le_refl _))
  · refine ⟨0, ?_⟩
    intro rest count visits same
    exact absurd ⟨rest, count, visits, same⟩ known

theorem Built.calls_bounded (productive : parser.grammar.Productive) (read : List Token) :
    ∃ bound, ∀ states symbols trees, graph.Path states symbols →
      Forest.Derives parser.grammar symbols.reverse trees → Forest.leaves trees = read →
        parser.calls trees < bound := by
  choose bound bounded using built.visits_bounded_after free read
  let classes := Finset.insertNone (Finset.range parser.grammar.tokenCount)
  refine ⟨classes.sup bound, ?_⟩
  rintro states symbols trees path derives rfl
  obtain ⟨rest, count, visits, few⟩ := built.exists_visits free productive path derives
  have member : parser.tokenOf rest.head? ∈ classes := by
    cases known : parser.tokenOf rest.head? with
    | none => exact Finset.none_mem_insertNone
    | some terminal =>
        exact Finset.some_mem_insertNone.mpr
          (Finset.mem_range.mpr (token_of_cases rest.head? terminal known).1)
  have below := bounded _ rest count visits rfl
  have within : bound (parser.tokenOf rest.head?) ≤ classes.sup bound := Finset.le_sup member
  omega

end ConflictFree

end Parser

end SlrKit
