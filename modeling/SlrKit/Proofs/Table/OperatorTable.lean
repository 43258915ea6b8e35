import SlrKit.Proofs.Automaton.Path
import SlrKit.Proofs.Grammar.OperatorGrammar
import SlrKit.Proofs.Table.Entries

/-!
# The table of an operator grammar

What stands on the stacks tells what a state of an operator grammar can do. Where an operand is to
come, the atom is shifted; behind an atom it is reduced. Behind an operand an operator is shifted,
unless the operand is the right one of an operator inside which the new one may not stand: that one
is reduced. So every contest is one of operators, whose levels decide it, and the table is made
without a conflict.
-/

set_option autoImplicit false

namespace SlrKit

/-- An operand comes next: nothing has been read, or an operator last. -/
def BeforeOperand (operators : List Nat) (symbols : List Symbol) : Prop :=
  symbols = [] ∨ ∃ sign ∈ operators, ∃ older, symbols = .token sign :: older

namespace Grammar.OperatorGrammar

variable {grammar : Grammar} {operators : List Nat} {atom : Nat}
  (shape : OperatorGrammar grammar operators atom) {graph : StateGraph}

include shape

section Items

/-- The items of an operator grammar that have a symbol after the dot. -/
inductive GoesOn (grammar : Grammar) (operators : List Nat) (atom : Nat) : Item → Symbol → Prop
  | start : GoesOn grammar operators atom (Item.start grammar) grammar.operand
  | atom {production : Nat} (bound : production < grammar.startProduction)
      (single : grammar.symbols production = [.token atom]) :
      GoesOn grammar operators atom ⟨production, 0⟩ (.token atom)
  | left {production sign : Nat} (bound : production < grammar.startProduction)
      (among : sign ∈ operators)
      (joins : grammar.symbols production = [grammar.operand, .token sign, grammar.operand]) :
      GoesOn grammar operators atom ⟨production, 0⟩ grammar.operand
  | sign {production sign : Nat} (bound : production < grammar.startProduction)
      (among : sign ∈ operators)
      (joins : grammar.symbols production = [grammar.operand, .token sign, grammar.operand]) :
      GoesOn grammar operators atom ⟨production, 1⟩ (.token sign)
  | right {production sign : Nat} (bound : production < grammar.startProduction)
      (among : sign ∈ operators)
      (joins : grammar.symbols production = [grammar.operand, .token sign, grammar.operand]) :
      GoesOn grammar operators atom ⟨production, 2⟩ grammar.operand

/-- The symbols behind which a production is complete: its own are the last of them. -/
inductive Completes (grammar : Grammar) (operators : List Nat) (atom : Nat) :
    Nat → List Symbol → Prop
  | atom {production : Nat} {older : List Symbol} (bound : production < grammar.startProduction)
      (single : grammar.symbols production = [.token atom]) :
      Completes grammar operators atom production (.token atom :: older)
  | join {production sign : Nat} {older : List Symbol}
      (bound : production < grammar.startProduction) (among : sign ∈ operators)
      (joins : grammar.symbols production = [grammar.operand, .token sign, grammar.operand]) :
      Completes grammar operators atom production
        (grammar.operand :: .token sign :: grammar.operand :: older)

theorem Completes.unique {first second : Nat} {symbols : List Symbol}
    (one : Completes grammar operators atom first symbols)
    (other : Completes grammar operators atom second symbols) : first = second := by
  cases one with
  | atom bound single =>
      cases other with
      | atom otherBound again =>
          exact shape.production_unique bound otherBound (single.trans again.symm)
  | join bound _ joins =>
      cases other with
      | join otherBound _ again =>
          exact shape.production_unique bound otherBound (joins.trans again.symm)

theorem goes_on_of_next {item : Item} {symbol : Symbol} (next : item.next? grammar = some symbol) :
    GoesOn grammar operators atom item symbol := by
  have within := Item.bound_of_next grammar item symbol next
  rcases item with ⟨production, dot⟩
  rw [Item.next?] at next
  by_cases last : production = grammar.startProduction
  · rw [last, shape.wellFormed.start_symbols_eq] at next
    match dot with
    | 0 =>
        cases next
        rw [last]
        exact .start
    | dot + 1 => cases next
  · have bound := (shape.bound_iff production).mpr ⟨within, last⟩
    rcases shape.symbols_cases bound with single | ⟨sign, among, joins⟩
    · rw [single] at next
      match dot with
      | 0 =>
          cases next
          exact .atom bound single
      | dot + 1 => cases next
    · rw [joins] at next
      match dot with
      | 0 =>
          cases next
          exact .left bound among joins
      | 1 =>
          cases next
          exact .sign bound among joins
      | 2 =>
          cases next
          exact .right bound among joins
      | dot + 3 => cases next

omit shape in
theorem not_before_operand_of_operand {older : List Symbol} :
    ¬BeforeOperand operators (grammar.operand :: older) := by
  intro before
  rcases before with nothing | ⟨_, _, _, split⟩
  · cases nothing
  · cases split

theorem not_before_operand_of_atom {older : List Symbol} :
    ¬BeforeOperand operators (.token atom :: older) := by
  intro before
  rcases before with nothing | ⟨sign, among, _, split⟩
  · cases nothing
  · cases split
    exact shape.apart among

end Items

section States

variable (canonical : StateGraph.IsCanonical grammar graph) {top : Nat} {below : List Nat}
  {symbols older : List Symbol}

include canonical

theorem before_operand_of_begin {production : Nat} (path : graph.Path (top :: below) symbols)
    (member : ⟨production, 0⟩ ∈ graph.closed top) : BeforeOperand operators symbols := by
  cases path with
  | start => exact Or.inl rfl
  | step path edge =>
      rcases canonical.exists_before_rule edge member with ⟨item, inside, moved, rule, next⟩
      generalize symbol : Symbol.rule rule = after at next
      cases shape.goes_on_of_next next with
      | start => exact absurd rfl moved
      | atom _ _ => cases symbol
      | left _ _ _ => exact absurd rfl moved
      | sign _ _ _ => cases symbol
      | @right production sign _ among joins =>
          rcases canonical.path_eq_append (path.extend rfl edge) rfl inside with ⟨under, split⟩
          rw [joins] at split
          exact Or.inr ⟨sign, among, _, split⟩

/-- Over a token an edge leads from before an operand if it is the atom, and from behind an operand
if it is an operator. -/
theorem token_edge_cases (path : graph.Path (top :: below) symbols) {token target : Nat}
    (edge : graph.edge? top (.token token) = some target) :
    token = atom ∧ BeforeOperand operators symbols ∨
      token ∈ operators ∧ ∃ older, symbols = grammar.operand :: older := by
  rcases (canonical.edge top _).mp ⟨target, edge⟩ with ⟨item, member, next⟩
  cases shape.goes_on_of_next next with
  | atom _ _ => exact Or.inl ⟨rfl, shape.before_operand_of_begin canonical path member⟩
  | sign _ among joins =>
      rcases canonical.path_eq_append path rfl member with ⟨older, split⟩
      rw [joins] at split
      exact Or.inr ⟨among, older, split⟩

theorem completes_of_complete (path : graph.Path (top :: below) symbols) {production : Nat}
    (complete : Table.CompleteIn grammar graph top production)
    (inner : production ≠ grammar.startProduction) :
    Completes grammar operators atom production symbols := by
  rcases canonical.path_behind path rfl complete with ⟨enough, _, prior, rest, cut, began⟩
  have within := (canonical.goto_of_begin (path.drop _ enough) cut inner began).1
  have bound := (shape.bound_iff production).mpr ⟨within, inner⟩
  rcases canonical.path_eq_append path rfl complete with ⟨older, split⟩
  rw [List.take_length] at split
  rcases shape.symbols_cases bound with single | ⟨sign, among, joins⟩
  · rw [split, single]
    exact .atom bound single
  · rw [split, joins]
    exact .join bound among joins

theorem first_reducible (path : graph.Path (top :: below) symbols) {token production : Nat}
    (reducible : Table.Reducible grammar graph top token production) :
    Table.FirstReducible grammar graph top token production where
  toReducible := reducible
  least := by
    intro other again
    have one := shape.completes_of_complete canonical path reducible.complete reducible.inner
    have two := shape.completes_of_complete canonical path again.complete again.inner
    exact Nat.le_of_eq (one.unique shape two)

theorem symbols_of_accepting (path : graph.Path (top :: below) symbols) {token : Nat}
    (accepting : Table.Accepting grammar graph top token) :
    token = grammar.endToken ∧ symbols = [grammar.operand] := by
  refine ⟨accepting.1, ?_⟩
  have finished := accepting.2
  rw [Table.CompleteIn, shape.wellFormed.start_symbols_eq] at finished
  rw [← shape.wellFormed.start_symbols_eq]
  exact canonical.path_of_finish shape.wellFormed path rfl finished

theorem mem_closed_of_sign {sign production : Nat}
    (path : graph.Path (top :: below) (.token sign :: older)) (among : sign ∈ operators)
    (bound : production < grammar.startProduction)
    (joins : grammar.symbols production = [grammar.operand, .token sign, grammar.operand]) :
    ⟨production, 2⟩ ∈ graph.closed top := by
  cases path with
  | step path edge =>
      rcases (canonical.edge _ _).mp ⟨top, edge⟩ with ⟨item, member, next⟩
      cases shape.goes_on_of_next next with
      | atom _ _ => exact absurd among shape.apart
      | sign otherBound _ symbols =>
          cases shape.production_unique otherBound bound (symbols.trans joins.symm)
          exact canonical.advance_mem_closed member next edge

theorem operand_expected (path : graph.Path (top :: below) symbols)
    (before : BeforeOperand operators symbols) :
    ∃ item ∈ graph.closed top, item.next? grammar = some grammar.operand := by
  rcases before with nothing | ⟨sign, among, older, split⟩
  · rw [nothing] at path
    cases path with
    | start =>
        refine ⟨_, canonical.start_mem_closed, ?_⟩
        rw [Item.next?, Item.start, shape.wellFormed.start_symbols_eq]
        rfl
  · rcases shape.exists_join among with ⟨production, bound, joins⟩
    rw [split] at path
    refine ⟨_, shape.mem_closed_of_sign canonical path among bound joins, ?_⟩
    rw [Item.next?, joins]
    rfl

theorem begin_mem_closed {production : Nat} (bound : production < grammar.startProduction)
    {item : Item} (member : item ∈ graph.closed top)
    (next : item.next? grammar = some grammar.operand) : ⟨production, 0⟩ ∈ graph.closed top := by
  apply canonical.begin_mem_closed member next
  apply (grammar.mem_productions_of _ production).mpr
  exact ⟨((shape.bound_iff production).mp bound).1, shape.rule_of bound⟩

theorem atom_edge (path : graph.Path (top :: below) symbols)
    (before : BeforeOperand operators symbols) :
    ∃ target, graph.edge? top (.token atom) = some target := by
  rcases shape.operand_expected canonical path before with ⟨item, member, next⟩
  rcases shape.exists_atom with ⟨production, bound, single⟩
  apply canonical.edge_of_next (shape.begin_mem_closed canonical bound member next)
  rw [Item.next?, single]
  rfl

theorem sign_edge (path : graph.Path (top :: below) (grammar.operand :: older)) {sign : Nat}
    (among : sign ∈ operators) : ∃ target, graph.edge? top (.token sign) = some target := by
  cases path with
  | step path edge =>
      rcases (canonical.edge _ _).mp ⟨top, edge⟩ with ⟨item, member, next⟩
      rcases shape.exists_join among with ⟨production, bound, joins⟩
      have begins := shape.begin_mem_closed canonical bound member next
      have operand : Item.next? grammar ⟨production, 0⟩ = some grammar.operand := by
        rw [Item.next?, joins]
        rfl
      apply canonical.edge_of_next (canonical.advance_mem_closed begins operand edge)
      rw [Item.next?, Item.advance, joins]
      rfl

theorem atom_complete (path : graph.Path (top :: below) (.token atom :: older)) {production : Nat}
    (bound : production < grammar.startProduction)
    (single : grammar.symbols production = [.token atom]) :
    Table.CompleteIn grammar graph top production := by
  cases path with
  | step path edge =>
      rcases (canonical.edge _ _).mp ⟨top, edge⟩ with ⟨item, member, next⟩
      cases shape.goes_on_of_next next with
      | atom otherBound symbols =>
          cases shape.production_unique otherBound bound (symbols.trans single.symm)
          rw [Table.CompleteIn, single]
          exact canonical.advance_mem_closed member next edge
      | sign _ among _ => exact absurd among shape.apart

theorem join_complete {sign production : Nat}
    (path : graph.Path (top :: below) (grammar.operand :: .token sign :: older))
    (among : sign ∈ operators) (bound : production < grammar.startProduction)
    (joins : grammar.symbols production = [grammar.operand, .token sign, grammar.operand]) :
    Table.CompleteIn grammar graph top production := by
  cases path with
  | step path edge =>
      have member := shape.mem_closed_of_sign canonical path among bound joins
      have next : Item.next? grammar ⟨production, 2⟩ = some grammar.operand := by
        rw [Item.next?, joins]
        rfl
      rw [Table.CompleteIn, joins]
      exact canonical.advance_mem_closed member next edge

theorem start_complete (path : graph.Path (top :: below) [grammar.operand]) :
    Table.CompleteIn grammar graph top grammar.startProduction := by
  cases path with
  | step path edge =>
      cases path with
      | start =>
          have next : (Item.start grammar).next? grammar = some grammar.operand := by
            rw [Item.next?, Item.start, shape.wellFormed.start_symbols_eq]
            rfl
          rw [Table.CompleteIn, shape.wellFormed.start_symbols_eq]
          exact canonical.advance_mem_closed canonical.start_mem_closed next edge

end States

/-- Between the shift of an operator and the reduction of another the nesting decides. -/
theorem shifts_first_iff {token sign production : Nat} (tokenAmong : token ∈ operators)
    (among : sign ∈ operators) (bound : production < grammar.startProduction)
    (joins : grammar.symbols production = [grammar.operand, .token sign, grammar.operand]) :
    Table.ShiftsFirst grammar token production ↔ grammar.Inside .right token sign := by
  rcases shape.associates token tokenAmong with ⟨ofToken, own, _⟩
  rcases shape.associates sign among with ⟨ofSign, other, _⟩
  rw [Table.ShiftsFirst, shape.precedence_of_join bound joins, Inside, own, other]
  simp [Precedence.Inside]

section Cells

variable (canonical : StateGraph.IsCanonical grammar graph) {top : Nat} {below : List Nat}
  {symbols older : List Symbol}

include canonical

theorem atom_entry (path : graph.Path (top :: below) symbols)
    (before : BeforeOperand operators symbols) {target : Nat}
    (edge : graph.edge? top (.token atom) = some target) :
    Table.Entry grammar graph top atom (.shift target) := by
  apply Table.Entry.shift _ edge
  · intro production first
    cases shape.completes_of_complete canonical path first.complete first.inner with
    | atom _ _ => exact absurd before shape.not_before_operand_of_atom
    | join _ _ _ => exact absurd before not_before_operand_of_operand
  · intro accepting
    exact Nat.ne_of_lt shape.atom_bound accepting.1

theorem atom_done_entry (path : graph.Path (top :: below) (.token atom :: older))
    {token production : Nat} (bound : production < grammar.startProduction)
    (single : grammar.symbols production = [.token atom])
    (follows : token ∈ operators ∨ token = grammar.endToken) :
    Table.Entry grammar graph top token (.reduce production) := by
  have inner := ((shape.bound_iff production).mp bound).2
  have reducible : Table.Reducible grammar graph top token production := by
    refine ⟨inner, shape.atom_complete canonical path bound single, ?_⟩
    rw [shape.rule_of bound]
    rcases follows with among | last
    · exact shape.follows_sign among
    · rw [last]
      exact shape.follows_end
  apply Table.Entry.reduce _ (shape.first_reducible canonical path reducible)
  · intro target edge
    rcases shape.token_edge_cases canonical path edge with ⟨_, before⟩ | ⟨_, _, split⟩
    · exact absurd before shape.not_before_operand_of_atom
    · cases split
  · intro accepting
    cases (shape.symbols_of_accepting canonical path accepting).2

theorem sign_entry (path : graph.Path (top :: below) (grammar.operand :: older)) {sign target : Nat}
    (among : sign ∈ operators) (edge : graph.edge? top (.token sign) = some target)
    (inside : ∀ outer ∈ operators, ∀ under, older = .token outer :: under →
      grammar.Inside .right sign outer) :
    Table.Entry grammar graph top sign (.shift target) := by
  apply Table.Entry.shift _ edge
  · intro production first
    cases shape.completes_of_complete canonical path first.complete first.inner with
    | join bound around joins =>
        exact (shape.shifts_first_iff among around bound joins).mpr (inside _ around _ rfl)
  · intro accepting
    exact Nat.ne_of_lt (shape.sign_bound among) accepting.1

/-- Behind its operands an operator is reduced if it may stand inside the one that comes, or if
none does. -/
theorem join_done_entry {sign token production : Nat}
    (path : graph.Path (top :: below) (grammar.operand :: .token sign :: older))
    (among : sign ∈ operators) (bound : production < grammar.startProduction)
    (joins : grammar.symbols production = [grammar.operand, .token sign, grammar.operand])
    (follows : token ∈ operators ∧ grammar.Inside .left sign token ∨ token = grammar.endToken) :
    Table.Entry grammar graph top token (.reduce production) := by
  have inner := ((shape.bound_iff production).mp bound).2
  have reducible : Table.Reducible grammar graph top token production := by
    refine ⟨inner, shape.join_complete canonical path among bound joins, ?_⟩
    rw [shape.rule_of bound]
    rcases follows with ⟨after, _⟩ | last
    · exact shape.follows_sign after
    · rw [last]
      exact shape.follows_end
  apply Table.Entry.reduce _ (shape.first_reducible canonical path reducible)
  · intro target edge shifts
    rcases follows with ⟨after, inside⟩ | last
    · have within := (shape.shifts_first_iff after among bound joins).mp shifts
      exact shape.not_inside_both inside within
    · rw [last] at edge
      rcases shape.token_edge_cases canonical path edge with ⟨same, _⟩ | ⟨ends, _⟩
      · exact Nat.ne_of_gt shape.atom_bound same
      · exact shape.end_not_sign ends
  · intro accepting
    cases (shape.symbols_of_accepting canonical path accepting).2

theorem accept_entry (path : graph.Path (top :: below) [grammar.operand]) :
    Table.Entry grammar graph top grammar.endToken .accept :=
  .accept ⟨rfl, shape.start_complete canonical path⟩

end Cells

section Conflicts

variable (canonical : StateGraph.IsCanonical grammar graph) {state token production : Nat}

include canonical

theorem contest (bound : state < graph.stateCount)
    (edge : ∃ target, graph.edge? state (.token token) = some target)
    (reducible : Table.Reducible grammar graph state token production) :
    token ∈ operators ∧
      ∃ sign ∈ operators,
        grammar.productionPrecedence production = grammar.tokenPrecedence sign := by
  rcases canonical.exists_path bound with ⟨below, symbols, path⟩
  rcases edge with ⟨target, edge⟩
  cases shape.completes_of_complete canonical path reducible.complete reducible.inner with
  | atom _ _ =>
      rcases shape.token_edge_cases canonical path edge with ⟨_, before⟩ | ⟨_, _, split⟩
      · exact absurd before shape.not_before_operand_of_atom
      · cases split
  | @join sign _ inside among joins =>
      rcases shape.token_edge_cases canonical path edge with ⟨_, before⟩ | ⟨tokenAmong, _⟩
      · exact absurd before not_before_operand_of_operand
      · exact ⟨tokenAmong, sign, among, shape.precedence_of_join inside joins⟩

theorem not_forbidden (bound : state < graph.stateCount) :
    ¬Table.Forbidden grammar graph state token production := by
  rintro ⟨edge, first, level, nonassoc, _⟩
  have among := (shape.contest canonical bound edge first.toReducible).1
  rcases shape.associates token among with ⟨precedence, own, decided⟩
  rw [nonassoc] at own
  cases own
  exact decided rfl

theorem outcome_settled (bound : state < graph.stateCount) :
    (Table.outcome grammar graph state token).defaulted? = none := by
  unfold Table.outcome Table.resolution
  cases reduction : Table.reduction? grammar (Follows.ofGrammar grammar)
      (Table.reductions grammar (graph.closed state)) token with
  | none =>
      cases Table.shift? grammar graph state token with
      | none => rfl
      | some _ => rfl
  | some production =>
      have reducible := ((Table.reduction_eq_some_iff production).mp reduction).toReducible
      cases shift : Table.shift? grammar graph state token with
      | none => rfl
      | some cell =>
          by_cases accepting : Table.Accepting grammar graph state token
          · rcases canonical.exists_path bound with ⟨below, symbols, path⟩
            have whole := (shape.symbols_of_accepting canonical path accepting).2
            cases shape.completes_of_complete canonical path reducible.complete reducible.inner with
            | atom _ _ => cases whole
            | join _ _ _ => cases whole
          · rw [Table.shift_of_not_accepting shape.wellFormed accepting] at shift
            rcases Option.map_eq_some_iff.mp shift with ⟨target, edge, _⟩
            rcases shape.contest canonical bound ⟨target, edge⟩ reducible with
              ⟨tokenAmong, sign, among, same⟩
            rcases shape.associates token tokenAmong with ⟨ofToken, own, _⟩
            rcases shape.associates sign among with ⟨ofSign, other, _⟩
            rw [other] at same
            exact Table.resolve_settled own same cell

theorem no_clash (bound : state < graph.stateCount) (distinct : (graph.closed state).Nodup) :
    Table.clashes grammar (Follows.ofGrammar grammar) []
      (Table.reductions grammar (graph.closed state)) = [] := by
  rcases canonical.exists_path bound with ⟨below, symbols, path⟩
  apply Table.clashes_of_alone _ _ (Table.reductions_nodup distinct)
  intro first member second other
  rcases Table.complete_of_mem_reductions member with ⟨firstInner, one⟩
  rcases Table.complete_of_mem_reductions other with ⟨secondInner, two⟩
  exact (shape.completes_of_complete canonical path one firstInner).unique shape
    (shape.completes_of_complete canonical path two secondInner)

omit canonical in
/-- The table of an operator grammar is made, and no conflict is recorded. -/
theorem exists_table :
    ∃ table, (Table.ofGrammar grammar).value = .ok (StateGraph.ofGrammar grammar, table) ∧
      table.conflicts.isEmpty = true := by
  have canonical := StateGraph.of_grammar_is_canonical grammar shape.wellFormed.nonempty
  cases made : (Table.ofGraph grammar (StateGraph.ofGrammar grammar)).value with
  | error error =>
      have found := (Table.of_graph_eq_error_iff shape.wellFormed shape.agree _ error).mp made
      exact absurd found.forbidden (shape.not_forbidden canonical found.state)
  | ok table =>
      refine ⟨table, ?_, ?_⟩
      · simp only [Table.ofGrammar, made]
        rfl
      · apply Table.of_graph_unconflicted table made
        · intro state token bound _
          exact shape.outcome_settled canonical bound
        · intro state bound
          apply shape.no_clash canonical bound
          exact StateGraph.of_grammar_closed_nodup grammar shape.wellFormed.nonempty state

end Conflicts

end Grammar.OperatorGrammar

end SlrKit
