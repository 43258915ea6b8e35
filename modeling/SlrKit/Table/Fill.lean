import SlrKit.Table.Build

/-!
# Filling a table cell by cell

A table can also be filled by going over its cells and entering what is found there: for each state
first the productions that can be reduced, on every token that follows their rule, then accepting at the
end of the input, and last the shifts over edges. Whatever finds its cell in use is decided there and
then. The steps rely on the shape of the state graph: nothing is entered where a shift or accepting
already stands, and some state accepts. They stop where that does not hold.
-/

set_option autoImplicit false

namespace SlrKit

namespace Table

/-- Why the filling of a table stops. -/
inductive Stop where
  /-- Precedences forbid to shift and to reduce. -/
  | refused (error : TableError)
  /-- Something was to be entered where a shift or accepting already stood. -/
  | occupied (state token : Nat)
  /-- No state accepts the input. -/
  | neverAccepts
deriving DecidableEq

/-- A row while it is filled. -/
structure Filling where
  cells : List Cell
  conflicts : Conflicts := {}
deriving DecidableEq

namespace Filling

def blank (grammar : Grammar) : Filling := { cells := List.replicate grammar.tokenCount .error }

def cell (filling : Filling) (token : Nat) : Cell := (filling.cells[token]?).getD .error

def put (filling : Filling) (token : Nat) (cell : Cell) : Filling :=
  { filling with cells := filling.cells.set token cell }

def noteShift (filling : Filling) (conflict : ShiftReduceConflict) : Filling :=
  { filling with conflicts :=
      { filling.conflicts with shiftReduce := filling.conflicts.shiftReduce ++ [conflict] } }

/-- Two productions may meet on several tokens; their conflict is recorded once. -/
def noteReduction (filling : Filling) (conflict : ReduceReduceConflict) : Filling :=
  if filling.conflicts.reduceReduce.contains conflict then filling
  else
    { filling with conflicts :=
        { filling.conflicts with reduceReduce := filling.conflicts.reduceReduce ++ [conflict] } }

/-- Enters the reduction of a production. If another one is there, the earlier of both stays. -/
def reduceOn (state production : Nat) (filling : Filling) (token : Nat) : Except Stop Filling :=
  match filling.cell token with
  | .error => .ok (filling.put token (.reduce production))
  | .reduce rival =>
      if rival = production then .ok filling
      else
        .ok ((filling.put token (.reduce (min production rival))).noteReduction
          ⟨min production rival, max production rival, state⟩)
  | .accept => .error (.occupied state token)
  | .shift _ => .error (.occupied state token)

/-- Does what was decided between a production and a shift. -/
def settle (state token : Nat) (filling : Filling) : Resolution → Except Stop Filling
  | .settled cell => .ok (filling.put token cell)
  | .byDefault cell production =>
      .ok ((filling.put token cell).noteShift ⟨token, production, state⟩)
  | .forbidden production => .error (.refused ⟨token, production, state⟩)

/-- Enters a shift, or accepting, and decides against a production that is there. -/
def enter (grammar : Grammar) (state token : Nat) (shift : Cell) (filling : Filling) :
    Except Stop Filling :=
  match filling.cell token with
  | .error => .ok (filling.put token shift)
  | .reduce production => filling.settle state token (resolve grammar token production shift)
  | .accept => .error (.occupied state token)
  | .shift _ => .error (.occupied state token)

variable (grammar : Grammar) (follows : Follows) (graph : StateGraph) (state : Nat)

def reduceAll (filling : Filling) (production : Nat) : Except Stop Filling :=
  ((follows.ofRule (grammar.ruleOf production)).below grammar.tokenCount).foldlM
    (reduceOn state production) filling

def acceptAtEnd (filling : Filling) : Except Stop Filling :=
  if ((graph.closed state).completed grammar).contains grammar.startProduction then
    filling.enter grammar state grammar.endToken .accept
  else .ok filling

def shiftOn (filling : Filling) (token : Nat) : Except Stop Filling :=
  match graph.edge? state (.token token) with
  | none => .ok filling
  | some target => filling.enter grammar state token (.shift target)

def ofState : Except Stop Filling := do
  let reduced ← (reductions grammar (graph.closed state)).foldlM
    (reduceAll grammar follows state) (blank grammar)
  let accepting ← reduced.acceptAtEnd grammar graph state
  (List.range grammar.tokenCount).foldlM (shiftOn grammar graph state) accepting

end Filling

/-- A table of which some rows have been filled. -/
structure PartialTable where
  rows : List Filling := []
  finalState : Option Nat := none

def PartialTable.fillNext (grammar : Grammar) (follows : Follows) (graph : StateGraph)
    (done : PartialTable) (state : Nat) : Except Stop PartialTable := do
  let filling ← Filling.ofState grammar follows graph state
  .ok
    { rows := done.rows ++ [filling]
      finalState :=
        if filling.cell grammar.endToken = .accept then some state else done.finalState }

/-- The table of a state graph, filled cell by cell. -/
def fill (grammar : Grammar) (graph : StateGraph) : Except Stop Table := do
  let done ← (List.range graph.stateCount).foldlM
    (PartialTable.fillNext grammar (Follows.ofGrammar grammar) graph) {}
  match done.finalState with
  | none => .error .neverAccepts
  | some finalState =>
      .ok
        { tokenCount := grammar.tokenCount
          ruleCount := grammar.ruleCount
          cells := (done.rows.flatMap (·.cells)).toArray
          gotos := ((List.range graph.stateCount).flatMap fun state =>
            (List.range grammar.ruleCount).map fun rule => graph.edge? state (.rule rule)).toArray
          startState := StateGraph.startState
          finalState
          conflicts :=
            { shiftReduce := done.rows.flatMap (·.conflicts.shiftReduce)
              reduceReduce := done.rows.flatMap (·.conflicts.reduceReduce) } }

end Table

end SlrKit
