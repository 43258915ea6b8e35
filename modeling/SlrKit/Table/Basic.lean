import SlrKit.Grammar.Basic

/-!
# Parse tables

A parse table tells what to do in a state on a token, and where a state leads over a rule. It
also keeps the conflicts that were decided by default when it was made.
-/

set_option autoImplicit false

namespace SlrKit

inductive Cell where
  | shift (state : Nat)
  | reduce (production : Nat)
  | accept
  | error
deriving DecidableEq

/-- A token could be shifted or a production be reduced, and no precedence decides. -/
structure ShiftReduceConflict where
  token : Nat
  production : Nat
  state : Nat
deriving DecidableEq

/-- Two productions could be reduced on one token; the earlier one is. -/
structure ReduceReduceConflict where
  kept : Nat
  discarded : Nat
  state : Nat
deriving DecidableEq

structure Conflicts where
  shiftReduce : List ShiftReduceConflict := []
  reduceReduce : List ReduceReduceConflict := []
deriving DecidableEq

namespace Conflicts

def isEmpty (conflicts : Conflicts) : Bool :=
  conflicts.shiftReduce.isEmpty && conflicts.reduceReduce.isEmpty

def describeShiftReduce (grammar : Grammar) (conflicts : Conflicts) : String :=
  String.join (conflicts.shiftReduce.map fun conflict =>
    "Shift/Reduce conflict in state " ++ toString conflict.state ++
      ":\n   Shift: " ++ grammar.tokenLabel conflict.token ++
      "\n   Reduce: " ++ grammar.describeProduction conflict.production ++ "\n")

def describeReduceReduce (grammar : Grammar) (conflicts : Conflicts) : String :=
  String.join (conflicts.reduceReduce.map fun conflict =>
    "Reduce/Reduce conflict in state " ++ toString conflict.state ++
      ":\n   Reduce: " ++ grammar.describeProduction conflict.kept ++
      "\n   Reduce: " ++ grammar.describeProduction conflict.discarded ++ "\n")

def describe (grammar : Grammar) (conflicts : Conflicts) : String :=
  (if conflicts.shiftReduce.isEmpty then ""
    else toString conflicts.shiftReduce.length ++ " Shift/Reduce\n" ++
      conflicts.describeShiftReduce grammar) ++
  (if conflicts.reduceReduce.isEmpty then ""
    else toString conflicts.reduceReduce.length ++ " Reduce/Reduce\n" ++
      conflicts.describeReduceReduce grammar)

end Conflicts

/-- A parse table. Rows are states; the rows of each part stand one after the other. -/
structure Table where
  tokenCount : Nat
  ruleCount : Nat
  cells : Array Cell
  gotos : Array (Option Nat)
  startState : Nat
  finalState : Nat
  conflicts : Conflicts

namespace Table

variable (table : Table)

/-- What to do in a state on a token. As rows stand one after the other, a token beyond the
last one reads from the rows that follow; beyond the table nothing can be done. -/
def cell (state token : Nat) : Cell :=
  (table.cells[state * table.tokenCount + token]?).getD .error

def goto? (state rule : Nat) : Option Nat :=
  (table.gotos[state * table.ruleCount + rule]?).getD none

def validTokens (state : Nat) : List Nat :=
  (List.range table.tokenCount).filter fun token => table.cell state token != .error

def stateCount : Nat := table.cells.size / table.tokenCount

end Table

end SlrKit
