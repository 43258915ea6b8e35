import SlrKit.Automaton.Graph
import SlrKit.Grammar.Follow
import SlrKit.Log
import SlrKit.Table.Basic

/-!
# Making a parse table

A state can reduce a complete item on every token that follows its rule, shift a token over an
edge, and accept at the end of the input once the start production is complete. Of several
productions to reduce, the first of the grammar wins. Between a production and a shift, the
higher precedence wins, and at equal levels the associativity decides; without a precedence on
both sides the shift wins and the conflict is recorded. Accepting counts as a shift of the end.
-/

set_option autoImplicit false

namespace SlrKit

/-- A token and a production of one level that does not associate meet in a state. -/
structure TableError where
  token : Nat
  production : Nat
  state : Nat
deriving DecidableEq

def TableError.message (error : TableError) : String :=
  "Shift/reduce conflict between nonassociative operators in state " ++ toString error.state

namespace Table

inductive Resolution where
  /-- There was no contest, or precedences decided it. -/
  | settled (cell : Cell)
  /-- Nothing decided it, so the shift won over a production. -/
  | byDefault (cell : Cell) (production : Nat)
  /-- Precedences forbid to shift and to reduce the production. -/
  | forbidden (production : Nat)
deriving DecidableEq

namespace Resolution

def cell : Resolution → Cell
  | settled cell => cell
  | byDefault cell _ => cell
  | forbidden _ => .error

def defaulted? : Resolution → Option Nat
  | byDefault _ production => some production
  | _ => none

def forbidden? : Resolution → Option Nat
  | forbidden production => some production
  | _ => none

end Resolution

/-- Decides between a shift of `token`, given as its cell, and the reduction of `production`. -/
def resolve (grammar : Grammar) (token production : Nat) (shift : Cell) : Resolution :=
  match grammar.tokenPrecedence token, grammar.productionPrecedence production with
  | some ofToken, some ofProduction =>
      if ofProduction.level < ofToken.level then .settled shift
      else if ofToken.level < ofProduction.level then .settled (.reduce production)
      else
        match ofToken.assoc with
        | .left => .settled (.reduce production)
        | .right => .settled shift
        | .nonassoc => .forbidden production
  | _, _ => .byDefault shift production

def reductions (grammar : Grammar) (closed : ItemSet) : List Nat :=
  (closed.completed grammar).filter (· != grammar.startProduction)

def allows (grammar : Grammar) (follows : Follows) (token production : Nat) : Bool :=
  (follows.ofRule (grammar.ruleOf production)).contains token

/-- The production to reduce on `token`: the first of the grammar among those that can be. -/
def reduction? (grammar : Grammar) (follows : Follows) (reducible : List Nat) (token : Nat) :
    Option Nat :=
  (reducible.filter (allows grammar follows token)).min?

/-- What a state does with `token` without reducing first, if anything. -/
def shift? (grammar : Grammar) (graph : StateGraph) (state token : Nat) : Option Cell :=
  if token = grammar.endToken ∧ (graph.closed state).contains (Item.finish grammar) then
    some .accept
  else (graph.edge? state (.token token)).map Cell.shift

def resolution (grammar : Grammar) (follows : Follows) (graph : StateGraph)
    (reducible : List Nat) (state token : Nat) : Resolution :=
  match shift? grammar graph state token, reduction? grammar follows reducible token with
  | none, none => .settled .error
  | none, some production => .settled (.reduce production)
  | some shift, none => .settled shift
  | some shift, some production => resolve grammar token production shift

structure Clash where
  kept : Nat
  discarded : Nat
  token : Nat
deriving DecidableEq

/-- The clashes that the productions after `earlier` bring: each meets the first of those
before it that can be reduced on the same token. -/
def clashes (grammar : Grammar) (follows : Follows) (earlier : List Nat) : List Nat → List Clash
  | [] => []
  | production :: rest =>
      ((follows.ofRule (grammar.ruleOf production)).below grammar.tokenCount).filterMap
          (fun token =>
            (reduction? grammar follows earlier token).map fun rival =>
              ⟨min production rival, max production rival, token⟩) ++
        clashes grammar follows (earlier ++ [production]) rest

def Clash.record (grammar : Grammar) (state : Nat) (clash : Clash) : Record :=
  .warn ("Reduce/reduce conflict in state " ++ toString state ++ " on " ++
    grammar.tokenLabel clash.token ++ ": reducing " ++ grammar.describeProduction clash.kept ++
    " rather than " ++ grammar.describeProduction clash.discarded)

def defaultRecord (grammar : Grammar) (conflict : ShiftReduceConflict) : Record :=
  .warn ("Shift/reduce conflict in state " ++ toString conflict.state ++ ": shifting " ++
    grammar.tokenLabel conflict.token ++ " rather than reducing " ++
    grammar.describeProduction conflict.production)

structure Row where
  cells : List Cell
  gotos : List (Option Nat)
  conflicts : Conflicts
  log : List Record
  failure : Option TableError

/-- Fills the cells of one state. The end of the input is looked at before the other tokens. -/
def row (grammar : Grammar) (follows : Follows) (graph : StateGraph) (state : Nat) : Row :=
  let reducible := reductions grammar (graph.closed state)
  let resolved := (List.range grammar.tokenCount).map fun token =>
    (token, resolution grammar follows graph reducible state token)
  let inOrder := resolved.drop grammar.endToken ++ resolved.take grammar.endToken
  let decided := inOrder.takeWhile fun (_, outcome) => outcome.forbidden?.isNone
  let byDefault : List ShiftReduceConflict := decided.filterMap fun (token, outcome) =>
    outcome.defaulted?.map fun production => ⟨token, production, state⟩
  let met := clashes grammar follows [] reducible
  { cells := resolved.map fun (_, outcome) => outcome.cell
    gotos := (List.range grammar.ruleCount).map fun rule => graph.edge? state (.rule rule)
    conflicts :=
      { shiftReduce := byDefault
        reduceReduce := (met.map fun clash => ⟨clash.kept, clash.discarded, state⟩).eraseDups }
    log := met.map (Clash.record grammar state) ++ byDefault.map (defaultRecord grammar)
    failure := inOrder.findSome? fun (token, outcome) =>
      outcome.forbidden?.map fun production => ⟨token, production, state⟩ }

/-- The rows up to the first that cannot be filled; its error, if there is one. -/
def collect : List Row → List Row × Option TableError
  | [] => ([], none)
  | row :: rest =>
      match row.failure with
      | some error => ([row], some error)
      | none =>
          let (rows, failure) := collect rest
          (row :: rows, failure)

def ofGraph (grammar : Grammar) (graph : StateGraph) : Logged (Except TableError Table) :=
  let follows := Follows.ofGrammar grammar
  let (rows, failure) :=
    collect ((List.range graph.stateCount).map (row grammar follows graph))
  { log := rows.flatMap (·.log)
    value := match failure with
      | some error => .error error
      | none => .ok
          { tokenCount := grammar.tokenCount
            ruleCount := grammar.ruleCount
            cells := (rows.flatMap (·.cells)).toArray
            gotos := (rows.flatMap (·.gotos)).toArray
            startState := StateGraph.startState
            finalState :=
              (graph.states.findIdx? (·.closed.contains (Item.finish grammar))).getD 0
            conflicts :=
              { shiftReduce := rows.flatMap (·.conflicts.shiftReduce)
                reduceReduce := rows.flatMap (·.conflicts.reduceReduce) } } }

def ofGrammar (grammar : Grammar) : Logged (Except TableError (StateGraph × Table)) :=
  let graph := StateGraph.ofGrammar grammar
  let made := ofGraph grammar graph
  { log := .debug (toString graph.stateCount ++ " states, " ++ toString graph.edgeCount ++ " edges")
      :: made.log
    value := made.value.map fun table => (graph, table) }

end Table

end SlrKit
