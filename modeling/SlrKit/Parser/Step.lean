import SlrKit.Fault
import SlrKit.Parser.Basic

/-!
# The steps of a parse

A parser keeps a stack of states and a stack of operands, one operand for every state above the
start state. One step shifts the lookahead, reduces a production, accepts, or meets a syntax
error; after an error it recovers in steps that each resume parsing or drop the lookahead.
-/

set_option autoImplicit false

namespace SlrKit

inductive Phase where
  | parsing
  /-- It looks for a state that can go on. `skip` rules out the present lookahead; `discarded`
  tells whether a token has been dropped. -/
  | recovering (skip discarded : Bool)
deriving DecidableEq

/-- The state of a parse in progress. Both stacks have their newest element in front. -/
structure Config (α π τ : Type) where
  states : List Nat
  operands : List (Operand α)
  /-- The token to be dealt with; `none` at the end of the input. -/
  lookahead : Option Token
  phase : Phase := .parsing
  /-- Has the parser resumed on this lookahead without dropping a token, and not shifted
  since? -/
  resynced : Bool := false
  param : π
  errors : List ParseError := []
  source : τ
  log : Array Record := #[]

inductive Step (α π τ : Type) where
  | proceed (config : Config α π τ)
  | halt (outcome : Outcome α π τ)
  | fault (fault : Fault)

namespace Config

variable {α π τ : Type} (config : Config α π τ)

def finish (value : Option α) : Outcome α π τ where
  value := value
  errors := config.errors
  param := config.param
  source := config.source
  log := config.log

def note (record : Record) : Config α π τ := { config with log := config.log.push record }

def report (error : ParseError) : Config α π τ := { config with errors := config.errors ++ [error] }

def accept : Step α π τ :=
  match config.lookahead, config.operands with
  | none, [.value value] => .halt (config.finish (some value))
  | _, _ => .fault .corruptStack

def resume (depth : Nat) (discarded : Bool) : Config α π τ :=
  let states := config.states.drop depth
  { config with
    states
    operands := config.operands.drop depth
    phase := .parsing
    resynced := !discarded
    log := config.log.push (.debug ("Recovered in state " ++ toString (states.headD 0) ++ " (" ++
      toString depth ++ " states popped)")) }

end Config

namespace Parser

variable {α π τ : Type} (parser : Parser α π τ)

/-- The token of the grammar that a lookahead stands for; none if its name is unknown. -/
def tokenOf (lookahead : Option Token) : Option Nat :=
  match lookahead with
  | some token => parser.grammar.tokenIndex? token.name
  | none => some parser.grammar.endToken

def cellFor (state : Nat) (lookahead : Option Token) : Cell :=
  match parser.tokenOf lookahead with
  | some token => parser.table.cell state token
  | none => .error

def expected (state : Nat) : List String :=
  (parser.table.validTokens state).map parser.grammar.tokenLabel

/-- Replaces the lookahead by the next item of the source. A lexical error ends the parse. -/
def pull (config : Config α π τ) : Step α π τ :=
  let reading := parser.next config.source
  let drawn := { config with source := reading.rest, log := config.log ++ reading.log.toArray }
  match reading.item with
  | none => .proceed { drawn with lookahead := none }
  | some (.ok token) => .proceed { drawn with lookahead := some token }
  | some (.error error) => .halt ((drawn.report (.lexical error)).finish none)

def start (param : π) (source : τ) : Step α π τ :=
  parser.pull
    { states := [parser.table.startState], operands := [], lookahead := none, param, source }

def shift (config : Config α π τ) (state : Nat) : Step α π τ :=
  let operands := match config.lookahead with
    | some token => .lexeme token :: config.operands
    | none => config.operands
  parser.pull { config with states := state :: config.states, operands, resynced := false }

/-- The value of a production from the operands of its symbols, oldest first, and the parameter
after its action. A production without an action has the default value. -/
def evaluate [Inhabited α] (production : Nat) (param : π) (operands : List (Operand α)) : α × π :=
  match (parser.grammar.declarationOf production).bind parser.action? with
  | some action => action param operands
  | none => (default, param)

/-- Replaces the operands of a production by its value, and their states by the one that its
rule leads to. -/
def reduce [Inhabited α] (config : Config α π τ) (production : Nat) : Step α π τ :=
  let count := (parser.grammar.symbols production).length
  let (value, param) :=
    parser.evaluate production config.param (config.operands.take count).reverse
  match config.states.drop count with
  | [] => .fault .corruptStack
  | prior :: below =>
      match parser.table.goto? prior (parser.grammar.ruleOf production) with
      | none => .fault .corruptStack
      | some state => .proceed
          { config with
            states := state :: prior :: below
            operands := .value value :: config.operands.drop count
            param }

def reject (config : Config α π τ) (state : Nat) : Step α π τ :=
  let error : SyntaxError := ⟨state, config.lookahead, parser.expected state⟩
  let reported := (config.note (.debug error.message)).report (.unexpected error)
  match parser.recovery with
  | .none => .halt (reported.finish none)
  | .panic => .proceed { reported with phase := .recovering config.resynced false }

def resumeDepth? (config : Config α π τ) : Option Nat :=
  config.states.findIdx? fun state => parser.cellFor state config.lookahead != .error

/-- Drops the lookahead. At the end of the input there is nothing left to drop. -/
def discard (config : Config α π τ) : Step α π τ :=
  match config.lookahead with
  | some token =>
      parser.pull
        { config.note (.debug ("Discarding " ++ token.describe)) with
          phase := .recovering false true }
  | none =>
      .halt ((config.note (.debug "Reached the end of the input while recovering")).finish none)

def step [Inhabited α] (config : Config α π τ) : Step α π τ :=
  match config.phase with
  | .parsing =>
      match config.states with
      | [] => .fault .corruptStack
      | state :: _ =>
          match parser.cellFor state config.lookahead with
          | .shift target => parser.shift config target
          | .reduce production => parser.reduce config production
          | .accept => config.accept
          | .error => parser.reject config state
  | .recovering skip discarded =>
      if skip then parser.discard config
      else
        match parser.resumeDepth? config with
        | some depth => .proceed (config.resume depth discarded)
        | none => parser.discard config

end Parser

end SlrKit
