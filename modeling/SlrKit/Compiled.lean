import SlrKit.Grammar.Compile
import SlrKit.Lexer.Run
import SlrKit.Parser.Run
import SlrKit.Table.Build

/-!
# Compiled languages

Compiling the declarations of a language makes its lexer and its parse table; the result can
parse any number of texts.
-/

set_option autoImplicit false

namespace SlrKit

inductive ConflictKind where
  | shiftReduce
  | reduceReduce
deriving DecidableEq

def ConflictKind.name : ConflictKind → String
  | .shiftReduce => "shift/reduce"
  | .reduceReduce => "reduce/reduce"

inductive CompileError where
  | lexer (errors : List LexerError)
  | grammar (errors : List GrammarError)
  | unrepresentable (fault : Fault)
  | table (error : TableError)
  | conflicts (kind : ConflictKind) (expected found : Nat) (report : String)

def CompileError.message : CompileError → String
  | .lexer errors => "\n".intercalate (errors.map LexerError.message)
  | .grammar errors => "\n".intercalate (errors.map GrammarError.message)
  | .unrepresentable fault => fault.message
  | .table error => error.message
  | .conflicts kind expected found report =>
      "Expected " ++ toString expected ++ " " ++ kind.name ++ " conflicts, found " ++
        toString found ++ "\n" ++ report

structure CompileOptions where
  recovery : Recovery := .none
  strict : Bool := false

structure Compiled (α π : Type) where
  declarations : Declarations α π
  lexer : Lexer.Definition
  grammar : Grammar
  table : Table
  recovery : Recovery

namespace Compiled

def unexpectedConflicts? (options : CompileOptions) (grammar : Grammar) (conflicts : Conflicts)
    (kind : ConflictKind) (expected : Option Nat) (found : Nat) : Option CompileError :=
  let mismatch := match expected with
    | some count => count != found
    | none => options.strict && found != 0
  if mismatch then some (.conflicts kind (expected.getD 0) found (conflicts.describe grammar))
  else none

def checkConflicts (options : CompileOptions) (grammar : Grammar) (conflicts : Conflicts) :
    Option CompileError :=
  (unexpectedConflicts? options grammar conflicts .shiftReduce grammar.expectShiftReduce
      conflicts.shiftReduce.length).or
    (unexpectedConflicts? options grammar conflicts .reduceReduce grammar.expectReduceReduce
      conflicts.reduceReduce.length)

/-- Compiles a language. Mistakes in token rules come before those in productions, and these
before trouble with the table. -/
def ofDeclarations {α π : Type} (library : Regex.Library) (options : CompileOptions)
    (declarations : Declarations α π) : Logged (Except CompileError (Compiled α π)) :=
  let lexer := Lexer.define library declarations
  match lexer.value with
  | .error errors => ⟨.error (.lexer errors), lexer.log⟩
  | .ok definition =>
      match Grammar.compile .bits32 declarations with
      | .error (.invalid errors) => ⟨.error (.grammar errors), lexer.log⟩
      | .error (.unrepresentable fault) => ⟨.error (.unrepresentable fault), lexer.log⟩
      | .ok grammar =>
          let made := Table.ofGrammar grammar
          let log := lexer.log ++ made.log
          match made.value with
          | .error error => ⟨.error (.table error), log⟩
          | .ok (_, table) =>
              match checkConflicts options grammar table.conflicts with
              | some error => ⟨.error error, log⟩
              | none =>
                  { value := .ok ⟨declarations, definition, grammar, table, options.recovery⟩
                    log := log ++ [.debug ("Compiled grammar: " ++
                      toString grammar.ruleCount ++ " rules, " ++
                      toString grammar.productionCount ++ " productions, " ++
                      toString grammar.tokenCount ++ " tokens, " ++
                      toString table.stateCount ++ " states")] }

variable {α π : Type} (compiled : Compiled α π)

def warnings? : Option String :=
  if compiled.table.conflicts.isEmpty then none
  else some (compiled.table.conflicts.describe compiled.grammar)

def parser : Parser α π Lexer.State where
  grammar := compiled.grammar
  table := compiled.table
  action? := compiled.declarations.action?
  recovery := compiled.recovery
  next := Lexer.next compiled.lexer

def parse [Inhabited α] (limit : Nat) (param : π) (text : List Char) :
    Option (Except Fault (Outcome α π Lexer.State)) :=
  compiled.parser.run limit param (Lexer.State.ofText text)

end Compiled

/-- The value of a parse without errors, or else its first error; a parse that has neither does
not occur. -/
def Outcome.result? {α π τ : Type} (outcome : Outcome α π τ) : Option (Except ParseError α) :=
  match outcome.errors, outcome.value with
  | error :: _, _ => some (.error error)
  | [], some value => some (.ok value)
  | [], none => none

end SlrKit
