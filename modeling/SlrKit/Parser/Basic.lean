import SlrKit.Declarations
import SlrKit.Log
import SlrKit.Table.Basic

/-!
# What a parser works with

A parser draws tokens from a source, follows a parse table and computes values by the actions of
the productions. Syntax errors are values that tell where they arose and what could have come
instead.
-/

set_option autoImplicit false

namespace SlrKit

structure SyntaxError where
  state : Nat
  /-- The token; `none` for the end of the input. -/
  token : Option Token
  expected : List String
deriving DecidableEq

def SyntaxError.message (error : SyntaxError) : String :=
  (match error.token with
    | some token =>
        "Syntax error at line " ++ toString token.line ++ " column " ++ toString token.column ++
          ": unexpected " ++ token.name ++ " " ++ Text.quote token.value
    | none => "Syntax error: unexpected end of input") ++
  (if error.expected = [] then ""
    else " (expected one of: " ++ ", ".intercalate error.expected ++ ")")

inductive ParseError where
  | lexical (error : LexError)
  | unexpected (error : SyntaxError)
deriving DecidableEq

def ParseError.message : ParseError → String
  | .lexical error => error.message
  | .unexpected error => error.message

structure Reading (τ : Type) where
  /-- A token, a lexical error, or nothing at the end of the input. -/
  item : Option (Except LexError Token)
  rest : τ
  log : List Record := []

inductive Recovery where
  | none
  | panic
deriving DecidableEq

/-- A parser: a compiled grammar with its table, the actions of the production declarations, and
the source its tokens come from. -/
structure Parser (α π τ : Type) where
  grammar : Grammar
  table : Table
  action? : Nat → Option (Action α π)
  recovery : Recovery
  next : τ → Reading τ

structure Outcome (α π τ : Type) where
  /-- The value of the input if it was accepted, possibly after recovering from errors. -/
  value : Option α
  errors : List ParseError
  param : π
  source : τ
  log : Array Record

end SlrKit
