import SlrKit.Text.Quoted
import SlrKit.Text.Span

/-!
# Tokens

A token is what the lexer hands to the parser: the name of a terminal and the text that was
found for it, with its place in the input.
-/

set_option autoImplicit false

namespace SlrKit

structure Token where
  name : String
  /-- The text found, possibly edited by the token's handler. -/
  value : String
  span : Span
  /-- The line, counted from 1 and possibly shifted by handlers. -/
  line : Nat
  column : Nat
deriving DecidableEq

def Token.describe (token : Token) : String :=
  token.name ++ "(" ++ Text.quote token.value ++ ") at line " ++ toString token.line ++
    " column " ++ toString token.column

structure LexError where
  span : Span
  text : String
  line : Nat
  column : Nat
deriving DecidableEq

def LexError.message (error : LexError) : String :=
  "Couldn't lex input " ++ Text.quote error.text ++ " at line " ++ toString error.line ++
    " column " ++ toString error.column

end SlrKit
