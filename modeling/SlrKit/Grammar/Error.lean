import SlrKit.Text.Span

/-!
# Mistakes in the productions and precedence levels of a language
-/

set_option autoImplicit false

namespace SlrKit

inductive GrammarError.Cause where
  | illegalName
  | illegalString
  | missingColon
  /-- A precedence clause needs the name of a token. -/
  | precNotFollowedByToken
  /-- A precedence clause ends its alternative. -/
  | precNotLast
  | emptyGrammar
  | invalidStartRule (name : String)
  | unknownRuleRef (name : String)
  | unknownToken (name : String)
  | noPrecForToken (name : String)
  | duplicatePrecedence (name : String)
  | duplicateProduction (production : String)
  | tokenAsRule (name : String)
deriving DecidableEq

def GrammarError.Cause.message : GrammarError.Cause → String
  | .illegalName => "Illegal name"
  | .illegalString => "Illegal string"
  | .missingColon => "Missing ':'"
  | .precNotFollowedByToken => "%prec not followed by token name"
  | .precNotLast => "%prec must come at the end of an alternative"
  | .emptyGrammar => "No productions declared"
  | .invalidStartRule name => "Start rule '" ++ name ++ "' does not appear in grammar"
  | .unknownRuleRef name => "Unknown reference to rule '" ++ name ++ "'"
  | .unknownToken name => "Unknown token '" ++ name ++ "'"
  | .noPrecForToken name => "Token '" ++ name ++ "' used in %prec has no precedence attached"
  | .duplicatePrecedence name => "Token '" ++ name ++ "' has multiple precedences specified"
  | .duplicateProduction production => "Duplicated production '" ++ production ++ "'"
  | .tokenAsRule name => "Token '" ++ name ++ "' cannot be the left-hand side of a rule"

structure GrammarError where
  cause : GrammarError.Cause
  /-- The production declaration at fault; `none` if no single one is. -/
  declaration : Option Nat
  span : Span
deriving DecidableEq

namespace GrammarError

def global (cause : Cause) : GrammarError := ⟨cause, none, Span.point 0⟩

def message (error : GrammarError) : String :=
  match error.declaration with
  | some declaration =>
      error.cause.message ++ " (production declaration " ++ toString declaration ++ ", offset " ++
        toString error.span.start ++ ")"
  | none => error.cause.message

end GrammarError

end SlrKit
