import SlrKit.Grammar.Precedence
import SlrKit.Token

/-!
# Declarations

A language is declared by its token rules, literal characters, keywords, precedence levels and
productions. Token rules and productions can carry code: a token handler edits the tokens of
its rule, an action computes the value of a production from the values of its symbols.

Code is pure here. An action threads a parameter of type `π` through the parse; the lexical
error handler sees the errors before the present one.
-/

set_option autoImplicit false

namespace SlrKit

inductive Operand (α : Type) where
  | lexeme (token : Token)
  | value (value : α)

inductive Verdict where
  | keep
  | discard
deriving DecidableEq

abbrev TokenHandler : Type := Token → Token × Verdict

/-- Computes the value of a production from the values of its symbols, oldest first, and
updates the parameter. -/
abbrev Action (α π : Type) : Type := π → List (Operand α) → α × π

/-- Decides how many characters to skip where no token starts; skipping none ends the input.
It is given the error tokens reported before in this input, oldest first, and the present one,
whose value is the rest of the input. -/
abbrev LexErrorHandler : Type := List Token → Token → Nat

structure TokenDeclaration where
  name : String
  pattern : String
  handler : Option TokenHandler

/-- One precedence level. Later levels bind tighter. -/
structure PrecedenceDeclaration where
  assoc : Assoc
  names : List String

structure ProductionDeclaration (α π : Type) where
  text : String
  action : Option (Action α π)

structure Declarations (α π : Type) where
  tokens : List TokenDeclaration := []
  literals : List Char := []
  keywords : List String := []
  precedence : List PrecedenceDeclaration := []
  productions : List (ProductionDeclaration α π) := []
  /-- The rule to start with, if not that of the first production. -/
  start : Option String := none
  expectShiftReduce : Option Nat := none
  expectReduceReduce : Option Nat := none
  /-- Without a handler, the first lexical error ends the input. -/
  onLexError : LexErrorHandler := fun _ _ => 0

namespace TokenDeclaration

def hasHandler (token : TokenDeclaration) : Bool := token.handler.isSome

def describe (token : TokenDeclaration) : String :=
  "TokenDecl \x7b name: " ++ Text.quote token.name ++ ", pattern: " ++ Text.quote token.pattern ++
    ", handler: " ++ (if token.hasHandler then "true" else "false") ++ " \x7d"

end TokenDeclaration

namespace ProductionDeclaration

variable {α π : Type}

def hasAction (production : ProductionDeclaration α π) : Bool := production.action.isSome

def describe (production : ProductionDeclaration α π) : String :=
  "ProductionDecl \x7b rule: " ++ Text.quote production.text ++
    ", handler: " ++ (if production.hasAction then "true" else "false") ++ " \x7d"

end ProductionDeclaration

namespace Declarations

variable {α π : Type} (declarations : Declarations α π)

def simpleTokens : List TokenDeclaration :=
  declarations.tokens.filter fun token => !token.hasHandler

def handlerTokens : List TokenDeclaration :=
  declarations.tokens.filter TokenDeclaration.hasHandler

def action? (index : Nat) : Option (Action α π) :=
  (declarations.productions[index]?).bind ProductionDeclaration.action

def isTerminalName (name : String) : Bool :=
  declarations.tokens.any (·.name == name) || declarations.keywords.contains name

end Declarations

end SlrKit
