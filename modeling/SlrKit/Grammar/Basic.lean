import SlrKit.Grammar.Precedence

/-!
# Compiled grammars

In a compiled grammar, rules, tokens and productions are numbers. Rule 0 is the start rule
`^`; its only production, the last of the grammar, leads to the rule the author starts with.
The last token is the end of the input; it has no name and occurs in no production.
-/

set_option autoImplicit false

namespace SlrKit

inductive Symbol where
  | rule (index : Nat)
  | token (index : Nat)
deriving DecidableEq

structure Production where
  rule : Nat
  symbols : List Symbol
  precedence : Option Precedence
  /-- The declaration it comes from; the start production comes from none. -/
  declaration : Option Nat
deriving DecidableEq

structure NamedToken where
  name : String
  precedence : Option Precedence
deriving DecidableEq

structure Grammar where
  ruleNames : Array String
  /-- All tokens but the end. -/
  namedTokens : Array NamedToken
  productions : Array Production
  expectShiftReduce : Option Nat
  expectReduceReduce : Option Nat

namespace Grammar

variable (grammar : Grammar)

def ruleCount : Nat := grammar.ruleNames.size

def tokenCount : Nat := grammar.namedTokens.size + 1

def productionCount : Nat := grammar.productions.size

/-- The rule above the one the author starts with. -/
def startRule : Nat := 0

def startProduction : Nat := grammar.productionCount - 1

def endToken : Nat := grammar.namedTokens.size

def symbols (production : Nat) : List Symbol :=
  match grammar.productions[production]? with
  | some found => found.symbols
  | none => []

def ruleOf (production : Nat) : Nat :=
  match grammar.productions[production]? with
  | some found => found.rule
  | none => startRule

def productionPrecedence (production : Nat) : Option Precedence :=
  (grammar.productions[production]?).bind Production.precedence

def declarationOf (production : Nat) : Option Nat :=
  (grammar.productions[production]?).bind Production.declaration

def productionsOf (rule : Nat) : List Nat :=
  (List.range grammar.productionCount).filter fun production => grammar.ruleOf production == rule

def tokenName? (token : Nat) : Option String :=
  (grammar.namedTokens[token]?).map NamedToken.name

def tokenPrecedence (token : Nat) : Option Precedence :=
  (grammar.namedTokens[token]?).bind NamedToken.precedence

def tokenLabel (token : Nat) : String := (grammar.tokenName? token).getD "$end"

def ruleName (rule : Nat) : String := (grammar.ruleNames[rule]?).getD ""

def tokenIndex? (name : String) : Option Nat :=
  grammar.namedTokens.findIdx? (·.name == name)

def ruleIndex? (name : String) : Option Nat :=
  grammar.ruleNames.findIdx? (· == name)

def symbolLabel : Symbol → String
  | .rule rule => grammar.ruleName rule
  | .token token => grammar.tokenLabel token

def describeProduction (production : Nat) : String :=
  (grammar.symbols production).foldl
    (fun text symbol => text ++ " \"" ++ grammar.symbolLabel symbol ++ "\"")
    (grammar.ruleName (grammar.ruleOf production) ++ ":")

end Grammar

end SlrKit
