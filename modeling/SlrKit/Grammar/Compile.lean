import SlrKit.Grammar.Basic
import SlrKit.Grammar.Index
import SlrKit.RuleBook

/-!
# Compiling a rule book

Compilation numbers what the rule book names. Productions keep their order, whatever rule
they belong to; the start production comes after them.
-/

set_option autoImplicit false

namespace SlrKit

namespace Grammar

/-- Compilation fails for mistakes of the author or for an index width that is too small. -/
inductive Failure where
  | invalid (errors : List GrammarError)
  | unrepresentable (fault : Fault)

/-- The name of the start rule, which no rule text can spell. -/
def startName : String := "^"

/-- Fails unless indices of the given width can number all of the book, with one to spare for
the start rule, the end of the input and the start production. -/
def checkWidth (width : IndexWidth) (book : RuleBook) : Except Fault Unit :=
  if width.largest ≤ book.rules.length then .error .tooManyRules
  else if width.largest ≤ book.tokens.length then .error .tooManyTokens
  else if width.largest ≤ book.productions.length then .error .tooManyProductions
  else if book.productions.any fun production => width.largest ≤ production.symbols.length then
    .error .tooManySymbols
  else .ok ()

def numberRule (book : RuleBook) (name : String) : Nat :=
  1 + (book.rules.map (·.name)).idxOf name

def numberToken (book : RuleBook) (name : String) : Nat := book.tokens.idxOf name

def numberSymbol (book : RuleBook) : NamedSymbol → Symbol
  | .rule name _ => .rule (numberRule book name)
  | .token name _ => .token (numberToken book name)

def lastToken? (symbols : List NamedSymbol) : Option String :=
  symbols.reverse.findSome? fun
    | .token name _ => some name
    | .rule _ _ => none

/-- The precedence of a production: that of its precedence clause, or else of its last token. -/
def precedenceOf (book : RuleBook) (production : RuleBook.Production) : Option Precedence :=
  match production.precedence with
  | some (name, _) => book.precedence? name
  | none => (lastToken? production.symbols).bind book.precedence?

def listedUnder (book : RuleBook) (index : Nat) : Nat :=
  1 + book.rules.findIdx fun rule => rule.productions.contains index

def numberProductions (book : RuleBook) : List Production :=
  book.productions.zipIdx.map fun (production, index) =>
    { rule := listedUnder book index
      symbols := production.symbols.map (numberSymbol book)
      precedence := precedenceOf book production
      declaration := some production.declaration }

def startOf (book : RuleBook) : Production where
  rule := startRule
  symbols := [.rule (match book.start with
    | some name => numberRule book name
    | none => 1)]
  precedence := none
  declaration := none

def ofRuleBook (book : RuleBook) : Grammar where
  ruleNames := (startName :: book.rules.map (·.name)).toArray
  namedTokens := (book.tokens.map fun name => ⟨name, book.precedence? name⟩).toArray
  productions := (numberProductions book ++ [startOf book]).toArray
  expectShiftReduce := book.expectShiftReduce
  expectReduceReduce := book.expectReduceReduce

def compile {α π : Type} (width : IndexWidth) (declarations : Declarations α π) :
    Except Failure Grammar :=
  match RuleBook.ofDeclarations declarations with
  | .error errors => .error (.invalid errors)
  | .ok book =>
      match checkWidth width book with
      | .error fault => .error (.unrepresentable fault)
      | .ok () => .ok (ofRuleBook book)

end Grammar

end SlrKit
