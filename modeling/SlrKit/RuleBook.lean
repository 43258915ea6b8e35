import SlrKit.Declarations
import SlrKit.RuleText

/-!
# The rule book

A rule book collects what the declarations say about the grammar by name: the terminals, the
rules with their productions, and the precedences. `RuleBook.ofDeclarations` reads all rule
text and checks that the book is sound; it reports every mistake it finds.
-/

set_option autoImplicit false

namespace SlrKit

namespace RuleBook

structure Rule where
  name : String
  /-- Where the name stands in the declaration that first gives the rule productions. -/
  span : Span
  declaration : Nat
  productions : List Nat := []
deriving DecidableEq

structure Production where
  symbols : List NamedSymbol
  precedence : Option (String × Span)
  declaration : Nat
deriving DecidableEq

end RuleBook

structure RuleBook where
  start : Option String := none
  rules : List RuleBook.Rule := []
  productions : List RuleBook.Production := []
  /-- Token names, keywords, literal characters, then names that only have a precedence. -/
  tokens : List String := []
  precedences : List (String × Precedence) := []
  expectShiftReduce : Option Nat := none
  expectReduceReduce : Option Nat := none

def addNew (names : List String) (name : String) : List String :=
  if names.contains name then names else names ++ [name]

namespace RuleBook

def rule? (book : RuleBook) (name : String) : Option Rule :=
  book.rules.find? (·.name == name)

def precedence? (book : RuleBook) (name : String) : Option Precedence :=
  book.precedences.lookup name

/-- The book with the given rule; a rule it has already stays as it is. -/
def addRule (book : RuleBook) (name : String) (span : Span) (declaration : Nat) : RuleBook :=
  if (book.rule? name).isSome then book
  else { book with rules := book.rules ++ [{ name, span, declaration }] }

/-- The book with one more production, listed with the rule `name` if there is one. -/
def addProduction (book : RuleBook) (name : String) (production : Production) : RuleBook :=
  { book with
    rules := book.rules.map fun rule =>
      if rule.name = name then
        { rule with productions := rule.productions ++ [book.productions.length] }
      else rule
    productions := book.productions ++ [production] }

def addRuleText (book : RuleBook) (declaration : Nat) (text : RuleText) : RuleBook :=
  text.alternatives.foldl
    (fun book alternative =>
      book.addProduction text.name ⟨alternative.symbols, alternative.precedence, declaration⟩)
    (book.addRule text.name text.span declaration)

/-- A name in a precedence level can stand between quotes, as in rule text. -/
def unquote (name : String) : String :=
  match name.toList with
  | [opening, c, closing] =>
      if opening = closing ∧ RuleText.isQuote opening then String.ofList [c] else name
  | _ => name

/-- Enters one name of a precedence level; a second precedence for a name is a mistake. -/
def addPrecedence (precedence : Precedence) (state : RuleBook × List GrammarError)
    (written : String) : RuleBook × List GrammarError :=
  let name := unquote written
  let (book, errors) := state
  if (book.precedence? name).isSome then
    (book, errors ++ [GrammarError.global (.duplicatePrecedence name)])
  else
    ({ book with
        precedences := book.precedences ++ [(name, precedence)]
        tokens := addNew book.tokens name },
      errors)

def addPrecedences : Nat → List PrecedenceDeclaration → RuleBook × List GrammarError →
    RuleBook × List GrammarError
  | _, [], state => state
  | level, declared :: rest, state =>
      addPrecedences (level + 1) rest
        (declared.names.foldl (addPrecedence ⟨level, declared.assoc⟩) state)

def addRuleTexts (terminals : List String) : Nat → List String → RuleBook × List GrammarError →
    RuleBook × List GrammarError
  | _, [], state => state
  | declaration, text :: rest, (book, errors) =>
      addRuleTexts terminals (declaration + 1) rest <|
        match RuleText.parse terminals text.toList with
        | .ok parsed => (book.addRuleText declaration parsed, errors)
        | .error (cause, span) => (book, errors ++ [⟨cause, some declaration, span⟩])

def describe (name : String) (production : Production) : String :=
  production.symbols.foldl (fun text symbol => text ++ " " ++ symbol.name) (name ++ " :")

def symbolErrors (book : RuleBook) (production : Production) (symbol : NamedSymbol) :
    List GrammarError :=
  match symbol with
  | .rule name span =>
      if (book.rule? name).isSome then []
      else [⟨.unknownRuleRef name, some production.declaration, span⟩]
  | .token name span =>
      if book.tokens.contains name then []
      else [⟨.unknownToken name, some production.declaration, span⟩]

/-- The mistakes in a production of the rule `name`; `earlier` are the rule's productions
before it. -/
def productionErrors (book : RuleBook) (name : String) (earlier : List Production)
    (production : Production) : List GrammarError :=
  (match production.precedence with
    | some (token, span) =>
        if (book.precedence? token).isSome then []
        else [⟨.noPrecForToken token, some production.declaration, span⟩]
    | none => []) ++
  production.symbols.flatMap (book.symbolErrors production) ++
  (if earlier.any fun other => NamedSymbol.sameRow other.symbols production.symbols then
    [⟨.duplicateProduction (describe name production), some production.declaration,
      match production.symbols with
      | [] => Span.point 0
      | symbol :: _ => symbol.span⟩]
  else [])

def productionsErrors (book : RuleBook) (name : String) (earlier : List Production) :
    List Production → List GrammarError
  | [] => []
  | production :: rest =>
      book.productionErrors name earlier production ++
        book.productionsErrors name (earlier ++ [production]) rest

def productionsOf (book : RuleBook) (rule : Rule) : List Production :=
  rule.productions.filterMap (book.productions[·]?)

/-- Every mistake in a complete book: the start rule has no productions, a symbol or a
precedence clause refers to nothing, or a rule has a production twice. -/
def errors (book : RuleBook) : List GrammarError :=
  (match book.start with
    | some name =>
        if (book.rule? name).isSome then [] else [GrammarError.global (.invalidStartRule name)]
    | none => []) ++
  book.rules.flatMap fun rule => book.productionsErrors rule.name [] (book.productionsOf rule)

def terminalNames {α π : Type} (declarations : Declarations α π) : List String :=
  (declarations.tokens.map (·.name) ++ declarations.keywords ++
    declarations.literals.map Char.toString).foldl addNew []

/-- Reads and checks the grammar of a language. Mistakes in precedence levels and rule text
come first; only without any is the book itself checked. -/
def ofDeclarations {α π : Type} (declarations : Declarations α π) :
    Except (List GrammarError) RuleBook :=
  let terminals := terminalNames declarations
  let (book, mistakes) :=
    addRuleTexts terminals 0 (declarations.productions.map (·.text))
      (addPrecedences 1 declarations.precedence ({ tokens := terminals }, []))
  if mistakes ≠ [] then .error mistakes
  else
    match book.rules with
    | [] => .error [GrammarError.global .emptyGrammar]
    | first :: _ =>
        let complete := { book with
          start := some (declarations.start.getD first.name)
          expectShiftReduce := declarations.expectShiftReduce
          expectReduceReduce := declarations.expectReduceReduce }
        match complete.errors with
        | [] => .ok complete
        | mistakes => .error mistakes

end RuleBook

end SlrKit
