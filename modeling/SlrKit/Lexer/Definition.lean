import SlrKit.Declarations
import SlrKit.Log
import SlrKit.Regex

/-!
# Lexer definitions

A lexer tries its token rules in a fixed order: first the rules with a handler, in the order of
their declarations, then the others, longer patterns first. All patterns together form one
alternation in which every rule has a numbered group; the rule of a match is the first whose
group took part in it. A character that no rule matches can be a literal.

Patterns are read, and matches are looked for, by a library of regular expressions.
-/

set_option autoImplicit false

namespace SlrKit

inductive OriginKind where
  | token
  | handlerToken
  | keyword
  | literal
deriving DecidableEq

structure Origin where
  kind : OriginKind
  index : Nat
deriving DecidableEq

inductive LexerError.Cause where
  | duplicateName (origins : List Origin)
  | invalidPattern (reason : String)
  | emptyMatch
deriving DecidableEq

structure LexerError where
  cause : LexerError.Cause
  name : String
deriving DecidableEq

def LexerError.message (error : LexerError) : String :=
  match error.cause with
  | .duplicateName origins =>
      "Rule name '" ++ error.name ++ "' declared " ++ toString origins.length ++ " times"
  | .invalidPattern reason =>
      "Invalid regular expression in rule '" ++ error.name ++ "': " ++ reason
  | .emptyMatch => "Rule '" ++ error.name ++ "' can match the empty string"

namespace Lexer

structure Rule where
  name : String
  pattern : String
  handler : Option TokenHandler
  /-- How many groups the pattern has, without the whole match. -/
  groups : Nat

namespace Rule

/-- The rule of a declaration, unless its pattern is none or can match nothing. -/
def ofDeclaration (library : Regex.Library) (declared : TokenDeclaration) :
    Except LexerError Rule :=
  match library.groupCount (Regex.anchored declared.pattern) with
  | .error reason => .error ⟨.invalidPattern reason, declared.name⟩
  | .ok count =>
      match library.leastSize declared.pattern with
      | .error reason => .error ⟨.invalidPattern reason, declared.name⟩
      | .ok (some 0) => .error ⟨.emptyMatch, declared.name⟩
      | .ok _ => .ok ⟨declared.name, declared.pattern, declared.handler, count - 1⟩

def patternLength (rule : Rule) : Nat := Text.byteLength rule.pattern.toList

end Rule

structure Branch where
  rule : Rule
  /-- The group that tells that the rule has matched. -/
  group : Nat

def branchesFrom : Nat → List Rule → List Branch
  | _, [] => []
  | group, rule :: rest => ⟨rule, group⟩ :: branchesFrom (group + 1 + rule.groups) rest

structure Definition where
  branches : List Branch
  /-- Looks for matches of the combined pattern, if there are token rules. -/
  searcher? : Option Regex.Searcher
  literals : List Char
  onError : LexErrorHandler

def originsOfKind (kind : OriginKind) (names : List String) : List (String × Origin) :=
  names.zipIdx.map fun (name, index) => (name, ⟨kind, index⟩)

/-- All names that are declared, each with its declaration: token rules without a handler, those
with one, keywords, literals. -/
def origins {α π : Type} (declarations : Declarations α π) : List (String × Origin) :=
  originsOfKind .token (declarations.simpleTokens.map (·.name)) ++
    originsOfKind .handlerToken (declarations.handlerTokens.map (·.name)) ++
    originsOfKind .keyword declarations.keywords ++
    originsOfKind .literal (declarations.literals.map Char.toString)

def originsOf (all : List (String × Origin)) (name : String) : List Origin :=
  all.filterMap fun (other, origin) => if other = name then some origin else none

/-- A mistake for each name that is declared more than once, in the order of the first
declarations. -/
def duplicateNames {α π : Type} (declarations : Declarations α π) : List LexerError :=
  let all := origins declarations
  (all.map Prod.fst).eraseDups.filterMap fun name =>
    let found := originsOf all name
    if 1 < found.length then some ⟨.duplicateName found, name⟩ else none

def failures (results : List (Except LexerError Rule)) : List LexerError :=
  results.filterMap fun
    | .error error => some error
    | .ok _ => none

def successes (results : List (Except LexerError Rule)) : List Rule :=
  results.filterMap fun
    | .error _ => none
    | .ok rule => some rule

def inPriority (withHandler simple : List Rule) : List Rule :=
  withHandler ++ simple.mergeSort fun left right => right.patternLength ≤ left.patternLength

def combinedText (rules : List Rule) : String := Regex.choiceOf (rules.map (·.pattern))

def searcherOf (library : Regex.Library) (rules : List Rule) :
    Except String (Option Regex.Searcher) :=
  if rules.isEmpty then .ok none else (library.compile (combinedText rules)).map some

/-- Checks the token rules and makes the lexer of a language. Every name that is declared twice
and every bad pattern is reported; only without any mistake can it happen that the patterns do
not go together. -/
def define {α π : Type} (library : Regex.Library) (declarations : Declarations α π) :
    Logged (Except (List LexerError) Definition) :=
  let withHandler := declarations.handlerTokens.map (Rule.ofDeclaration library)
  let simple := declarations.simpleTokens.map (Rule.ofDeclaration library)
  match duplicateNames declarations ++ failures withHandler ++ failures simple with
  | error :: errors => ⟨.error (error :: errors), []⟩
  | [] =>
      let rules := inPriority (successes withHandler) (successes simple)
      let log := [Record.debug ("Combined token pattern: " ++ combinedText rules)]
      match searcherOf library rules with
      | .ok searcher? =>
          ⟨.ok ⟨branchesFrom 1 rules, searcher?, declarations.literals,
            declarations.onLexError⟩, log⟩
      | .error reason =>
          ⟨.error [⟨.invalidPattern reason, "|".intercalate (rules.map (·.name))⟩], log⟩

namespace Definition

variable (definition : Definition)

def rules : List Rule := definition.branches.map (·.rule)

def rule? (name : String) : Option Rule := definition.rules.find? (·.name == name)

def patternText? : Option String :=
  definition.searcher?.map fun _ => combinedText definition.rules

/-- The rule that matches at a place, and how many bytes its match has. -/
def matchRule? (behind ahead : List Char) : Option (Rule × Nat) :=
  (definition.searcher?.bind fun search => search behind ahead).bind fun found =>
    (definition.branches.find? fun branch => found.hasGroup branch.group).map fun branch =>
      (branch.rule, found.size)

end Definition

end Lexer

end SlrKit
