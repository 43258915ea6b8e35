import SlrKit.Fault
import SlrKit.Grammar.Basic
import SlrKit.Grammar.IndexSet

/-!
# FIRST sets

FIRST of a rule holds the tokens that a text of the rule can begin with; a rule is nullable if
it has an empty text. Both are the least solution of the equations that the productions give,
found by adding what the productions contribute until nothing changes.
-/

set_option autoImplicit false

namespace SlrKit

structure Firsts where
  tokens : Array IndexSet
  nullable : IndexSet
deriving DecidableEq

namespace Firsts

def ofRule (firsts : Firsts) (rule : Nat) : IndexSet := (firsts.tokens[rule]?).getD .empty

/-- The first tokens of a row of symbols, and whether the row can be empty. -/
def ofSymbols (firsts : Firsts) : List Symbol → IndexSet × Bool
  | [] => (.empty, true)
  | .token token :: _ => (.singleton token, false)
  | .rule rule :: rest =>
      if firsts.nullable.contains rule then
        let after := firsts.ofSymbols rest
        ((firsts.ofRule rule).union after.1, after.2)
      else (firsts.ofRule rule, false)

def addProduction (firsts : Firsts) (production : Production) : Firsts :=
  let (tokens, canBeEmpty) := firsts.ofSymbols production.symbols
  { tokens := firsts.tokens.modify production.rule (·.union tokens)
    nullable := if canBeEmpty then firsts.nullable.insert production.rule else firsts.nullable }

def round (grammar : Grammar) (firsts : Firsts) : Firsts :=
  grammar.productions.foldl addProduction firsts

def none (grammar : Grammar) : Firsts := ⟨Array.replicate grammar.ruleCount .empty, .empty⟩

/-- The FIRST sets of a grammar. Every round but the last adds a token to some rule or makes a
rule nullable, which bounds their number. -/
def ofGrammar (grammar : Grammar) : Firsts :=
  untilStable (round grammar) (grammar.ruleCount * (grammar.tokenCount + 1) + 1) (none grammar)

/-- Adds a token to a rule's set; tells whether it was in it already. -/
def insert (grammar : Grammar) (firsts : Firsts) (rule token : Nat) :
    Except Fault (Bool × Firsts) :=
  if rule < grammar.ruleCount ∧ token < grammar.tokenCount then
    .ok ((firsts.ofRule rule).contains token,
      { firsts with tokens := firsts.tokens.modify rule (·.insert token) })
  else .error .missingIndex

end Firsts

end SlrKit
