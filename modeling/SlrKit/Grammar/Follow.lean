import SlrKit.Grammar.First

/-!
# FOLLOW sets

FOLLOW of a rule holds the tokens that can come right after a text of the rule in what the
start rule, or any other rule, derives. The end of the input follows the start rule.
-/

set_option autoImplicit false

namespace SlrKit

structure Follows where
  tokens : Array IndexSet
deriving DecidableEq

namespace Follows

def ofRule (follows : Follows) (rule : Nat) : IndexSet := (follows.tokens[rule]?).getD .empty

/-- Adds what a row of symbols at the end of a production of `rule` says: a rule in it is
followed by the first tokens of the symbols after it and, if these can be empty, by what
follows `rule`. -/
def addSymbols (firsts : Firsts) (rule : Nat) : List Symbol → Follows → Follows
  | [], follows => follows
  | .token _ :: rest, follows => addSymbols firsts rule rest follows
  | .rule inner :: rest, follows =>
      let after := firsts.ofSymbols rest
      let added := if after.2 then after.1.union (follows.ofRule rule) else after.1
      addSymbols firsts rule rest ⟨follows.tokens.modify inner (·.union added)⟩

def round (grammar : Grammar) (firsts : Firsts) (follows : Follows) : Follows :=
  grammar.productions.foldl
    (fun follows production => addSymbols firsts production.rule production.symbols follows) follows

/-- Nothing known, except that the end follows the start rule. -/
def initial (grammar : Grammar) : Follows :=
  ⟨(Array.replicate grammar.ruleCount .empty).modify Grammar.startRule (·.insert grammar.endToken)⟩

/-- The FOLLOW sets of a grammar. Every round but the last adds a token to some rule, which
bounds their number. -/
def ofGrammar (grammar : Grammar) : Follows :=
  untilStable (round grammar (Firsts.ofGrammar grammar))
    (grammar.ruleCount * grammar.tokenCount + 1) (initial grammar)

end Follows

end SlrKit
