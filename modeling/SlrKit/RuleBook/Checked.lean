import SlrKit.RuleBook
import SlrKit.RuleText.Offsets

/-!
# The rule book with every access checked

A rule book can also be made with all rule text read by offsets, quotation marks cut off by offsets, and
productions looked up by their numbers. An offset that is no place in its text is a fault, and so is a
number that nothing has.
-/

set_option autoImplicit false

namespace SlrKit

namespace RuleBook

namespace Checked

def unquote (written : String) : Except Fault String :=
  match written.toList with
  | [opening, _, closing] =>
      if opening = closing ∧ RuleText.isQuote opening then
        match Text.slice? 1 (Text.byteLength written.toList - 1) written.toList with
        | some inner => .ok (String.ofList inner)
        | none => .error .brokenOffset
      else .ok written
  | _ => .ok written

def addPrecedence (precedence : Precedence) (state : RuleBook × List GrammarError)
    (written : String) : Except Fault (RuleBook × List GrammarError) := do
  let name ← unquote written
  let (book, errors) := state
  if (book.precedence? name).isSome then
    .ok (book, errors ++ [GrammarError.global (.duplicatePrecedence name)])
  else
    .ok
      ({ book with
          precedences := book.precedences ++ [(name, precedence)]
          tokens := addNew book.tokens name },
        errors)

def addPrecedences : Nat → List PrecedenceDeclaration → RuleBook × List GrammarError →
    Except Fault (RuleBook × List GrammarError)
  | _, [], state => .ok state
  | level, declared :: rest, state => do
      let next ← declared.names.foldlM (addPrecedence ⟨level, declared.assoc⟩) state
      addPrecedences (level + 1) rest next

def addRuleTexts (terminals : List String) : Nat → List String → RuleBook × List GrammarError →
    Except Fault (RuleBook × List GrammarError)
  | _, [], state => .ok state
  | declaration, text :: rest, (book, errors) =>
      match RuleText.Offsets.parse terminals text.toList with
      | .ok parsed =>
          addRuleTexts terminals (declaration + 1) rest (book.addRuleText declaration parsed, errors)
      | .error (.refused (cause, span)) =>
          addRuleTexts terminals (declaration + 1) rest
            (book, errors ++ [⟨cause, some declaration, span⟩])
      | .error (.fault fault) => .error fault

/-- The name of the rule to start with. -/
def startName (declared : Option String) (book : RuleBook) : Except Fault String :=
  match declared with
  | some name => .ok name
  | none =>
      match book.rules[0]? with
      | some first => .ok first.name
      | none => .error .missingIndex

section Errors

variable (book : RuleBook)

def production (number : Nat) : Except Fault Production :=
  match book.productions[number]? with
  | some found => .ok found
  | none => .error .missingIndex

def firstOf (count : Nat) (numbers : List Nat) : Except Fault (List Nat) :=
  if count ≤ numbers.length then .ok (numbers.take count) else .error .missingIndex

/-- The mistakes in the production that a rule lists in some place. It is compared with the productions
listed before it, all of which are looked up. -/
def listedErrors (rule : Rule) (place number : Nat) : Except Fault (List GrammarError) := do
  let listed ← production book number
  let before ← firstOf place rule.productions
  let earlier ← before.mapM (production book)
  .ok (book.productionErrors rule.name earlier listed)

def ruleErrors (rule : Rule) : Except Fault (List GrammarError) := do
  let errors ← rule.productions.zipIdx.mapM fun (number, place) => listedErrors book rule place number
  .ok errors.flatten

def errors : Except Fault (List GrammarError) := do
  let start :=
    match book.start with
    | some name =>
        if (book.rule? name).isSome then [] else [GrammarError.global (.invalidStartRule name)]
    | none => []
  let ofRules ← book.rules.mapM (ruleErrors book)
  .ok (start ++ ofRules.flatten)

end Errors

def ofDeclarations {α π : Type} (declarations : Declarations α π) :
    Except Fault (Except (List GrammarError) RuleBook) := do
  let terminals := terminalNames declarations
  let ranked ← addPrecedences 1 declarations.precedence ({ tokens := terminals }, [])
  let (book, mistakes) ←
    addRuleTexts terminals 0 (declarations.productions.map (·.text)) ranked
  if mistakes ≠ [] then .ok (.error mistakes)
  else if book.productions = [] then .ok (.error [GrammarError.global .emptyGrammar])
  else do
    let start ← startName declarations.start book
    let complete := { book with
      start := some start
      expectShiftReduce := declarations.expectShiftReduce
      expectReduceReduce := declarations.expectReduceReduce }
    let found ← errors complete
    if found = [] then .ok (.ok complete) else .ok (.error found)

end Checked

end RuleBook

end SlrKit
