import SlrKit.Automaton.Graph

/-!
# Writing a state graph

Every state is written as its number, its items one to a line, and its edges in the order of
the states they lead to:

```text
0: [^ -> . S]
   S -> 1
   'a' -> 2
```
-/

set_option autoImplicit false

namespace SlrKit

namespace StateGraph

/-- A symbol in an item or on an edge; tokens stand between quotes, and the end is `'$'`. -/
def describeSymbol (grammar : Grammar) : Symbol → String
  | .rule rule => grammar.ruleName rule
  | .token token => "'" ++ (grammar.tokenName? token).getD "$" ++ "'"

/-- The symbols of an item from place `position` on, with the dot before symbol `dot`. -/
def describeSymbols (grammar : Grammar) (dot : Nat) : Nat → List Symbol → String
  | position, [] => if position = dot then " ." else ""
  | position, symbol :: rest =>
      (if position = dot then " ." else "") ++ " " ++ describeSymbol grammar symbol ++
        describeSymbols grammar dot (position + 1) rest

def describeItem (grammar : Grammar) (item : Item) : String :=
  "[" ++ grammar.ruleName (grammar.ruleOf item.production) ++ " ->" ++
    describeSymbols grammar item.dot 0 (grammar.symbols item.production) ++ "]"

def spaces (count : Nat) : String := String.ofList (List.replicate count ' ')

def digits (number : Nat) : Nat := (toString number).length

def describeState (grammar : Grammar) (graph : StateGraph) (width : Nat) (items : ItemSet)
    (state : Nat) : String :=
  let number := toString state ++ ":" ++ spaces (width - digits state)
  let body := ("\n " ++ spaces width).intercalate
    (items.map fun item => " " ++ describeItem grammar item)
  let edges := (graph.sortedEdges state).map fun (symbol, target) =>
    "\n" ++ spaces (width + 2) ++ describeSymbol grammar symbol ++ " -> " ++ toString target
  number ++ body ++ String.join edges

def describe (grammar : Grammar) (graph : StateGraph) (itemsOf : Nat → ItemSet) : String :=
  let width := digits graph.stateCount
  "\n".intercalate ((List.range graph.stateCount).map fun state =>
    describeState grammar graph width (itemsOf state) state)

def describeKernels (grammar : Grammar) (graph : StateGraph) : String :=
  graph.describe grammar graph.kernel

def describeClosed (grammar : Grammar) (graph : StateGraph) : String :=
  graph.describe grammar graph.closed

end StateGraph

end SlrKit
