import SlrKit.Automaton.Item

/-!
# The state graph

The states of a parser are closed item sets. State 0 is the closure of the start item; an edge
leads over a symbol to the closure of the kernel reached over it. States with equal kernels are
one state, and states are numbered in the order in which they are found, breadth first.
-/

set_option autoImplicit false

namespace SlrKit

structure GraphState where
  kernel : ItemSet
  closed : ItemSet
  edges : List (Symbol × Nat) := []
deriving DecidableEq

structure StateGraph where
  states : Array GraphState

namespace StateGraph

def newState (grammar : Grammar) (kernel : ItemSet) : GraphState :=
  { kernel, closed := kernel.close grammar }

/-- The number of the state with the given kernel, which is added if it is new. -/
def locate (grammar : Grammar) (states : Array GraphState) (kernel : ItemSet) :
    Nat × Array GraphState :=
  match states.findIdx? (·.kernel == kernel) with
  | some number => (number, states)
  | none => (states.size, states.push (newState grammar kernel))

def connect (grammar : Grammar) (closed : ItemSet) :
    List Symbol → Array GraphState → List (Symbol × Nat) × Array GraphState
  | [], states => ([], states)
  | symbol :: rest, states =>
      let (target, grown) := locate grammar states (closed.goto grammar symbol)
      let (edges, all) := connect grammar closed rest grown
      ((symbol, target) :: edges, all)

/-- Finds the edges of all states from number `next` on, and the states they lead to. -/
def explore (grammar : Grammar) : Nat → Nat → Array GraphState → Array GraphState
  | 0, _, states => states
  | fuel + 1, next, states =>
      match states[next]? with
      | none => states
      | some state =>
          let (edges, grown) :=
            connect grammar state.closed (state.closed.nextSymbols grammar) states
          explore grammar fuel (next + 1) (grown.modify next fun found => { found with edges })

def itemCount (grammar : Grammar) : Nat :=
  grammar.productions.toList.foldr
    (fun production count => production.symbols.length + 1 + count) 0

/-- The state graph of a grammar. States have different kernels, and a kernel is a set of
items, which bounds their number. -/
def ofGrammar (grammar : Grammar) : StateGraph where
  states := explore grammar (Nat.pow 2 (itemCount grammar) + 1) 0 #[newState grammar [Item.start grammar]]

variable (graph : StateGraph)

def startState : Nat := 0

def stateCount : Nat := graph.states.size

def edgeCount : Nat := graph.states.toList.foldr (fun state count => state.edges.length + count) 0

def edges (state : Nat) : List (Symbol × Nat) :=
  match graph.states[state]? with
  | some found => found.edges
  | none => []

def edge? (state : Nat) (symbol : Symbol) : Option Nat := (graph.edges state).lookup symbol

def kernel (state : Nat) : ItemSet :=
  match graph.states[state]? with
  | some found => found.kernel
  | none => []

def closed (state : Nat) : ItemSet :=
  match graph.states[state]? with
  | some found => found.closed
  | none => []

def sortedEdges (state : Nat) : List (Symbol × Nat) :=
  (graph.edges state).mergeSort fun left right => left.2 ≤ right.2

end StateGraph

end SlrKit
