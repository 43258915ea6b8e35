import SlrKit.Fault
import SlrKit.Grammar.Basic
import SlrKit.Grammar.IndexSet

/-!
# Items

An item is a production with a dot in it: the symbols before the dot have been seen. An item
set is a list of items without repetitions, in the order in which they were added.
-/

set_option autoImplicit false

namespace SlrKit

structure Item where
  production : Nat
  dot : Nat
deriving DecidableEq

abbrev ItemSet : Type := List Item

namespace Item

def next? (grammar : Grammar) (item : Item) : Option Symbol :=
  (grammar.symbols item.production)[item.dot]?

def isComplete (grammar : Grammar) (item : Item) : Bool :=
  item.dot == (grammar.symbols item.production).length

def advance (item : Item) : Item := ⟨item.production, item.dot + 1⟩

def precedes (left right : Item) : Bool :=
  left.production < right.production ||
    (left.production == right.production && left.dot ≤ right.dot)

def start (grammar : Grammar) : Item := ⟨grammar.startProduction, 0⟩

def finish (grammar : Grammar) : Item := ⟨grammar.startProduction, 1⟩

end Item

namespace ItemSet

def add (items : ItemSet) (item : Item) : ItemSet :=
  if items.contains item then items else items ++ [item]

def expansions (grammar : Grammar) (rule : Nat) : ItemSet :=
  (grammar.productionsOf rule).map fun production => ⟨production, 0⟩

/-- Works through `pending`, the items of `closed` not looked at yet. The rules in `expanded`
have all their productions in `closed`. -/
def closeFrom (grammar : Grammar) : Nat → List Item → ItemSet → IndexSet → ItemSet
  | 0, _, closed, _ => closed
  | _ + 1, [], closed, _ => closed
  | fuel + 1, item :: pending, closed, expanded =>
      match item.next? grammar with
      | some (.rule rule) =>
          if expanded.contains rule then closeFrom grammar fuel pending closed expanded
          else
            let fresh := (expansions grammar rule).filter fun item => !closed.contains item
            closeFrom grammar fuel (pending ++ fresh) (closed ++ fresh) (expanded.insert rule)
      | _ => closeFrom grammar fuel pending closed expanded

/-- The closure of a set: with an item that has a rule after its dot, it holds all productions
of that rule with the dot in front. Each item is looked at once, and only productions with the
dot in front are added. -/
def close (grammar : Grammar) (items : ItemSet) : ItemSet :=
  closeFrom grammar (items.length + grammar.productionCount) items items .empty

/-- The kernel reached over a symbol: the items that have it after the dot, with the dot moved
over it, in order. -/
def goto (grammar : Grammar) (symbol : Symbol) (items : ItemSet) : ItemSet :=
  ((items.filter fun item => item.next? grammar == some symbol).map Item.advance).mergeSort
    Item.precedes

def completed (grammar : Grammar) (items : ItemSet) : List Nat :=
  (items.filter (Item.isComplete grammar)).map Item.production

def nextSymbols (grammar : Grammar) (items : ItemSet) : List Symbol :=
  (items.filterMap (Item.next? grammar)).eraseDups

def check (grammar : Grammar) (items : ItemSet) : Except Fault Unit :=
  if items.all (·.production < grammar.productionCount) then .ok () else .error .missingIndex

end ItemSet

end SlrKit
