import SlrKit.Automaton.Item

/-!
# Closing an item set in place

An item set can be closed while it is scanned: its items are looked at one after the other, and the
productions of a rule that is met after a dot are added at the end, once for each rule. An item of a
production that the grammar does not have cannot be looked at, nor can a rule that it does not have be
expanded.
-/

set_option autoImplicit false

namespace SlrKit

structure Scan where
  items : ItemSet
  /-- How many of the items have been looked at. -/
  looked : Nat := 0
  /-- The rules whose productions have been added. -/
  expanded : IndexSet := .empty
deriving DecidableEq

namespace Scan

variable (grammar : Grammar)

def pass (scan : Scan) : Scan := { scan with looked := scan.looked + 1 }

def expand (rule : Nat) (scan : Scan) : Scan where
  items := (grammar.productionsOf rule).foldl
    (fun items production => items.add ⟨production, 0⟩) scan.items
  looked := scan.looked + 1
  expanded := scan.expanded.insert rule

/-- Looks at the next item; at the end of the set there is none. -/
def step (scan : Scan) : Except Fault (Option Scan) :=
  match scan.items[scan.looked]? with
  | none => .ok none
  | some item =>
      if grammar.productionCount ≤ item.production then .error .missingIndex
      else
        match item.next? grammar with
        | some (.rule rule) =>
            if grammar.ruleCount ≤ rule then .error .missingIndex
            else if scan.expanded.contains rule then .ok (some scan.pass)
            else .ok (some (scan.expand grammar rule))
        | _ => .ok (some scan.pass)

/-- After so many steps, none of which fails, the scan is at the end of its set. -/
inductive Ends : Scan → ItemSet → Prop
  | done {scan : Scan} (ended : scan.step grammar = .ok none) : Ends scan scan.items
  | next {scan after : Scan} {items : ItemSet} (moved : scan.step grammar = .ok (some after))
      (ends : Ends after items) : Ends scan items

end Scan

end SlrKit
