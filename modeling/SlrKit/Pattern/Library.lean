import SlrKit.Pattern.Program
import SlrKit.Pattern.Reader
import SlrKit.Regex

/-!
# Patterns as a library

Reading patterns from their texts and running their programs makes a library of regular expressions.
It does not say why a text is not a pattern.
-/

set_option autoImplicit false

namespace SlrKit

namespace Pattern

namespace Program

def Match.shown (found : Match) (ahead : List Char) : Regex.Match where
  size := Text.byteLength (ahead.take found.length)
  hasGroup number := number == 0 || found.groups.contains number

def searcher (program : Program) : Regex.Searcher := fun behind ahead =>
  (program.run behind.head? ahead).map (·.shown ahead)

end Program

/-- The most parts a pattern may have when it is written out to be run. -/
def weightLimit : Nat := 300000

/-- Of the groups of a pattern, those are counted that can take part in a match, to judge by the
largest of their numbers. -/
def library : Regex.Library where
  groupCount text :=
    match read? text.toList with
    | none => .error ""
    | some reading =>
        if reading.pattern.weight ≤ weightLimit then .ok (reading.pattern.lastGroup + 1)
        else .error ""
  leastSize text :=
    match read? text.toList with
    | none => .error ""
    | some reading => .ok reading.pattern.leastLength?
  compile text :=
    match read? text.toList with
    | none => .error ""
    | some reading => .ok reading.pattern.program.searcher

end Pattern

end SlrKit
