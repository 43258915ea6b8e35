import SlrKit.Parser.Step

/-!
# Whole parses

A grammar with conflicts can make its parser reduce for ever, so a run is given a limit of
steps; a limit that is not reached makes no difference.
-/

set_option autoImplicit false

namespace SlrKit

namespace Parser

variable {α π τ : Type} [Inhabited α] (parser : Parser α π τ)

/-- Goes on until the parse ends; `none` if that takes more than `limit` steps. -/
def advance : Nat → Step α π τ → Option (Except Fault (Outcome α π τ))
  | _, .halt outcome => some (.ok outcome)
  | _, .fault fault => some (.error fault)
  | 0, .proceed _ => none
  | limit + 1, .proceed config => advance limit (parser.step config)

def run (limit : Nat) (param : π) (source : τ) : Option (Except Fault (Outcome α π τ)) :=
  parser.advance limit (parser.start param source)

def readList (items : List (Except LexError Token)) : Reading (List (Except LexError Token)) :=
  match items with
  | [] => { item := none, rest := [] }
  | item :: rest => { item := some item, rest }

end Parser

end SlrKit
