/-!
# Precedence

A precedence is a level, higher ones binding tighter, and what happens between two operators
of one level.
-/

set_option autoImplicit false

namespace SlrKit

inductive Assoc where
  | left
  | right
  | nonassoc
deriving DecidableEq

/-- How tightly a token or a production binds. Levels count from 1. -/
structure Precedence where
  level : Nat
  assoc : Assoc
deriving DecidableEq

end SlrKit
