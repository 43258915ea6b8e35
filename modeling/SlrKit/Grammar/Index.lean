import SlrKit.Fault

/-!
# Indices

Rules, productions, symbols and tokens of a compiled grammar are numbered from 0. An index
width bounds how many of them a grammar can have.
-/

set_option autoImplicit false

namespace SlrKit

inductive IndexKind where
  | rule
  | production
  | symbol
  | token
deriving DecidableEq

/-- How an index of each kind is written: a letter and the number. -/
def IndexKind.describe (kind : IndexKind) (index : Nat) : String :=
  (match kind with
    | .rule => "r"
    | .production => "p"
    | .symbol => "s"
    | .token => "t") ++ toString index

inductive IndexWidth where
  | bits8
  | bits16
  | bits32
  | bits64
deriving DecidableEq

namespace IndexWidth

def largest : IndexWidth → Nat
  | bits8 => 0xFF
  | bits16 => 0xFFFF
  | bits32 => 0xFFFFFFFF
  | bits64 => 0xFFFFFFFFFFFFFFFF

def truncate (width : IndexWidth) (number : Nat) : Nat := number % (width.largest + 1)

/-- An index of this width as a number of 32 bits; indices of 64 bits have no such form. -/
def word32 (width : IndexWidth) (index : Nat) : Except Fault Nat :=
  match width with
  | bits64 => .error .wideIndex
  | _ => .ok index

end IndexWidth

/-- States of an automaton are numbered with 32 bits. -/
def stateNumber (number : Nat) : Except Fault Nat :=
  if IndexWidth.bits32.largest < number then .error .stateOverflow else .ok number

end SlrKit
