import SlrKit.Text.Span

/-!
# Faults

A fault is a call that breaks the contract of an operation: the caller handed in something
that the operation is not defined for. Mistakes in a grammar or in an input are not faults;
they have error types of their own.
-/

set_option autoImplicit false

namespace SlrKit

inductive Fault where
  | backwardSpan (start stop : Nat)
  | spanBeyondText (span : Span) (length : Nat)
  | brokenOffset
  | missingIndex
  | wideIndex
  | stateOverflow
  | tooManyRules
  | tooManyTokens
  | tooManyProductions
  | tooManySymbols
  | corruptStack
  | idleMatch
  | lineOverflow
deriving DecidableEq

/-- The text a fault is reported with. Faults of indexing, idle matches and lines that overflow have none. -/
def Fault.message : Fault → String
  | .backwardSpan start stop =>
      "Span starts (" ++ toString start ++ ") after it ends (" ++ toString stop ++ ")!"
  | .spanBeyondText span length =>
      "Span " ++ span.describe ++ " exceeds known input length " ++ toString length
  | .brokenOffset => ""
  | .missingIndex => ""
  | .wideIndex => ""
  | .stateOverflow => "Overflow"
  | .tooManyRules => "StorageT is not big enough to store this grammar's rules."
  | .tooManyTokens => "StorageT is not big enough to store this grammar's tokens."
  | .tooManyProductions => "StorageT is not big enough to store this grammar's productions."
  | .tooManySymbols =>
      "StorageT is not big enough to store the symbols of at least one of this grammar's " ++
        "productions."
  | .corruptStack => ""
  | .idleMatch => ""
  | .lineOverflow => ""

def Span.ofEnds (start stop : Nat) : Except Fault Span :=
  match Span.ofEnds? start stop with
  | some span => .ok span
  | none => .error (.backwardSpan start stop)

end SlrKit
