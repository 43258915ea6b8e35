/-!
# Log records

Operations that have something to tell besides their result return it as a list of records,
oldest first. Nothing here writes anywhere.
-/

set_option autoImplicit false

namespace SlrKit

inductive Level where
  | debug
  | warn
deriving DecidableEq

structure Record where
  level : Level
  message : String
deriving DecidableEq

namespace Record

def debug (message : String) : Record := ⟨.debug, message⟩

def warn (message : String) : Record := ⟨.warn, message⟩

def line (record : Record) : String :=
  (match record.level with
    | .debug => "DEBUG "
    | .warn => "WARN ") ++ record.message

end Record

structure Logged (α : Type) where
  value : α
  log : List Record

end SlrKit
