import SlrKit.Lexer.Definition

/-!
# A register of declared names

Names that are declared more than once can also be found with a register, in which one declaration after
the other is noted under its name. It is read name by name in the order in which the names came up, and
what has been read is taken out.
-/

set_option autoImplicit false

namespace SlrKit

namespace Lexer

structure Register where
  /-- Where each name has been declared so far. -/
  places : String → Option (List Origin) := fun _ => none
  /-- The names that have been declared so far. -/
  order : List String := []

namespace Register

/-- The places with those of one name replaced. -/
def replace (places : String → Option (List Origin)) (name : String)
    (own : Option (List Origin)) : String → Option (List Origin) :=
  fun other => if other = name then own else places other

def note (register : Register) (declared : String × Origin) : Register where
  places := replace register.places declared.1
    (some ((register.places declared.1).getD [] ++ [declared.2]))
  order :=
    if (register.places declared.1).isSome then register.order else register.order ++ [declared.1]

def report (places : String → Option (List Origin)) : List String → List LexerError
  | [] => []
  | name :: rest =>
      match places name with
      | none => report places rest
      | some found =>
          if 1 < found.length then
            ⟨.duplicateName found, name⟩ :: report (replace places name none) rest
          else report (replace places name none) rest

def duplicates (register : Register) : List LexerError := report register.places register.order

def ofDeclarations {α π : Type} (declarations : Declarations α π) : Register :=
  (origins declarations).foldl note {}

end Register

end Lexer

end SlrKit
