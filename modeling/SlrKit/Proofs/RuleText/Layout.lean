import SlrKit.RuleText

/-!
# How rule text is laid out

A layout is a rule text taken apart: the blanks, the name of the rule, and the alternatives with
their symbols and precedence clauses, each as it is written. Its text puts the parts together again,
and its reading says what they stand for. Between a name and a name or a clause after it there has to
be a blank; quotation marks need none.
-/

set_option autoImplicit false

namespace SlrKit

namespace RuleText

/-- A possibly empty run of blanks. -/
structure Gap where
  chars : List Char
  blank : ∀ c ∈ chars, Text.isBlank c = true

/-- What can stand for a precedence without quotation marks. -/
def isWord (chars : List Char) : Bool := !chars.isEmpty && chars.all isWordChar

/-- A symbol or the name of a precedence as it is written: characters that fit as they are, or one
character between two quotation marks that it is none of. -/
inductive Spelling (fits : List Char → Bool) where
  | bare (chars : List Char) (fit : fits chars = true)
  | quoted (mark c : Char) (marks : isQuote mark = true) (other : c ≠ mark)

namespace Spelling

variable {fits : List Char → Bool}

def isBare : Spelling fits → Bool
  | bare _ _ => true
  | quoted _ _ _ _ => false

def text : Spelling fits → List Char
  | bare chars _ => chars
  | quoted mark c _ _ => [mark, c, mark]

def content : Spelling fits → List Char
  | bare chars _ => chars
  | quoted _ c _ _ => [c]

def name (spelling : Spelling fits) : String := String.ofList spelling.content

/-- The place of the content. -/
def span (offset : Nat) : Spelling fits → Span
  | bare chars _ => Span.ofLength offset (Text.byteLength chars)
  | quoted mark c _ _ => Span.ofLength (offset + mark.utf8Size) c.utf8Size

/-- A quoted character is a token; a name is one if it is the name of a terminal. -/
def symbol (terminals : List String) (offset : Nat) (spelling : Spelling isName) : NamedSymbol :=
  if spelling.isBare = true ∧ spelling.name ∉ terminals then
    .rule spelling.name (spelling.span offset)
  else .token spelling.name (spelling.span offset)

end Spelling

def precedenceKey : List Char := ['%', 'p', 'r', 'e', 'c']

/-- The symbols of an alternative, each with the blanks after it, and maybe a precedence clause at the
end. -/
inductive Row where
  | done
  | clause (space : Gap) (apart : space.chars ≠ []) (name : Spelling isWord) (after : Gap)
  | symbol (spelling : Spelling isName) (after : Gap) (rest : Row)

namespace Row

def text : Row → List Char
  | done => []
  | clause space _ name after => precedenceKey ++ (space.chars ++ (name.text ++ after.chars))
  | symbol spelling after rest => spelling.text ++ (after.chars ++ rest.text)

/-- It begins with a name or a clause. -/
def beginsBare : Row → Bool
  | done => false
  | clause _ _ _ _ => true
  | symbol spelling _ _ => spelling.isBare

/-- Every name is set off from a name or a clause after it. -/
def SetOff : Row → Prop
  | done => True
  | clause _ _ _ _ => True
  | symbol spelling after rest =>
      (spelling.isBare = true → rest.beginsBare = true → after.chars ≠ []) ∧ rest.SetOff

def symbols (terminals : List String) : Nat → Row → List NamedSymbol
  | _, done => []
  | _, clause _ _ _ _ => []
  | offset, symbol spelling after rest =>
      spelling.symbol terminals offset ::
        rest.symbols terminals
          (offset + Text.byteLength spelling.text + Text.byteLength after.chars)

def precedence? : Nat → Row → Option (String × Span)
  | _, done => none
  | offset, clause space _ name _ =>
      some (name.name, name.span
        (offset + Text.byteLength precedenceKey + Text.byteLength space.chars))
  | offset, symbol spelling after rest =>
      rest.precedence? (offset + Text.byteLength spelling.text + Text.byteLength after.chars)

end Row

/-- An alternative with the blanks before it. -/
structure Branch where
  lead : Gap
  row : Row
  setOff : row.SetOff

namespace Branch

def text (branch : Branch) : List Char := branch.lead.chars ++ branch.row.text

def alternative (terminals : List String) (offset : Nat) (branch : Branch) : Alternative where
  symbols := branch.row.symbols terminals (offset + Text.byteLength branch.lead.chars)
  precedence := branch.row.precedence? (offset + Text.byteLength branch.lead.chars)

/-- The text of alternatives with a bar before each. -/
def barred (branches : List Branch) : List Char := branches.flatMap fun branch => '|' :: branch.text

/-- The alternatives of branches with a bar between any two. -/
def alternatives (terminals : List String) : Nat → List Branch → List Alternative
  | _, [] => []
  | offset, branch :: rest =>
      branch.alternative terminals offset ::
        alternatives terminals (offset + Text.byteLength branch.text + 1) rest

end Branch

structure Layout where
  before : Gap
  name : List Char
  named : isName name = true
  after : Gap
  first : Branch
  more : List Branch

namespace Layout

def ruleName (layout : Layout) : String := String.ofList layout.name

/-- What stands before the first alternative. -/
def head (layout : Layout) : List Char :=
  layout.before.chars ++ (layout.name ++ (layout.after.chars ++ [':']))

def text (layout : Layout) : List Char :=
  layout.head ++ (layout.first.text ++ Branch.barred layout.more)

/-- What the text says. -/
def ruleText (terminals : List String) (layout : Layout) : RuleText where
  name := layout.ruleName
  span := Span.ofLength (Text.byteLength layout.before.chars) (Text.byteLength layout.name)
  alternatives :=
    Branch.alternatives terminals (Text.byteLength layout.head) (layout.first :: layout.more)

end Layout

end RuleText

end SlrKit
