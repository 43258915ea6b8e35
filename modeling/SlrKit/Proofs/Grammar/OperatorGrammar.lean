import SlrKit.Proofs.Grammar.FollowSets
import SlrKit.Proofs.Grammar.Levels

/-!
# Operator grammars

The one rule of an operator grammar is an atom, or two operands with an operator between them, and
every operator has a level that associates to the left or to the right. Of two operators with an
operand between them, either the left one can stand inside the left operand of the right one, or
the right one inside the right operand of the left one, and never both.
-/

set_option autoImplicit false

namespace SlrKit

/-- What is inside binds tighter than what is outside, or both are of one level that associates to
the side. -/
def Precedence.Inside (side : Assoc) (inner outer : Precedence) : Prop :=
  outer.level < inner.level ∨ inner.level = outer.level ∧ inner.assoc = side

namespace Grammar

/-- The symbol of an operand: the rule that the author starts with. -/
abbrev operand (grammar : Grammar) : Symbol := .rule grammar.userStart

/-- An operand whose root is the one operator may stand on that side of the other. -/
def Inside (grammar : Grammar) (side : Assoc) (inner outer : Nat) : Prop :=
  ∃ ofInner ofOuter, grammar.tokenPrecedence inner = some ofInner ∧
    grammar.tokenPrecedence outer = some ofOuter ∧ ofInner.Inside side ofOuter

/-- The only rule has an atom and operators between operands, in any order. -/
structure HasOperators (grammar : Grammar) (operators : List Nat) (atom : Nat) : Prop where
  oneRule : grammar.ruleCount = 2
  distinct : operators.Nodup
  apart : atom ∉ operators
  productions : ((List.range grammar.startProduction).map grammar.symbols).Perm
    ([.token atom] :: operators.map fun sign => [grammar.operand, .token sign, grammar.operand])
  associates : ∀ sign ∈ operators, ∃ precedence, grammar.tokenPrecedence sign = some precedence ∧
    precedence.assoc ≠ .nonassoc

/-- What compilation adds to that, if no production has a precedence clause. -/
structure OperatorGrammar (grammar : Grammar) (operators : List Nat) (atom : Nat) : Prop
    extends HasOperators grammar operators atom where
  wellFormed : grammar.WellFormed
  agree : grammar.LevelsAgree
  precedence : ∀ production, production < grammar.startProduction →
    grammar.productionPrecedence production =
      (lastTerminal? (grammar.symbols production)).bind grammar.tokenPrecedence

namespace OperatorGrammar

variable {grammar : Grammar} {operators : List Nat} {atom : Nat}

theorem of_compile {α π : Type} (width : IndexWidth) {declarations : Declarations α π}
    {book : RuleBook} (read : RuleBook.ofDeclarations declarations = .ok book)
    (compiled : compile width declarations = .ok grammar)
    (plain : ∀ written ∈ book.productions, written.precedence = none)
    (has : HasOperators grammar operators atom) : OperatorGrammar grammar operators atom where
  toHasOperators := has
  wellFormed := compile_well_formed width declarations grammar compiled
  agree := compile_levels_agree width grammar compiled
  precedence := by
    intro production bound
    exact plain_production_precedence width grammar read compiled production bound plain

variable (shape : OperatorGrammar grammar operators atom)

include shape

section Productions

theorem bound_iff (production : Nat) :
    production < grammar.startProduction ↔
      production < grammar.productionCount ∧ production ≠ grammar.startProduction := by
  have nonempty := shape.wellFormed.nonempty
  unfold startProduction
  omega

theorem symbols_cases {production : Nat} (bound : production < grammar.startProduction) :
    grammar.symbols production = [.token atom] ∨
      ∃ sign ∈ operators,
        grammar.symbols production = [grammar.operand, .token sign, grammar.operand] := by
  have member : grammar.symbols production ∈
      (List.range grammar.startProduction).map grammar.symbols :=
    List.mem_map.mpr ⟨production, List.mem_range.mpr bound, rfl⟩
  rcases List.mem_cons.mp (shape.productions.mem_iff.mp member) with same | later
  · exact Or.inl same
  · rcases List.mem_map.mp later with ⟨sign, among, same⟩
    exact Or.inr ⟨sign, among, same.symm⟩

theorem exists_atom :
    ∃ production, production < grammar.startProduction ∧
      grammar.symbols production = [.token atom] := by
  have member := shape.productions.mem_iff.mpr List.mem_cons_self
  rcases List.mem_map.mp member with ⟨production, inside, same⟩
  exact ⟨production, List.mem_range.mp inside, same⟩

theorem exists_join {sign : Nat} (among : sign ∈ operators) :
    ∃ production, production < grammar.startProduction ∧
      grammar.symbols production = [grammar.operand, .token sign, grammar.operand] := by
  have member := shape.productions.mem_iff.mpr
    (List.mem_cons_of_mem _ (List.mem_map.mpr ⟨sign, among, rfl⟩))
  rcases List.mem_map.mp member with ⟨production, inside, same⟩
  exact ⟨production, List.mem_range.mp inside, same⟩

theorem production_unique {first second : Nat} (firstBound : first < grammar.startProduction)
    (secondBound : second < grammar.startProduction)
    (same : grammar.symbols first = grammar.symbols second) : first = second := by
  have distinct : ([Symbol.token atom] ::
      operators.map fun sign => [grammar.operand, .token sign, grammar.operand]).Nodup := by
    rw [List.nodup_cons]
    constructor
    · simp
    · apply List.Nodup.map _ shape.distinct
      intro left right equal
      simpa using equal
  rw [← shape.productions.nodup_iff] at distinct
  exact List.inj_on_of_nodup_map distinct (List.mem_range.mpr firstBound)
    (List.mem_range.mpr secondBound) same

theorem rule_of {production : Nat} (bound : production < grammar.startProduction) :
    grammar.ruleOf production = grammar.userStart := by
  rcases (shape.bound_iff production).mp bound with ⟨inside, inner⟩
  have first := shape.wellFormed.ruleBound production
  have occurs := shape.wellFormed.user_start_bounds
  have other : grammar.ruleOf production ≠ startRule :=
    fun same => inner (shape.wellFormed.startAlone production inside same)
  rw [shape.oneRule] at first occurs
  unfold startRule at occurs other
  omega

theorem precedence_of_join {production sign : Nat} (bound : production < grammar.startProduction)
    (joins : grammar.symbols production = [grammar.operand, .token sign, grammar.operand]) :
    grammar.productionPrecedence production = grammar.tokenPrecedence sign := by
  rw [shape.precedence production bound, joins]
  rfl

theorem sign_bound {sign : Nat} (among : sign ∈ operators) : sign < grammar.endToken := by
  rcases shape.exists_join among with ⟨production, _, joins⟩
  apply shape.wellFormed.symbolsOccur production (.token sign)
  rw [joins]
  simp

theorem atom_bound : atom < grammar.endToken := by
  rcases shape.exists_atom with ⟨production, _, single⟩
  apply shape.wellFormed.symbolsOccur production (.token atom)
  rw [single]
  exact List.mem_cons_self

theorem end_not_sign : grammar.endToken ∉ operators :=
  fun among => Nat.lt_irrefl _ (shape.sign_bound among)

end Productions

section Follows

theorem follows_sign {sign : Nat} (among : sign ∈ operators) :
    ((Follows.ofGrammar grammar).ofRule grammar.userStart).contains sign = true := by
  rcases shape.exists_join among with ⟨production, _, joins⟩
  apply Follows.of_grammar_closed shape.wellFormed production grammar.userStart [] _ joins
  apply Or.inl
  simp [Firsts.ofSymbols]

theorem follows_end :
    ((Follows.ofGrammar grammar).ofRule grammar.userStart).contains grammar.endToken = true := by
  apply Follows.of_grammar_closed shape.wellFormed grammar.startProduction grammar.userStart [] []
    shape.wellFormed.start_symbols_eq
  apply Or.inr
  refine ⟨rfl, ?_⟩
  rw [shape.wellFormed.startsAtStartRule]
  exact Follows.start_admits_nil shape.wellFormed

end Follows

section Nesting

theorem precedence_eq_of_level {first second : Nat} {one other : Precedence}
    (ofFirst : grammar.tokenPrecedence first = some one)
    (ofSecond : grammar.tokenPrecedence second = some other) (level : one.level = other.level) :
    one = other :=
  shape.agree one other (Or.inl ⟨first, ofFirst⟩) (Or.inl ⟨second, ofSecond⟩) level

/-- What is inside an operand may stand where the operand may. -/
theorem inside_trans {side edge : Assoc} {inner middle outer : Nat}
    (deep : grammar.Inside edge inner middle) (shallow : grammar.Inside side middle outer) :
    grammar.Inside side inner outer := by
  rcases deep with ⟨ofInner, ofMiddle, own, between, tighter⟩
  rcases shallow with ⟨again, ofOuter, same, around, binds⟩
  rw [between] at same
  cases same
  refine ⟨ofInner, ofOuter, own, around, ?_⟩
  rcases tighter with higher | ⟨level, _⟩
  · apply Or.inl
    rcases binds with above | ⟨equal, _⟩
    · exact Nat.lt_trans above higher
    · rw [← equal]
      exact higher
  · rw [shape.precedence_eq_of_level own between level]
    exact binds

theorem not_inside_both {left right : Nat} (first : grammar.Inside .left left right)
    (second : grammar.Inside .right right left) : False := by
  rcases first with ⟨ofLeft, ofRight, own, other, tighter⟩
  rcases second with ⟨again, same, here, there, binds⟩
  rw [other] at here
  rw [own] at there
  cases here
  cases there
  rcases tighter with higher | ⟨level, left⟩
  · rcases binds with above | ⟨equal, _⟩
    · exact Nat.lt_asymm higher above
    · exact Nat.lt_irrefl _ (equal ▸ higher)
  · rcases binds with above | ⟨_, right⟩
    · exact Nat.lt_irrefl _ (level ▸ above)
    · rw [shape.precedence_eq_of_level own other level, right] at left
      cases left

theorem inside_total {left right : Nat} (leftAmong : left ∈ operators)
    (rightAmong : right ∈ operators) :
    grammar.Inside .left left right ∨ grammar.Inside .right right left := by
  rcases shape.associates left leftAmong with ⟨ofLeft, own, decided⟩
  rcases shape.associates right rightAmong with ⟨ofRight, other, _⟩
  rcases Nat.lt_trichotomy ofLeft.level ofRight.level with lower | level | higher
  · exact Or.inr ⟨ofRight, ofLeft, other, own, Or.inl lower⟩
  · have same := shape.precedence_eq_of_level own other level
    cases assoc : ofLeft.assoc with
    | left => exact Or.inl ⟨ofLeft, ofRight, own, other, Or.inr ⟨level, assoc⟩⟩
    | right =>
        rw [same] at assoc
        exact Or.inr ⟨ofRight, ofLeft, other, own, Or.inr ⟨level.symm, assoc⟩⟩
    | nonassoc => exact absurd assoc decided
  · exact Or.inl ⟨ofLeft, ofRight, own, other, Or.inl higher⟩

end Nesting

end OperatorGrammar

end Grammar

end SlrKit
