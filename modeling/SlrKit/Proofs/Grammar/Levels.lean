import SlrKit.Proofs.Grammar.Ranks
import SlrKit.Proofs.Grammar.WellFormed

/-!
# Levels

Every precedence in a compiled grammar is that of a declared level: it has the place of the level
among the declarations and the associativity declared there. So two precedences of one level are
the same. A production without a precedence clause binds as its last token does.
-/

set_option autoImplicit false

namespace SlrKit

namespace RuleBook

/-- The precedence is that of one of the declared levels. -/
def Declares (levels : List PrecedenceDeclaration) (precedence : Precedence) : Prop :=
  ∃ position declared, levels[position]? = some declared ∧
    precedence = ⟨position + 1, declared.assoc⟩

theorem Declares.eq_of_level {levels : List PrecedenceDeclaration} {first second : Precedence}
    (one : Declares levels first) (other : Declares levels second)
    (level : first.level = second.level) : first = second := by
  rcases one with ⟨position, declared, found, rfl⟩
  rcases other with ⟨place, again, here, rfl⟩
  have same : position = place := Nat.succ.inj level
  rw [same, here] at found
  cases found
  rw [same]

/-- All precedences of the book have the property. -/
def Precedences (property : Precedence → Prop) (book : RuleBook) : Prop :=
  ∀ entry ∈ book.precedences, property entry.2

/-- The level that comes next is one more than the number of levels done. -/
theorem declares_of_mem_ranks (done rest : List PrecedenceDeclaration) {rank : String × Precedence}
    (member : rank ∈ ranksFrom (done.length + 1) rest) : Declares (done ++ rest) rank.2 := by
  induction rest generalizing done with
  | nil => cases member
  | cons declared rest ih =>
      rcases List.mem_append.mp member with here | later
      · obtain ⟨name, _, rfl⟩ := List.mem_map.mp here
        refine ⟨done.length, declared, ?_, rfl⟩
        rw [List.getElem?_append_right (Nat.le_refl _), Nat.sub_self]
        rfl
      · have further := ih (done ++ [declared]) (by simpa using later)
        rw [List.append_assoc] at further
        exact further

theorem of_declarations_precedences {α π : Type} (declarations : Declarations α π)
    (book : RuleBook) (read : ofDeclarations declarations = .ok book) :
    Precedences (Declares declarations.precedence) book := by
  intro entry member
  rw [(of_declarations_ranks declarations read).precedences] at member
  exact declares_of_mem_ranks [] declarations.precedence member

theorem declares_of_precedence {levels : List PrecedenceDeclaration} {book : RuleBook}
    (all : Precedences (Declares levels) book) (name : String) (precedence : Precedence)
    (found : book.precedence? name = some precedence) : Declares levels precedence := by
  rcases List.lookup_eq_some_iff.mp found with ⟨front, back, split, _⟩
  apply all (name, precedence)
  rw [split]
  exact List.mem_append_right _ List.mem_cons_self

end RuleBook

namespace Grammar

/-- The last token in a row of symbols. -/
def lastTerminal? (symbols : List Symbol) : Option Nat :=
  symbols.reverse.findSome? fun
    | .token token => some token
    | .rule _ => none

/-- Precedences of one level are the same. -/
def LevelsAgree (grammar : Grammar) : Prop :=
  ∀ first second, (∃ token, grammar.tokenPrecedence token = some first) ∨
      (∃ production, grammar.productionPrecedence production = some first) →
    (∃ token, grammar.tokenPrecedence token = some second) ∨
      (∃ production, grammar.productionPrecedence production = some second) →
    first.level = second.level → first = second

theorem token_precedence_of_rule_book (book : RuleBook) (token : Nat) :
    (ofRuleBook book).tokenPrecedence token = (book.tokens[token]?).bind book.precedence? := by
  simp only [tokenPrecedence, ofRuleBook, List.getElem?_toArray, List.getElem?_map]
  cases book.tokens[token]? with
  | none => rfl
  | some name => rfl

theorem production_precedence_of_rule_book (book : RuleBook) (production : Nat)
    (bound : production < book.productions.length) :
    (ofRuleBook book).productionPrecedence production =
      precedenceOf book book.productions[production] := by
  rw [productionPrecedence, production_of_rule_book book production bound]
  rfl

theorem bound_of_production_precedence (book : RuleBook) (production : Nat)
    (precedence : Precedence)
    (found : (ofRuleBook book).productionPrecedence production = some precedence) :
    production < book.productions.length := by
  by_contra beyond
  by_cases last : production = book.productions.length
  · rw [productionPrecedence, last, last_production_of_rule_book] at found
    cases found
  · rw [productionPrecedence, no_production_of_rule_book book production (by omega)] at found
    cases found

section Compiled

variable {α π : Type} {declarations : Declarations α π} {book : RuleBook}

theorem precedence_declared (read : RuleBook.ofDeclarations declarations = .ok book)
    (precedence : Precedence)
    (used : (∃ token, (ofRuleBook book).tokenPrecedence token = some precedence) ∨
      ∃ production, (ofRuleBook book).productionPrecedence production = some precedence) :
    RuleBook.Declares declarations.precedence precedence := by
  have all := RuleBook.of_declarations_precedences declarations book read
  rcases used with ⟨token, found⟩ | ⟨production, found⟩
  · rw [token_precedence_of_rule_book] at found
    rcases Option.bind_eq_some_iff.mp found with ⟨name, _, entered⟩
    exact RuleBook.declares_of_precedence all name precedence entered
  · have bound := bound_of_production_precedence book production precedence found
    rw [production_precedence_of_rule_book book production bound, precedenceOf] at found
    split at found
    · exact RuleBook.declares_of_precedence all _ precedence found
    · rcases Option.bind_eq_some_iff.mp found with ⟨name, _, entered⟩
      exact RuleBook.declares_of_precedence all name precedence entered

theorem compile_levels_agree (width : IndexWidth) (grammar : Grammar)
    (compiled : compile width declarations = .ok grammar) : grammar.LevelsAgree := by
  obtain ⟨book, read, _, rfl⟩ := rule_book_of_compile compiled
  intro first second one other
  exact (precedence_declared read first one).eq_of_level (precedence_declared read second other)

theorem last_terminal_of_numbered (book : RuleBook) (symbols : List NamedSymbol) :
    lastTerminal? (symbols.map (numberSymbol book)) =
      (lastToken? symbols).map (numberToken book) := by
  rw [lastTerminal?, lastToken?, ← List.map_reverse]
  induction symbols.reverse with
  | nil => rfl
  | cons symbol rest ih =>
      cases symbol with
      | rule name span => exact ih
      | token name span => rfl

theorem last_token_mem (symbols : List NamedSymbol) (name : String)
    (last : lastToken? symbols = some name) : ∃ span, NamedSymbol.token name span ∈ symbols := by
  rcases List.exists_of_findSome?_eq_some last with ⟨symbol, member, found⟩
  cases symbol with
  | rule _ _ => cases found
  | token other span =>
      cases found
      exact ⟨span, List.mem_reverse.mp member⟩

theorem plain_production_precedence (width : IndexWidth) (grammar : Grammar)
    (read : RuleBook.ofDeclarations declarations = .ok book)
    (compiled : compile width declarations = .ok grammar) (production : Nat)
    (bound : production < grammar.startProduction)
    (plain : ∀ written ∈ book.productions, written.precedence = none) :
    grammar.productionPrecedence production =
      (lastTerminal? (grammar.symbols production)).bind grammar.tokenPrecedence := by
  have same : grammar = ofRuleBook book := by
    obtain ⟨other, again, _, made⟩ := rule_book_of_compile compiled
    rw [read] at again
    cases again
    exact made
  have sound := RuleBook.of_declarations_sound declarations book read
  rw [same, start_production_of_rule_book] at bound
  have member := List.getElem_mem bound
  rw [same, production_precedence_of_rule_book book production bound, symbols,
    production_of_rule_book book production bound, precedenceOf, plain _ member]
  simp only [last_terminal_of_numbered]
  cases last : lastToken? book.productions[production].symbols with
  | none => rfl
  | some name =>
      rcases last_token_mem _ name last with ⟨span, inside⟩
      have known := sound.tokensKnown _ member name span inside
      simp only [Option.map_some, Option.bind_some]
      rw [token_precedence_of_rule_book, numberToken, List.getElem?_idxOf known]
      rfl

end Compiled

end Grammar

end SlrKit
