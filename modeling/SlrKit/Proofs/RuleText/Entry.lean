import SlrKit.Proofs.RuleText.Reading
import SlrKit.RuleBook

/-!
# Rule text in the rule book

A rule text is accepted if and only if it has a layout whose rule is no terminal, and what is read is
what the layout says. The rule book then has one more production for each alternative, in the order
they are written in, and the rule if it was new.
-/

set_option autoImplicit false

namespace SlrKit

namespace RuleBook

/-- The rules, with the numbers listed under a name. -/
def listUnder (name : String) (numbers : List Nat) (rules : List Rule) : List Rule :=
  rules.map fun rule =>
    if rule.name = name then { rule with productions := rule.productions ++ numbers } else rule

/-- The rules once a declaration has given a rule so many more productions. -/
def rulesWith (book : RuleBook) (name : String) (span : Span) (declaration count : Nat) :
    List Rule :=
  let numbers := List.range' book.productions.length count
  if (book.rule? name).isSome then listUnder name numbers book.rules
  else book.rules ++ [⟨name, span, declaration, numbers⟩]

def productionOf (declaration : Nat) (alternative : Alternative) : Production :=
  ⟨alternative.symbols, alternative.precedence, declaration⟩

theorem list_under_append (name : String) (first second : List Nat) (rules : List Rule) :
    listUnder name second (listUnder name first rules) = listUnder name (first ++ second) rules := by
  simp only [listUnder, List.map_map]
  apply List.map_congr_left
  intro rule _
  simp only [Function.comp_apply]
  split
  · rename_i own
    simp [own]
  · rfl

theorem list_under_nil (name : String) (rules : List Rule) : listUnder name [] rules = rules := by
  simp [listUnder]

theorem list_under_unknown {book : RuleBook} {name : String} (numbers : List Nat)
    (unknown : ¬(book.rule? name).isSome = true) : listUnder name numbers book.rules = book.rules := by
  refine (List.map_congr_left ?_).trans (List.map_id book.rules)
  intro rule member
  apply if_neg
  rintro rfl
  apply unknown
  simpa [rule?, List.find?_isSome] using ⟨rule, member, rfl⟩

/-- By induction on the alternatives: each is entered with the next number. -/
theorem fold_add_production (name : String) (declaration : Nat) (alternatives : List Alternative)
    (book : RuleBook) :
    alternatives.foldl (fun book alternative =>
        book.addProduction name (productionOf declaration alternative)) book =
      { book with
        rules := listUnder name (List.range' book.productions.length alternatives.length) book.rules
        productions := book.productions ++ alternatives.map (productionOf declaration) } := by
  induction alternatives generalizing book with
  | nil => simp [list_under_nil]
  | cons alternative rest ih =>
      rw [List.foldl_cons, ih]
      have entered : (book.addProduction name (productionOf declaration alternative)).rules =
          listUnder name [book.productions.length] book.rules := rfl
      rw [entered, list_under_append]
      simp [addProduction, List.range'_succ]

theorem add_rule_text_eq (book : RuleBook) (declaration : Nat) (text : RuleText) :
    book.addRuleText declaration text =
      { book with
        rules := book.rulesWith text.name text.span declaration text.alternatives.length
        productions := book.productions ++ text.alternatives.map (productionOf declaration) } := by
  have entered := fold_add_production text.name declaration text.alternatives
    (book.addRule text.name text.span declaration)
  rw [addRuleText]
  refine entered.trans ?_
  simp only [addRule, rulesWith]
  split
  · rfl
  · rename_i unknown
    have kept := list_under_unknown (List.range' book.productions.length text.alternatives.length)
      unknown
    rw [listUnder] at kept ⊢
    simp [kept]

end RuleBook

namespace RuleText

/-- Rule text is accepted exactly if it has a layout whose rule is no terminal, and what is read is
what the layout says. A rule book that it is entered in gains the rule, if it is new, and exactly one
production for each alternative, in their order. -/
theorem rule_text_read_iff_laid_out (terminals : List String) (text : List Char)
    (parsed : RuleText) :
    (parse terminals text = .ok parsed ↔
      ∃ layout : Layout, layout.text = text ∧ layout.ruleName ∉ terminals ∧
        layout.ruleText terminals = parsed) ∧
    ∀ (book : RuleBook) (declaration : Nat),
      book.addRuleText declaration parsed =
        { book with
          rules := book.rulesWith parsed.name parsed.span declaration parsed.alternatives.length
          productions := book.productions ++
            parsed.alternatives.map (RuleBook.productionOf declaration) } := by
  constructor
  · constructor
    · exact exists_layout terminals
    · rintro ⟨layout, same, free, reading⟩
      rw [← same, ← reading]
      exact parse_layout terminals layout free
  · intro book declaration
    exact RuleBook.add_rule_text_eq book declaration parsed

end RuleText

end SlrKit
