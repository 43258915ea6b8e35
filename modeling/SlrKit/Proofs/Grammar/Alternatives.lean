import SlrKit.Proofs.Grammar.WellFormed

/-!
# Productions and what was written

The productions of a compiled grammar are the alternatives of the production declarations, in the
order they were written in and whatever rule they belong to. Each carries the number of the
declaration it was written in, belongs to the rule that the declaration names and has the symbols
that were written. The start production is the only one that nobody wrote.
-/

set_option autoImplicit false

namespace SlrKit

/-- An alternative with the declaration that it was written in and the name of its rule. -/
structure Written where
  declaration : Nat
  rule : String
  alternative : Alternative

namespace Written

def production (written : Written) : RuleBook.Production :=
  ⟨written.alternative.symbols, written.alternative.precedence, written.declaration⟩

/-- The alternatives of one text. -/
def inText (terminals : List String) (declaration : Nat) (text : String) : List Written :=
  match RuleText.parse terminals text.toList with
  | .ok parsed => parsed.alternatives.map (⟨declaration, parsed.name, ·⟩)
  | .error _ => []

def inTexts (terminals : List String) : Nat → List String → List Written
  | _, [] => []
  | declaration, text :: rest =>
      inText terminals declaration text ++ inTexts terminals (declaration + 1) rest

def inDeclarations {α π : Type} (declarations : Declarations α π) : List Written :=
  inTexts (RuleBook.terminalNames declarations) 0 (declarations.productions.map (·.text))

/-- The alternative is one of those in the text, which names the rule. -/
def StandsIn (terminals : List String) (text : String) (written : Written) : Prop :=
  ∃ parsed, RuleText.parse terminals text.toList = .ok parsed ∧
    parsed.name = written.rule ∧ written.alternative ∈ parsed.alternatives

theorem stands_in_of_mem_text {terminals : List String} {declaration : Nat} {text : String}
    {written : Written} (member : written ∈ inText terminals declaration text) :
    written.declaration = declaration ∧ StandsIn terminals text written := by
  unfold inText at member
  split at member
  · rename_i parsed read
    obtain ⟨alternative, inside, rfl⟩ := List.mem_map.mp member
    exact ⟨rfl, parsed, read, rfl, inside⟩
  · cases member

theorem stands_in_of_mem_texts {terminals : List String} {done texts : List String}
    {written : Written} (member : written ∈ inTexts terminals done.length texts) :
    ∃ text, (done ++ texts)[written.declaration]? = some text ∧
      StandsIn terminals text written := by
  induction texts generalizing done with
  | nil => cases member
  | cons text rest ih =>
      rcases List.mem_append.mp member with here | later
      · obtain ⟨own, stands⟩ := stands_in_of_mem_text here
        refine ⟨text, ?_, stands⟩
        rw [own, List.getElem?_append_right (Nat.le_refl _), Nat.sub_self]
        rfl
      · have beyond : done.length + 1 = (done ++ [text]).length := by simp
        rw [beyond] at later
        obtain ⟨found, at_place, stands⟩ := ih later
        rw [List.append_assoc] at at_place
        exact ⟨found, at_place, stands⟩

theorem exists_declaration {α π : Type} {declarations : Declarations α π} {written : Written}
    (member : written ∈ inDeclarations declarations) :
    ∃ declared, declarations.productions[written.declaration]? = some declared ∧
      StandsIn (RuleBook.terminalNames declarations) declared.text written := by
  obtain ⟨text, found, stands⟩ := @stands_in_of_mem_texts _ [] _ _ member
  rw [List.nil_append, List.getElem?_map] at found
  obtain ⟨declared, at_place, rfl⟩ := Option.map_eq_some_iff.mp found
  exact ⟨declared, at_place, stands⟩

end Written

namespace RuleBook

/-- The productions of the book are the alternatives, and each is listed with its rule only. -/
structure Lists (book : RuleBook) (written : List Written) : Prop where
  productions : book.productions = written.map Written.production
  listed : ∀ rule ∈ book.rules, ∀ index ∈ rule.productions,
    ∃ alternative, written[index]? = some alternative ∧ alternative.rule = rule.name

theorem Lists.same {book other : RuleBook} {written : List Written} (lists : book.Lists written)
    (productions : other.productions = book.productions) (rules : other.rules = book.rules) :
    other.Lists written := by
  constructor
  · rw [productions]
    exact lists.productions
  · rw [rules]
    exact lists.listed

theorem add_rule_lists {book : RuleBook} {written : List Written} (lists : book.Lists written)
    (name : String) (span : Span) (declaration : Nat) :
    (book.addRule name span declaration).Lists written := by
  unfold addRule
  split
  · exact lists
  · refine ⟨lists.productions, ?_⟩
    intro rule member index inside
    rcases List.mem_append.mp member with earlier | last
    · exact lists.listed rule earlier index inside
    · rw [List.mem_singleton.mp last] at inside
      cases inside

theorem add_production_lists {book : RuleBook} {written : List Written}
    (lists : book.Lists written) (next : Written) :
    (book.addProduction next.rule next.production).Lists (written ++ [next]) := by
  have count : book.productions.length = written.length := by
    rw [lists.productions, List.length_map]
  constructor
  · simp only [addProduction, lists.productions, List.map_append, List.map_cons, List.map_nil]
  · intro rule member index inside
    obtain ⟨before, earlier, rfl⟩ := List.mem_map.mp member
    have kept : index ∈ before.productions → ∃ alternative,
        (written ++ [next])[index]? = some alternative ∧ alternative.rule = before.name := by
      intro old
      obtain ⟨alternative, found, own⟩ := lists.listed before earlier index old
      rw [List.getElem?_append_left (List.getElem?_eq_some_iff.mp found).1]
      exact ⟨alternative, found, own⟩
    split at inside
    · rename_i own
      rw [if_pos own]
      rcases List.mem_append.mp inside with old | new
      · exact kept old
      · rw [List.mem_singleton.mp new, count]
        exact ⟨next, List.getElem?_concat_length, own.symm⟩
    · rename_i other
      rw [if_neg other]
      exact kept inside

theorem add_rule_text_lists {terminals : List String} {book : RuleBook} {written : List Written}
    (lists : book.Lists written) (declaration : Nat) {text : String} {parsed : RuleText}
    (read : RuleText.parse terminals text.toList = .ok parsed) :
    (book.addRuleText declaration parsed).Lists
      (written ++ Written.inText terminals declaration text) := by
  simp only [addRuleText, Written.inText, read]
  have start := add_rule_lists lists parsed.name parsed.span declaration
  generalize book.addRule parsed.name parsed.span declaration = current at start
  clear lists read
  induction parsed.alternatives generalizing current written with
  | nil => simpa using start
  | cons alternative rest ih =>
      have entered := add_production_lists start ⟨declaration, parsed.name, alternative⟩
      have later := ih _ entered
      rw [List.append_assoc] at later
      exact later

/-- Rule texts keep what relates the book to the alternatives, if each brings in its own. -/
theorem add_rule_texts_written {terminals : List String}
    {property : RuleBook → List Written → Prop}
    (kept : ∀ (book : RuleBook) written declaration text parsed,
      RuleText.parse terminals text.toList = .ok parsed → property book written →
        property (book.addRuleText declaration parsed)
          (written ++ Written.inText terminals declaration text))
    (declaration : Nat) (texts : List String) (state : RuleBook × List GrammarError)
    (written : List Written) (holds : property state.1 written) :
    property (addRuleTexts terminals declaration texts state).1
      (written ++ Written.inTexts terminals declaration texts) := by
  induction texts generalizing declaration state written with
  | nil =>
      rw [Written.inTexts, List.append_nil]
      exact holds
  | cons text rest ih =>
      obtain ⟨book, errors⟩ := state
      simp only [addRuleTexts, Written.inTexts, ← List.append_assoc]
      apply ih
      cases read : RuleText.parse terminals text.toList with
      | ok parsed => exact kept book written declaration text parsed read holds
      | error problem =>
          simp only [Written.inText, read, List.append_nil]
          exact holds

theorem entered_lists {α π : Type} (declarations : Declarations α π) :
    (entered declarations).1.Lists (Written.inDeclarations declarations) := by
  have start : (addPrecedences 1 declarations.precedence
      ({ tokens := terminalNames declarations }, [])).1.Lists [] := by
    apply @add_precedences_keep fun book => book.Lists []
    · intro book name precedence lists
      exact lists.same rfl rfl
    · exact ⟨rfl, fun _ member => absurd member List.not_mem_nil⟩
  apply add_rule_texts_written _ 0 _ _ [] start
  intro book written declaration text parsed read lists
  exact add_rule_text_lists lists declaration read

theorem of_declarations_lists {α π : Type} (declarations : Declarations α π) (book : RuleBook)
    (read : ofDeclarations declarations = .ok book) :
    book.Lists (Written.inDeclarations declarations) := by
  obtain ⟨first, later, _, _, rfl, _⟩ := completed_of_read read
  exact (entered_lists declarations).same rfl rfl

end RuleBook

namespace Grammar

/-- The number of a rule or a terminal for its name. -/
inductive Numbers (grammar : Grammar) : NamedSymbol → Symbol → Prop
  | rule {name : String} {span : Span} {rule : Nat}
      (named : grammar.ruleNames[rule]? = some name) :
      Numbers grammar (.rule name span) (.rule rule)
  | token {name : String} {span : Span} {terminal : Nat}
      (named : grammar.tokenName? terminal = some name) :
      Numbers grammar (.token name span) (.token terminal)

/-- The production is what was written. -/
structure WrittenAs (grammar : Grammar) (production : Nat) (written : Written) : Prop where
  declaration : grammar.declarationOf production = some written.declaration
  rule : grammar.ruleNames[grammar.ruleOf production]? = some written.rule
  symbols : List.Forall₂ grammar.Numbers written.alternative.symbols (grammar.symbols production)

theorem rule_name_of_rule_book (book : RuleBook) (place : Nat) :
    (ofRuleBook book).ruleNames[1 + place]? = (book.rules.map (·.name))[place]? := by
  rw [Nat.add_comm]
  simp only [ofRuleBook, List.getElem?_toArray, List.getElem?_cons_succ]

theorem token_name_of_rule_book (book : RuleBook) (token : Nat) :
    (ofRuleBook book).tokenName? token = book.tokens[token]? := by
  simp [tokenName?, ofRuleBook, Function.comp_def]

theorem numbers_number_symbol {book : RuleBook} (sound : book.Sound)
    {production : RuleBook.Production} (member : production ∈ book.productions)
    {symbol : NamedSymbol} (inside : symbol ∈ production.symbols) :
    (ofRuleBook book).Numbers symbol (numberSymbol book symbol) := by
  cases symbol with
  | rule name span =>
      apply Numbers.rule
      rw [numberRule, rule_name_of_rule_book]
      exact List.getElem?_idxOf (sound.rulesKnown production member name span inside)
  | token name span =>
      apply Numbers.token
      have known := sound.tokensKnown production member name span inside
      rw [token_name_of_rule_book, numberToken]
      exact List.getElem?_idxOf known

theorem symbols_numbered {book : RuleBook} (sound : book.Sound) {production : Nat}
    {entry : RuleBook.Production} (found : book.productions[production]? = some entry) :
    List.Forall₂ (ofRuleBook book).Numbers entry.symbols ((ofRuleBook book).symbols production) := by
  obtain ⟨bound, rfl⟩ := List.getElem?_eq_some_iff.mp found
  rw [symbols, production_of_rule_book book production bound]
  exact List.forall₂_map_right_iff.mpr <| List.forall₂_same.mpr fun symbol inside =>
    numbers_number_symbol sound (List.getElem_mem bound) inside

theorem listed_under_own_rule {book : RuleBook} (tidy : book.Tidy) {written : List Written}
    (lists : book.Lists written) {index : Nat} (bound : index < book.productions.length)
    {alternative : Written} (found : written[index]? = some alternative) :
    (ofRuleBook book).ruleNames[listedUnder book index]? = some alternative.rule := by
  obtain ⟨rule, member, holds⟩ := tidy.listed index bound
  have inside : book.rules.findIdx (fun rule => rule.productions.contains index) <
      book.rules.length :=
    List.findIdx_lt_length_of_exists ⟨rule, member, by simpa using holds⟩
  have contains := @List.findIdx_getElem _ _ _ inside
  obtain ⟨other, again, own⟩ := lists.listed _ (List.getElem_mem inside) index
    (by simpa using contains)
  rw [found] at again
  cases again
  rw [listedUnder, rule_name_of_rule_book, List.getElem?_map, List.getElem?_eq_getElem inside,
    Option.map_some, own]

theorem written_as_of_rule_book {book : RuleBook} (sound : book.Sound) {written : List Written}
    (lists : book.Lists written) {production : Nat} {alternative : Written}
    (found : written[production]? = some alternative) :
    (ofRuleBook book).WrittenAs production alternative := by
  have here : book.productions[production]? = some alternative.production := by
    rw [lists.productions, List.getElem?_map, found]
    rfl
  obtain ⟨bound, same⟩ := List.getElem?_eq_some_iff.mp here
  have entry := production_of_rule_book book production bound
  rw [same] at entry
  constructor
  · rw [declarationOf, entry]
    rfl
  · rw [ruleOf, entry]
    exact listed_under_own_rule sound.toTidy lists bound found
  · exact symbols_numbered sound here

/-- Every production but the start production is what was written in its place. -/
theorem compile_written {α π : Type} (width : IndexWidth) (declarations : Declarations α π)
    (grammar : Grammar) (compiled : compile width declarations = .ok grammar) (production : Nat)
    (bound : production < grammar.productionCount)
    (inner : production ≠ grammar.startProduction) :
    ∃ written, (Written.inDeclarations declarations)[production]? = some written ∧
      grammar.WrittenAs production written := by
  obtain ⟨book, read, _, rfl⟩ := rule_book_of_compile compiled
  have sound := RuleBook.of_declarations_sound declarations book read
  have lists := RuleBook.of_declarations_lists declarations book read
  have inside : production < (Written.inDeclarations declarations).length := by
    rw [production_count_of_rule_book, lists.productions, List.length_map] at bound
    rw [start_production_of_rule_book, lists.productions, List.length_map] at inner
    omega
  have found := List.getElem?_eq_getElem inside
  exact ⟨_, found, written_as_of_rule_book sound lists found⟩

end Grammar

end SlrKit
