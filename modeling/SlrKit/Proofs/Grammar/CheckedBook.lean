import SlrKit.Proofs.Grammar.RuleListing
import SlrKit.Proofs.RuleText.Offsets
import SlrKit.RuleBook.Checked

/-!
# Checked accesses are in range

Rules list the numbers of productions that are there, and the book has a rule whenever it has a
production. So a rule book that is made with every access checked is the same book, or has the same
mistakes, and no access is ever a fault.
-/

set_option autoImplicit false

namespace SlrKit

namespace RuleBook

/-- All numbers that rules list are those of productions. -/
def ListsInRange (book : RuleBook) : Prop :=
  ∀ rule ∈ book.rules, ∀ number ∈ rule.productions, number < book.productions.length

namespace Checked

section Results

variable {ε σ τ : Type}

theorem map_results {step : σ → Except ε τ} {value : σ → τ} (items : List σ)
    (results : ∀ item ∈ items, step item = .ok (value item)) :
    items.mapM step = .ok (items.map value) := by
  induction items with
  | nil => rfl
  | cons first rest ih =>
      obtain ⟨here, later⟩ := List.forall_mem_cons.mp results
      rw [List.mapM_cons, here, ih later]
      rfl

theorem fold_results {step : σ → τ → Except ε σ} {value : σ → τ → σ}
    (results : ∀ state item, step state item = .ok (value state item)) (items : List τ) (start : σ) :
    items.foldlM step start = .ok (items.foldl value start) := by
  induction items generalizing start with
  | nil => rfl
  | cons first rest ih =>
      rw [List.foldlM_cons, results, List.foldl_cons, ← ih]
      rfl

end Results

section Entering

/-- Quotation marks are one byte wide, so cutting off a byte at each end leaves what is between them. -/
theorem slice_between {opening closing : Char} (c : Char) (openingMarks : RuleText.isQuote opening = true)
    (closingMarks : RuleText.isQuote closing = true) :
    Text.slice? 1 (Text.byteLength [opening, c, closing] - 1) [opening, c, closing] = some [c] := by
  rw [Text.slice?_eq_some_iff]
  refine ⟨[opening], [closing], rfl, ?_, ?_⟩
  · simp [RuleText.quote_size openingMarks]
  · simp [RuleText.quote_size openingMarks, RuleText.quote_size closingMarks]
    omega

theorem unquote_eq (written : String) : unquote written = .ok (RuleBook.unquote written) := by
  unfold unquote RuleBook.unquote
  generalize written.toList = chars
  -- Only three characters can be one between two quotation marks.
  rcases chars with _ | ⟨opening, _ | ⟨c, _ | ⟨closing, _ | ⟨more, rest⟩⟩⟩⟩
  · rfl
  · rfl
  · rfl
  · by_cases quoted : opening = closing ∧ RuleText.isQuote opening = true
    · have between := slice_between c quoted.2 (quoted.1 ▸ quoted.2)
      simp only [if_pos quoted, between]
    · simp only [if_neg quoted]
  · rfl

theorem add_precedence_eq (precedence : Precedence) (state : RuleBook × List GrammarError)
    (written : String) : addPrecedence precedence state written =
      .ok (RuleBook.addPrecedence precedence state written) := by
  simp only [addPrecedence, unquote_eq, bind, Except.bind, RuleBook.addPrecedence]
  split
  · rfl
  · rfl

theorem add_precedences_eq (level : Nat) (declared : List PrecedenceDeclaration)
    (state : RuleBook × List GrammarError) :
    addPrecedences level declared state = .ok (RuleBook.addPrecedences level declared state) := by
  induction declared generalizing level state with
  | nil => rfl
  | cons first rest ih =>
      rw [addPrecedences, fold_results (add_precedence_eq ⟨level, first.assoc⟩)]
      exact ih _ _

theorem add_rule_texts_eq (terminals : List String) (declaration : Nat) (texts : List String)
    (state : RuleBook × List GrammarError) :
    addRuleTexts terminals declaration texts state =
      .ok (RuleBook.addRuleTexts terminals declaration texts state) := by
  induction texts generalizing declaration state with
  | nil => rfl
  | cons text rest ih =>
      obtain ⟨book, errors⟩ := state
      simp only [addRuleTexts, RuleBook.addRuleTexts, RuleText.Offsets.parse_eq]
      cases RuleText.parse terminals text.toList with
      | error problem => exact ih _ _
      | ok parsed => exact ih _ _

end Entering

section Errors

variable {book : RuleBook}

theorem production_eq {number : Nat} (bound : number < book.productions.length) :
    production book number = .ok book.productions[number] := by
  rw [production, List.getElem?_eq_getElem bound]

theorem map_productions (numbers : List Nat)
    (inRange : ∀ number ∈ numbers, number < book.productions.length) :
    numbers.mapM (production book) = .ok (numbers.filterMap (book.productions[·]?)) := by
  induction numbers with
  | nil => rfl
  | cons number rest ih =>
      obtain ⟨here, later⟩ := List.forall_mem_cons.mp inRange
      rw [List.mapM_cons, production_eq here, ih later]
      simp [List.getElem?_eq_getElem here, bind, Except.bind, pure, Except.pure]

theorem first_of_append (front back : List Nat) :
    firstOf front.length (front ++ back) = .ok front := by
  simp [firstOf]

/-- By induction on the productions that are still to come. -/
theorem listed_errors_from (rule : Rule) (front back : List Nat)
    (whole : rule.productions = front ++ back)
    (inRange : ∀ number ∈ rule.productions, number < book.productions.length) :
    ∃ lists, ((back.zipIdx front.length).mapM fun entry =>
        listedErrors book rule entry.2 entry.1) = .ok lists ∧
      lists.flatten = book.productionsErrors rule.name (front.filterMap (book.productions[·]?))
        (back.filterMap (book.productions[·]?)) := by
  induction back generalizing front with
  | nil => exact ⟨[], rfl, rfl⟩
  | cons number rest ih =>
      have earlier : ∀ other ∈ front, other < book.productions.length := by
        intro other member
        exact inRange other (by simp [whole, member])
      have here := inRange number (by simp [whole])
      have found := List.getElem?_eq_getElem here
      have wholeNext : rule.productions = (front ++ [number]) ++ rest := by simp [whole]
      obtain ⟨lists, mapped, same⟩ := ih (front ++ [number]) wholeNext
      have listed : listedErrors book rule front.length number =
          .ok (book.productionErrors rule.name (front.filterMap (book.productions[·]?))
            book.productions[number]) := by
        rw [listedErrors, production_eq here, whole]
        simp only [bind, Except.bind, first_of_append, map_productions front earlier]
      refine ⟨book.productionErrors rule.name (front.filterMap (book.productions[·]?))
        book.productions[number] :: lists, ?_, ?_⟩
      · rw [List.zipIdx_cons, List.mapM_cons, listed]
        rw [List.length_append, List.length_singleton] at mapped
        rw [mapped]
        rfl
      · rw [List.flatten_cons, same, List.filterMap_cons, found, productionsErrors]
        simp [found]

theorem rule_errors_eq (inRange : book.ListsInRange) {rule : Rule} (member : rule ∈ book.rules) :
    ruleErrors book rule =
      .ok (book.productionsErrors rule.name [] (book.productionsOf rule)) := by
  obtain ⟨lists, mapped, same⟩ := listed_errors_from rule [] rule.productions rfl (inRange rule member)
  rw [List.length_nil] at mapped
  rw [ruleErrors, mapped]
  exact congrArg Except.ok same

theorem errors_eq (inRange : book.ListsInRange) : errors book = .ok book.errors := by
  have ofRules : book.rules.mapM (ruleErrors book) = .ok (book.rules.map fun rule =>
      book.productionsErrors rule.name [] (book.productionsOf rule)) :=
    map_results book.rules fun rule member => rule_errors_eq inRange member
  rw [errors, ofRules, RuleBook.errors, List.flatMap_def]
  rfl

end Errors

end Checked

section Declared

variable {α π : Type} (declarations : Declarations α π)

theorem entered_in_range : (entered declarations).1.ListsInRange := by
  have files := entered_files declarations
  intro rule member number listed
  rw [files.listed rule member, Grammar.mem_idxs_of_iff] at listed
  rw [files.count]
  exact (List.getElem?_eq_some_iff.mp listed).1

theorem productions_eq_nil_iff : (entered declarations).1.productions = [] ↔
    (entered declarations).1.rules = [] := by
  have files := entered_files declarations
  constructor
  · intro none
    rw [← List.map_eq_nil_iff (f := Rule.name), files.rules,
      List.length_eq_zero_iff.mp (files.count.symm.trans (by rw [none]; rfl))]
    rfl
  · intro none
    by_contra some
    obtain ⟨rule, member, _⟩ :=
      (entered_tidy declarations).listed 0 (List.length_pos_iff.mpr some)
    rw [none] at member
    cases member

/-- A book that is made with every access checked is the one that the declarations are read as. -/
theorem checked_of_declarations_eq :
    Checked.ofDeclarations declarations = .ok (ofDeclarations declarations) := by
  have inRange := entered_in_range declarations
  have together := productions_eq_nil_iff declarations
  simp only [Checked.ofDeclarations, Checked.add_precedences_eq, Checked.add_rule_texts_eq, bind,
    Except.bind, ofDeclarations]
  rw [← entered]
  by_cases mistaken : (entered declarations).2 ≠ []
  · simp only [if_pos mistaken]
  · simp only [if_neg mistaken]
    cases content : (entered declarations).1.rules with
    | nil => simp only [if_pos (together.mpr content)]
    | cons first later =>
        have some : (entered declarations).1.productions ≠ [] := by
          rw [ne_eq, together, content]
          exact List.cons_ne_nil first later
        have start : Checked.startName declarations.start (entered declarations).1 =
            .ok (declarations.start.getD first.name) := by
          cases declarations.start with
          | some name => rfl
          | none => simp [Checked.startName, content]
        have complete : (completed declarations first).ListsInRange := inRange
        have found := Checked.errors_eq complete
        rw [completed, content] at found
        simp only [if_neg some, start, found]
        split
        · rename_i clean
          rw [clean]
        · rename_i mistakes
          split
          · rename_i clean
            exact absurd clean mistakes
          · rfl

end Declared

end RuleBook

end SlrKit
