import SlrKit.Proofs.Grammar.SoundBook
import SlrKit.Proofs.RuleText.Entry

/-!
# Names and their precedences

The tokens of a rule book are the terminals that are declared and then the names that have a place in
the precedence levels only. The levels are entered name by name; that goes without a mistake exactly if
no name has a place twice, and every precedence in the book is then that of the level that lists the
name.
-/

set_option autoImplicit false

namespace SlrKit

variable {α π : Type}

/-- The name of a token rule, a keyword or a literal character. -/
def Declarations.Names (declarations : Declarations α π) (name : String) : Prop :=
  (∃ token ∈ declarations.tokens, token.name = name) ∨ name ∈ declarations.keywords ∨
    ∃ c ∈ declarations.literals, c.toString = name

namespace RuleBook

theorem mem_terminal_names_iff (declarations : Declarations α π) (name : String) :
    name ∈ terminalNames declarations ↔ declarations.Names name := by
  simp [terminalNames, mem_fold_add_new_iff, Declarations.Names, or_assoc]

/-- What one level says about names, each without its quotation marks. -/
def ranksOf (precedence : Precedence) (names : List String) : List (String × Precedence) :=
  names.map fun written => (unquote written, precedence)

/-- What the levels say about names, from the level with the given number on. -/
def ranksFrom : Nat → List PrecedenceDeclaration → List (String × Precedence)
  | _, [] => []
  | level, declared :: rest =>
      ranksOf ⟨level, declared.assoc⟩ declared.names ++ ranksFrom (level + 1) rest

/-- The precedence that is declared for a name. -/
def declaredPrecedence? (levels : List PrecedenceDeclaration) (name : String) :
    Option Precedence :=
  (ranksFrom 1 levels).lookup name

def rankedNames (levels : List PrecedenceDeclaration) : List String :=
  (ranksFrom 1 levels).map Prod.fst

/-- The terminals that are declared and then the names that only have a precedence. -/
def tokenNames (declarations : Declarations α π) : List String :=
  (rankedNames declarations.precedence).foldl addNew (terminalNames declarations)

/-- The precedences of the book are these, and its tokens are the terminals and then what else has a
precedence. -/
structure Ranks (terminals : List String) (ranks : List (String × Precedence)) (book : RuleBook) :
    Prop where
  precedences : book.precedences = ranks
  tokens : book.tokens = (ranks.map Prod.fst).foldl addNew terminals

theorem Ranks.mem_tokens_iff {terminals : List String} {ranks : List (String × Precedence)}
    {book : RuleBook} (holds : Ranks terminals ranks book) (name : String) :
    name ∈ book.tokens ↔ name ∈ terminals ∨ name ∈ ranks.map Prod.fst := by
  rw [holds.tokens, mem_fold_add_new_iff]

section Entering

/-- Enters one name with its precedence; a second precedence for a name is a mistake. -/
def enterRank (state : RuleBook × List GrammarError) (rank : String × Precedence) :
    RuleBook × List GrammarError :=
  if (state.1.precedence? rank.1).isSome then
    (state.1, state.2 ++ [GrammarError.global (.duplicatePrecedence rank.1)])
  else
    ({ state.1 with
        precedences := state.1.precedences ++ [rank]
        tokens := addNew state.1.tokens rank.1 },
      state.2)

theorem fold_precedences_eq (precedence : Precedence) (names : List String)
    (state : RuleBook × List GrammarError) :
    names.foldl (addPrecedence precedence) state =
      (ranksOf precedence names).foldl enterRank state := by
  rw [ranksOf, List.foldl_map]
  rfl

theorem add_precedences_eq (level : Nat) (levels : List PrecedenceDeclaration)
    (state : RuleBook × List GrammarError) :
    addPrecedences level levels state = (ranksFrom level levels).foldl enterRank state := by
  induction levels generalizing level state with
  | nil => rfl
  | cons declared rest ih =>
      rw [addPrecedences, ih, ranksFrom, List.foldl_append, fold_precedences_eq]

theorem clean_before_ranks (ranks : List (String × Precedence))
    (state : RuleBook × List GrammarError) (clean : (ranks.foldl enterRank state).2 = []) :
    state.2 = [] := by
  induction ranks generalizing state with
  | nil => exact clean
  | cons rank rest ih =>
      have before := ih _ clean
      unfold enterRank at before
      split at before
      · simp at before
      · exact before

variable {terminals : List String} {ranks : List (String × Precedence)}

theorem precedence_isSome_iff {book : RuleBook} (holds : Ranks terminals ranks book) (name : String) :
    (book.precedence? name).isSome = true ↔ name ∈ ranks.map Prod.fst := by
  rw [precedence?, holds.precedences]
  simp [List.lookup_isSome_iff]

theorem enter_rank_ranks {state : RuleBook × List GrammarError} {rank : String × Precedence}
    (holds : Ranks terminals ranks state.1) (fresh : rank.1 ∉ ranks.map Prod.fst) :
    Ranks terminals (ranks ++ [rank]) (enterRank state rank).1 ∧
      (enterRank state rank).2 = state.2 := by
  rw [enterRank, if_neg ((precedence_isSome_iff holds rank.1).not.mpr fresh)]
  refine ⟨⟨by simpa using holds.precedences, ?_⟩, rfl⟩
  simp [holds.tokens]

/-- Names are entered without a mistake exactly if none has a precedence twice. By induction on what is
still to be entered. -/
theorem enter_ranks_clean_iff (rest : List (String × Precedence))
    (state : RuleBook × List GrammarError) (holds : Ranks terminals ranks state.1)
    (distinct : (ranks.map Prod.fst).Nodup) :
    (rest.foldl enterRank state).2 = [] ↔
      state.2 = [] ∧ ((ranks ++ rest).map Prod.fst).Nodup := by
  induction rest generalizing ranks state with
  | nil => simp [distinct]
  | cons rank rest ih =>
      -- A known name is a mistake, which no later name takes back.
      by_cases known : rank.1 ∈ ranks.map Prod.fst
      · constructor
        · intro clean
          have before := clean_before_ranks rest _ clean
          rw [enterRank, if_pos ((precedence_isSome_iff holds rank.1).mpr known)] at before
          simp at before
        · rintro ⟨_, once⟩
          rw [List.map_append, List.nodup_append] at once
          exact absurd rfl (once.2.2 rank.1 known rank.1 (by simp))
      · obtain ⟨entered, same⟩ := enter_rank_ranks holds known
        have extended : ((ranks ++ [rank]).map Prod.fst).Nodup := by
          rw [List.map_append, List.nodup_append]
          refine ⟨distinct, by simp, ?_⟩
          rintro name earlier other last rfl
          rw [List.map_singleton, List.mem_singleton] at last
          exact known (last ▸ earlier)
        rw [List.foldl_cons, ih _ entered extended, same, List.append_assoc]
        rfl

theorem enter_ranks_ranks (rest : List (String × Precedence)) (state : RuleBook × List GrammarError)
    (holds : Ranks terminals ranks state.1) (once : ((ranks ++ rest).map Prod.fst).Nodup) :
    Ranks terminals (ranks ++ rest) (rest.foldl enterRank state).1 := by
  induction rest generalizing ranks state with
  | nil => simpa using holds
  | cons rank rest ih =>
      have fresh : rank.1 ∉ ranks.map Prod.fst := by
        rw [List.map_append, List.nodup_append] at once
        exact fun known => once.2.2 rank.1 known rank.1 (by simp) rfl
      have moved : ranks ++ rank :: rest = (ranks ++ [rank]) ++ rest := by simp
      rw [moved] at once ⊢
      exact ih _ (enter_rank_ranks holds fresh).1 once

theorem add_rule_texts_clean_iff (terminals : List String) (declaration : Nat)
    (texts : List String) (state : RuleBook × List GrammarError) :
    (addRuleTexts terminals declaration texts state).2 = [] ↔
      state.2 = [] ∧ ∀ text ∈ texts, ∃ parsed, RuleText.parse terminals text.toList = .ok parsed := by
  induction texts generalizing declaration state with
  | nil => simp [addRuleTexts]
  | cons text rest ih =>
      rw [addRuleTexts, ih]
      cases read : RuleText.parse terminals text.toList with
      | ok parsed => simp [read]
      | error problem => simp [read]

end Entering

section Entered

variable (declarations : Declarations α π)

theorem terminals_ranked : Ranks (terminalNames declarations) []
    ({ tokens := terminalNames declarations } : RuleBook) :=
  ⟨rfl, rfl⟩

/-- There are no mistakes in precedence levels and rule texts exactly if no name has a precedence twice
and every text can be read. -/
theorem entered_clean_iff : (entered declarations).2 = [] ↔
    (rankedNames declarations.precedence).Nodup ∧ ∀ declared ∈ declarations.productions,
      ∃ parsed, RuleText.parse (terminalNames declarations) declared.text.toList = .ok parsed := by
  have levels := enter_ranks_clean_iff (ranksFrom 1 declarations.precedence)
    ({ tokens := terminalNames declarations }, []) (terminals_ranked declarations) (by simp)
  rw [entered, add_rule_texts_clean_iff, add_precedences_eq, levels, rankedNames]
  simp

theorem entered_ranks (clean : (entered declarations).2 = []) :
    Ranks (terminalNames declarations) (ranksFrom 1 declarations.precedence)
      (entered declarations).1 := by
  have once := ((entered_clean_iff declarations).mp clean).1
  apply add_rule_texts_keep
  · intro book declaration text ranks
    rw [add_rule_text_eq]
    exact ⟨ranks.precedences, ranks.tokens⟩
  · rw [add_precedences_eq]
    exact enter_ranks_ranks (ranksFrom 1 declarations.precedence) (_, [])
      (terminals_ranked declarations) once

theorem completed_ranks (clean : (entered declarations).2 = []) (first : Rule) :
    Ranks (terminalNames declarations) (ranksFrom 1 declarations.precedence)
      (completed declarations first) := by
  have ranks := entered_ranks declarations clean
  exact ⟨ranks.precedences, ranks.tokens⟩

theorem of_declarations_ranks {book : RuleBook} (read : ofDeclarations declarations = .ok book) :
    Ranks (terminalNames declarations) (ranksFrom 1 declarations.precedence) book := by
  obtain ⟨first, later, clean, _, rfl, _⟩ := completed_of_read read
  exact completed_ranks declarations clean first

end Entered

end RuleBook

end SlrKit
