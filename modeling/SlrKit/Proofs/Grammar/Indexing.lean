import SlrKit.Proofs.Grammar.Consistency
import SlrKit.Proofs.Grammar.Levels

/-!
# The compiled grammar as an indexing of the declarations

Compilation reports mistakes if the declarations are not consistent, it faults if they declare more than
the width can number, and otherwise it makes a grammar that numbers exactly what is declared. In such a
grammar no number is too large for the width. Names and numbers belong together one to one, every
production is the alternative that was written in its place, and every rule lists the productions that
belong to it, each with a row of its own.
-/

set_option autoImplicit false

namespace SlrKit

variable {α π : Type}

/-! A grammar as it is when all its numbers are stored with a width. -/

def Symbol.stored (width : IndexWidth) : Symbol → Symbol
  | .rule number => .rule (width.truncate number)
  | .token number => .token (width.truncate number)

def Production.stored (width : IndexWidth) (production : Production) : Production :=
  { production with
    rule := width.truncate production.rule
    symbols := production.symbols.map (Symbol.stored width) }

def Grammar.stored (width : IndexWidth) (grammar : Grammar) : Grammar :=
  { grammar with productions := grammar.productions.map (Production.stored width) }

/-- The name that a production takes its precedence from: that of its precedence clause, or else that of
its last token. -/
def Written.binding? (written : Written) : Option String :=
  match written.alternative.precedence with
  | some (name, _) => some name
  | none => Grammar.lastToken? written.alternative.symbols

/-- The numbers of the productions as the book lists them, by rule; the first list is that of the rule
above the start. -/
def RuleBook.lists (book : RuleBook) : List (List Nat) :=
  [book.productions.length] :: book.rules.map RuleBook.Rule.productions

namespace Grammar

/-- The width holds all numbers and all counts. -/
structure Fits (width : IndexWidth) (grammar : Grammar) : Prop where
  numbers : grammar.stored width = grammar
  rules : ∀ number, number ≤ grammar.ruleCount → width.truncate number = number
  tokens : ∀ number, number ≤ grammar.tokenCount → width.truncate number = number
  productions : ∀ number, number ≤ grammar.productionCount → width.truncate number = number
  places : ∀ production place, place ≤ (grammar.symbols production).length →
    width.truncate place = place

/-- The productions, rules and tokens are those of the declarations, and all precedences are the ones
declared for the names they come from. -/
structure Renders (declarations : Declarations α π) (grammar : Grammar) : Prop where
  count : grammar.productionCount = (Written.inDeclarations declarations).length + 1
  written : ∀ production written,
    (Written.inDeclarations declarations)[production]? = some written →
      grammar.WrittenAs production written ∧
        grammar.productionPrecedence production =
          written.binding?.bind (RuleBook.declaredPrecedence? declarations.precedence)
  rules : grammar.ruleNames.toList = startName :: RuleBook.ruleNames declarations
  tokens : grammar.namedTokens.toList.map NamedToken.name = RuleBook.tokenNames declarations
  tokenPrecedences : ∀ token name, grammar.tokenName? token = some name →
    grammar.tokenPrecedence token = RuleBook.declaredPrecedence? declarations.precedence name

/-- Every rule lists its own productions, of which there is one at least and no two have the same
symbols. These are the lists of the book that the declarations are read as. -/
structure ListsProductions (declarations : Declarations α π) (grammar : Grammar) : Prop where
  lists : ∃ book, RuleBook.ofDeclarations declarations = .ok book ∧
    book.lists = (List.range grammar.ruleCount).map grammar.productionsOf
  listed : ∀ rule production, production ∈ grammar.productionsOf rule ↔
    production < grammar.productionCount ∧ grammar.ruleOf production = rule
  once : ∀ rule, (grammar.productionsOf rule).Nodup
  nonempty : ∀ rule, rule < grammar.ruleCount → grammar.productionsOf rule ≠ []
  distinct : ∀ rule, ∀ first ∈ grammar.productionsOf rule,
    ∀ second ∈ grammar.productionsOf rule,
      grammar.symbols first = grammar.symbols second → first = second

/-- Names and numbers belong together one to one. -/
structure NamesOnce (grammar : Grammar) : Prop where
  rules : ∀ name rule, grammar.ruleIndex? name = some rule ↔ grammar.ruleNames[rule]? = some name
  tokens : ∀ name token, grammar.tokenIndex? name = some token ↔
    grammar.tokenName? token = some name

/-- The rule above the start has a single production, which leads to the rule that the author starts
with. Neither this rule nor the end of the input is in any production. -/
structure StartsAbove (declarations : Declarations α π) (grammar : Grammar) : Prop where
  named : grammar.ruleNames[startRule]? = some startName
  alone : grammar.productionsOf startRule = [grammar.startProduction]
  leads : ∃ name, declarations.startName? = some name ∧
    ∃ rule, grammar.ruleNames[rule]? = some name ∧
      grammar.symbols grammar.startProduction = [.rule rule]
  undeclared : grammar.declarationOf grammar.startProduction = none ∧
    grammar.productionPrecedence grammar.startProduction = none
  unused : ∀ production, Symbol.rule startRule ∉ grammar.symbols production ∧
    Symbol.token grammar.endToken ∉ grammar.symbols production

structure Indexes (width : IndexWidth) (declarations : Declarations α π) (grammar : Grammar) :
    Prop where
  fits : grammar.Fits width
  renders : grammar.Renders declarations
  lists : grammar.ListsProductions declarations
  names : grammar.NamesOnce
  start : grammar.StartsAbove declarations

/-- There is more of something than the width can number with one to spare. -/
inductive TooNarrow (width : IndexWidth) (declarations : Declarations α π) : Fault → Prop
  | rules (many : width.largest ≤ (RuleBook.ruleNames declarations).length) :
      TooNarrow width declarations .tooManyRules
  | tokens (many : width.largest ≤ (RuleBook.tokenNames declarations).length) :
      TooNarrow width declarations .tooManyTokens
  | productions (many : width.largest ≤ (Written.inDeclarations declarations).length) :
      TooNarrow width declarations .tooManyProductions
  | symbols {written : Written} (member : written ∈ Written.inDeclarations declarations)
      (many : width.largest ≤ written.alternative.symbols.length) :
      TooNarrow width declarations .tooManySymbols

/-- What compilation comes to. -/
inductive Outcome (width : IndexWidth) (declarations : Declarations α π) :
    Except Failure Grammar → Prop
  | mistaken {errors : List GrammarError} (inconsistent : ¬declarations.Consistent)
      (some : errors ≠ []) : Outcome width declarations (.error (.invalid errors))
  | tooNarrow {fault : Fault} (consistent : declarations.Consistent)
      (narrow : TooNarrow width declarations fault)
      (own : "StorageT is not big enough".toList <+: fault.message.toList) :
      Outcome width declarations (.error (.unrepresentable fault))
  | made {grammar : Grammar} (consistent : declarations.Consistent)
      (indexes : grammar.Indexes width declarations) : Outcome width declarations (.ok grammar)

section Width

variable {width : IndexWidth} {book : RuleBook}

theorem truncate_of_le {number : Nat} (small : number ≤ width.largest) :
    width.truncate number = number :=
  Nat.mod_eq_of_lt (Nat.lt_succ_of_le small)

theorem one_le_largest : 1 ≤ width.largest := by
  cases width with
  | bits8 => decide
  | bits16 => decide
  | bits32 => decide
  | bits64 => decide

theorem fits_of_check (fits : checkWidth width book = .ok ()) :
    book.rules.length < width.largest ∧ book.tokens.length < width.largest ∧
      book.productions.length < width.largest ∧
      ∀ production ∈ book.productions, production.symbols.length < width.largest := by
  unfold checkWidth at fits
  split at fits
  · cases fits
  · split at fits
    · cases fits
    · split at fits
      · cases fits
      · split at fits
        · cases fits
        · rename_i rules tokens productions rows
          simp only [List.any_eq_true, decide_eq_true_eq, not_exists, not_and] at rows
          exact ⟨Nat.lt_of_not_le rules, Nat.lt_of_not_le tokens, Nat.lt_of_not_le productions,
            fun production member => Nat.lt_of_not_le (rows production member)⟩

theorem TooNarrow.message {declarations : Declarations α π} {fault : Fault}
    (narrow : TooNarrow width declarations fault) :
    "StorageT is not big enough".toList <+: fault.message.toList := by
  cases narrow with
  | rules => exact List.isPrefixOf_iff_prefix.mp (by decide)
  | tokens => exact List.isPrefixOf_iff_prefix.mp (by decide)
  | productions => exact List.isPrefixOf_iff_prefix.mp (by decide)
  | symbols => exact List.isPrefixOf_iff_prefix.mp (by decide)

theorem symbol_stored {grammar : Grammar} {symbol : Symbol} (occurs : grammar.Occurs symbol)
    (rules : grammar.ruleCount ≤ width.largest) (tokens : grammar.endToken ≤ width.largest) :
    symbol.stored width = symbol := by
  cases symbol with
  | rule number =>
      have bound := occurs.2
      rw [Symbol.stored, truncate_of_le (by omega)]
  | token number =>
      have bound : number < grammar.endToken := occurs
      rw [Symbol.stored, truncate_of_le (by omega)]

theorem stored_eq {grammar : Grammar} (wellFormed : grammar.WellFormed)
    (rules : grammar.ruleCount ≤ width.largest) (tokens : grammar.endToken ≤ width.largest) :
    grammar.stored width = grammar := by
  have each : ∀ production ∈ grammar.productions, production.stored width = production := by
    intro production member
    obtain ⟨index, bound, rfl⟩ := Array.mem_iff_getElem.mp member
    have found := Array.getElem?_eq_getElem bound
    have rule := wellFormed.ruleBound index
    have occur := wellFormed.symbolsOccur index
    rw [ruleOf, found] at rule
    rw [symbols, found] at occur
    have row : grammar.productions[index].symbols.map (Symbol.stored width) =
        grammar.productions[index].symbols :=
      (List.map_congr_left fun symbol inside => symbol_stored (occur symbol inside) rules tokens).trans
        (List.map_id _)
    rw [Production.stored, row, truncate_of_le (Nat.le_trans (Nat.le_of_lt rule) rules)]
  rw [stored, Array.map_congr_left each, Array.map_id']

theorem fits_of_rule_book (sound : book.Sound) (fits : checkWidth width book = .ok ()) :
    (ofRuleBook book).Fits width := by
  obtain ⟨rules, tokens, productions, rows⟩ := fits_of_check fits
  have ruleCount := rule_count_of_rule_book book
  have endToken := end_token_of_rule_book book
  have productionCount := production_count_of_rule_book book
  constructor
  · exact stored_eq (of_rule_book_well_formed book sound) (by omega) (by omega)
  · intro number bound
    exact truncate_of_le (by omega)
  · intro number bound
    rw [tokenCount, ← Grammar.endToken] at bound
    exact truncate_of_le (by omega)
  · intro number bound
    exact truncate_of_le (by omega)
  · intro production place bound
    apply truncate_of_le
    by_cases inner : production < book.productions.length
    · rw [symbols, production_of_rule_book book production inner, List.length_map] at bound
      exact Nat.le_trans bound (Nat.le_of_lt (rows _ (List.getElem_mem inner)))
    · have short : ((ofRuleBook book).symbols production).length ≤ 1 := by
        by_cases last : production = book.productions.length
        · rw [symbols, last, last_production_of_rule_book]
          exact Nat.le_refl 1
        · rw [symbols, no_production_of_rule_book book production (by omega)]
          exact Nat.zero_le 1
      exact Nat.le_trans (Nat.le_trans bound short) one_le_largest

end Width

section Declared

variable {width : IndexWidth} {declarations : Declarations α π} {book : RuleBook}

theorem narrow_of_check (read : RuleBook.ofDeclarations declarations = .ok book) {fault : Fault}
    (narrow : checkWidth width book = .error fault) : TooNarrow width declarations fault := by
  have rules := congrArg List.length (RuleBook.of_declarations_files read).rules
  have tokens : book.tokens = RuleBook.tokenNames declarations :=
    (RuleBook.of_declarations_ranks declarations read).tokens
  have productions := (RuleBook.of_declarations_lists declarations book read).productions
  rw [List.length_map] at rules
  unfold checkWidth at narrow
  split at narrow
  · rename_i many
    cases narrow
    rw [rules] at many
    exact .rules many
  · split at narrow
    · rename_i many
      cases narrow
      rw [tokens] at many
      exact .tokens many
    · split at narrow
      · rename_i many
        cases narrow
        rw [productions, List.length_map] at many
        exact .productions many
      · split at narrow
        · rename_i some
          cases narrow
          obtain ⟨production, member, many⟩ := List.any_eq_true.mp some
          rw [productions] at member
          obtain ⟨written, among, rfl⟩ := List.mem_map.mp member
          exact .symbols among (of_decide_eq_true many)
        · cases narrow

theorem precedence_of_written (read : RuleBook.ofDeclarations declarations = .ok book)
    (written : Written) : precedenceOf book written.production =
      written.binding?.bind (RuleBook.declaredPrecedence? declarations.precedence) := by
  have ranked : book.precedence? =
      RuleBook.declaredPrecedence? declarations.precedence := by
    funext name
    exact RuleBook.precedence_of_ranks (RuleBook.of_declarations_ranks declarations read) name
  rw [precedenceOf, Written.binding?, Written.production, ranked]
  cases written.alternative.precedence with
  | none => rfl
  | some clause => rfl

theorem written_of_read (read : RuleBook.ofDeclarations declarations = .ok book)
    {production : Nat} {written : Written}
    (found : (Written.inDeclarations declarations)[production]? = some written) :
    (ofRuleBook book).WrittenAs production written ∧
      (ofRuleBook book).productionPrecedence production =
        written.binding?.bind (RuleBook.declaredPrecedence? declarations.precedence) := by
  have sound := RuleBook.of_declarations_sound declarations book read
  have lists := RuleBook.of_declarations_lists declarations book read
  have here : book.productions[production]? = some written.production := by
    rw [lists.productions, List.getElem?_map, found]
    rfl
  obtain ⟨bound, same⟩ := List.getElem?_eq_some_iff.mp here
  refine ⟨written_as_of_rule_book sound lists found, ?_⟩
  rw [production_precedence_of_rule_book book production bound, same]
  exact precedence_of_written read written

theorem renders_of_read (read : RuleBook.ofDeclarations declarations = .ok book) :
    (ofRuleBook book).Renders declarations := by
  have lists := RuleBook.of_declarations_lists declarations book read
  constructor
  · rw [production_count_of_rule_book, lists.productions, List.length_map]
  · intro production written found
    exact written_of_read read found
  · exact congrArg (startName :: ·) (RuleBook.of_declarations_files read).rules
  · rw [RuleBook.tokenNames, RuleBook.rankedNames,
      ← (RuleBook.of_declarations_ranks declarations read).tokens]
    simp [ofRuleBook, Function.comp_def]
  · intro token name named
    rw [token_name_of_rule_book] at named
    rw [token_precedence_of_rule_book, named, Option.bind_some,
      RuleBook.precedence_of_ranks (RuleBook.of_declarations_ranks declarations read)]

theorem rule_names_distinct (read : RuleBook.ofDeclarations declarations = .ok book) :
    (ofRuleBook book).ruleNames.toList.Nodup := by
  have files := RuleBook.of_declarations_files read
  have free : startName ∉ book.rules.map RuleBook.Rule.name := by
    rw [files.rules, RuleBook.mem_fold_add_new_iff]
    rintro (none | among)
    · cases none
    · obtain ⟨written, member, same⟩ := List.mem_map.mp among
      have named := Written.rule_is_name member
      rw [same] at named
      exact absurd named (by decide)
  have names : (ofRuleBook book).ruleNames.toList =
      startName :: book.rules.map RuleBook.Rule.name := rfl
  rw [names]
  exact List.nodup_cons.mpr ⟨free, rule_names_nodup files⟩

theorem rule_index_iff {grammar : Grammar} (distinct : grammar.ruleNames.toList.Nodup)
    (name : String) (rule : Nat) :
    grammar.ruleIndex? name = some rule ↔ grammar.ruleNames[rule]? = some name := by
  rw [ruleIndex?, Array.findIdx?_eq_some_iff_getElem]
  constructor
  · rintro ⟨bound, same, _⟩
    rw [Array.getElem?_eq_getElem bound, beq_iff_eq.mp same]
  · intro named
    obtain ⟨bound, here⟩ := Array.getElem?_eq_some_iff.mp named
    refine ⟨bound, by simp [here], ?_⟩
    intro earlier before
    have differ := List.pairwise_iff_getElem.mp distinct earlier rule (by simp; omega)
      (by simpa using bound) before
    simpa [here] using differ

theorem names_of_read (read : RuleBook.ofDeclarations declarations = .ok book) :
    (ofRuleBook book).NamesOnce := by
  have wellFormed := of_rule_book_well_formed book
    (RuleBook.of_declarations_sound declarations book read)
  constructor
  · exact rule_index_iff (rule_names_distinct read)
  · intro name token
    exact ⟨token_name_of_index name token, token_index_of_name wellFormed token name⟩

theorem productions_of_start {grammar : Grammar} (wellFormed : grammar.WellFormed) :
    grammar.productionsOf startRule = [grammar.startProduction] := by
  have increasing : (grammar.productionsOf startRule).Pairwise (· < ·) :=
    List.pairwise_lt_range.filter _
  apply increasing.eq_of_mem_iff (List.pairwise_singleton _ _)
  intro production
  rw [mem_productions_of, List.mem_singleton]
  constructor
  · rintro ⟨bound, ofStart⟩
    exact wellFormed.startAlone production bound ofStart
  · rintro rfl
    have nonempty := wellFormed.nonempty
    exact ⟨by rw [startProduction]; omega, wellFormed.startsAtStartRule⟩

theorem rule_cases {rule : Nat} (bound : rule < (ofRuleBook book).ruleCount) :
    rule = startRule ∨ ∃ place entry, book.rules[place]? = some entry ∧ rule = 1 + place := by
  rw [rule_count_of_rule_book] at bound
  cases rule with
  | zero => exact .inl rfl
  | succ place =>
      exact .inr ⟨place, _, List.getElem?_eq_getElem (Nat.lt_of_succ_lt_succ bound),
        Nat.add_comm place 1⟩

theorem lists_of_rule_book {names : List String} (sound : book.Sound) (files : book.Files names) :
    book.lists = (List.range (ofRuleBook book).ruleCount).map (ofRuleBook book).productionsOf := by
  have above := productions_of_start (of_rule_book_well_formed book sound)
  rw [startRule, start_production_of_rule_book] at above
  rw [RuleBook.lists, rule_count_of_rule_book, List.range_succ_eq_map, List.map_cons, above,
    List.map_map]
  congr 1
  apply List.ext_getElem
  · simp
  · intro place inside _
    rw [List.length_map] at inside
    have listed := productions_of_listed files (List.getElem?_eq_getElem inside)
    rw [Nat.add_comm] at listed
    simp [listed]

theorem productions_of_ne_nil {names : List String} (sound : book.Sound) (files : book.Files names)
    (rule : Nat) (bound : rule < (ofRuleBook book).ruleCount) :
    (ofRuleBook book).productionsOf rule ≠ [] := by
  rcases rule_cases bound with rfl | ⟨place, entry, found, rfl⟩
  · rw [productions_of_start (of_rule_book_well_formed book sound)]
    exact List.cons_ne_nil _ _
  · have member := List.mem_of_getElem? found
    have among : entry.name ∈ names.foldl addNew [] := by
      rw [← files.rules]
      exact List.mem_map_of_mem member
    rw [productions_of_listed files found, files.listed entry member]
    intro none
    rw [List.idxsOf_eq_nil_iff] at none
    rcases (RuleBook.mem_fold_add_new_iff names [] entry.name).mp among with never | written
    · cases never
    · simpa using none _ written

theorem rows_of_rule_distinct {names : List String} (sound : book.Sound)
    (rows : ∀ rule ∈ book.rules, (book.productionsOf rule).Pairwise RuleBook.Differ)
    (files : book.Files names) (rule : Nat) :
    ∀ first ∈ (ofRuleBook book).productionsOf rule,
      ∀ second ∈ (ofRuleBook book).productionsOf rule,
        (ofRuleBook book).symbols first = (ofRuleBook book).symbols second → first = second := by
  intro first one second other same
  have wellFormed := of_rule_book_well_formed book sound
  have own := ((ofRuleBook book).mem_productions_of rule first).mp one
  have bound := wellFormed.ruleBound first
  rw [own.2] at bound
  rcases rule_cases bound with rfl | ⟨place, entry, found, rfl⟩
  · rw [productions_of_start wellFormed, List.mem_singleton] at one other
    rw [one, other]
  · have member := List.mem_of_getElem? found
    rw [productions_of_listed files found] at one other
    have inside : ∀ production ∈ entry.productions, production < book.productions.length := by
      intro production listed
      rw [files.listed entry member, mem_idxs_of_iff] at listed
      rw [files.count]
      exact (List.getElem?_eq_some_iff.mp listed).1
    -- Each row was compared with the ones before it only.
    have symmetric : Std.Symm fun first second =>
        (ofRuleBook book).symbols first ≠ (ofRuleBook book).symbols second :=
      ⟨fun _ _ => Ne.symm⟩
    by_contra differ
    exact (rows_distinct sound (rows entry member) inside).forall one other differ same

theorem lists_of_read (read : RuleBook.ofDeclarations declarations = .ok book) :
    (ofRuleBook book).ListsProductions declarations := by
  have sound := RuleBook.of_declarations_sound declarations book read
  have files := RuleBook.of_declarations_files read
  have rows : ∀ rule ∈ book.rules, (book.productionsOf rule).Pairwise RuleBook.Differ := by
    obtain ⟨name, _, starts⟩ := sound.start
    obtain ⟨_, _, _, _, _, clean⟩ := RuleBook.completed_of_read read
    intro rule member
    exact (((book.errors_eq_nil_iff name starts).mp clean).2 rule member).2
  constructor
  · exact ⟨book, read, lists_of_rule_book sound files⟩
  · exact (ofRuleBook book).mem_productions_of
  · intro rule
    exact List.nodup_range.filter _
  · exact productions_of_ne_nil sound files
  · exact rows_of_rule_distinct sound rows files

theorem start_of_read (read : RuleBook.ofDeclarations declarations = .ok book) :
    book.start = declarations.startName? := by
  obtain ⟨first, later, _, some, rfl, _⟩ := RuleBook.completed_of_read read
  exact RuleBook.start_of_first some

theorem starts_of_read (read : RuleBook.ofDeclarations declarations = .ok book) :
    (ofRuleBook book).StartsAbove declarations := by
  have sound := RuleBook.of_declarations_sound declarations book read
  have wellFormed := of_rule_book_well_formed book sound
  have last := last_production_of_rule_book book
  constructor
  · rfl
  · exact productions_of_start wellFormed
  · obtain ⟨name, known, starts⟩ := sound.start
    refine ⟨name, by rw [← start_of_read read, starts], numberRule book name, ?_, ?_⟩
    · rw [numberRule, rule_name_of_rule_book]
      exact List.getElem?_idxOf known
    · rw [start_production_of_rule_book, symbols, last]
      simp [startOf, starts]
  · rw [start_production_of_rule_book, declarationOf, productionPrecedence, last]
    exact ⟨rfl, rfl⟩
  · intro production
    constructor
    · intro inside
      have occurs := wellFormed.symbolsOccur production _ inside
      exact Nat.lt_irrefl _ occurs.1
    · intro inside
      exact Nat.lt_irrefl _ (wellFormed.symbolsOccur production _ inside)

end Declared

/-- Compilation reports mistakes if the declarations are not consistent, it faults if they declare more
than the width can number, and otherwise it makes a grammar that numbers what is declared. -/
theorem compilation_indexes_declarations (width : IndexWidth) (declarations : Declarations α π) :
    Outcome width declarations (compile width declarations) := by
  have exists_book := @RuleBook.exists_book_iff _ _ declarations
  unfold compile
  cases read : RuleBook.ofDeclarations declarations with
  | error errors =>
      have inconsistent : ¬declarations.Consistent := by
        rw [← exists_book, read]
        simp
      exact .mistaken inconsistent (RuleBook.errors_ne_nil_of_read read)
  | ok book =>
      have consistent : declarations.Consistent := exists_book.mp ⟨book, read⟩
      dsimp only
      cases fits : checkWidth width book with
      | error fault =>
          have narrow := narrow_of_check read fits
          exact .tooNarrow consistent narrow narrow.message
      | ok done =>
          have sound := RuleBook.of_declarations_sound declarations book read
          exact .made consistent ⟨fits_of_rule_book sound fits, renders_of_read read,
            lists_of_read read, names_of_read read, starts_of_read read⟩

end Grammar

end SlrKit
