import SlrKit.Proofs.Lexer.Combined
import SlrKit.Proofs.Lexer.DuplicateNames

/-!
# What keeps a lexer from being made

A lexer is refused for names that are declared more than once and for patterns that cannot be rules, and
all of them are reported together. Where there are none, the lexer is made if the library compiles the
combined pattern.
-/

set_option autoImplicit false

namespace SlrKit

namespace Lexer

open Regex

variable {α π : Type}

/-- A pattern can be that of a rule if the library reads it, inside of another one and by itself, and it
does not match nothing. -/
structure Fits (library : Library) (pattern : String) : Prop where
  accepted : library.Accepts pattern
  nonempty : library.leastSize pattern ≠ .ok (some 0)

/-- Why the library keeps a declaration from being a rule. -/
inductive Refuses (library : Library) (declared : TokenDeclaration) : LexerError → Prop
  | inside {reason : String}
      (failed : library.groupCount (anchored declared.pattern) = .error reason) :
      Refuses library declared ⟨.invalidPattern reason, declared.name⟩
  | alone {count : Nat} {reason : String}
      (counted : library.groupCount (anchored declared.pattern) = .ok count)
      (failed : library.leastSize declared.pattern = .error reason) :
      Refuses library declared ⟨.invalidPattern reason, declared.name⟩
  | idle {count : Nat} (counted : library.groupCount (anchored declared.pattern) = .ok count)
      (least : library.leastSize declared.pattern = .ok (some 0)) :
      Refuses library declared ⟨.emptyMatch, declared.name⟩

/-- One error for each declaration that cannot be a rule, in the order of the declarations. -/
inductive RefusesOf (library : Library) : List TokenDeclaration → List LexerError → Prop
  | nil : RefusesOf library [] []
  | fits {declared : TokenDeclaration} {tokens : List TokenDeclaration} {errors : List LexerError}
      (fits : Fits library declared.pattern) (later : RefusesOf library tokens errors) :
      RefusesOf library (declared :: tokens) errors
  | refused {declared : TokenDeclaration} {error : LexerError} {tokens : List TokenDeclaration}
      {errors : List LexerError} (refused : Refuses library declared error)
      (later : RefusesOf library tokens errors) :
      RefusesOf library (declared :: tokens) (error :: errors)

/-- No name comes twice, and every pattern can be that of a rule. -/
structure Acceptable (library : Library) (declarations : Declarations α π) : Prop where
  names : (declaredNames declarations).Nodup
  patterns : ∀ token ∈ declarations.tokens, Fits library token.pattern

section Mistakes

variable {library : Library}

theorem fits_of_declaration {declared : TokenDeclaration} {rule : Rule}
    (made : Rule.ofDeclaration library declared = .ok rule) : Fits library declared.pattern := by
  unfold Rule.ofDeclaration at made
  split at made
  · cases made
  · rename_i count inside
    split at made
    · cases made
    · cases made
    · rename_i least proper alone
      refine ⟨⟨⟨count, inside⟩, least, alone⟩, ?_⟩
      intro idle
      rw [alone] at idle
      exact proper (Except.ok.inj idle)

theorem refuses_of_declaration {declared : TokenDeclaration} {error : LexerError}
    (failed : Rule.ofDeclaration library declared = .error error) :
    Refuses library declared error := by
  unfold Rule.ofDeclaration at failed
  split at failed
  · rename_i reason unread
    cases failed
    exact Refuses.inside unread
  · rename_i count inside
    split at failed
    · rename_i reason unread
      cases failed
      exact Refuses.alone inside unread
    · rename_i idle
      cases failed
      exact Refuses.idle inside idle
    · cases failed

theorem not_fits_of_refuses {declared : TokenDeclaration} {error : LexerError}
    (refuses : Refuses library declared error) : ¬Fits library declared.pattern := by
  intro fits
  obtain ⟨count, inside⟩ := fits.accepted.inside
  obtain ⟨least, alone⟩ := fits.accepted.alone
  cases refuses with
  | inside failed =>
      rw [inside] at failed
      cases failed
  | alone _ failed =>
      rw [alone] at failed
      cases failed
  | idle _ idle => exact fits.nonempty idle

theorem Refuses.unique {declared : TokenDeclaration} {error other : LexerError}
    (one : Refuses library declared error) (two : Refuses library declared other) :
    error = other := by
  cases one with
  | inside failed =>
      cases two with
      | inside again => rw [Except.error.inj (failed.symm.trans again)]
      | alone counted => cases failed.symm.trans counted
      | idle counted => cases failed.symm.trans counted
  | alone counted failed =>
      cases two with
      | inside again => cases counted.symm.trans again
      | alone _ again => rw [Except.error.inj (failed.symm.trans again)]
      | idle _ least => cases failed.symm.trans least
  | idle counted least =>
      cases two with
      | inside again => cases counted.symm.trans again
      | alone _ again => cases least.symm.trans again
      | idle => rfl

theorem RefusesOf.unique {tokens : List TokenDeclaration} {errors others : List LexerError}
    (one : RefusesOf library tokens errors) (two : RefusesOf library tokens others) :
    errors = others := by
  induction one generalizing others with
  | nil =>
      cases two
      rfl
  | fits fits _ ih =>
      cases two with
      | fits _ later => exact ih later
      | refused refused _ => exact absurd fits (not_fits_of_refuses refused)
  | refused refused _ ih =>
      cases two with
      | fits fits _ => exact absurd fits (not_fits_of_refuses refused)
      | refused again later => rw [refused.unique again, ih later]

theorem failures_refuse (tokens : List TokenDeclaration) :
    RefusesOf library tokens (failures (tokens.map (Rule.ofDeclaration library))) := by
  induction tokens with
  | nil => exact RefusesOf.nil
  | cons declared tokens ih =>
      cases made : Rule.ofDeclaration library declared with
      | ok rule =>
          have later := RefusesOf.fits (fits_of_declaration made) ih
          simpa [failures, made] using later
      | error error =>
          have later := RefusesOf.refused (refuses_of_declaration made) ih
          simpa [failures, made] using later

theorem RefusesOf.append {front back : List TokenDeclaration} {errors more : List LexerError}
    (first : RefusesOf library front errors) (second : RefusesOf library back more) :
    RefusesOf library (front ++ back) (errors ++ more) := by
  induction first with
  | nil => exact second
  | fits fits _ ih => exact RefusesOf.fits fits ih
  | refused refused _ ih => exact RefusesOf.refused refused ih

theorem RefusesOf.eq_nil_iff {tokens : List TokenDeclaration} {errors : List LexerError}
    (refuses : RefusesOf library tokens errors) :
    errors = [] ↔ ∀ token ∈ tokens, Fits library token.pattern := by
  induction refuses with
  | nil => simp
  | fits fits _ ih => simp [ih, fits]
  | refused refused _ _ => simp [not_fits_of_refuses refused]

theorem mem_tokens_iff (declarations : Declarations α π) (token : TokenDeclaration) :
    token ∈ declarations.tokens ↔ token ∈ declarations.handlerTokens ++ declarations.simpleTokens := by
  simp only [Declarations.handlerTokens, Declarations.simpleTokens, List.mem_append, List.mem_filter]
  cases token.hasHandler <;> simp

/-- The mistakes in the patterns of declarations. -/
def refusals (library : Library) (declarations : Declarations α π) : List LexerError :=
  failures (declarations.handlerTokens.map (Rule.ofDeclaration library)) ++
    failures (declarations.simpleTokens.map (Rule.ofDeclaration library))

theorem refusals_refuse (library : Library) (declarations : Declarations α π) :
    RefusesOf library (declarations.handlerTokens ++ declarations.simpleTokens)
      (refusals library declarations) :=
  (failures_refuse _).append (failures_refuse _)

theorem acceptable_iff {declarations : Declarations α π} : Acceptable library declarations ↔
    duplicateNames declarations ++ refusals library declarations = [] := by
  rw [List.append_eq_nil_iff, duplicate_names_eq_nil_iff,
    (refusals_refuse library declarations).eq_nil_iff]
  simp only [← mem_tokens_iff]
  exact ⟨fun holds => ⟨holds.names, holds.patterns⟩, fun holds => ⟨holds.1, holds.2⟩⟩

end Mistakes

section Defining

variable {library : Library} {declarations : Declarations α π}

theorem define_of_mistakes
    (wrong : duplicateNames declarations ++ refusals library declarations ≠ []) :
    (define library declarations).value =
      .error (duplicateNames declarations ++ refusals library declarations) := by
  rw [refusals, ← List.append_assoc] at wrong ⊢
  unfold define
  simp only
  split
  · rename_i error errors mistakes
    rw [mistakes]
  · rename_i clean
    exact absurd clean wrong

/-- Without mistakes the lexer of the rules in their order is made, if their patterns go together. -/
theorem define_of_acceptable (acceptable : Acceptable library declarations) :
    ∃ rules, InPriority library declarations rules ∧ (define library declarations).value =
      match searcherOf library rules with
      | .ok searcher? => .ok ⟨branchesFrom 1 rules, searcher?, declarations.literals,
          declarations.onLexError⟩
      | .error reason => .error [⟨.invalidPattern reason, "|".intercalate (rules.map (·.name))⟩] := by
  have clean := acceptable_iff.mp acceptable
  rw [refusals, List.append_eq_nil_iff, List.append_eq_nil_iff] at clean
  obtain ⟨single, handled, plain⟩ := clean
  refine ⟨_, in_priority_of_no_failures handled plain, ?_⟩
  unfold define
  simp only [single, handled, plain, List.append_nil]
  generalize searcherOf library (inPriority _ _) = compiled
  cases compiled with
  | ok searcher? => rfl
  | error reason => rfl

end Defining

/-- A lexer is made only from declarations without a name that comes twice and without a pattern that
cannot be that of a rule. Otherwise the mistakes are reported: each name that comes more than once, where
it comes first and with all its places, as the register tells them, and then each pattern that cannot be
that of a rule, in the order of the declarations, those with a handler first. Without such mistakes the
lexer is made, unless its combined pattern cannot be compiled. -/
theorem lexer_mistakes_are_complete (library : Library) (declarations : Declarations α π) :
    (∀ definition, (define library declarations).value = .ok definition →
        Acceptable library declarations) ∧
      (¬Acceptable library declarations → ∃ duplicates refused,
        ReportsDuplicates declarations duplicates ∧
        (Register.ofDeclarations declarations).duplicates = duplicates ∧
        RefusesOf library (declarations.handlerTokens ++ declarations.simpleTokens) refused ∧
        (define library declarations).value = .error (duplicates ++ refused)) ∧
      (Acceptable library declarations → ∃ rules, InPriority library declarations rules ∧
        ((∃ definition, (define library declarations).value = .ok definition ∧
            definition.rules = rules ∧
            (rules = [] ∨ ∃ search, library.compile (combinedText rules) = .ok search ∧
              definition.searcher? = some search)) ∨
          ∃ reason, rules ≠ [] ∧ library.compile (combinedText rules) = .error reason ∧
            (define library declarations).value =
              .error [⟨.invalidPattern reason, "|".intercalate (rules.map (·.name))⟩])) := by
  refine ⟨?_, ?_, ?_⟩
  · intro definition made
    rw [acceptable_iff]
    by_contra wrong
    rw [define_of_mistakes wrong] at made
    cases made
  · intro wrong
    rw [acceptable_iff] at wrong
    exact ⟨duplicateNames declarations, refusals library declarations,
      duplicate_names_report declarations, Register.duplicates_of_declarations declarations,
      refusals_refuse library declarations, define_of_mistakes wrong⟩
  · intro acceptable
    obtain ⟨rules, order, outcome⟩ := define_of_acceptable acceptable
    refine ⟨rules, order, ?_⟩
    cases rules with
    | nil => exact Or.inl ⟨_, outcome, rfl, Or.inl rfl⟩
    | cons first others =>
        rw [searcherOf, List.isEmpty_cons, if_neg Bool.false_ne_true] at outcome
        cases compiled : library.compile (combinedText (first :: others)) with
        | ok search =>
            rw [compiled] at outcome
            exact Or.inl ⟨_, outcome, rules_of_branches 1 _, Or.inr ⟨search, rfl, rfl⟩⟩
        | error reason =>
            rw [compiled] at outcome
            exact Or.inr ⟨reason, List.cons_ne_nil first others, rfl, outcome⟩

/-! A name that a token rule and a keyword share, a character that is declared twice, and two patterns
that cannot be those of rules. -/
namespace Mistaken

def declarations : Declarations Nat Nat where
  tokens := [⟨"A", "b*", none⟩, ⟨"B", "a(", some fun token => (token, .discard)⟩]
  literals := ['+', '-', '+']
  keywords := ["A"]

theorem duplicates_eq : (Register.ofDeclarations declarations).duplicates =
    [⟨.duplicateName [⟨.token, 0⟩, ⟨.keyword, 0⟩], "A"⟩,
      ⟨.duplicateName [⟨.literal, 0⟩, ⟨.literal, 2⟩], "+"⟩] := by
  cbv

theorem refusals_eq : refusals Pattern.library declarations =
    [⟨.invalidPattern "", "B"⟩, ⟨.emptyMatch, "A"⟩] := by
  cbv

theorem not_acceptable : ¬Acceptable Pattern.library declarations := by
  rw [acceptable_iff, refusals_eq]
  exact List.append_ne_nil_of_right_ne_nil _ (by simp)

theorem four_mistakes : ¬Acceptable Pattern.library declarations ∧
    (define Pattern.library declarations).value =
      .error [⟨.duplicateName [⟨.token, 0⟩, ⟨.keyword, 0⟩], "A"⟩,
        ⟨.duplicateName [⟨.literal, 0⟩, ⟨.literal, 2⟩], "+"⟩,
        ⟨.invalidPattern "", "B"⟩, ⟨.emptyMatch, "A"⟩] := by
  obtain ⟨duplicates, refused, _, registered, refuses, outcome⟩ :=
    (lexer_mistakes_are_complete Pattern.library declarations).2.1 not_acceptable
  have listed := refuses.unique (refusals_refuse Pattern.library declarations)
  rw [duplicates_eq] at registered
  rw [← registered, listed, refusals_eq] at outcome
  exact ⟨not_acceptable, outcome⟩

end Mistaken

end Lexer

end SlrKit
