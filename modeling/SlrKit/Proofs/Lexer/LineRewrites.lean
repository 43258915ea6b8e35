import SlrKit.Proofs.Lexer.Positions

/-!
# Lines that handlers rewrite

A handler that puts its token on another line moves all tokens after it by as many lines, until the next
handler does so: they are shown on the line given to the token and as many lines further as there are
between them in the input. No token is shown on a line before the first. A handler that is given a token
which would have been before it, and was raised to it, moves the tokens after it from where they would
have been, so that they are short of its line by as much as the token was raised. Lines are summed up in
64 bits with a sign, and sums beyond them wrap around.
-/

set_option autoImplicit false

namespace SlrKit

namespace Lexer

/-- The line that a token on a line of the input would be shown on after some events. It can be before
the first. -/
def lineSumAfter (events : List Event) (line : Nat) : Int :=
  (Int64.ofNat line + adjustment events).toInt

/-- A token whose handler moved it to a line moves what comes after it to as many lines behind that line,
less as many as the token had been raised. -/
theorem line_sum_after_rewrite (earlier : List Event) (found token : Token) (verdict : Verdict)
    (first line : Nat) :
    lineSumAfter (earlier ++ [.matched found token verdict]) line =
      ((token.line : Int) + ((line : Int) - first) -
        (found.line - lineSumAfter earlier first)).bmod (2 ^ 64) := by
  have same : Int64.ofNat line + adjustment (earlier ++ [.matched found token verdict]) =
      Int64.ofInt ((token.line : Int) + ((line : Int) - first) -
        (found.line - lineSumAfter earlier first)) := by
    rw [adjustment_snoc, Event.adjustment]
    simp only [lineSumAfter, Int64.ofInt_add, Int64.ofInt_sub, Int64.ofInt_toInt,
      Int64.ofInt_eq_ofNat]
    grind
  rw [lineSumAfter, same]
  exact Int64.toInt_ofInt

/-- What stands `line - first` lines behind a token whose handler moved it to a line is shown as many
lines behind that line, if no handler between them changes a line; less as many lines as the token had
been raised. Unless earlier handlers have put the token on a line before the first, it has not been
raised. Lines of 2 ^ 63 and more wrap around. -/
theorem line_rewrites_persist (definition : Definition) (text : List Char)
    (earlier between later : List Event) (found token : Token) (verdict : Verdict) (event : Event)
    (run : (moves definition (State.ofText text)).1 =
      earlier ++ .matched found token verdict :: (between ++ event :: later))
    (kept : ∀ other ∈ between, other.adjustment = 0) :
    definition.Lexes text (earlier ++ .matched found token verdict :: (between ++ event :: later)) ∧
    ∃ first, (LineIndex.ofText text).line? found.span.start = some first ∧
      (found.line : Int) = max (lineSumAfter earlier first) 1 ∧
      ∀ place ∈ event.places, ∃ line, (LineIndex.ofText text).line? place.offset = some line ∧
        first ≤ line ∧
        (place.line : Int) = max (((token.line : Int) + ((line : Int) - first) -
          (found.line - lineSumAfter earlier first)).bmod (2 ^ 64)) 1 ∧
        (1 ≤ lineSumAfter earlier first → token.line + (line - first) < 2 ^ 63 →
          place.line = max (token.line + (line - first)) 1) := by
  obtain ⟨before, after, overflowed, at_place, shift, _, moved, rest⟩ :=
    exists_state_at [] (State.of_text_at text) rfl run
  obtain ⟨known, _, _, raised⟩ := place_of_move at_place moved found.place (by simp [Event.places])
  rw [List.nil_append] at shift
  rw [shift] at raised
  refine ⟨run ▸ lexes definition text, before.line, known, raised, ?_⟩
  intro place member
  have onward : (moves definition before).1 =
      (.matched found token verdict :: between) ++ event :: later := rest
  obtain ⟨there, next, flag, there_at, sum, below, passed, _⟩ :=
    exists_state_at earlier at_place shift onward
  obtain ⟨here, _, _, shown⟩ := place_of_move there_at passed place member
  -- What comes between leaves lines alone, so the sum is the one right behind the rewrite.
  have moves_on : adjustment (earlier ++ .matched found token verdict :: between) =
      adjustment (earlier ++ [.matched found token verdict]) := by
    rw [adjustment_append, adjustment_snoc, adjustment, adjustment_eq_zero kept, Int64.add_zero]
  have rewritten := line_sum_after_rewrite earlier found token verdict before.line there.line
  rw [sum, moves_on, ← lineSumAfter, rewritten] at shown
  refine ⟨there.line, here, below, shown, ?_⟩
  intro unraised small
  rw [← lineSumAfter] at raised
  have own : (found.line : Int) = lineSumAfter earlier before.line := by
    simp only [Token.place] at raised
    omega
  have exact_sum : ((token.line : Int) + ((there.line : Int) - before.line)).bmod (2 ^ 64) =
      (token.line : Int) + ((there.line : Int) - before.line) := by
    apply Int.bmod_eq_of_le <;> omega
  rw [own, Int.sub_self, Int.sub_zero, exact_sum] at shown
  omega

/-! Digits that put themselves on the line that they stand for, and letters. -/
namespace Directives

def directive (line : Nat) : TokenHandler := fun token => ({ token with line }, .discard)

def declarations : Declarations Nat Nat where
  tokens := [⟨"zero", "0", some (directive 0)⟩, ⟨"five", "5", some (directive 5)⟩]
  literals := ['a']

def zeroRule : Rule := ⟨"zero", "0", some (directive 0), 0⟩

def fiveRule : Rule := ⟨"five", "5", some (directive 5), 0⟩

def definition : Definition where
  branches := [⟨zeroRule, 1⟩, ⟨fiveRule, 2⟩]
  searcher? := some (Pattern.program (.alt (.group 1 (.chars ⟨[(48, 48)]⟩))
    (.group 2 (.chars ⟨[(53, 53)]⟩)))).searcher
  literals := ['a']
  onError := fun _ _ => 0

theorem is_made : (define Pattern.library declarations).value = .ok definition := by cbv

def text : List Char := ['0', '5', 'a']

def zero (line : Nat) : Token := ⟨"zero", "0", Span.ofLength 0 1, line, 1⟩

def five (line : Nat) : Token := ⟨"five", "5", Span.ofLength 1 1, line, 2⟩

def letter (line : Nat) : Token := ⟨"a", "a", Span.ofLength 2 1, line, 3⟩

def afterZero : State where
  behind := ['0']
  rest := ['5', 'a']
  offset := 1
  column := 2
  shift := -1

def afterFive : State where
  behind := ['5', '0']
  rest := ['a']
  offset := 2
  column := 3
  shift := 3

def afterLetter : State where
  behind := ['a', '5', '0']
  rest := []
  offset := 3
  column := 4
  shift := 3

theorem run : (moves definition (State.ofText text)).1 =
    [.matched (zero 1) (zero 0) .discard, .matched (five 1) (five 5) .discard,
      .literal (letter 4)] := by
  have ofZero : move? definition (State.ofText text) =
      some (.matched (zero 1) (zero 0) .discard, afterZero) := by cbv
  have ofFive : move? definition afterZero =
      some (.matched (five 1) (five 5) .discard, afterFive) := by cbv
  have ofLetter : move? definition afterFive = some (.literal (letter 4), afterLetter) := by cbv
  have still : move? definition afterLetter = none := rfl
  rw [moves_of_move ofZero, moves_of_move ofFive, moves_of_move ofLetter, moves_of_still still]

theorem line_of_zero : (LineIndex.ofText text).line? 0 = some 1 :=
  LineIndex.line_of_place [] text

theorem line_of_five : (LineIndex.ofText text).line? 1 = some 1 :=
  LineIndex.line_of_place ['0'] ['5', 'a']

theorem line_of_letter : (LineIndex.ofText text).line? 2 = some 1 :=
  LineIndex.line_of_place ['0', '5'] ['a']

/-- The second digit is put on the first line, since it cannot be before it. -/
theorem five_given_on_first_line : (define Pattern.library declarations).value = .ok definition ∧
    (moves definition (State.ofText text)).1 = [] ++ .matched (zero 1) (zero 0) .discard ::
      ([] ++ .matched (five 1) (five 5) .discard :: [.literal (letter 4)]) ∧
    ∃ first line, (LineIndex.ofText text).line? (zero 1).span.start = some first ∧
      (LineIndex.ofText text).line? (five 1).span.start = some line ∧
        (five 1).line = max ((zero 0).line + (line - first)) 1 := by
  obtain ⟨_, first, known, _, shown⟩ := line_rewrites_persist definition text [] []
    [.literal (letter 4)] (zero 1) (zero 0) .discard (.matched (five 1) (five 5) .discard) run
    (by simp)
  obtain ⟨line, here, _, _, unraised⟩ := shown (five 1).place (by simp [Event.places])
  obtain rfl : 1 = first := Option.some.inj (line_of_zero.symm.trans known)
  obtain rfl : 1 = line := Option.some.inj (line_of_five.symm.trans here)
  exact ⟨is_made, run, 1, 1, known, here, unraised (by decide) (by decide)⟩

/-- It has been raised to the first line, and what stands on its line is not shown on line five. -/
theorem letter_not_on_line_of_five : (define Pattern.library declarations).value = .ok definition ∧
    ∃ (earlier later : List Event) (found token : Token) (verdict : Verdict) (letter : Token)
        (first line : Nat),
      (moves definition (State.ofText text)).1 =
        earlier ++ .matched found token verdict :: ([] ++ .literal letter :: later) ∧
      token.line ≠ found.line ∧
      (LineIndex.ofText text).line? found.span.start = some first ∧
      (LineIndex.ofText text).line? letter.span.start = some line ∧
      letter.line ≠ max (token.line + (line - first)) 1 := by
  refine ⟨is_made, [.matched (zero 1) (zero 0) .discard], [], five 1, five 5, .discard, letter 4, 1, 1,
    run, ?_, line_of_five, line_of_letter, ?_⟩
  · simp [five]
  · simp [five, letter]

end Directives

end Lexer

end SlrKit
