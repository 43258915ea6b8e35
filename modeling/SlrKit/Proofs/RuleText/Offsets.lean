import SlrKit.Proofs.RuleText.Places
import SlrKit.RuleText.Offsets

/-!
# Offsets are places in rule text

Where reading by offsets goes on, there is a place between two characters of the text, and what it cuts
out is what comes after this place. So it never meets a fault, and it comes to the same as reading what is
left of the text.
-/

set_option autoImplicit false

namespace SlrKit

namespace RuleText

namespace Offsets

variable {text : List Char} {place : Cursor}

section Cutting

theorem suffix_of_place (lies : place.LiesIn text) : suffix text place.offset = .ok place.rest := by
  rw [suffix, lies]

theorem cut_of_place (lies : place.LiesIn text) {taken rest : List Char}
    (split : place.rest = taken ++ rest) :
    cut text place.offset (place.offset + Text.byteLength taken) = .ok taken := by
  rw [cut, lies.slice split]

theorem span_of_length (start count : Nat) :
    span start (start + count) = .ok (Span.ofLength start count) := by
  simp [span, Span.ofEnds, Span.ofEnds?, Span.ofLength, Except.mapError]

theorem refuse_of_length {α : Type} (cause : GrammarError.Cause) (start count : Nat) :
    (refuse cause start (start + count) : Except Stop α) =
      .error (.refused (cause, Span.ofLength start count)) := by
  rw [refuse, span_of_length]
  rfl

theorem refuse_point {α : Type} (cause : GrammarError.Cause) (offset : Nat) :
    (refuse cause offset offset : Except Stop α) =
      .error (.refused (cause, Span.point offset)) :=
  refuse_of_length cause offset 0

theorem excess_of_append (front back : List Char) :
    excess (front ++ back) back = .ok (Text.byteLength front) := by
  rw [excess, Text.byteLength_append, if_pos (Nat.le_add_left _ _), Nat.add_sub_cancel]

theorem skip_blank_of_place (lies : place.LiesIn text) :
    skipBlank text place.offset = .ok place.skipBlank.offset := by
  have whole : place.rest.takeWhile Text.isBlank ++ Text.skipBlank place.rest = place.rest :=
    List.takeWhile_append_dropWhile
  have counted := excess_of_append (place.rest.takeWhile Text.isBlank) (Text.skipBlank place.rest)
  rw [whole] at counted
  rw [skipBlank, suffix_of_place lies]
  simp only [bind, Except.bind, counted]
  rfl

theorem after_of_place (lies : place.LiesIn text) (word : List Char) :
    after? text word place.offset = .ok ((place.after? word).map Cursor.offset) := by
  rw [after?, suffix_of_place lies]
  simp only [bind, Except.bind, Cursor.after?]
  split
  · rfl
  · rfl

end Cutting

section Reading

theorem read_name_of_place (lies : place.LiesIn text) :
    readName text place.offset =
      ((RuleText.readName place).map fun found => (found.1, found.2.offset)).mapError .refused := by
  rw [readName, suffix_of_place lies]
  simp only [bind, Except.bind]
  cases content : place.rest with
  | nil =>
      simp only [nameLength?, RuleText.readName, content, refuse_point]
      rfl
  | cons c rest =>
      by_cases start : isNameStart c = true
      · have name := cut_of_place lies (Cursor.takeWhile_splits isNameChar place).1
        simp only [Cursor.takeWhile, content] at name
        simp only [nameLength?, RuleText.readName, content, start, if_true, name]
        simp [Cursor.takeWhile, Cursor.past, content, Except.map, Except.mapError]
      · simp only [nameLength?, RuleText.readName, content, start, refuse_point]
        rfl

/-- A word as it is told by offsets. -/
def pieceOf (word : Word) : Piece := ⟨word.text, word.span, word.after.offset⟩

theorem begins_quoted_cons (c : Char) (rest : List Char) : beginsQuoted (c :: rest) = isQuote c := rfl

theorem word_length_of_bare {rest : List Char} (bare : beginsQuoted rest = false) :
    wordLength? rest =
      if rest.takeWhile isWordChar = [] then none
      else some (Text.byteLength (rest.takeWhile isWordChar)) := by
  cases rest with
  | nil => rfl
  | cons c rest =>
      rw [begins_quoted_cons] at bare
      by_cases plain : isWordChar c = true
      · simp [wordLength?, bare, plain]
      · simp [wordLength?, bare, plain]

theorem word_length_of_unclosed {mark : Char} {rest : List Char} (marks : isQuote mark = true)
    (others : mark ∉ rest) : wordLength? (mark :: rest) = none := by
  have taken : rest.takeWhile (· != mark) = rest := by
    rw [List.takeWhile_eq_self_iff]
    exact is_other_of_not_mem others
  simp [wordLength?, marks, taken]

theorem word_length_of_closed {mark : Char} {inner : List Char} (later : List Char)
    (marks : isQuote mark = true) (others : mark ∉ inner) :
    wordLength? (mark :: (inner ++ mark :: later)) = some (Text.byteLength inner + 2) := by
  have taken : (inner ++ mark :: later).takeWhile (· != mark) = inner := by
    rw [List.takeWhile_append_of_pos (is_other_of_not_mem others)]
    simp
  simp [wordLength?, marks, taken, quote_size marks]
  omega

theorem read_bare_of_place (lies : place.LiesIn text) (bare : beginsQuoted place.rest = false) :
    readWord text place.offset = .ok (pieceOf (bareWord place)) := by
  have word := cut_of_place lies (Cursor.takeWhile_splits isWordChar place).1
  simp only [Cursor.takeWhile] at word
  rw [readWord, suffix_of_place lies]
  simp only [bind, Except.bind, word_length_of_bare bare]
  by_cases nothing : place.rest.takeWhile isWordChar = []
  · have empty := span_of_length place.offset 0
    rw [Nat.add_zero] at empty
    simp [nothing, bare, empty, pieceOf, bareWord, Cursor.takeWhile, Cursor.past]
  · simp [nothing, takeWord, suffix_of_place lies, bind, Except.bind, bare, word, span_of_length,
      pieceOf, bareWord, Cursor.takeWhile, Cursor.past]

theorem take_quoted_of_place (lies : place.LiesIn text) {mark : Char} {rest inner : List Char}
    (content : place.rest = mark :: rest) (marks : isQuote mark = true) (later : List Char)
    (split : rest = inner ++ mark :: later) :
    takeWord text place.offset (place.offset + (Text.byteLength inner + 2)) =
      if inner.length = 1 then
        .ok ⟨inner, Span.ofLength (place.offset + 1) (Text.byteLength inner),
          place.offset + (Text.byteLength inner + 2)⟩
      else
        .error (.refused
          (.illegalString, Span.ofLength place.offset (Text.byteLength inner + 2))) := by
  have quoted : beginsQuoted place.rest = true := by rw [content, begins_quoted_cons, marks]
  have begins : (place.past [mark] rest).offset = place.offset + 1 := by
    simp [Cursor.past, quote_size marks]
  have inside : (place.past [mark] rest).LiesIn text := lies.past content
  have taken := cut_of_place inside split
  have ends : place.offset + (Text.byteLength inner + 2) - 1 =
      place.offset + 1 + Text.byteLength inner := by omega
  rw [begins] at taken
  simp only [takeWord, suffix_of_place lies, bind, Except.bind, quoted, if_true, ends, taken,
    span_of_length, refuse_of_length]

theorem read_quoted_of_place (lies : place.LiesIn text) {mark : Char} {rest : List Char}
    (content : place.rest = mark :: rest) (marks : isQuote mark = true) :
    readWord text place.offset =
      ((quotedWord mark place (place.past [mark] rest)).map pieceOf).mapError .refused := by
  have quoted : beginsQuoted place.rest = true := by rw [content, begins_quoted_cons, marks]
  have begins : place.past [mark] rest = ⟨place.offset + 1, rest⟩ := by
    simp [Cursor.past, quote_size marks]
  rw [readWord, suffix_of_place lies, begins]
  simp only [bind, Except.bind]
  by_cases closed : mark ∈ rest
  · obtain ⟨inner, later, split, others⟩ := List.eq_append_cons_of_mem closed
    have measured := word_length_of_closed later marks others
    rw [← split, ← content] at measured
    have stop : place.offset + 1 + Text.byteLength inner + 1 =
        place.offset + (Text.byteLength inner + 2) := by omega
    simp only [measured, take_quoted_of_place lies content marks later split]
    rw [split, quoted_word_of_closed place _ others]
    split
    · simp only [Except.map, Except.mapError, pieceOf, quote_size marks, stop]
    · rfl
  · have measured := word_length_of_unclosed marks closed
    have all := refuse_of_length (α := Piece) .illegalString place.offset (Text.byteLength place.rest)
    rw [← content] at measured
    rw [← lies.length] at all
    simp only [measured, quoted, if_true, all]
    rw [quoted_word_of_unclosed place _ closed]
    rfl

theorem read_word_of_place (lies : place.LiesIn text) :
    readWord text place.offset = ((RuleText.readWord place).map pieceOf).mapError .refused := by
  cases content : place.rest with
  | nil =>
      rw [read_bare_of_place lies (by rw [content]; rfl)]
      simp only [RuleText.readWord, content]
      rfl
  | cons c rest =>
      by_cases marks : isQuote c = true
      · rw [read_quoted_of_place lies content marks]
        simp only [RuleText.readWord, content, marks, if_true]
      · rw [read_bare_of_place lies (by rw [content, begins_quoted_cons, Bool.eq_false_iff]; exact marks)]
        simp only [RuleText.readWord, content, marks]
        rfl

theorem quoted_of_read {word : Word} (read : RuleText.readWord place = .ok word) :
    word.quoted = beginsQuoted place.rest := by
  unfold RuleText.readWord at read
  split at read
  · rename_i nothing
    cases read
    rw [nothing]
    rfl
  · rename_i c rest content
    rw [content, begins_quoted_cons]
    split at read
    · rename_i marks
      rw [(length_quotedWord read).1, marks]
    · rename_i bare
      cases read
      exact (Bool.eq_false_iff.mpr bare).symm

theorem read_precedence_of_place (lies : place.LiesIn text) (clause : Nat) :
    readPrecedence text clause place.offset =
      ((RuleText.readPrecedence clause place).map pieceOf).mapError .refused := by
  have next := lies.skipBlank
  have word := read_word_of_place next
  rw [readPrecedence, skip_blank_of_place lies]
  simp only [bind, Except.bind, RuleText.readPrecedence]
  by_cases joined : place.skipBlank.offset = place.offset ∧ place.rest ≠ []
  · have inside := lies.offset_lt_iff.mpr joined.2
    rw [if_pos joined, joined.1, if_pos ⟨rfl, inside⟩, refuse_point]
    rfl
  · have apart : ¬(place.skipBlank.offset = place.offset ∧
        place.skipBlank.offset < Text.byteLength text) := by
      rintro ⟨same, inside⟩
      rw [same, lies.offset_lt_iff] at inside
      exact joined ⟨same, inside⟩
    rw [if_neg joined, if_neg apart, word]
    cases RuleText.readWord place.skipBlank with
    | error problem =>
        simp only [Except.map, Except.mapError, refuse_point]
    | ok found =>
        simp only [Except.map, Except.mapError, pieceOf, refuse_point]
        split
        · rfl
        · rfl

theorem takes_all_iff (property : Char → Bool) (chars : List Char) :
    Text.byteLength (chars.takeWhile property) = Text.byteLength chars ↔
      chars.all property = true := by
  induction chars with
  | nil => simp
  | cons c rest ih =>
      have width := c.utf8Size_pos
      by_cases fits : property c = true
      · simp [fits, ih]
      · simp [fits]
        omega

theorem is_whole_name_eq (name : List Char) : isWholeName name = isName name := by
  cases name with
  | nil => rfl
  | cons c rest =>
      by_cases start : isNameStart c = true
      · have all := takes_all_iff isNameChar (c :: rest)
        rw [List.all_cons, name_char_of_start start, Bool.true_and] at all
        rw [Bool.eq_iff_iff]
        simpa only [isWholeName, nameLength?, start, if_true, beq_iff_eq, Option.some.injEq, isName,
          Bool.true_and] using all
      · simp [isWholeName, nameLength?, isName, start]

theorem read_symbol_of_place (lies : place.LiesIn text) (terminals : List String) :
    readSymbol text terminals place.offset =
      match RuleText.readWord place with
      | .error problem => .error (.refused problem)
      | .ok word =>
          ((symbolOf terminals word).map fun symbol => (symbol, word.after.offset)).mapError
            .refused := by
  rw [readSymbol, suffix_of_place lies]
  simp only [bind, Except.bind, read_word_of_place lies]
  cases read : RuleText.readWord place with
  | error problem => rfl
  | ok word =>
      simp only [Except.map, Except.mapError, pieceOf, symbolOf, is_whole_name_eq,
        ← quoted_of_read read]
      split
      · rfl
      · split
        · rfl
        · rfl

end Reading

section Running

variable (terminals : List String) {progress : Progress}

theorem goes_on_of_advance (inside : progress.offset < Text.byteLength text) {next : Progress}
    (stepped : advance text terminals progress = .ok next) :
    readAlternatives text terminals progress = readAlternatives text terminals next := by
  rw [readAlternatives, dif_pos inside]
  split
  · rename_i stop stopped
    rw [stepped] at stopped
    cases stopped
  · rename_i other again
    rw [stepped] at again
    cases again
    rfl

theorem stops_of_advance (inside : progress.offset < Text.byteLength text) {stop : Stop}
    (stopped : advance text terminals progress = .error stop) :
    readAlternatives text terminals progress = .error stop := by
  rw [readAlternatives, dif_pos inside]
  split
  · rename_i other again
    rw [stopped] at again
    cases again
    rfl
  · rename_i next stepped
    rw [stopped] at stepped
    cases stepped

theorem bar_of_place (lies : place.LiesIn text) {rest : List Char}
    (content : place.rest = '|' :: rest) :
    after? text ['|'] place.offset = .ok (some (place.past ['|'] rest).offset) := by
  have found := Cursor.after_append ['|'] rest place.offset
  rw [List.singleton_append, ← content] at found
  rw [after_of_place lies, found]
  rfl

theorem no_bar_of_place (lies : place.LiesIn text) {c : Char} {rest : List Char}
    (content : place.rest = c :: rest) (other : c ≠ '|') :
    after? text ['|'] place.offset = .ok none := by
  rw [after_of_place lies, Cursor.after?, content]
  simp [List.isPrefixOf, other.symm]

theorem advance_at_clause (done : List Alternative) (current : Alternative) (lies : place.LiesIn text)
    {c : Char} {rest : List Char} (content : place.rest = c :: rest) (other : c ≠ '|')
    (unclosed : ¬current.precedence.isSome = true) {afterKey : Cursor}
    (found : place.after? ['%', 'p', 'r', 'e', 'c'] = some afterKey) :
    advance text terminals ⟨done, current, place.offset⟩ =
      match RuleText.readPrecedence place.offset afterKey with
      | .error problem => .error (.refused problem)
      | .ok word =>
          .ok ⟨done, { current with precedence := some (String.ofList word.text, word.span) },
            word.after.skipBlank.offset⟩ := by
  have clause := read_precedence_of_place (lies.after found) place.offset
  simp only [advance, no_bar_of_place lies content other, bind, Except.bind, unclosed,
    Bool.false_eq_true, if_false, after_of_place lies, found, Option.map_some, clause]
  cases read : RuleText.readPrecedence place.offset afterKey with
  | error problem => rfl
  | ok word =>
      have next := (lies.after found).readPrecedence read
      simp only [Except.map, Except.mapError, pieceOf, skip_blank_of_place next]

theorem advance_at_symbol (done : List Alternative) (current : Alternative) (lies : place.LiesIn text)
    {c : Char} {rest : List Char} (content : place.rest = c :: rest) (other : c ≠ '|')
    (unclosed : ¬current.precedence.isSome = true)
    (missing : place.after? ['%', 'p', 'r', 'e', 'c'] = none) :
    advance text terminals ⟨done, current, place.offset⟩ =
      match RuleText.readWord place with
      | .error problem => .error (.refused problem)
      | .ok word =>
          match symbolOf terminals word with
          | .error problem => .error (.refused problem)
          | .ok symbol =>
              .ok ⟨done, { current with symbols := current.symbols ++ [symbol] },
                word.after.skipBlank.offset⟩ := by
  simp only [advance, no_bar_of_place lies content other, bind, Except.bind, unclosed,
    Bool.false_eq_true, if_false, after_of_place lies, missing, Option.map_none,
    read_symbol_of_place lies]
  cases read : RuleText.readWord place with
  | error problem => rfl
  | ok word =>
      have next := lies.readWord read
      cases stands : symbolOf terminals word with
      | error problem => simp only [stands, Except.map, Except.mapError]
      | ok symbol => simp only [stands, Except.map, Except.mapError, skip_blank_of_place next]

/-- By induction on the steps of the reader, each of which is one of reading by offsets. -/
theorem read_alternatives_of_place (done : List Alternative) (current : Alternative)
    (lies : place.LiesIn text) :
    readAlternatives text terminals ⟨done, current, place.offset⟩ =
      (RuleText.readAlternatives terminals done current place).mapError .refused := by
  have inside {place : Cursor} {c : Char} {rest : List Char} (lies : place.LiesIn text)
      (content : place.rest = c :: rest) : place.offset < Text.byteLength text :=
    lies.offset_lt_iff.mpr (by simp [content])
  fun_induction RuleText.readAlternatives terminals done current place with
  | case1 done current place ended =>
      have beyond : ¬place.offset < Text.byteLength text := by
        rw [lies.offset_lt_iff]
        exact not_not.mpr ended
      rw [readAlternatives, dif_neg beyond]
      rfl
  | case2 done current place rest content ih =>
      have next : (place.past ['|'] rest).LiesIn text := lies.past content
      rw [goes_on_of_advance terminals (inside lies content), ih next.skipBlank]
      simp only [advance, bar_of_place lies content, bind, Except.bind, skip_blank_of_place next]
  | case3 done current place c rest content other closed =>
      apply stops_of_advance terminals (inside lies content)
      simp only [advance, no_bar_of_place lies content other, bind, Except.bind, closed, if_true,
        refuse_point]
  | case4 done current place c rest content other unclosed afterKey found problem failed =>
      apply stops_of_advance terminals (inside lies content)
      rw [advance_at_clause terminals done current lies content other unclosed found, failed]
  | case5 done current place c rest content other unclosed afterKey found word read ih =>
      have next := (lies.after found).readPrecedence read
      rw [goes_on_of_advance terminals (inside lies content), ih next.skipBlank]
      rw [advance_at_clause terminals done current lies content other unclosed found, read]
  | case6 done current place c rest content other unclosed missing problem failed =>
      apply stops_of_advance terminals (inside lies content)
      rw [advance_at_symbol terminals done current lies content other unclosed missing, failed]
  | case7 done current place c rest content other unclosed missing word read problem failed =>
      apply stops_of_advance terminals (inside lies content)
      rw [advance_at_symbol terminals done current lies content other unclosed missing, read]
      simp only [failed]
  | case8 done current place c rest content other unclosed missing word read symbol stands ih =>
      have next := lies.readWord read
      rw [goes_on_of_advance terminals (inside lies content), ih next.skipBlank]
      rw [advance_at_symbol terminals done current lies content other unclosed missing, read]
      simp only [stands]

/-- Reading a text by offsets comes to the same as reading it, without a fault. -/
theorem parse_eq (text : List Char) :
    parse terminals text = (RuleText.parse terminals text).mapError .refused := by
  have start := (Cursor.start_lies_in text).skipBlank
  have begins := skip_blank_of_place (Cursor.start_lies_in text)
  simp only at begins
  simp only [parse, RuleText.parse, bind, Except.bind, begins, read_name_of_place start]
  cases named : RuleText.readName (Cursor.mk 0 text).skipBlank with
  | error problem => rfl
  | ok found =>
      obtain ⟨name, afterName⟩ := found
      obtain ⟨behind, ends⟩ := start.readName named
      have colon := behind.skipBlank
      simp only [Except.map, Except.mapError, ends, span_of_length]
      split
      · rfl
      · rw [← ends]
        simp only [skip_blank_of_place behind, after_of_place colon]
        cases looked : afterName.skipBlank.after? [':'] with
        | none => simp only [Option.map_none, refuse_point]
        | some body =>
            have first := (colon.after looked).skipBlank
            simp only [Option.map_some, skip_blank_of_place (colon.after looked),
              read_alternatives_of_place terminals [] {} first]
            cases RuleText.readAlternatives terminals [] {} body.skipBlank with
            | error problem => rfl
            | ok alternatives => rfl

end Running

end Offsets

end RuleText

end SlrKit
