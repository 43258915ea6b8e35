import SlrKit.Proofs.RuleText.Words

/-!
# Rule text is read as it is laid out

A text with a layout whose rule is no terminal is read as what the layout says, symbol by symbol and
alternative by alternative. Conversely every text that is read has such a layout.
-/

set_option autoImplicit false

namespace SlrKit

namespace RuleText

section Beginnings

theorem Spelling.begins {fits : List Char → Bool}
    (words : ∀ chars, fits chars = true → isWord chars = true) (spelling : Spelling fits) :
    ∃ c rest, spelling.text = c :: rest ∧ isWordChar c = spelling.isBare ∧
      Text.isBlank c = false ∧ c ≠ '|' := by
  cases spelling with
  | bare chars fit =>
      have word := is_word_iff.mp (words chars fit)
      cases chars with
      | nil => exact absurd rfl word.1
      | cons c rest =>
          have plain := word.2 c List.mem_cons_self
          have parts := word_char_iff.mp plain
          exact ⟨c, rest, rfl, plain, parts.1, parts.2.1⟩
  | quoted mark c marks other =>
      refine ⟨mark, _, rfl, quote_not_word_char marks, quote_not_blank marks, ?_⟩
      rintro rfl
      cases marks

theorem Spelling.begins_otherwise (spelling : Spelling isName) :
    ∃ c rest, spelling.text = c :: rest ∧ c ≠ '%' := by
  cases spelling with
  | bare chars fit =>
      obtain ⟨c, rest, same, start, _⟩ := is_name_iff.mp fit
      refine ⟨c, rest, same, ?_⟩
      rintro rfl
      simp [isNameStart] at start
  | quoted mark c marks other =>
      refine ⟨mark, _, rfl, ?_⟩
      rintro rfl
      cases marks

theorem barred_stops {property : Char → Bool} (bar : property '|' = false) (branches : List Branch) :
    Stops property (Branch.barred branches) := by
  cases branches with
  | nil => simp [Stops, Branch.barred]
  | cons branch rest => simpa [Stops, Branch.barred] using bar

theorem Row.text_stops_blank (row : Row) (branches : List Branch) :
    Stops Text.isBlank (row.text ++ Branch.barred branches) := by
  cases row with
  | done => exact barred_stops (by decide) branches
  | clause space apart name after =>
      have plain : Text.isBlank '%' = false := by decide
      simpa [Stops, text, precedenceKey] using plain
  | symbol spelling after rest =>
      obtain ⟨c, others, same, _, plain, _⟩ := spelling.begins fun _ => is_word_of_is_name
      simpa [Stops, text, same] using plain

theorem Row.text_stops_word {row : Row} (apart : row.beginsBare = false) (branches : List Branch) :
    Stops isWordChar (row.text ++ Branch.barred branches) := by
  cases row with
  | done => exact barred_stops (by decide) branches
  | clause space apart name after => cases apart
  | symbol spelling after rest =>
      obtain ⟨c, others, same, word, _⟩ := spelling.begins fun _ => is_word_of_is_name
      rw [beginsBare] at apart
      simpa [Stops, text, same, word] using apart

theorem Row.not_stops_word {row : Row} (bare : row.beginsBare = true) (rest : List Char) :
    ¬ Stops isWordChar (row.text ++ rest) := by
  cases row with
  | done => cases bare
  | clause space apart name after =>
      have word : isWordChar '%' = true := by decide
      simp [Stops, text, precedenceKey, word]
  | symbol spelling after later =>
      obtain ⟨c, others, same, word, _⟩ := spelling.begins fun _ => is_word_of_is_name
      rw [beginsBare] at bare
      simp [Stops, text, same, word, bare]

theorem Row.gap_stops_word {row : Row} {gap : Gap} (apart : row.beginsBare = true → gap.chars ≠ [])
    (branches : List Branch) :
    Stops isWordChar (gap.chars ++ (row.text ++ Branch.barred branches)) := by
  cases shape : gap.chars with
  | nil =>
      apply Row.text_stops_word
      by_contra bare
      exact apart (by simpa using bare) shape
  | cons c rest =>
      have blank := gap.blank c (by simp [shape])
      simpa [Stops] using blank_not_word_char blank

end Beginnings

section Steps

variable (terminals : List String) (done : List Alternative) (offset : Nat)

theorem read_end (current : Alternative) :
    readAlternatives terminals done current ⟨offset, []⟩ = .ok (done ++ [current]) := by
  rw [readAlternatives]

theorem read_bar (current : Alternative) (rest : List Char) :
    readAlternatives terminals done current ⟨offset, '|' :: rest⟩ =
      readAlternatives terminals (done ++ [current]) {} (Cursor.mk (offset + 1) rest).skipBlank := by
  rw [readAlternatives]
  rfl

theorem read_clause (symbols : List NamedSymbol) (rest : List Char) {word : Word}
    (read : readPrecedence offset
      ⟨offset + Text.byteLength precedenceKey, rest⟩ = .ok word) :
    readAlternatives terminals done ⟨symbols, none⟩ ⟨offset, precedenceKey ++ rest⟩ =
      readAlternatives terminals done ⟨symbols, some (String.ofList word.text, word.span)⟩
        word.after.skipBlank := by
  have begins := Cursor.after_append precedenceKey rest offset
  unfold precedenceKey at begins read ⊢
  rw [readAlternatives]
  split
  · rename_i content
    cases content
  · rename_i c others content
    cases content
    simp only [Char.reduceEq, if_false, Option.isSome_none, Bool.false_eq_true]
    split
    · rename_i afterKey found
      rw [begins] at found
      cases found
      split
      · rename_i problem failed
        rw [read] at failed
        cases failed
      · rename_i again found
        rw [read] at found
        cases found
        rfl
    · rename_i missing
      rw [begins] at missing
      cases missing

theorem read_symbol (symbols : List NamedSymbol) (place : Cursor) {c : Char} {rest : List Char}
    (content : place.rest = c :: rest) (noBar : c ≠ '|') (noClause : c ≠ '%') {word : Word}
    {symbol : NamedSymbol} (read : readWord place = .ok word)
    (stands : symbolOf terminals word = .ok symbol) :
    readAlternatives terminals done ⟨symbols, none⟩ place =
      readAlternatives terminals done ⟨symbols ++ [symbol], none⟩ word.after.skipBlank := by
  have begins : place.after? ['%', 'p', 'r', 'e', 'c'] = none := by
    obtain ⟨offset, _⟩ := place
    subst content
    exact Cursor.after_eq_none offset noClause
  rw [readAlternatives]
  split
  · rename_i ended
    rw [content] at ended
    cases ended
  · rename_i d others again
    rw [content] at again
    cases again
    simp only [noBar, if_false, Option.isSome_none, Bool.false_eq_true]
    split
    · rename_i afterKey found
      rw [begins] at found
      cases found
    · split
      · rename_i problem failed
        rw [read] at failed
        cases failed
      · rename_i again found
        rw [read] at found
        cases found
        split
        · rename_i problem failed
          rw [stands] at failed
          cases failed
        · rename_i other found
          rw [stands] at found
          cases found
          rfl

end Steps

section Layouts

variable (terminals : List String) (done : List Alternative)

theorem symbol_of_spelling (spelling : Spelling isName) (offset : Nat) (after : Cursor) :
    symbolOf terminals ⟨spelling.content, spelling.span offset, !spelling.isBare, after⟩ =
      .ok (spelling.symbol terminals offset) := by
  cases spelling with
  | bare chars fit =>
      by_cases known : String.ofList chars ∈ terminals
      · simp [symbolOf, Spelling.symbol, Spelling.isBare, Spelling.content, Spelling.name, fit, known]
      · simp [symbolOf, Spelling.symbol, Spelling.isBare, Spelling.content, Spelling.name, fit, known]
  | quoted mark c marks other =>
      simp [symbolOf, Spelling.symbol, Spelling.isBare, Spelling.content, Spelling.name]

theorem read_precedence_spelling (clause offset : Nat) (space : Gap) (apart : space.chars ≠ [])
    (spelling : Spelling isWord) (rest : List Char)
    (stops : spelling.isBare = true → Stops isWordChar rest) :
    readPrecedence clause ⟨offset, space.chars ++ (spelling.text ++ rest)⟩ =
      .ok ⟨spelling.content, spelling.span (offset + Text.byteLength space.chars), !spelling.isBare,
        ⟨offset + Text.byteLength space.chars + Text.byteLength spelling.text, rest⟩⟩ := by
  obtain ⟨c, others, same, _, plain, _⟩ := spelling.begins fun _ => id
  have begun : Stops Text.isBlank (spelling.text ++ rest) := by simpa [Stops, same] using plain
  have ahead := Cursor.skipBlank_append offset space begun
  have wide : Text.byteLength space.chars ≠ 0 := by
    cases shape : space.chars with
    | nil => exact absurd shape apart
    | cons first later =>
        have positive := first.utf8Size_pos
        rw [Text.byteLength_cons]
        omega
  have nonempty : spelling.content ≠ [] := by
    cases spelling with
    | bare chars fit => exact (is_word_iff.mp fit).1
    | quoted mark c marks other => simp [Spelling.content]
  simp [readPrecedence, ahead, wide, nonempty, read_spelling (fun _ => id) spelling rest _ stops]

/-- By induction on the row, whose symbols are read one after another. -/
theorem read_row (row : Row) (setOff : row.SetOff) (branches : List Branch)
    (symbols : List NamedSymbol) (offset : Nat) :
    readAlternatives terminals done ⟨symbols, none⟩
        ⟨offset, row.text ++ Branch.barred branches⟩ =
      readAlternatives terminals done
        ⟨symbols ++ row.symbols terminals offset, row.precedence? offset⟩
        ⟨offset + Text.byteLength row.text, Branch.barred branches⟩ := by
  induction row generalizing symbols offset with
  | done => simp [Row.text, Row.symbols, Row.precedence?]
  | clause space apart name after =>
      have ends : Stops Text.isBlank (Branch.barred branches) := barred_stops (by decide) branches
      have gap : Stops isWordChar (after.chars ++ (Row.done.text ++ Branch.barred branches)) :=
        Row.gap_stops_word (by simp [Row.beginsBare]) branches
      have read := read_precedence_spelling offset
        (offset + Text.byteLength precedenceKey) space apart name _ (fun _ => gap)
      rw [Row.text, Row.text] at *
      simp only [List.append_assoc, List.nil_append] at read ⊢
      rw [read_clause terminals done offset symbols _ read, Cursor.skipBlank_append _ after ends]
      simp [Row.symbols, Row.precedence?, Spelling.name, Nat.add_assoc]
  | symbol spelling after rest ih =>
      have ends := rest.text_stops_blank branches
      have gap : spelling.isBare = true →
          Stops isWordChar (after.chars ++ (rest.text ++ Branch.barred branches)) :=
        fun bare => Row.gap_stops_word (setOff.1 bare) branches
      have read := read_spelling (fun _ => is_word_of_is_name) spelling _ offset gap
      have stands := symbol_of_spelling terminals spelling offset
      obtain ⟨c, others, same, _, _, noBar⟩ := spelling.begins fun _ => is_word_of_is_name
      obtain ⟨first, later, again, noClause⟩ := spelling.begins_otherwise
      rw [same] at again
      cases again
      have content : spelling.text ++ (after.chars ++ (rest.text ++ Branch.barred branches)) =
          c :: (others ++ (after.chars ++ (rest.text ++ Branch.barred branches))) := by simp [same]
      simp only [Row.text, List.append_assoc]
      rw [read_symbol terminals done symbols _ content noBar noClause read (stands _),
        Cursor.skipBlank_append _ after ends, ih setOff.2]
      simp [Row.symbols, Row.precedence?, Nat.add_assoc]

/-- By induction on the alternatives after the first. -/
theorem read_branches (first : Branch) (more : List Branch) (offset : Nat) :
    readAlternatives terminals done {}
        (Cursor.mk offset (first.text ++ Branch.barred more)).skipBlank =
      .ok (done ++ Branch.alternatives terminals offset (first :: more)) := by
  induction more generalizing done first offset with
  | nil =>
      have ends := first.row.text_stops_blank []
      rw [Branch.text, List.append_assoc, Cursor.skipBlank_append _ first.lead ends,
        read_row terminals done first.row first.setOff]
      simp [Branch.barred, read_end, Branch.alternatives, Branch.alternative]
  | cons next later ih =>
      have ends := first.row.text_stops_blank (next :: later)
      have bar : Branch.barred (next :: later) = '|' :: (next.text ++ Branch.barred later) := by
        simp [Branch.barred]
      rw [Branch.text, List.append_assoc, Cursor.skipBlank_append _ first.lead ends,
        read_row terminals done first.row first.setOff, bar, read_bar, ih]
      simp [Branch.alternatives, Branch.alternative, Branch.text, Nat.add_assoc]

theorem precedence_of_read {clause : Nat} {place : Cursor} {word : Word}
    (read : readPrecedence clause place = .ok word) :
    ∃ (space : Gap) (spelling : Spelling isWord), space.chars ≠ [] ∧
      place.rest = space.chars ++ (spelling.text ++ word.after.rest) := by
  obtain ⟨space, split, offset⟩ := place.exists_gap
  simp only [readPrecedence] at read
  split at read
  · cases read
  · rename_i advanced
    split at read
    · rename_i found again
      split at read
      · cases read
      · rename_i nonempty
        cases read
        obtain ⟨spelling, later, _⟩ := @spelling_of_read isWord _ _ again
          (fun _ chars => is_word_iff.mpr ⟨nonempty, chars⟩)
        refine ⟨space, spelling, ?_, by rw [split, later]⟩
        intro bare
        obtain ⟨c, others, same, _⟩ := spelling.begins fun _ => id
        apply advanced
        constructor
        · simp [offset, bare]
        · simp [split, later, same]
    · cases read

/-- What is read has a layout; after a precedence clause nothing of the alternative is left. By
induction on the steps of the reader. -/
theorem row_of_read (current : Alternative) (place : Cursor) (alternatives : List Alternative)
    (read : readAlternatives terminals done current place = .ok alternatives) :
    ∃ (row : Row) (more : List Branch), row.SetOff ∧
      (current.precedence.isSome = true → row = .done) ∧
      place.rest = row.text ++ Branch.barred more := by
  fun_induction readAlternatives terminals done current place with
  | case1 done current place ended =>
      exact ⟨.done, [], trivial, fun _ => rfl, ended⟩
  | case2 done current place rest content ih =>
      obtain ⟨row, more, setOff, _, shape⟩ := ih read
      obtain ⟨lead, split, _⟩ := (place.past ['|'] rest).exists_gap
      refine ⟨.done, ⟨lead, row, setOff⟩ :: more, trivial, fun _ => rfl, ?_⟩
      rw [shape] at split
      simpa [content, Cursor.past, Row.text, Branch.barred, Branch.text] using split
  | case3 | case4 | case6 | case7 => cases read
  | case5 done current place c rest content noBar open_ afterKey found word again ih =>
      obtain ⟨row, more, _, last, shape⟩ := ih read
      obtain ⟨space, spelling, apart, split⟩ := precedence_of_read again
      obtain ⟨after, gap, _⟩ := word.after.exists_gap
      refine ⟨.clause space apart spelling after, more, trivial, fun closed => absurd closed open_, ?_⟩
      rw [Cursor.rest_of_after found, split, gap, shape, last rfl]
      simp [Row.text, precedenceKey]
  | case8 done current place c rest content noBar open_ noClause word again symbol stands ih =>
      obtain ⟨row, more, setOff, _, shape⟩ := ih read
      obtain ⟨after, gap, _⟩ := word.after.exists_gap
      have named : word.quoted = false → (∀ c ∈ word.text, isWordChar c = true) →
          isName word.text = true := by
        intro bare _
        by_contra strange
        simp [symbolOf, bare, strange] at stands
      obtain ⟨spelling, split, stops⟩ := spelling_of_read again named
      refine ⟨.symbol spelling after row, more, ⟨?_, setOff⟩, fun closed => absurd closed open_, ?_⟩
      · intro bare next run
        -- Without a blank between them, a name would have been read on into what comes next.
        have stopped := stops bare
        rw [gap, run, shape] at stopped
        exact Row.not_stops_word next _ stopped
      · rw [split, gap, shape]
        simp [Row.text]

end Layouts

section Parse

variable (terminals : List String)

theorem read_name {chars rest : List Char} (named : isName chars = true)
    (stops : Stops isNameChar rest) (offset : Nat) :
    readName ⟨offset, chars ++ rest⟩ = .ok (chars, ⟨offset + Text.byteLength chars, rest⟩) := by
  obtain ⟨c, others, same, start, all⟩ := is_name_iff.mp named
  have taken := Cursor.takeWhile_append offset all stops
  subst same
  simp only [readName, List.cons_append, start, if_true]
  rw [List.cons_append] at taken
  rw [taken]

theorem name_of_read {place after : Cursor} {chars : List Char}
    (read : readName place = .ok (chars, after)) :
    isName chars = true ∧ place.rest = chars ++ after.rest := by
  obtain ⟨split, all, _⟩ := Cursor.takeWhile_splits isNameChar place
  unfold readName at read
  split at read
  · rename_i c rest content
    split at read
    · rename_i start
      cases read
      refine ⟨is_name_iff.mpr ⟨c, rest.takeWhile isNameChar, ?_, start, all⟩, split⟩
      simp [content, name_char_of_start start]
    · cases read
  · cases read

theorem gap_colon_stops_name (gap : Gap) (rest : List Char) :
    Stops isNameChar (gap.chars ++ ([':'] ++ rest)) := by
  intro c first
  by_contra runs
  have word := word_char_of_name_char (by simpa using runs)
  cases shape : gap.chars with
  | nil =>
      simp only [shape, List.nil_append, List.singleton_append, List.head?_cons, Option.mem_def,
        Option.some.injEq] at first
      subst first
      simp [isNameChar] at runs
  | cons d later =>
      simp only [shape, List.cons_append, List.head?_cons, Option.mem_def, Option.some.injEq] at first
      subst first
      rw [blank_not_word_char (gap.blank d (by simp [shape]))] at word
      cases word

/-- A text with a layout is read, unless its rule is a terminal. -/
theorem parse_layout (layout : Layout) (free : layout.ruleName ∉ terminals) :
    parse terminals layout.text = .ok (layout.ruleText terminals) := by
  let body := layout.first.text ++ Branch.barred layout.more
  obtain ⟨c, others, same, start, _⟩ := is_name_iff.mp layout.named
  have not_blank := (word_char_iff.mp (word_char_of_name_char (name_char_of_start start))).1
  have shape : layout.text =
      layout.before.chars ++ (layout.name ++ (layout.after.chars ++ ([':'] ++ body))) := by
    simp [Layout.text, Layout.head, body]
  have begun : Stops Text.isBlank (layout.name ++ (layout.after.chars ++ ([':'] ++ body))) := by
    simpa [Stops, same] using not_blank
  have before := Cursor.skipBlank_append 0 layout.before begun
  have name := read_name layout.named (gap_colon_stops_name layout.after body)
    (0 + Text.byteLength layout.before.chars)
  have colon_next : Stops Text.isBlank ([':'] ++ body) := by
    have plain : Text.isBlank ':' = false := by decide
    simpa [Stops] using plain
  have after := Cursor.skipBlank_append
    (0 + Text.byteLength layout.before.chars + Text.byteLength layout.name) layout.after colon_next
  have colon := Cursor.after_append [':'] body
    (0 + Text.byteLength layout.before.chars + Text.byteLength layout.name +
      Text.byteLength layout.after.chars)
  have offset : 0 + Text.byteLength layout.before.chars + Text.byteLength layout.name +
      Text.byteLength layout.after.chars + Text.byteLength [':'] = Text.byteLength layout.head := by
    simp [Layout.head, Nat.add_assoc]
  rw [offset] at colon
  have read := read_branches terminals [] layout.first layout.more (Text.byteLength layout.head)
  have unknown : terminals.contains (String.ofList layout.name) = false := by
    simpa [Layout.ruleName] using free
  rw [parse, shape, before, name]
  simp only [unknown, Bool.false_eq_true, if_false, after, colon, body, read]
  simp [Layout.ruleText, Layout.ruleName]

theorem layout_of_parse {text : List Char} {parsed : RuleText}
    (read : parse terminals text = .ok parsed) :
    ∃ layout : Layout, layout.text = text ∧ layout.ruleName ∉ terminals := by
  obtain ⟨before, start, _⟩ := (Cursor.mk 0 text).exists_gap
  simp only [parse] at read
  split at read
  · cases read
  · rename_i chars place named
    obtain ⟨fits, later⟩ := name_of_read named
    obtain ⟨after, gap, _⟩ := place.exists_gap
    split at read
    · cases read
    · rename_i free
      split at read
      · cases read
      · rename_i body colon
        obtain ⟨lead, blanks, _⟩ := body.exists_gap
        split at read
        · cases read
        · rename_i alternatives alike
          obtain ⟨row, more, setOff, _, shape⟩ := row_of_read terminals [] {} _ _ alike
          refine ⟨⟨before, chars, fits, after, ⟨lead, row, setOff⟩, more⟩, ?_, ?_⟩
          · simp only at start
            rw [start, later, gap, Cursor.rest_of_after colon, blanks, shape]
            simp [Layout.text, Layout.head, Branch.text]
          · simpa [Layout.ruleName] using free

theorem exists_layout {text : List Char} {parsed : RuleText}
    (read : parse terminals text = .ok parsed) :
    ∃ layout : Layout, layout.text = text ∧ layout.ruleName ∉ terminals ∧
      layout.ruleText terminals = parsed := by
  obtain ⟨layout, same, free⟩ := layout_of_parse terminals read
  have again := parse_layout terminals layout free
  rw [same, read] at again
  exact ⟨layout, same, free, (Except.ok.inj again).symm⟩

end Parse

end RuleText

end SlrKit
