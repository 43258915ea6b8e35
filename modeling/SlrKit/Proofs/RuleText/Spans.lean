import SlrKit.Proofs.RuleText.Places
import SlrKit.Proofs.RuleText.Reading

/-!
# Where names stand in rule text

Every name that is read from rule text stands at its span, without quotation marks, and the spans come
one after the other in the order of the names. Whatever is wrong with a text, the span that tells where
lies in the text as well.
-/

set_option autoImplicit false

namespace SlrKit

/-- The span goes from one place of the text to another. -/
def Span.LiesIn (text : List Char) (span : Span) : Prop :=
  ∃ part, Text.slice? span.start span.stop text = some part

namespace RuleText

/-- A name and where it stands. -/
abbrev Mark : Type := String × Span

/-- The names in an alternative, in the order in which they are written. -/
def marksOf (symbols : List NamedSymbol) (precedence : Option Mark) : List Mark :=
  symbols.map (fun symbol => (symbol.name, symbol.span)) ++ precedence.toList

def marks (parsed : RuleText) : List Mark :=
  (parsed.name, parsed.span) ::
    parsed.alternatives.flatMap fun alternative => marksOf alternative.symbols alternative.precedence

/-- All names stand in the text where their spans say, between two offsets and one after the other. -/
structure Located (text : List Char) (first last : Nat) (marks : List Mark) : Prop where
  spelled : ∀ mark ∈ marks, Text.slice? mark.2.start mark.2.stop text = some mark.1.toList
  nonempty : ∀ mark ∈ marks, mark.2.start < mark.2.stop
  bounds : ∀ mark ∈ marks, first ≤ mark.2.start ∧ mark.2.stop ≤ last
  ordered : marks.Pairwise fun earlier later => earlier.2.stop ≤ later.2.start

namespace Located

variable {text : List Char} {first middle last : Nat} {front back : List Mark}

theorem nil (text : List Char) (first last : Nat) : Located text first last [] where
  spelled := by simp
  nonempty := by simp
  bounds := by simp
  ordered := List.Pairwise.nil

theorem append (before : Located text first middle front) (after : Located text middle last back)
    (rises : first ≤ middle) (falls : middle ≤ last) : Located text first last (front ++ back) where
  spelled := List.forall_mem_append.mpr ⟨before.spelled, after.spelled⟩
  nonempty := List.forall_mem_append.mpr ⟨before.nonempty, after.nonempty⟩
  bounds := by
    rw [List.forall_mem_append]
    constructor
    · intro mark member
      have bounds := before.bounds mark member
      exact ⟨bounds.1, Nat.le_trans bounds.2 falls⟩
    · intro mark member
      have bounds := after.bounds mark member
      exact ⟨Nat.le_trans rises bounds.1, bounds.2⟩
  ordered := by
    rw [List.pairwise_append]
    refine ⟨before.ordered, after.ordered, ?_⟩
    intro earlier here later there
    exact Nat.le_trans (before.bounds earlier here).2 (after.bounds later there).1

theorem widen (located : Located text first last front) {lower upper : Nat} (below : lower ≤ first)
    (above : last ≤ upper) : Located text lower upper front where
  spelled := located.spelled
  nonempty := located.nonempty
  bounds := fun mark member =>
    ⟨Nat.le_trans below (located.bounds mark member).1,
      Nat.le_trans (located.bounds mark member).2 above⟩
  ordered := located.ordered

theorem sublist (located : Located text first last back) (some : front.Sublist back) :
    Located text first last front where
  spelled := fun mark member => located.spelled mark (some.subset member)
  nonempty := fun mark member => located.nonempty mark (some.subset member)
  bounds := fun mark member => located.bounds mark (some.subset member)
  ordered := located.ordered.sublist some

theorem single {before name after : List Char} (whole : text = before ++ (name ++ after))
    (some : name ≠ []) :
    Located text (Text.byteLength before) (Text.byteLength before + Text.byteLength name)
      [(String.ofList name, Span.ofLength (Text.byteLength before) (Text.byteLength name))] where
  spelled := by
    intro mark member
    rw [List.mem_singleton.mp member, Text.slice?_eq_some_iff]
    exact ⟨before, after, by simp [whole], rfl, by simp [Span.ofLength]⟩
  nonempty := by
    intro mark member
    rw [List.mem_singleton.mp member]
    cases name with
    | nil => exact absurd rfl some
    | cons c rest =>
        have width := c.utf8Size_pos
        simp only [Span.ofLength, Text.byteLength_cons]
        omega
  bounds := by
    intro mark member
    rw [List.mem_singleton.mp member]
    exact ⟨Nat.le_refl _, Nat.le_refl _⟩
  ordered := List.pairwise_singleton _ _

end Located

section Layouts

variable {text : List Char} (terminals : List String)

theorem located_spelling {fits : List Char → Bool}
    (words : ∀ chars, fits chars = true → isWord chars = true) (spelling : Spelling fits)
    {before after : List Char} (whole : text = before ++ (spelling.text ++ after)) :
    Located text (Text.byteLength before)
      (Text.byteLength before + Text.byteLength spelling.text)
      [(spelling.name, spelling.span (Text.byteLength before))] := by
  cases spelling with
  | bare chars fit => exact Located.single whole (is_word_iff.mp (words chars fit)).1
  | quoted mark c marks other =>
      have inner : text = (before ++ [mark]) ++ ([c] ++ (mark :: after)) := by
        simp [whole, Spelling.text]
      have located := Located.single inner (List.cons_ne_nil c [])
      have place : Text.byteLength (before ++ [mark]) = Text.byteLength before + mark.utf8Size := by
        simp
      rw [place] at located
      apply located.widen
      · exact Nat.le_add_right _ _
      · simp [Spelling.text]
        omega

theorem mark_of_symbol (spelling : Spelling isName) (offset : Nat) :
    ((spelling.symbol terminals offset).name, (spelling.symbol terminals offset).span) =
      (spelling.name, spelling.span offset) := by
  unfold Spelling.symbol
  split
  · rfl
  · rfl

/-- By induction on the row: the names of the rest come after the first. -/
theorem located_row (row : Row) {before after : List Char}
    (whole : text = before ++ (row.text ++ after)) :
    Located text (Text.byteLength before) (Text.byteLength before + Text.byteLength row.text)
      (marksOf (row.symbols terminals (Text.byteLength before))
        (row.precedence? (Text.byteLength before))) := by
  induction row generalizing before with
  | done => exact Located.nil _ _ _
  | clause space apart name gap =>
      have inner : text = (before ++ precedenceKey ++ space.chars) ++
          (name.text ++ (gap.chars ++ after)) := by
        simp [whole, Row.text]
      have located := located_spelling (fun _ => id) name inner
      simp only [Text.byteLength_append] at located
      apply located.widen
      · omega
      · simp only [Row.text, Text.byteLength_append]
        omega
  | symbol spelling gap rest ih =>
      have here : text = before ++ (spelling.text ++ (gap.chars ++ rest.text ++ after)) := by
        simp [whole, Row.text]
      have later : text = (before ++ spelling.text ++ gap.chars) ++ (rest.text ++ after) := by
        simp [whole, Row.text]
      have located := located_spelling (fun _ => is_word_of_is_name) spelling here
      have others := ih later
      simp only [Text.byteLength_append] at others
      have both := located.append (others.widen (by omega) (Nat.le_refl _)) (by omega) (by omega)
      simp only [Row.symbols, Row.precedence?, marksOf, List.map_cons, mark_of_symbol]
      refine both.widen (Nat.le_refl _) ?_
      simp only [Row.text, Text.byteLength_append]
      omega

/-- By induction on the alternatives after the first. -/
theorem located_branches (first : Branch) (more : List Branch) {before : List Char}
    (whole : text = before ++ (first.text ++ Branch.barred more)) :
    Located text (Text.byteLength before) (Text.byteLength text)
      ((Branch.alternatives terminals (Text.byteLength before) (first :: more)).flatMap
        fun alternative => marksOf alternative.symbols alternative.precedence) := by
  induction more generalizing before first with
  | nil =>
      have row : text = (before ++ first.lead.chars) ++ (first.row.text ++ Branch.barred []) := by
        simp [whole, Branch.text]
      have located := located_row terminals first.row row
      have size := congrArg Text.byteLength row
      simp only [Text.byteLength_append] at located size
      simp only [Branch.alternatives, Branch.alternative, List.flatMap_cons, List.flatMap_nil,
        List.append_nil]
      exact located.widen (by omega) (by omega)
  | cons next later ih =>
      have row : text = (before ++ first.lead.chars) ++
          (first.row.text ++ Branch.barred (next :: later)) := by
        simp [whole, Branch.text]
      have rest : text = (before ++ first.text ++ ['|']) ++ (next.text ++ Branch.barred later) := by
        simp [whole, Branch.barred]
      have located := located_row terminals first.row row
      have others := ih next rest
      have size := congrArg Text.byteLength row
      have offset : Text.byteLength (before ++ first.text ++ ['|']) =
          Text.byteLength before + Text.byteLength first.text + 1 := by
        rw [Text.byteLength_append, Text.byteLength_append]
        rfl
      have ends : Text.byteLength first.text =
          Text.byteLength first.lead.chars + Text.byteLength first.row.text :=
        Text.byteLength_append _ _
      rw [offset] at others
      simp only [Text.byteLength_append] at located size
      rw [Branch.alternatives, List.flatMap_cons]
      refine (located.widen (by omega) (Nat.le_refl _)).append (others.widen (by omega) (Nat.le_refl _))
        (by omega) (by omega)

theorem located_layout (layout : Layout) :
    Located layout.text 0 (Text.byteLength layout.text) (layout.ruleText terminals).marks := by
  have name : layout.text = layout.before.chars ++ (layout.name ++
      (layout.after.chars ++ [':'] ++ (layout.first.text ++ Branch.barred layout.more))) := by
    simp [Layout.text, Layout.head]
  have some := (is_word_iff.mp (is_word_of_is_name layout.named)).1
  have located := Located.single name some
  have body : layout.text = layout.head ++ (layout.first.text ++ Branch.barred layout.more) := rfl
  have others := located_branches terminals layout.first layout.more body
  have head : Text.byteLength layout.head = Text.byteLength layout.before.chars +
      (Text.byteLength layout.name + (Text.byteLength layout.after.chars + 1)) := by
    simp only [Layout.head, Text.byteLength_append]
    rfl
  have size : Text.byteLength layout.head ≤ Text.byteLength layout.text := by
    rw [body, Text.byteLength_append]
    exact Nat.le_add_right _ _
  exact (located.widen (Nat.zero_le _) (by omega)).append others (Nat.zero_le _) size

/-- All names that are read from a text stand in it where their spans say. -/
theorem located_of_parse {parsed : RuleText} (read : parse terminals text = .ok parsed) :
    Located text 0 (Text.byteLength text) parsed.marks := by
  obtain ⟨layout, rfl, _, rfl⟩ := exists_layout terminals read
  exact located_layout terminals layout

end Layouts

section Problems

variable {text : List Char} {place : Cursor} {cause : GrammarError.Cause} {span : Span}

theorem stretch_lies_in (lies : place.LiesIn text) {taken rest : List Char}
    (split : place.rest = taken ++ rest) :
    (Span.ofLength place.offset (Text.byteLength taken)).LiesIn text :=
  ⟨taken, lies.slice split⟩

theorem point_lies_in (lies : place.LiesIn text) : (Span.point place.offset).LiesIn text :=
  stretch_lies_in lies (List.nil_append place.rest).symm

theorem name_problem_lies_in (lies : place.LiesIn text)
    (failed : readName place = .error (cause, span)) : span.LiesIn text := by
  unfold readName at failed
  split at failed
  · split at failed
    · cases failed
    · cases failed
      exact point_lies_in lies
  · cases failed
    exact point_lies_in lies

theorem quoted_problem_lies_in (lies : place.LiesIn text) {mark : Char} {rest : List Char}
    (content : place.rest = mark :: rest) (marks : isQuote mark = true)
    (failed : quotedWord mark place (place.past [mark] rest) = .error (cause, span)) :
    span.LiesIn text := by
  by_cases closed : mark ∈ rest
  · obtain ⟨inner, later, split, others⟩ := List.eq_append_cons_of_mem closed
    have whole : place.rest = (mark :: inner ++ [mark]) ++ later := by simp [content, split]
    have size : Text.byteLength (mark :: inner ++ [mark]) = Text.byteLength inner + 2 := by
      simp [quote_size marks]
      omega
    rw [Cursor.past, split, quoted_word_of_closed place _ others] at failed
    split at failed
    · cases failed
    · cases failed
      rw [← size]
      exact stretch_lies_in lies whole
  · rw [quoted_word_of_unclosed place _ closed] at failed
    cases failed
    exact stretch_lies_in lies (List.append_nil place.rest).symm

theorem word_problem_lies_in (lies : place.LiesIn text)
    (failed : readWord place = .error (cause, span)) : span.LiesIn text := by
  unfold readWord at failed
  split at failed
  · cases failed
  · rename_i mark rest content
    split at failed
    · rename_i marks
      exact quoted_problem_lies_in lies content marks failed
    · cases failed

theorem word_lies_in (lies : place.LiesIn text) {word : Word} (read : readWord place = .ok word) :
    word.span.LiesIn text := by
  unfold readWord at read
  split at read
  · cases read
    exact stretch_lies_in lies (Cursor.takeWhile_splits isWordChar place).1
  · rename_i mark rest content
    split at read
    · have inside : (place.past [mark] rest).LiesIn text := lies.past content
      unfold quotedWord at read
      simp only at read
      split at read
      · cases read
      · split at read
        · cases read
          exact stretch_lies_in inside (Cursor.takeWhile_splits (· != mark) _).1
        · cases read
    · cases read
      exact stretch_lies_in lies (Cursor.takeWhile_splits isWordChar place).1

theorem clause_problem_lies_in {clause afterKey : Cursor} (lies : clause.LiesIn text)
    (after : afterKey.LiesIn text)
    (failed : readPrecedence clause.offset afterKey = .error (cause, span)) : span.LiesIn text := by
  unfold readPrecedence at failed
  simp only at failed
  split at failed
  · cases failed
    exact point_lies_in lies
  · split at failed
    · split at failed
      · cases failed
        exact point_lies_in after.skipBlank
      · cases failed
    · cases failed
      exact point_lies_in after.skipBlank

theorem symbol_problem_lies_in (lies : place.LiesIn text) {terminals : List String} {word : Word}
    (read : readWord place = .ok word) (failed : symbolOf terminals word = .error (cause, span)) :
    span.LiesIn text := by
  unfold symbolOf at failed
  simp only at failed
  split at failed
  · cases failed
  · split at failed
    · cases failed
    · cases failed
      exact word_lies_in lies read

/-- By induction on the steps of the reader. -/
theorem alternatives_problem_lies_in (terminals : List String) (done : List Alternative)
    (current : Alternative) (lies : place.LiesIn text)
    (failed : readAlternatives terminals done current place = .error (cause, span)) :
    span.LiesIn text := by
  fun_induction readAlternatives terminals done current place with
  | case1 => cases failed
  | case2 done current place rest content ih =>
      have next : (place.past ['|'] rest).LiesIn text := lies.past content
      exact ih next.skipBlank failed
  | case3 done current place c rest content other closed =>
      cases failed
      exact point_lies_in lies
  | case4 done current place c rest content other unclosed afterKey found problem again =>
      cases failed
      exact clause_problem_lies_in lies (lies.after found) again
  | case5 done current place c rest content other unclosed afterKey found word read ih =>
      exact ih ((lies.after found).readPrecedence read).skipBlank failed
  | case6 done current place c rest content other unclosed missing problem again =>
      cases failed
      exact word_problem_lies_in lies again
  | case7 done current place c rest content other unclosed missing word read problem again =>
      cases failed
      exact symbol_problem_lies_in lies read again
  | case8 done current place c rest content other unclosed missing word read symbol stands ih =>
      exact ih (lies.readWord read).skipBlank failed

theorem problem_lies_in (terminals : List String)
    (failed : parse terminals text = .error (cause, span)) : span.LiesIn text := by
  have start := (Cursor.start_lies_in text).skipBlank
  simp only [parse] at failed
  split at failed
  · rename_i problem named
    cases failed
    exact name_problem_lies_in start named
  · rename_i name afterName named
    obtain ⟨behind, _⟩ := start.readName named
    split at failed
    · cases failed
      exact stretch_lies_in start (name_of_read named).2
    · split at failed
      · cases failed
        exact point_lies_in behind.skipBlank
      · rename_i body colon
        split at failed
        · rename_i problem again
          cases failed
          exact alternatives_problem_lies_in terminals [] {} (behind.skipBlank.after colon).skipBlank
            again
        · cases failed

end Problems

end RuleText

end SlrKit
