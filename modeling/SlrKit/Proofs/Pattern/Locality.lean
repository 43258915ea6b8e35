import SlrKit.Pattern.Reader
import Mathlib

/-!
# Reading in front of a parenthesis

The parts of a pattern are read alike at the end of a text and in front of a closing parenthesis: no
escape, class, group or number of repetitions is taken further than it goes by itself. Only a comment
that no line end closes goes on, and takes the parenthesis for a part of itself.
-/

set_option autoImplicit false

namespace SlrKit

namespace Pattern

section Skipping

theorem skip_ignored_append (extended : Bool) (text more : List Char) (inComment : Bool) (c : Char)
    (rest : List Char) (found : skipIgnored extended inComment text = c :: rest) :
    skipIgnored extended inComment (text ++ more) = c :: (rest ++ more) := by
  induction text generalizing inComment with
  | nil =>
      cases inComment with
      | true => cases found
      | false => cases found
  | cons first text ih =>
      rw [List.cons_append]
      cases inComment with
      | true =>
          rw [skipIgnored] at found ⊢
          exact ih _ found
      | false =>
          rw [skipIgnored] at found ⊢
          split at found
          · rename_i blank
            rw [if_pos blank]
            exact ih _ found
          · rename_i visible
            rw [if_neg visible]
            split at found
            · rename_i opens
              rw [if_pos opens]
              exact ih _ found
            · rename_i plain
              rw [if_neg plain]
              cases found
              rfl

/-- Where nothing but what is ignored is left, a parenthesis is seen, unless a comment takes it. -/
theorem skip_ignored_shut (extended : Bool) (text : List Char) (inComment : Bool)
    (nothing : skipIgnored extended inComment text = []) :
    (∀ behind, skipIgnored extended inComment (text ++ ')' :: behind) = ')' :: behind) ∨
      skipIgnored extended inComment (text ++ [')']) = [] := by
  induction text generalizing inComment with
  | nil =>
      cases inComment with
      | true => exact Or.inr rfl
      | false =>
          refine Or.inl fun behind => ?_
          cases extended with
          | true => rfl
          | false => rfl
  | cons first text ih =>
      simp only [List.cons_append]
      cases inComment with
      | true =>
          simp only [skipIgnored] at nothing ⊢
          exact ih _ nothing
      | false =>
          simp only [skipIgnored] at nothing ⊢
          by_cases blank : (extended && Text.isBlank first) = true
          · simp only [if_pos blank] at nothing ⊢
            exact ih _ nothing
          · by_cases opens : (extended && first == '#') = true
            · simp only [if_neg blank, if_pos opens] at nothing ⊢
              exact ih _ nothing
            · simp only [if_neg blank, if_neg opens] at nothing
              cases nothing

variable (flags : Flags) {text rest more : List Char} {c : Char}

theorem skip_append (found : flags.skip text = c :: rest) :
    flags.skip (text ++ more) = c :: (rest ++ more) :=
  skip_ignored_append flags.extended text more false c rest found

theorem skip_append_of_ne_nil (found : flags.skip text = rest) (nonempty : rest ≠ []) :
    flags.skip (text ++ more) = rest ++ more := by
  cases rest with
  | nil => exact absurd rfl nonempty
  | cons first rest => exact skip_append flags found

theorem skip_of_skip_some (found : flags.skip? text = some rest) :
    flags.skip text = rest ∧ rest ≠ [] := by
  unfold Flags.skip? at found
  cases ahead : flags.skip text with
  | nil =>
      rw [ahead] at found
      cases found
  | cons first others =>
      rw [ahead] at found
      cases found
      exact ⟨rfl, List.cons_ne_nil first others⟩

theorem skip_some_append (found : flags.skip? text = some rest) :
    flags.skip? (text ++ more) = some (rest ++ more) := by
  rcases skip_of_skip_some flags found with ⟨ahead, nonempty⟩
  cases rest with
  | nil => exact absurd rfl nonempty
  | cons first others =>
      rw [Flags.skip?, skip_append flags ahead]
      rfl

theorem skip_length (text : List Char) : (flags.skip text).length ≤ text.length := by
  have all : ∀ extended inComment text, (skipIgnored extended inComment text).length ≤ text.length := by
    intro extended inComment text
    induction text generalizing inComment with
    | nil =>
        cases inComment with
        | true => exact Nat.le_refl 0
        | false => exact Nat.le_refl 0
    | cons first text ih =>
        cases inComment with
        | true =>
            rw [skipIgnored]
            exact Nat.le_succ_of_le (ih _)
        | false =>
            rw [skipIgnored]
            split
            · exact Nat.le_succ_of_le (ih _)
            · split
              · exact Nat.le_succ_of_le (ih _)
              · exact Nat.le_refl _
  exact all _ _ _

end Skipping

section Escapes

variable (flags : Flags) (more : List Char) {text after : List Char} {atom : Atom}

theorem read_hex_digits_append (count value : Nat)
    (read : readHexDigits flags count value text = some (atom, after)) :
    readHexDigits flags count value (text ++ more) = some (atom, after ++ more) := by
  induction count generalizing value text with
  | zero =>
      rw [readHexDigits] at read ⊢
      rcases Option.map_eq_some_iff.mp read with ⟨c, valid, same⟩
      cases same
      rw [valid]
      rfl
  | succ count ih =>
      rw [readHexDigits] at read ⊢
      cases ahead : flags.skip text with
      | nil =>
          rw [ahead] at read
          cases read
      | cons c rest =>
          rw [ahead] at read
          rw [skip_append flags ahead]
          rcases Option.bind_eq_some_iff.mp read with ⟨digit, isDigit, later⟩
          simp only [isDigit, Option.bind_some]
          exact ih _ later

theorem read_hex_braces_eq (fuel : Nat) (value : Option Nat) (text : List Char) :
    readHexBraces flags (fuel + 1) value text =
      match flags.skip text with
      | [] => none
      | c :: rest =>
          if c = '\x7d' then value.bind fun code => (charOf? code).map fun c => (.char c, rest)
          else (hexValue? c).bind fun digit =>
            readHexBraces flags fuel (some (value.getD 0 * 16 + digit)) rest := by
  rw [readHexBraces]
  cases flags.skip text with
  | nil => rfl
  | cons c rest =>
      by_cases closing : c = '\x7d'
      · rw [closing]
        rfl
      · simp only [if_neg closing]

theorem read_hex_braces_append (fuel extra : Nat) (value : Option Nat)
    (read : readHexBraces flags fuel value text = some (atom, after)) :
    readHexBraces flags (fuel + extra) value (text ++ more) = some (atom, after ++ more) := by
  induction fuel generalizing value text with
  | zero => cases read
  | succ fuel ih =>
      rw [Nat.add_right_comm, read_hex_braces_eq]
      rw [read_hex_braces_eq] at read
      cases ahead : flags.skip text with
      | nil =>
          rw [ahead] at read
          cases read
      | cons c rest =>
          rw [skip_append flags ahead]
          rw [ahead] at read
          by_cases closing : c = '\x7d'
          · simp only [if_pos closing] at read ⊢
            rcases Option.bind_eq_some_iff.mp read with ⟨code, known, valid⟩
            rcases Option.map_eq_some_iff.mp valid with ⟨made, same, pair⟩
            cases pair
            rw [known, Option.bind_some, same]
            rfl
          · simp only [if_neg closing] at read ⊢
            rcases Option.bind_eq_some_iff.mp read with ⟨digit, isDigit, later⟩
            rw [isDigit, Option.bind_some]
            exact ih _ later

theorem read_hex_append (count : Nat) (read : readHex flags (count + 1) text = some (atom, after)) :
    readHex flags (count + 1) (text ++ more) = some (atom, after ++ more) := by
  unfold readHex at read ⊢
  split at read
  · rename_i rest braced
    have wider := read_hex_braces_append flags more _ more.length none read
    rw [skip_append flags braced]
    simp only [List.length_append, Nat.add_right_comm _ more.length 1]
    exact wider
  · rename_i unbraced
    cases ahead : flags.skip text with
    | nil =>
        rw [ahead] at read
        cases read
    | cons c rest =>
        rw [ahead] at read
        rw [skip_append flags ahead]
        split
        · rename_i same
          cases same
          exact (unbraced rest ahead).elim
        · exact read_hex_digits_append flags more (count + 1) 0 read

theorem read_escape_append (read : readEscape flags text = some (atom, after)) :
    readEscape flags (text ++ more) = some (atom, after ++ more) := by
  cases text with
  | nil => cases read
  | cons c rest =>
      rw [List.cons_append]
      unfold readEscape at read ⊢
      simp only at read ⊢
      split at read
      case h_7 => exact read_hex_append flags more 1 read
      case h_8 => exact read_hex_append flags more 3 read
      case h_9 => exact read_hex_append flags more 7 read
      case h_22 =>
        split at read
        · cases read
          simp_all
        · cases read
      all_goals
        cases read
        rfl

end Escapes

section Classes

variable (flags : Flags) (behind : List Char) {text after : List Char}

theorem read_hyphens_stop (fuel : Nat) (cls : OpenClass) (rest : List Char) {c : Char}
    (plain : c ≠ '-') : readHyphens flags fuel cls (c :: rest) = some (cls, c :: rest) := by
  cases fuel with
  | zero => rfl
  | succ fuel => simp [readHyphens, plain]

theorem read_hyphens_shut (fuel extra : Nat) (cls next : OpenClass) (enough : text.length ≤ fuel)
    (read : readHyphens flags fuel cls text = some (next, after)) :
    readHyphens flags (fuel + extra) cls (text ++ ')' :: behind) =
      some (next, after ++ ')' :: behind) := by
  induction fuel generalizing cls text with
  | zero =>
      have nothing := List.length_eq_zero_iff.mp (Nat.le_zero.mp enough)
      rw [nothing] at read ⊢
      cases read
      cases extra with
      | zero => rfl
      | succ extra => rfl
  | succ fuel ih =>
      rw [Nat.add_right_comm]
      cases text with
      | nil =>
          cases read
          rfl
      | cons c rest =>
          by_cases hyphen : c = '-'
          · rw [hyphen] at read ⊢
            rw [readHyphens] at read
            rw [List.cons_append, readHyphens]
            rcases Option.bind_eq_some_iff.mp read with ⟨body, ahead, later⟩
            rw [skip_some_append flags ahead, Option.bind_some]
            have shorter : body.length ≤ fuel := by
              rw [← (skip_of_skip_some flags ahead).1]
              exact (skip_length flags rest).trans (Nat.le_of_succ_le_succ enough)
            exact ih _ shorter later
          · rw [read_hyphens_stop flags _ _ _ hyphen] at read
            rw [List.cons_append, read_hyphens_stop flags _ _ _ hyphen]
            cases read
            rfl

/-- Whether a class is negated, and what stands behind the sign of it. -/
def readNegation (first : List Char) : Option (Bool × List Char) :=
  match first with
  | '^' :: rest => (flags.skip? rest).map fun body => (true, body)
  | body => some (false, body)

/-- A closing bracket in first place stands for itself. -/
def readFirstBracket (cls : OpenClass) (rest : List Char) : Option (OpenClass × List Char) :=
  match rest with
  | ']' :: after =>
      if cls.items.isEmpty then
        (flags.skip? after).map fun body => (cls.add (.singleton ']'), body)
      else some (cls, rest)
  | _ => some (cls, rest)

theorem read_negation_plain {first : List Char} (plain : ∀ rest, first = '^' :: rest → False) :
    readNegation flags first = some (false, first) := by
  unfold readNegation
  split
  · exact (plain _ rfl).elim
  · rfl

theorem open_class_eq (text : List Char) :
    openClass flags text = (flags.skip? text).bind fun first =>
      (readNegation flags first).bind fun sign =>
        (readHyphens flags sign.2.length { negated := sign.1 } sign.2).bind fun begun =>
          readFirstBracket flags begun.1 begun.2 := by
  unfold openClass
  rw [Option.bind_eq_bind]
  congr 1
  funext first
  split
  · rfl
  · rename_i plain
    rw [read_negation_plain flags plain]
    rfl

theorem read_negation_append (more : List Char) {first : List Char} {sign : Bool × List Char}
    (nonempty : first ≠ []) (read : readNegation flags first = some sign) :
    readNegation flags (first ++ more) = some (sign.1, sign.2 ++ more) := by
  cases first with
  | nil => exact absurd rfl nonempty
  | cons c rest =>
      by_cases caret : c = '^'
      · rw [caret] at read ⊢
        rcases Option.map_eq_some_iff.mp read with ⟨body, ahead, same⟩
        rw [← same, List.cons_append, readNegation, skip_some_append flags ahead]
        rfl
      · have plain : ∀ {text : List Char} rest, c :: text = '^' :: rest → False := by
          intro text other same
          cases same
          exact caret rfl
        rw [read_negation_plain flags plain] at read
        cases read
        rw [List.cons_append, read_negation_plain flags plain]

theorem read_first_bracket_shut {cls begun : OpenClass} {rest : List Char}
    (read : readFirstBracket flags begun rest = some (cls, after)) :
    readFirstBracket flags begun (rest ++ ')' :: behind) = some (cls, after ++ ')' :: behind) := by
  cases rest with
  | nil =>
      cases read
      rfl
  | cons c rest =>
      by_cases bracket : c = ']'
      · rw [bracket] at read ⊢
        rw [List.cons_append]
        rw [readFirstBracket] at read ⊢
        split at read
        · rename_i first
          rcases Option.map_eq_some_iff.mp read with ⟨body, ahead, same⟩
          cases same
          rw [if_pos first, skip_some_append flags ahead]
          rfl
        · rename_i later
          cases read
          rw [if_neg later]
          rfl
      · have plain : ∀ text : List Char, readFirstBracket flags begun (c :: text) =
            some (begun, c :: text) := by
          intro text
          unfold readFirstBracket
          split
          · rename_i same
            cases same
            exact absurd rfl bracket
          · rfl
        rw [plain] at read
        cases read
        rw [List.cons_append, plain]

theorem open_class_shut {cls : OpenClass} (opened : openClass flags text = some (cls, after)) :
    openClass flags (text ++ ')' :: behind) = some (cls, after ++ ')' :: behind) := by
  rw [open_class_eq] at opened ⊢
  rcases Option.bind_eq_some_iff.mp opened with ⟨first, ahead, signed⟩
  rcases Option.bind_eq_some_iff.mp signed with ⟨sign, negated, begun⟩
  rcases Option.bind_eq_some_iff.mp begun with ⟨start, hyphens, closing⟩
  have nonempty := (skip_of_skip_some flags ahead).2
  rw [skip_some_append flags ahead, Option.bind_some,
    read_negation_append flags _ nonempty negated, Option.bind_some, List.length_append,
    read_hyphens_shut flags behind _ _ _ _ (Nat.le_refl _) hyphens]
  exact read_first_bracket_shut flags behind closing

theorem named_without_parenthesis {name : List Char} {set : CharSet}
    (found : CharSet.named? name = some set) : ')' ∉ name := by
  have plain : ∀ entry ∈ CharSet.namedRanges, ')' ∉ entry.1 := by decide
  rcases Option.map_eq_some_iff.mp found with ⟨ranges, listed, _⟩
  rcases List.lookup_eq_some_iff.mp listed with ⟨earlier, later, table, _⟩
  exact plain (name, ranges) (by rw [table]; simp)

theorem take_while_shut {stop : Char} {body : List Char} (ends : stop ∈ body) :
    (body ++ ')' :: behind).takeWhile (· != stop) = body.takeWhile (· != stop) ∧
      ∃ rest, body.drop (body.takeWhile (· != stop)).length = stop :: rest ∧
        (body ++ ')' :: behind).drop (body.takeWhile (· != stop)).length =
          stop :: (rest ++ ')' :: behind) := by
  induction body with
  | nil => cases ends
  | cons c body ih =>
      by_cases stops : c = stop
      · rw [stops]
        simp
      · have later : stop ∈ body := by
          rcases List.mem_cons.mp ends with same | later
          · exact absurd same.symm stops
          · exact later
        rcases ih later with ⟨same, rest, dropped, droppedWhole⟩
        have passes : (c != stop) = true := by simpa using stops
        rw [List.cons_append, List.takeWhile_cons, List.takeWhile_cons, if_pos passes, if_pos passes,
          same]
        exact ⟨rfl, rest, dropped, droppedWhole⟩

/-- What a named class stands for, whose name begins with `body`, and what stands behind it. -/
def readClassName (negated : Bool) (body : List Char) : Option (CharSet × List Char) :=
  let name := body.takeWhile (· != ':')
  (CharSet.named? name).bind fun set =>
    if (body.drop name.length).take 2 = [':', ']'] then
      some (if negated then (flags.fold set).complement else flags.fold set,
        body.drop (name.length + 2))
    else none

theorem read_class_name_shut (negated : Bool) (body : List Char) :
    readClassName flags negated (body ++ ')' :: behind) =
      (readClassName flags negated body).map fun read => (read.1, read.2 ++ ')' :: behind) := by
  unfold readClassName
  simp only
  by_cases ends : ':' ∈ body
  · rcases take_while_shut behind ends with ⟨same, rest, dropped, droppedWhole⟩
    rw [same, ← List.drop_drop, ← List.drop_drop, dropped, droppedWhole]
    cases CharSet.named? (body.takeWhile (· != ':')) with
    | none => rfl
    | some set =>
        cases rest with
        | nil => rfl
        | cons d rest =>
            simp only [Option.bind_some, List.cons_append, List.take_succ_cons, List.take_zero,
              List.drop_succ_cons, List.drop_zero]
            split
            · rfl
            · rfl
  · have whole : ∀ c ∈ body, (c != ':') = true := by
      intro c member
      have differs : c ≠ ':' := fun same => ends (same ▸ member)
      simpa using differs
    have unnamed : CharSet.named? ((body ++ ')' :: behind).takeWhile (· != ':')) = none := by
      rw [Option.eq_none_iff_forall_ne_some]
      intro set found
      apply named_without_parenthesis found
      rw [List.takeWhile_append_of_pos whole]
      simp
    rw [unnamed, List.takeWhile_eq_self_iff.mpr whole, List.drop_length]
    cases CharSet.named? body with
    | none => rfl
    | some set => rfl

theorem read_named_class_of_name (negated : Bool) (body : List Char) :
    (match body.drop (body.takeWhile (· != ':')).length,
        CharSet.named? (body.takeWhile (· != ':')) with
      | ':' :: ']' :: after, some set =>
          some (if negated then (flags.fold set).complement else flags.fold set, after)
      | _, _ => none) = readClassName flags negated body := by
  unfold readClassName
  simp only
  split
  · rename_i after set dropped named
    rw [named, Option.bind_some, ← List.drop_drop, dropped]
    rfl
  · rename_i other
    cases named : CharSet.named? (body.takeWhile (· != ':')) with
    | none => rfl
    | some set =>
        rw [Option.bind_some, if_neg]
        intro brackets
        have split := List.take_append_drop 2 (body.drop (body.takeWhile (· != ':')).length)
        rw [brackets] at split
        exact other _ set split.symm named

theorem read_named_class_eq (text : List Char) :
    readNamedClass flags (':' :: text) =
      if text.head? = some '^' then readClassName flags true text.tail
      else readClassName flags false text := by
  rw [← read_named_class_of_name, ← read_named_class_of_name]
  unfold readNamedClass
  cases text with
  | nil => rfl
  | cons c rest =>
      by_cases caret : c = '^'
      · rw [caret]
        rfl
      · have plain : ¬(c :: rest).head? = some '^' := by simpa using caret
        rw [if_neg plain]
        split
        · rename_i body same
          cases same
          split
          · rename_i rest signed
            split at signed
            · rename_i same
              cases same
              exact absurd rfl caret
            · cases signed
              rfl
        · rename_i other
          exact (other _ rfl).elim

theorem read_named_class_shut :
    readNamedClass flags (text ++ ')' :: behind) =
      (readNamedClass flags text).map fun read => (read.1, read.2 ++ ')' :: behind) := by
  cases text with
  | nil => rfl
  | cons c text =>
      by_cases colon : c = ':'
      · rw [colon, List.cons_append, read_named_class_eq, read_named_class_eq]
        cases text with
        | nil => exact read_class_name_shut flags behind false []
        | cons d rest =>
            by_cases caret : d = '^'
            · rw [List.cons_append, if_pos (by simp [caret]), if_pos (by simp [caret])]
              exact read_class_name_shut flags behind true rest
            · rw [List.cons_append, if_neg (by simpa using caret), if_neg (by simpa using caret)]
              exact read_class_name_shut flags behind false (d :: rest)
      · have plain : ∀ text, readNamedClass flags (c :: text) = none := by
          intro text
          unfold readNamedClass
          split
          · rename_i same
            cases same
            exact absurd rfl colon
          · rfl
        rw [List.cons_append, plain, plain]
        rfl

theorem read_class_item_append (more : List Char) {atom : Atom}
    (read : readClassItem flags text = some (atom, after)) :
    readClassItem flags (text ++ more) = some (atom, after ++ more) := by
  cases text with
  | nil => cases read
  | cons c rest =>
      by_cases escaped : c = '\\'
      · rw [escaped] at read ⊢
        exact read_escape_append flags more read
      · have plain : ∀ text, readClassItem flags (c :: text) = some (.char c, text) := by
          intro text
          unfold readClassItem
          split
          · rename_i same
            cases same
          · rename_i same
            cases same
            exact absurd rfl escaped
          · rename_i same
            cases same
            rfl
        rw [plain] at read
        cases read
        rw [List.cons_append, plain]

/-- The characters between two. -/
def rangeOf? : Atom → Atom → Option CharSet
  | .char low, .char high => if low ≤ high then some (.ofRanges [(low.toNat, high.toNat)]) else none
  | _, _ => none

/-- What begins with an item of a class: the item, or a range if a hyphen and another item follow. -/
def readRangeEnd (first : Atom) (rest : List Char) : Option (CharSet × List Char) :=
  if rest.head? = some '-' then
    match flags.skip rest.tail with
    | [] => none
    | d :: body =>
        if d = ']' ∨ d = '-' then first.asSet?.map fun set => (set, rest)
        else (readClassItem flags (d :: body)).bind fun last =>
          (rangeOf? first last.1).map fun set => (set, last.2)
  else first.asSet?.map fun set => (set, rest)

theorem read_class_range_eq (text : List Char) :
    readClassRange flags text = (readClassItem flags text).bind fun item =>
      (flags.skip? item.2).bind fun rest => readRangeEnd flags item.1 rest := by
  unfold readClassRange
  rw [Option.bind_eq_bind]
  congr 1
  funext item
  rw [Option.bind_eq_bind]
  simp only
  congr 1
  funext rest
  split
  · rename_i afterHyphen
    rw [readRangeEnd, List.head?_cons, if_pos rfl, List.tail_cons]
    split
    · rename_i ahead
      rw [ahead]
    · rename_i ahead
      rw [ahead]
      rfl
    · rename_i ahead
      rw [ahead]
      rfl
    · rename_i ended bracket hyphen
      cases ahead : flags.skip afterHyphen with
      | nil => exact (ended ahead).elim
      | cons d body =>
          have plain : ¬(d = ']' ∨ d = '-') := by
            intro ends
            rcases ends with same | same
            · exact bracket body (by rw [ahead, same])
            · exact hyphen body (by rw [ahead, same])
          simp only [if_neg plain]
          congr 1
          funext last
          cases item.1 with
          | char low =>
              cases last.1 with
              | char high =>
                  simp only [rangeOf?]
                  split
                  · rfl
                  · rfl
              | set members => rfl
              | look condition => rfl
          | set members => rfl
          | look condition => rfl
  · rename_i plain
    rw [readRangeEnd, if_neg]
    intro hyphen
    cases rest with
    | nil => cases hyphen
    | cons d body =>
        cases hyphen
        exact plain body rfl

theorem read_range_end_append (more : List Char) {first : Atom} {rest : List Char} {set : CharSet}
    (nonempty : rest ≠ []) (read : readRangeEnd flags first rest = some (set, after)) :
    readRangeEnd flags first (rest ++ more) = some (set, after ++ more) := by
  have alone : ∀ {rest : List Char}, first.asSet?.map (fun set => (set, rest)) = some (set, after) →
      first.asSet?.map (fun set => (set, rest ++ more)) = some (set, after ++ more) := by
    intro rest single
    rcases Option.map_eq_some_iff.mp single with ⟨members, known, same⟩
    cases same
    rw [known]
    rfl
  cases rest with
  | nil => exact absurd rfl nonempty
  | cons c rest =>
      unfold readRangeEnd at read ⊢
      rw [List.cons_append, List.head?_cons, List.tail_cons]
      rw [List.head?_cons, List.tail_cons] at read
      by_cases hyphen : some c = some '-'
      · rw [if_pos hyphen] at read ⊢
        cases ahead : flags.skip rest with
        | nil =>
            rw [ahead] at read
            cases read
        | cons d body =>
            rw [ahead] at read
            rw [skip_append flags ahead]
            by_cases ends : d = ']' ∨ d = '-'
            · simp only [if_pos ends] at read ⊢
              exact alone read
            · simp only [if_neg ends] at read ⊢
              rcases Option.bind_eq_some_iff.mp read with ⟨⟨last, behind⟩, item, range⟩
              rcases Option.map_eq_some_iff.mp range with ⟨members, known, same⟩
              cases same
              have further := read_class_item_append flags more item
              rw [List.cons_append] at further
              rw [further, Option.bind_some, known]
              rfl
      · rw [if_neg hyphen] at read ⊢
        exact alone read

theorem read_class_range_append (more : List Char) {set : CharSet}
    (read : readClassRange flags text = some (set, after)) :
    readClassRange flags (text ++ more) = some (set, after ++ more) := by
  rw [read_class_range_eq] at read ⊢
  rcases Option.bind_eq_some_iff.mp read with ⟨⟨first, behind⟩, item, later⟩
  rcases Option.bind_eq_some_iff.mp later with ⟨rest, ahead, range⟩
  have nonempty := (skip_of_skip_some flags ahead).2
  rw [read_class_item_append flags more item, Option.bind_some, skip_some_append flags ahead,
    Option.bind_some]
  exact read_range_end_append flags more nonempty range

/-- The operator that a sign stands for if it comes twice. -/
def operatorAt? (c : Char) (rest : List Char) : Option SetOperator :=
  if rest.head? = some c then
    if c = '&' then some .intersection
    else if c = '-' then some .difference
    else if c = '~' then some .symmetricDifference
    else none
  else none

theorem operator_at_shut (c : Char) (rest : List Char) :
    operatorAt? c (rest ++ ')' :: behind) = operatorAt? c rest := by
  cases rest with
  | nil =>
      by_cases shut : c = ')'
      · rw [shut]
        rfl
      · have differs : ¬(some ')' = some c) := fun same => shut (Option.some.inj same).symm
        rw [List.nil_append, operatorAt?, List.head?_cons, if_neg differs]
        rfl
  | cons d rest => rfl

theorem rest_of_operator {c : Char} {rest : List Char} {operator : SetOperator}
    (found : operatorAt? c rest = some operator) : rest = c :: rest.tail := by
  unfold operatorAt? at found
  split at found
  · rename_i twice
    cases rest with
    | nil => cases twice
    | cons d rest =>
        cases twice
        rfl
  · cases found

theorem read_class_eq (fuel : Nat) (cls : OpenClass) (outer : List OpenClass) (text : List Char) :
    readClass flags (fuel + 1) cls outer text =
      match flags.skip text with
      | [] => none
      | c :: rest =>
          if c = '[' then
            match readNamedClass flags rest with
            | some (set, after) => readClass flags fuel (cls.add set) outer after
            | none => (openClass flags rest).bind fun inner =>
                readClass flags fuel inner.1 (cls :: outer) inner.2
          else if c = ']' then
            match outer with
            | [] => some (cls.close flags, rest)
            | enclosing :: others => readClass flags fuel (enclosing.add (cls.close flags)) others rest
          else
            match operatorAt? c rest with
            | some operator => readClass flags fuel (cls.operate flags operator) outer rest.tail
            | none => (readClassRange flags (c :: rest)).bind fun item =>
                readClass flags fuel (cls.add item.1) outer item.2 := by
  rw [readClass]
  split
  · rename_i ahead
    rw [ahead]
  · rename_i rest ahead
    rw [ahead]
    rfl
  · rename_i rest ahead
    rw [ahead]
    rfl
  · rename_i rest ahead
    rw [ahead]
    rfl
  · rename_i rest ahead
    rw [ahead]
    rfl
  · rename_i rest ahead
    rw [ahead]
    rfl
  · rename_i ended opens closes both without either
    cases ahead : flags.skip text with
    | nil => exact (ended ahead).elim
    | cons c rest =>
        have notOpen : c ≠ '[' := fun same => opens rest (by rw [ahead, same])
        have notClose : c ≠ ']' := fun same => closes rest (by rw [ahead, same])
        have single : operatorAt? c rest = none := by
          rw [Option.eq_none_iff_forall_ne_some]
          intro operator found
          rw [rest_of_operator found] at ahead
          unfold operatorAt? at found
          split at found
          · split at found
            · rename_i same
              exact both rest.tail (by rw [ahead, same])
            · split at found
              · rename_i same
                exact without rest.tail (by rw [ahead, same])
              · split at found
                · rename_i same
                  exact either rest.tail (by rw [ahead, same])
                · cases found
          · cases found
        simp only [if_neg notOpen, if_neg notClose, single]

theorem read_class_shut (fuel extra : Nat) (cls : OpenClass) (outer : List OpenClass) {set : CharSet}
    (read : readClass flags fuel cls outer text = some (set, after)) :
    readClass flags (fuel + extra) cls outer (text ++ ')' :: behind) =
      some (set, after ++ ')' :: behind) := by
  induction fuel generalizing cls outer text with
  | zero => cases read
  | succ fuel ih =>
      rw [Nat.add_right_comm, read_class_eq]
      rw [read_class_eq] at read
      cases ahead : flags.skip text with
      | nil =>
          rw [ahead] at read
          cases read
      | cons c rest =>
          rw [ahead] at read
          rw [skip_append flags ahead]
          by_cases opens : c = '['
          · simp only [if_pos opens, read_named_class_shut] at read ⊢
            cases named : readNamedClass flags rest with
            | some whole =>
                rw [named] at read
                exact ih _ _ read
            | none =>
                rw [named] at read
                rcases Option.bind_eq_some_iff.mp read with ⟨inner, opened, later⟩
                simp only [Option.map_none, open_class_shut flags behind opened, Option.bind_some]
                exact ih _ _ later
          · simp only [if_neg opens] at read ⊢
            by_cases closes : c = ']'
            · simp only [if_pos closes] at read ⊢
              cases outer with
              | nil =>
                  cases read
                  rfl
              | cons enclosing others => exact ih _ _ read
            · simp only [if_neg closes, operator_at_shut] at read ⊢
              cases operated : operatorAt? c rest with
              | some operator =>
                  rw [operated] at read
                  rw [rest_of_operator operated, List.cons_append]
                  exact ih _ _ read
              | none =>
                  rw [operated] at read
                  rcases Option.bind_eq_some_iff.mp read with ⟨item, range, later⟩
                  have further := read_class_range_append flags (')' :: behind) range
                  rw [List.cons_append] at further
                  rw [further, Option.bind_some]
                  exact ih _ _ later

end Classes

section Numbers

variable (flags : Flags) (more : List Char) {text after : List Char}

theorem read_flags_append (value : Bool) (seen : List Char) {changed : Flags} {letters : List Char}
    {closing : Char} (read : readFlags flags value seen text = some (changed, letters, closing, after)) :
    readFlags flags value seen (text ++ more) = some (changed, letters, closing, after ++ more) := by
  induction text generalizing flags value seen with
  | nil => cases read
  | cons c rest ih =>
      rw [List.cons_append]
      rw [readFlags] at read ⊢
      split at read
      · rename_i ends
        rw [if_pos ends]
        split at read
        · cases read
        · rename_i complete
          rw [if_neg complete]
          cases read
          rfl
      · rename_i goes
        rw [if_neg goes]
        split at read
        · cases read
        · rename_i fresh
          rw [if_neg fresh]
          split at read
          · rename_i sign
            rw [if_pos sign]
            exact ih _ _ _ read
          · rename_i letter
            rw [if_neg letter]
            rcases Option.bind_eq_some_iff.mp read with ⟨next, change, later⟩
            rw [change, Option.bind_some]
            exact ih _ _ _ later

theorem skip_blank_append (nonempty : Text.skipBlank text ≠ []) :
    Text.skipBlank (text ++ more) = Text.skipBlank text ++ more := by
  unfold Text.skipBlank at nonempty ⊢
  rw [List.dropWhile_append, if_neg]
  simpa using nonempty

theorem read_number_append (fuel extra : Nat) (value : Option Nat) {number : Nat}
    (nonempty : after ≠ []) (read : readNumber flags fuel value text = some (number, after)) :
    readNumber flags (fuel + extra) value (text ++ more) = some (number, after ++ more) := by
  induction fuel generalizing value text with
  | zero => cases read
  | succ fuel ih =>
      rw [Nat.add_right_comm]
      cases text with
      | nil => cases read
      | cons c rest =>
          rw [List.cons_append]
          rw [readNumber] at read ⊢
          split at read
          · rename_i digit
            rw [if_pos digit]
            have left : flags.skip rest ≠ [] := by
              intro nothing
              rw [nothing] at read
              cases fuel with
              | zero => cases read
              | succ fuel => cases read
            rw [skip_append_of_ne_nil flags rfl left]
            exact ih _ read
          · rename_i other
            rw [if_neg other]
            rcases Option.bind_eq_some_iff.mp read with ⟨known, given, limited⟩
            rw [given, Option.bind_some]
            split at limited
            · rename_i small
              rw [if_pos small]
              cases limited
              have visible : Text.skipBlank (c :: rest) ≠ [] := by
                intro nothing
                rw [nothing] at nonempty
                exact nonempty rfl
              rw [← List.cons_append, skip_blank_append more visible,
                skip_append_of_ne_nil flags rfl nonempty]
            · cases limited

theorem read_count_append {number : Nat} (nonempty : after ≠ [])
    (read : readCount flags text = some (number, after)) :
    readCount flags (text ++ more) = some (number, after ++ more) := by
  unfold readCount at read ⊢
  have visible : Text.skipBlank text ≠ [] := by
    intro nothing
    rw [nothing] at read
    cases read
  have further := read_number_append flags more _ more.length none nonempty read
  rw [skip_blank_append more visible, List.length_append, Nat.add_right_comm]
  exact further

/-- How often something is repeated at most, if `least` is how often it is at least, and what stands
behind that. -/
def readMost (least : Nat) (afterLeast : List Char) : Option (Option Nat × List Char) :=
  if afterLeast.head? = some ',' then
    match flags.skip afterLeast.tail with
    | [] => none
    | c :: rest =>
        if c = '\x7d' then some (none, c :: rest)
        else (readCount flags (c :: rest)).map fun read => (some read.1, read.2)
  else some (some least, afterLeast)

/-- Whether a repetition is lazy, and what stands behind its sign. -/
def readLaziness (text : List Char) : Bool × List Char :=
  if (flags.skip text).head? = some '?' then (true, (flags.skip text).tail)
  else (false, flags.skip text)

theorem read_most_append (least : Nat) {afterLeast closing : List Char} {most : Option Nat}
    (nonempty : closing ≠ []) (read : readMost flags least afterLeast = some (most, closing)) :
    readMost flags least (afterLeast ++ more) = some (most, closing ++ more) := by
  unfold readMost at read ⊢
  cases afterLeast with
  | nil =>
      cases read
      exact absurd rfl nonempty
  | cons c rest =>
      rw [List.cons_append, List.head?_cons, List.tail_cons]
      rw [List.head?_cons, List.tail_cons] at read
      split at read
      · rename_i comma
        rw [if_pos comma]
        cases ahead : flags.skip rest with
        | nil =>
            rw [ahead] at read
            cases read
        | cons d body =>
            rw [ahead] at read
            rw [skip_append flags ahead]
            simp only at read ⊢
            split at read
            · rename_i brace
              rw [if_pos brace]
              cases read
              rfl
            · rename_i digits
              rw [if_neg digits]
              rcases Option.map_eq_some_iff.mp read with ⟨⟨number, behind⟩, counted, same⟩
              cases same
              have further := read_count_append flags more nonempty counted
              rw [List.cons_append] at further
              rw [further]
              rfl
      · rename_i other
        rw [if_neg other]
        cases read
        rfl

theorem read_laziness_shut (text : List Char) :
    (∀ behind, readLaziness flags (text ++ ')' :: behind) =
        ((readLaziness flags text).1, (readLaziness flags text).2 ++ ')' :: behind)) ∨
      readLaziness flags (text ++ [')']) = ((readLaziness flags text).1, []) := by
  unfold readLaziness
  cases ahead : flags.skip text with
  | nil =>
      have shut := skip_ignored_shut flags.extended text false ahead
      rcases shut with seen | swallowed
      · refine Or.inl fun behind => ?_
        have skipped : flags.skip (text ++ ')' :: behind) = ')' :: behind := seen behind
        rw [skipped]
        rfl
      · have skipped : flags.skip (text ++ [')']) = [] := swallowed
        exact Or.inr (by rw [skipped]; rfl)
  | cons c rest =>
      refine Or.inl fun behind => ?_
      rw [skip_append flags ahead, List.head?_cons, List.head?_cons]
      split
      · rfl
      · rfl

/-- What is done with the bounds of a repetition once they are read. -/
def repeatBetween (reader : Reader) (least : Nat) (most : Option Nat × List Char) :
    Option (Reader × List Char) :=
  if most.2.head? = some '\x7d' then
    if most.1.any (· < least) then none
    else
      (reader.repeatLast? least most.1 (readLaziness reader.flags most.2.tail).1).map
        fun next => (next, (readLaziness reader.flags most.2.tail).2)
  else none

theorem repeat_between_eq (reader : Reader) (least : Nat) (most : Option Nat × List Char) :
    (match most.2 with
      | '\x7d' :: after =>
          if most.1.any (· < least) then none
          else
            match reader.flags.skip after with
            | '?' :: rest => (reader.repeatLast? least most.1 true).map fun next => (next, rest)
            | rest => (reader.repeatLast? least most.1 false).map fun next => (next, rest)
      | _ => none) = repeatBetween reader least most := by
  unfold repeatBetween
  split
  · rename_i after closing
    rw [closing, List.head?_cons, if_pos rfl, List.tail_cons]
    split
    · rfl
    · unfold readLaziness
      split
      · rename_i rest lazy
        rw [lazy]
        rfl
      · rename_i eager
        rw [if_neg]
        intro sign
        rcases List.head?_eq_some_iff.mp sign with ⟨rest, ahead⟩
        exact eager rest ahead
  · rename_i unclosed
    rw [if_neg]
    intro closing
    rcases List.head?_eq_some_iff.mp closing with ⟨rest, ends⟩
    exact unclosed rest ends

theorem read_counted_eq (reader : Reader) (text : List Char) :
    readCounted reader text =
      ((reader.flags.skip? text).bind (readCount reader.flags)).bind fun least =>
        (readMost reader.flags least.1 least.2).bind (repeatBetween reader least.1) := by
  unfold readCounted
  simp only
  rw [Option.bind_eq_bind]
  congr 1
  funext least
  have closed := repeat_between_eq reader least.1
  unfold readMost
  split
  · rename_i rest comma
    rw [comma, List.head?_cons, if_pos rfl, List.tail_cons]
    split
    · rename_i ahead
      rw [ahead]
      rfl
    · rename_i after ahead
      rw [ahead]
      exact closed (none, '\x7d' :: after)
    · rename_i ended other
      cases ahead : reader.flags.skip rest with
      | nil => exact (ended ahead).elim
      | cons c body =>
          have plain : c ≠ '\x7d' := fun same => other body (by rw [ahead, same])
          simp only [if_neg plain]
          exact congrArg _ (funext closed)
  · rename_i other
    rw [if_neg]
    · exact closed (some least.1, least.2)
    · intro comma
      rcases List.head?_eq_some_iff.mp comma with ⟨rest, ends⟩
      exact other rest ends

end Numbers

section Groups

variable (behind : List Char)

/-- What stands behind the sign that begins the name of a group. -/
def nameBegun? : List Char → Option (List Char)
  | 'P' :: '<' :: rest => some rest
  | '<' :: rest => some rest
  | _ => none

theorem name_begun_shut (text : List Char) :
    nameBegun? (text ++ ')' :: behind) = (nameBegun? text).map (· ++ ')' :: behind) := by
  cases text with
  | nil => rfl
  | cons c rest =>
      by_cases angle : c = '<'
      · rw [angle]
        rfl
      · by_cases letter : c = 'P'
        · rw [letter]
          cases rest with
          | nil => rfl
          | cons d rest =>
              by_cases second : d = '<'
              · rw [second]
                rfl
              · have unnamed : ∀ text, nameBegun? ('P' :: d :: text) = none := by
                  intro text
                  simp [nameBegun?, second]
                rw [List.cons_append, List.cons_append, unnamed, unnamed]
                rfl
        · have unnamed : ∀ text, nameBegun? (c :: text) = none := by
            intro text
            simp [nameBegun?, angle, letter]
          rw [List.cons_append, unnamed, unnamed]
          rfl

/-- The name of a group, and what stands behind it. -/
def groupName? (text : List Char) : Option (List Char × List Char) :=
  let name := text.takeWhile (· != '>')
  if '>' ∈ text ∧ name.head?.any (isGroupNameChar true) ∧ name.tail.all (isGroupNameChar false) then
    some (name, text.drop (name.length + 1))
  else none

theorem group_name_shut {text name after : List Char} (found : groupName? text = some (name, after)) :
    groupName? (text ++ ')' :: behind) = some (name, after ++ ')' :: behind) := by
  unfold groupName? at found ⊢
  simp only at found ⊢
  split at found
  · rename_i valid
    rcases take_while_shut behind valid.1 with ⟨same, rest, dropped, droppedWhole⟩
    rw [same, if_pos ⟨List.mem_append_left _ valid.1, valid.2⟩, ← List.drop_drop, droppedWhole]
    rw [← List.drop_drop, dropped] at found
    cases found
    rfl
  · cases found

end Groups

end Pattern

end SlrKit
