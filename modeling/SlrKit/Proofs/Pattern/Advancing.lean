import SlrKit.Proofs.Pattern.Hosting
import Mathlib.Data.List.TakeWhile

/-!
# How threads move over a text

Less preferred threads count only as long as no thread before them has matched. So the threads of two
copies that do not overlap find what those of the one original find, or else what those of the other
find; and the threads of one copy find what those of its original find.
-/

set_option autoImplicit false

namespace SlrKit

namespace Pattern

namespace Program

section Moving

variable (program : Program)

/-- The threads that take a character before any that has matched. -/
def moved (c : Char) (threads : List Thread) : List Thread :=
  (program.ahead threads).filterMap (program.take? c)

variable {program}

theorem settled_nil (before after : Option Char) : program.settled before after [] = [] :=
  settled_eq Settles.done

theorem better_eq_or (count : Nat) (threads : List Thread) (best : Option Match) :
    program.better count threads best = (program.better count threads none).or best := by
  unfold better
  cases threads.find? program.isMatch with
  | none => rfl
  | some thread => rfl

theorem advance_no_threads (count : Nat) (best : Option Match) (text : List Char) :
    program.advance count [] best text = best := by
  cases text with
  | nil => rfl
  | cons c rest => rfl

theorem advance_cons (count : Nat) (threads : List Thread) (best : Option Match) (c : Char)
    (rest : List Char) :
    program.advance count threads best (c :: rest) =
      program.advance (count + 1)
        (program.settled (some c) rest.head? (program.moved c threads))
        (program.better count threads best) rest := by
  rw [advance, moved]
  split
  · rename_i none_moved
    rw [none_moved, settled_nil, advance_no_threads]
  · rfl

/-- What has been found before is kept unless something preferred is found. -/
theorem advance_eq_or (count : Nat) (threads : List Thread) (best : Option Match)
    (text : List Char) :
    program.advance count threads best text =
      (program.advance count threads none text).or best := by
  induction text generalizing count threads best with
  | nil => exact better_eq_or count threads best
  | cons c rest ih =>
      rw [advance_cons, advance_cons, ih, ih (count + 1) _ (program.better count threads none),
        better_eq_or count threads best, Option.or_assoc]

theorem better_append (count : Nat) (first second : List Thread) :
    program.better count (first ++ second) none =
      (program.better count first none).or (program.better count second none) := by
  unfold better
  rw [List.find?_append]
  cases first.find? program.isMatch with
  | none => rfl
  | some thread => rfl

theorem better_of_unmatched (count : Nat) (threads : List Thread)
    (unmatched : ∀ thread ∈ threads, program.isMatch thread = false) :
    program.better count threads none = none := by
  have missing : threads.find? program.isMatch = none := by
    rw [List.find?_eq_none]
    intro thread member
    rw [unmatched thread member]
    exact Bool.false_ne_true
  rw [better, missing]

theorem exists_better (count : Nat) {threads : List Thread} {thread : Thread}
    (member : thread ∈ threads) (matched : program.isMatch thread = true) :
    ∃ found, program.better count threads none = some found := by
  cases first : threads.find? program.isMatch with
  | none =>
      have failed := List.find?_eq_none.mp first thread member
      exact absurd matched failed
  | some other => exact ⟨⟨count, other.groups⟩, by rw [better, first]⟩

theorem exists_advance (count : Nat) {threads : List Thread} {thread : Thread} (text : List Char)
    (member : thread ∈ threads) (matched : program.isMatch thread = true) :
    ∃ found, program.advance count threads none text = some found := by
  rcases exists_better count member matched with ⟨first, better⟩
  cases text with
  | nil => exact ⟨first, better⟩
  | cons c rest =>
      rw [advance_cons, advance_eq_or, better]
      cases program.advance (count + 1)
          (program.settled (some c) rest.head? (program.moved c threads)) none rest with
      | none => exact ⟨first, rfl⟩
      | some other => exact ⟨other, rfl⟩

theorem moved_append_of_match (c : Char) (first second : List Thread) {thread : Thread}
    (member : thread ∈ first) (matched : program.isMatch thread = true) :
    program.moved c (first ++ second) = program.moved c first := by
  have shorter : ¬(first.takeWhile fun thread => !program.isMatch thread).length =
      first.length := by
    intro whole
    have all := List.takeWhile_eq_self_iff.mp
      ((List.takeWhile_prefix _).eq_of_length whole) thread member
    rw [matched] at all
    cases all
  rw [moved, moved, ahead, ahead, List.takeWhile_append, if_neg shorter]

theorem moved_append_of_unmatched (c : Char) (first second : List Thread)
    (unmatched : ∀ thread ∈ first, program.isMatch thread = false) :
    program.moved c (first ++ second) = program.moved c first ++ program.moved c second := by
  have whole : (first.takeWhile fun thread => !program.isMatch thread) = first := by
    rw [List.takeWhile_eq_self_iff]
    intro thread member
    rw [unmatched thread member]
    rfl
  rw [moved, moved, moved, ahead, ahead, ahead, List.takeWhile_append, if_pos (by rw [whole]),
    whole, List.filterMap_append]

theorem advance_append_of_match (count : Nat) (first second : List Thread) {thread : Thread}
    (text : List Char) (member : thread ∈ first) (matched : program.isMatch thread = true) :
    program.advance count (first ++ second) none text = program.advance count first none text := by
  have better : program.better count (first ++ second) none = program.better count first none := by
    rcases exists_better count member matched with ⟨found, better⟩
    rw [better_append, better]
    rfl
  cases text with
  | nil => exact better
  | cons c rest =>
      rw [advance_cons, advance_cons, moved_append_of_match c first second member matched, better]

end Moving

namespace Sealed

variable {program : Program} (closed : program.Sealed)

include closed

theorem is_match_at_end {thread : Thread} (finished : thread.address = 0) :
    program.isMatch thread = true := by
  have accepts := closed.accepts
  rw [instruction, ← finished] at accepts
  rw [isMatch, accepts]
  rfl

theorem moved_inside (c : Char) (threads : List Thread) :
    ∀ thread ∈ program.moved c threads, thread.address < program.code.size := by
  intro thread member
  rcases List.mem_filterMap.mp member with ⟨old, _, taken⟩
  rw [take?] at taken
  split at taken
  · rename_i set target found
    split at taken
    · cases taken
      apply closed.within old.address
      rw [instruction, found]
      exact List.mem_cons_self
    · cases taken
  · cases taken

theorem entry_inside : ∀ thread ∈ [Thread.mk program.entry []],
    thread.address < program.code.size := by
  intro thread member
  rw [List.mem_singleton.mp member]
  exact closed.entry

theorem all_settled_inside (before after : Option Char) (started : List Thread)
    (inside : ∀ thread ∈ started, thread.address < program.code.size) :
    ∀ thread ∈ program.settled before after started, thread.address < program.code.size := by
  rcases settled_spec program before after started with ⟨_, settles⟩
  exact closed.settled_inside settles inside

end Sealed

namespace Hosting

variable {inner outer : Program} {hosting : Hosting inner outer}

section Copies

variable (closed : inner.Sealed) (outerClosed : outer.Sealed)

include closed outerClosed in
theorem is_match_leave (thread : Thread) (inside : thread.address < inner.code.size) :
    outer.isMatch (hosting.leave thread) = inner.isMatch thread := by
  by_cases finished : thread.address = 0
  · rw [leave, if_pos finished, closed.is_match_at_end finished]
    exact outerClosed.is_match_at_end rfl
  · have positive := Nat.pos_of_ne_zero finished
    have copied := hosting.copied thread.address positive inside
    rw [leave, if_neg finished, isMatch, isMatch, ← instruction, ← instruction, enter, copied,
      Bool.eq_iff_iff, beq_iff_eq, beq_iff_eq, Instruction.copied_eq_accept_iff]

include closed outerClosed in
theorem take_leave (c : Char) (thread : Thread) (inside : thread.address < inner.code.size) :
    outer.take? c (hosting.leave thread) = (inner.take? c thread).map hosting.enter := by
  by_cases finished : thread.address = 0
  · have accepts := closed.accepts
    have outerAccepts := outerClosed.accepts
    rw [instruction] at accepts outerAccepts
    rw [leave, if_pos finished, take?, take?, finished, accepts, outerAccepts]
    rfl
  · have positive := Nat.pos_of_ne_zero finished
    have copied := hosting.copied thread.address positive inside
    rw [leave, if_neg finished, take?, take?, ← instruction, ← instruction, enter, copied]
    cases inner.instruction thread.address with
    | take set target =>
        simp only [Instruction.copied]
        split
        · rfl
        · rfl
    | fork | look | mark | accept | fail => rfl

include closed outerClosed in
theorem moved_leave (c : Char) (threads : List Thread)
    (inside : ∀ thread ∈ threads, thread.address < inner.code.size) :
    outer.moved c (threads.map hosting.leave) = (inner.moved c threads).map hosting.enter := by
  induction threads with
  | nil => rfl
  | cons thread threads ih =>
      have bound := inside thread List.mem_cons_self
      have later := ih fun other member => inside other (List.mem_cons_of_mem _ member)
      unfold moved ahead at later ⊢
      rw [List.map_cons, List.takeWhile_cons, List.takeWhile_cons,
        is_match_leave closed outerClosed thread bound]
      cases inner.isMatch thread with
      | true => rfl
      | false =>
          simp only [Bool.not_false, if_true, List.filterMap_cons,
            take_leave closed outerClosed c thread bound]
          cases inner.take? c thread with
          | none => exact later
          | some next => exact congrArg (List.cons _) later

include closed outerClosed in
theorem better_leave (count : Nat) (threads : List Thread)
    (inside : ∀ thread ∈ threads, thread.address < inner.code.size) :
    outer.better count (threads.map hosting.leave) none =
      (inner.better count threads none).map hosting.lift := by
  induction threads with
  | nil => rfl
  | cons thread threads ih =>
      have bound := inside thread List.mem_cons_self
      have later := ih fun other member => inside other (List.mem_cons_of_mem _ member)
      have matches_alike : outer.isMatch (hosting.leave thread) = inner.isMatch thread :=
        is_match_leave closed outerClosed thread bound
      cases matched : inner.isMatch thread with
      | true =>
          have finished : thread.address = 0 := by
            apply closed.alone
            rw [isMatch, beq_iff_eq] at matched
            exact matched
          rw [matched] at matches_alike
          rw [List.map_cons, better, List.find?_cons_of_pos matches_alike, better,
            List.find?_cons_of_pos matched, leave, if_pos finished]
          rfl
      | false =>
          rw [matched] at matches_alike
          unfold better at later ⊢
          rw [List.map_cons, List.find?_cons_of_neg (by rw [matches_alike]; exact Bool.false_ne_true),
            List.find?_cons_of_neg (by rw [matched]; exact Bool.false_ne_true)]
          exact later

include closed outerClosed in
theorem settled_enter (before after : Option Char) (started : List Thread)
    (inside : ∀ thread ∈ started, thread.address < inner.code.size) :
    outer.settled before after (started.map hosting.enter) =
      (inner.settled before after started).map hosting.leave := by
  rcases settled_spec inner before after started with ⟨_, settles⟩
  rcases settles_hosted closed settles inside (mirrors_outside closed outerClosed) with
    ⟨_, outerSettles, _⟩
  exact settled_eq outerSettles

include closed outerClosed in
/-- The threads of a copy find what the threads of the original find. -/
theorem advance_leave (count : Nat) (threads : List Thread) (text : List Char)
    (inside : ∀ thread ∈ threads, thread.address < inner.code.size) :
    outer.advance count (threads.map hosting.leave) none text =
      (inner.advance count threads none text).map hosting.lift := by
  induction text generalizing count threads with
  | nil => exact better_leave closed outerClosed count threads inside
  | cons c rest ih =>
      have started := closed.moved_inside c threads
      rw [advance_cons, advance_cons, moved_leave closed outerClosed c threads inside,
        settled_enter closed outerClosed _ _ _ started, advance_eq_or,
        ih _ _ (closed.all_settled_inside _ _ _ started), better_leave closed outerClosed _ _ inside,
        advance_eq_or _ _ (inner.better count threads none), Option.map_or]

end Copies

/-- What is found from the entry of a copy, where nothing else is running. -/
theorem run_of_hosting (closed : inner.Sealed) (outerClosed : outer.Sealed)
    (entry : outer.entry = hosting.spot inner.entry) (before : Option Char) (text : List Char) :
    outer.run before text = (inner.run before text).map hosting.lift := by
  have started : [Thread.mk outer.entry []] = [Thread.mk inner.entry []].map hosting.enter := by
    rw [List.map_singleton, enter, entry]
    rfl
  have inside := closed.entry_inside
  rw [run, started, settled_enter closed outerClosed _ _ _ inside,
    advance_leave closed outerClosed _ _ _ (closed.all_settled_inside _ _ _ inside), run]

end Hosting

section Sides

variable {left right outer : Program} {ofLeft : Hosting left outer} {ofRight : Hosting right outer}
  {before after : Option Char}

/-- Two copies in one program share no address but the end. -/
def Apart (ofLeft : Hosting left outer) (ofRight : Hosting right outer) : Prop :=
  ∀ address, 0 < address → address < right.code.size → ofLeft.Elsewhere (ofRight.spot address)

/-- The threads are those of a left copy and then those of a right copy. Once one of the left ones
has matched, it does not matter what comes after them. -/
inductive SideBySide (ofLeft : Hosting left outer) (ofRight : Hosting right outer) :
    List Thread → List Thread → List Thread → Prop
  | both (ofFirst ofSecond : List Thread) :
      SideBySide ofLeft ofRight ofFirst ofSecond
        (ofFirst.map ofLeft.leave ++ ofSecond.map ofRight.leave)
  | decided {ofFirst : List Thread} {thread : Thread} (ofSecond others : List Thread)
      (member : thread ∈ ofFirst) (matched : left.isMatch thread = true) :
      SideBySide ofLeft ofRight ofFirst ofSecond (ofFirst.map ofLeft.leave ++ others)

variable (closedLeft : left.Sealed) (closedRight : right.Sealed) (closed : outer.Sealed)
  (shared : ofRight.spot 0 = 0) (apart : Apart ofLeft ofRight)

include closedLeft closedRight shared apart in
theorem settles_side_by_side (first second : List Thread) (visited : Nat → Bool)
    (insideLeft : ∀ thread ∈ first, thread.address < left.code.size)
    (insideRight : ∀ thread ∈ second, thread.address < right.code.size)
    (beyond : ∀ address, outer.code.size ≤ address → visited address = true)
    (mirrorsLeft : ofLeft.Mirrors left.outside visited)
    (mirrorsRight : ofRight.Mirrors right.outside visited) :
    ∃ settled final, Settles outer before after (first.map ofLeft.enter ++ second.map ofRight.enter)
        visited settled final ∧
      SideBySide ofLeft ofRight (left.settled before after first) (right.settled before after second)
        settled := by
  rcases settled_spec left before after first with ⟨finalLeft, settlesLeft⟩
  rcases settled_spec right before after second with ⟨finalRight, settlesRight⟩
  rcases ofLeft.settles_hosted closedLeft settlesLeft insideLeft mirrorsLeft with
    ⟨middle, outerLeft, mirrored, undisturbed⟩
  have unvisited : left.outside 0 = false := by
    have nonempty := closedLeft.nonempty
    simp only [outside, decide_eq_false_iff_not]
    omega
  cases finished : finalLeft 0 with
  | true =>
      rcases closedLeft.rests_of_finished settlesLeft unvisited finished with
        ⟨thread, member, ended⟩
      have still_beyond : ∀ address, outer.code.size ≤ address → middle address = true :=
        fun address past => outerLeft.keeps address (beyond address past)
      rcases exists_settles (second.map ofRight.enter) middle still_beyond with
        ⟨others, final, outerRight⟩
      exact ⟨_, final, outerLeft.append outerRight,
        SideBySide.decided _ others member (closedLeft.is_match_at_end ended)⟩
  | false =>
      have open_end : middle 0 = right.outside 0 := by
        rw [mirrored.finish, finished, ← unvisited, ← mirrorsLeft.finish, mirrorsRight.finish]
      have still : ofRight.Mirrors right.outside middle := by
        constructor
        · exact open_end
        · intro address inside
          by_cases first_address : address = 0
          · rw [first_address, shared, open_end]
          · have positive := Nat.pos_of_ne_zero first_address
            rw [undisturbed _ (apart address positive inside), mirrorsRight.copy address inside]
      rcases ofRight.settles_hosted closedRight settlesRight insideRight still with
        ⟨final, outerRight, _⟩
      exact ⟨_, final, outerLeft.append outerRight, SideBySide.both _ _⟩

include closedLeft closed in
theorem advance_decided (count : Nat) (first : List Thread) (others : List Thread) {thread : Thread}
    (text : List Char) (inside : ∀ thread ∈ first, thread.address < left.code.size)
    (member : thread ∈ first) (matched : left.isMatch thread = true) (less : Option Match) :
    outer.advance count (first.map ofLeft.leave ++ others) none text =
      ((left.advance count first none text).map ofLeft.lift).or less := by
  have matched_there : outer.isMatch (ofLeft.leave thread) = true := by
    rw [ofLeft.is_match_leave closedLeft closed thread (inside thread member), matched]
  rcases exists_advance count text member matched with ⟨found, advanced⟩
  rw [advance_append_of_match count _ others text (List.mem_map_of_mem member) matched_there,
    ofLeft.advance_leave closedLeft closed count first text inside, advanced]
  rfl

include closedLeft closedRight closed shared apart in
/-- Threads of two copies find what the left ones find, or else what the right ones find. -/
theorem advance_side_by_side (count : Nat) (first second all : List Thread) (text : List Char)
    (insideLeft : ∀ thread ∈ first, thread.address < left.code.size)
    (insideRight : ∀ thread ∈ second, thread.address < right.code.size)
    (together : SideBySide ofLeft ofRight first second all) :
    outer.advance count all none text =
      ((left.advance count first none text).map ofLeft.lift).or
        ((right.advance count second none text).map ofRight.lift) := by
  induction text generalizing count first second all with
  | nil =>
      cases together with
      | decided _ others member matched =>
          exact advance_decided closedLeft closed count first others [] insideLeft member matched _
      | both =>
          change outer.better count _ none = _
          rw [better_append, ofLeft.better_leave closedLeft closed count first insideLeft,
            ofRight.better_leave closedRight closed count second insideRight]
          rfl
  | cons c rest ih =>
      cases together with
      | decided _ others member matched =>
          exact advance_decided closedLeft closed count first others _ insideLeft member matched _
      | both =>
          by_cases decided : ∃ thread ∈ first, left.isMatch thread = true
          · rcases decided with ⟨thread, member, matched⟩
            exact advance_decided closedLeft closed count first _ _ insideLeft member matched _
          · have unmatched : ∀ thread ∈ first, left.isMatch thread = false :=
              fun thread member => Bool.eq_false_iff.mpr fun matched =>
                decided ⟨thread, member, matched⟩
            have unmatched_there :
                ∀ thread ∈ first.map ofLeft.leave, outer.isMatch thread = false := by
              intro thread member
              rcases List.mem_map.mp member with ⟨original, among, same⟩
              rw [← same, ofLeft.is_match_leave closedLeft closed _ (insideLeft _ among),
                unmatched original among]
            have started := closedLeft.moved_inside c first
            have started_right := closedRight.moved_inside c second
            have taken : outer.moved c (first.map ofLeft.leave ++ second.map ofRight.leave) =
                (left.moved c first).map ofLeft.enter ++ (right.moved c second).map ofRight.enter := by
              rw [moved_append_of_unmatched c _ _ unmatched_there,
                ofLeft.moved_leave closedLeft closed c first insideLeft,
                ofRight.moved_leave closedRight closed c second insideRight]
            rcases settles_side_by_side closedLeft closedRight shared apart (left.moved c first)
              (right.moved c second) outer.outside started started_right
              (fun address past => decide_eq_true past)
              (ofLeft.mirrors_outside closedLeft closed)
              (ofRight.mirrors_outside closedRight closed) with ⟨settled, final, settles, beside⟩
            rw [← taken] at settles
            have inner := closedLeft.all_settled_inside (some c) rest.head? _ started
            have inner_right := closedRight.all_settled_inside (some c) rest.head? _ started_right
            have unfound : left.better count first none = none :=
              better_of_unmatched count first unmatched
            rw [advance_cons, advance_cons, advance_cons, settled_eq settles, advance_eq_or,
              ih _ _ _ _ inner inner_right beside, better_append,
              ofLeft.better_leave closedLeft closed count first insideLeft,
              ofRight.better_leave closedRight closed count second insideRight, unfound,
              advance_eq_or _ _ (right.better count second none), Option.map_or, Option.or_assoc]
            rfl

include closedLeft closedRight closed shared apart in
/-- A program that begins with a fork between two copies finds what the preferred one finds, or else
what the other finds. -/
theorem run_of_fork (before : Option Char) (text : List Char)
    (forked : outer.instruction outer.entry =
      .fork (ofLeft.spot left.entry) (ofRight.spot right.entry))
    (notLeft : ofLeft.Elsewhere outer.entry) (notRight : ofRight.Elsewhere outer.entry) :
    outer.run before text =
      ((left.run before text).map ofLeft.lift).or ((right.run before text).map ofRight.lift) := by
  have bound := closed.entry
  have beyond : ∀ address, outer.code.size ≤ address →
      Function.update outer.outside outer.entry true address = true := by
    intro address past
    rw [Function.update_of_ne (by omega)]
    exact decide_eq_true past
  have insideLeft := closedLeft.entry_inside
  have insideRight := closedRight.entry_inside
  have side_by_side := @settles_side_by_side left right outer ofLeft ofRight before text.head?
    closedLeft closedRight shared apart _ _ _ insideLeft insideRight beyond
    ((ofLeft.mirrors_outside closedLeft closed).undisturbed notLeft)
    ((ofRight.mirrors_outside closedRight closed).undisturbed notRight)
  rcases side_by_side with ⟨settled, final, settles, beside⟩
  have begun : Settles outer before text.head? [⟨outer.entry, []⟩] outer.outside settled final := by
    apply Settles.move
    · exact decide_eq_false (Nat.not_le_of_lt bound)
    · rw [rests, forked]
      rfl
    · rw [moves, forked]
      exact settles
  rw [run, settled_eq begun, run, run]
  exact advance_side_by_side closedLeft closedRight closed shared apart 0 _ _ _ text
    (closedLeft.all_settled_inside _ _ _ insideLeft)
    (closedRight.all_settled_inside _ _ _ insideRight) beside

end Sides

end Program

end Pattern

end SlrKit
