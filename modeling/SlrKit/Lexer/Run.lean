import SlrKit.Lexer.Definition
import SlrKit.Parser.Basic
import SlrKit.Text.LineIndex

/-!
# Lexing

A lexer moves over its input from left to right. Where it stands, it takes what a token rule
matches, or else a literal character, or else asks the error handler how many characters to
skip; if none are skipped, the input ends with a lexical error. A match of nothing, or one that
cuts a character, breaks the lexer down.

Lines and columns count from 1, and a carriage return right before a line feed takes no column.
What handlers add to the line of a token is added to all lines after it, in sums of 64 bits with a
sign that wrap around.
-/

set_option autoImplicit false

namespace SlrKit

namespace Lexer

structure State where
  /-- What has been moved over, the last character first. -/
  behind : List Char := []
  rest : List Char
  offset : Nat := 0
  line : Nat := 1
  column : Nat := 1
  /-- What handlers have added to the lines of tokens. -/
  shift : Int64 := 0
  /-- Whether a sum of lines did not fit into 64 bits. -/
  overflowed : Bool := false
  stopped : Bool := false
  /-- What the lexer broke down with. -/
  fault? : Option Fault := none
  /-- The error tokens that the error handler has seen, oldest first. -/
  reported : List Token := []

inductive Event where
  /-- A rule matched; its handler made `token` of what was found and kept or discarded it. -/
  | matched (found token : Token) (verdict : Verdict)
  | literal (token : Token)
  /-- The handler saw an error token and skipped characters. -/
  | skipped (seen : Token) (count : Nat)
  /-- The handler saw an error token and skipped nothing. -/
  | failed (seen : Token) (error : LexError)
  /-- The match of a rule could not be taken. -/
  | broken (fault : Fault)

namespace State

def ofText (text : List Char) : State := { rest := text }

def lineSum (state : State) : Int64 := Int64.ofNat state.line + state.shift

def shiftedLine (state : State) : Nat := (max state.lineSum.toInt 1).toNat

def step (state : State) (c : Char) (rest : List Char) : State :=
  { state with
    behind := c :: state.behind
    rest
    offset := state.offset + c.utf8Size
    line := if c = '\n' then state.line + 1 else state.line
    column :=
      if c = '\n' then 1
      else if c = '\r' ∧ rest.head? = some '\n' then state.column
      else state.column + 1 }

def advance : Nat → State → State
  | 0, state => state
  | count + 1, state =>
      match state.rest with
      | [] => state
      | c :: rest => advance count (state.step c rest)

def token (state : State) (name : String) (count : Nat) : Token :=
  let text := state.rest.take count
  { name
    value := String.ofList text
    span := Span.ofLength state.offset (Text.byteLength text)
    line := state.shiftedLine
    column := state.column }

theorem length_advance (count : Nat) (state : State) :
    (advance count state).rest.length = state.rest.length - count := by
  induction count generalizing state with
  | zero => simp [advance]
  | succ count previous =>
      cases content : state.rest with
      | nil => simp [advance, content]
      | cons c rest =>
          simp only [advance, content]
          rw [previous]
          simp only [step, List.length_cons]
          omega

theorem kept_by_advance (property : State → Prop)
    (kept : ∀ {state : State} {c : Char} {rest : List Char}, state.rest = c :: rest →
      property state → property (state.step c rest))
    (count : Nat) {state : State} (start : property state) : property (state.advance count) := by
  induction count generalizing state with
  | zero => exact start
  | succ count ih =>
      cases content : state.rest with
      | nil =>
          simp only [advance, content]
          exact start
      | cons c rest =>
          simp only [advance, content]
          exact ih (kept content start)

/-- What no step touches is left as it is. -/
theorem untouched_by_advance {β : Type} (field : State → β)
    (untouched : ∀ state c rest, field (state.step c rest) = field state) (count : Nat)
    (state : State) : field (state.advance count) = field state :=
  kept_by_advance (fun reached => field reached = field state)
    (fun _ same => (untouched _ _ _).trans same) count rfl

theorem stopped_advance (count : Nat) (state : State) :
    (state.advance count).stopped = state.stopped :=
  untouched_by_advance (·.stopped) (fun _ _ _ => rfl) count state

end State

def handle (rule : Rule) (found : Token) : Token × Verdict :=
  match rule.handler with
  | some handler => handler found
  | none => (found, .keep)

/-- By how many lines a handler has moved its token. -/
def lineChange (found token : Token) : Int64 := Int64.ofNat token.line - Int64.ofNat found.line

def takeMatch (state : State) (rule : Rule) (count : Nat) : Event × State :=
  let found := state.token rule.name count
  let handled := handle rule found
  let next := state.advance count
  (.matched found handled.1 handled.2,
    { next with shift := next.shift + lineChange found handled.1 })

def breakDown (state : State) (fault : Fault) : Event × State :=
  (.broken fault, { state with stopped := true, fault? := some fault })

/-- Takes a match that has `size` bytes. -/
def takeRule (state : State) (rule : Rule) (size : Nat) : Event × State :=
  match Text.takeBytes? size state.rest with
  | none => breakDown state .brokenOffset
  | some [] => breakDown state .idleMatch
  | some (_ :: more) => takeMatch state rule (more.length + 1)

/-- Lets the error handler decide about a place that begins with `c` and starts no token. -/
def takeError (definition : Definition) (state : State) (c : Char) : Event × State :=
  let seen := state.token "error" state.rest.length
  let noted := { state with reported := state.reported ++ [seen] }
  match definition.onError state.reported seen with
  | 0 =>
      (.failed seen
        ⟨Span.ofLength state.offset c.utf8Size, c.toString, seen.line, seen.column⟩,
        { noted with stopped := true })
  | count + 1 => (.skipped seen (count + 1), noted.advance (count + 1))

def take? (definition : Definition) (state : State) : Option (Event × State) :=
  if state.stopped then none
  else
    match state.rest with
    | [] => none
    | c :: _ =>
        match definition.matchRule? state.behind state.rest with
        | some (rule, size) => some (takeRule state rule size)
        | none =>
            if definition.literals.contains c then
              some (.literal (state.token c.toString 1), state.advance 1)
            else some (takeError definition state c)

/-- Whether a sum of lines that an event takes does not fit into 64 bits. -/
def Event.overflows (state : State) (event : Event) : Bool :=
  state.lineSum.toInt != (Int64.ofNat state.line).toInt + state.shift.toInt ||
    match event with
    | .matched found token _ =>
        let change := lineChange found token
        change.toInt != (Int64.ofNat token.line).toInt - (Int64.ofNat found.line).toInt ||
          (state.shift + change).toInt != state.shift.toInt + change.toInt
    | _ => false

def move? (definition : Definition) (state : State) : Option (Event × State) :=
  (take? definition state).map fun (event, after) =>
    (event, { after with overflowed := after.overflowed || event.overflows state })

def remaining (state : State) : Nat := if state.stopped then 0 else state.rest.length + 1

theorem remaining_advance (count : Nat) {state : State} (running : state.stopped = false)
    (nonempty : 0 < state.rest.length) :
    remaining (state.advance (count + 1)) < remaining state := by
  have shorter := State.length_advance (count + 1) state
  have still_running := State.stopped_advance (count + 1) state
  simp only [remaining, still_running, running, shorter, Bool.false_eq_true, if_false]
  omega

theorem remaining_rule (rule : Rule) (size : Nat) {state : State} (running : state.stopped = false)
    (nonempty : 0 < state.rest.length) :
    remaining (takeRule state rule size).2 < remaining state := by
  unfold takeRule
  split
  · simp [breakDown, remaining, running]
  · simp [breakDown, remaining, running]
  · rename_i more _
    exact remaining_advance more.length running nonempty

theorem remaining_error (definition : Definition) (c : Char) {state : State}
    (running : state.stopped = false) (nonempty : 0 < state.rest.length) :
    remaining (takeError definition state c).2 < remaining state := by
  unfold takeError
  simp only
  split
  · simp [remaining, running]
  · rename_i count _
    let noted := { state with
      reported := state.reported ++ [state.token "error" state.rest.length] }
    exact @remaining_advance count noted running nonempty

theorem remaining_take {definition : Definition} {state next : State} {event : Event}
    (taken : take? definition state = some (event, next)) : remaining next < remaining state := by
  unfold take? at taken
  split at taken
  · cases taken
  · rename_i running
    rw [Bool.not_eq_true] at running
    split at taken
    · cases taken
    · rename_i c rest content
      have nonempty : 0 < state.rest.length := by simp [content]
      split at taken
      · rename_i rule size _
        obtain rfl := congrArg Prod.snd (Option.some.inj taken)
        exact remaining_rule rule size running nonempty
      · split at taken
        · obtain rfl := congrArg Prod.snd (Option.some.inj taken)
          exact remaining_advance 0 running nonempty
        · obtain rfl := congrArg Prod.snd (Option.some.inj taken)
          exact remaining_error definition c running nonempty

theorem remaining_move {definition : Definition} {state next : State} {event : Event}
    (moved : move? definition state = some (event, next)) : remaining next < remaining state := by
  obtain ⟨⟨_, after⟩, taken, same⟩ := Option.map_eq_some_iff.mp moved
  have smaller := remaining_take taken
  cases same
  exact smaller

def Event.item? : Event → Option (Except LexError Token)
  | .matched _ token .keep => some (.ok token)
  | .matched _ _ .discard => none
  | .literal token => some (.ok token)
  | .skipped _ _ => none
  | .failed _ error => some (.error error)
  | .broken _ => none

def Event.log : Event → List Record
  | .skipped seen count =>
      [.debug ("Skipping " ++ toString count ++ " characters at offset " ++
        toString seen.span.start)]
  | _ => []

def next (definition : Definition) (state : State) : Reading State :=
  match _moved : move? definition state with
  | none => { item := none, rest := state }
  | some (event, after) =>
      match event.item? with
      | some item => { item := some item, rest := after, log := event.log }
      | none =>
          let later := next definition after
          { later with log := event.log ++ later.log }
termination_by remaining state
decreasing_by exact remaining_move _moved

def moves (definition : Definition) (state : State) : List Event × State :=
  match _moved : move? definition state with
  | none => ([], state)
  | some (event, after) =>
      let later := moves definition after
      (event :: later.1, later.2)
termination_by remaining state
decreasing_by exact remaining_move _moved

/-- What is amiss with a lexer: it has broken down, or a sum has overflowed, which is a fault where
sums are checked. -/
def State.trouble? (state : State) : Option Fault :=
  state.fault?.or (if state.overflowed then some .lineOverflow else none)

def spanText (text : List Char) (span : Span) : Except Fault (List Char) :=
  let length := Text.byteLength text
  if length < span.stop then .error (.spanBeyondText span length)
  else
    match Text.slice? span.start span.stop text with
    | some part => .ok part
    | none => .error .brokenOffset

def positionOf (index : LineIndex) (text : List Char) (span : Span) (byte : Nat) :
    Except Fault (Nat × Nat) :=
  match index.position text byte with
  | .error fault => .error fault
  | .ok (some place) => .ok place
  | .ok none => .error (.spanBeyondText span (Text.byteLength text))

/-- The lines and columns of the ends of a span in the input; handlers make no difference. -/
def spanPositions (text : List Char) (span : Span) :
    Except Fault ((Nat × Nat) × (Nat × Nat)) :=
  let index := LineIndex.ofText text
  match positionOf index text span span.start with
  | .error fault => .error fault
  | .ok start =>
      match positionOf index text span span.stop with
      | .error fault => .error fault
      | .ok stop => .ok (start, stop)

end Lexer

end SlrKit
