import SlrKit.Pattern.Basic

/-!
# Running patterns

A pattern is compiled to a program of simple instructions. The program is run on a text by a
list of threads that move over it together, in the order of their preference. A thread that
comes to an instruction where a thread before it has been at the same place stops, so the
number of threads is bounded by the size of the program.
-/

set_option autoImplicit false

namespace SlrKit

namespace Pattern

inductive Instruction where
  | take (set : CharSet) (target : Nat)
  | fork (first second : Nat)
  | look (condition : Look) (target : Nat)
  | mark (number : Nat) (target : Nat)
  | accept
  | fail
deriving DecidableEq

/-- A fork that prefers `inside` if it is greedy and `outside` otherwise. -/
def Instruction.choose (greedy : Bool) (inside outside : Nat) : Instruction :=
  if greedy then .fork inside outside else .fork outside inside

structure Fragment where
  code : Array Instruction
  entry : Nat

namespace Fragment

def push (fragment : Fragment) (instruction : Instruction) : Fragment :=
  ⟨fragment.code.push instruction, fragment.code.size⟩

def times (part : Fragment → Fragment) : Nat → Fragment → Fragment
  | 0, fragment => fragment
  | count + 1, fragment => part (times part count fragment)

def upTo (part : Fragment → Fragment) (greedy : Bool) (after : Nat) : Nat → Fragment → Fragment
  | 0, fragment => fragment
  | count + 1, fragment =>
      let inside := part (upTo part greedy after count fragment)
      inside.push (.choose greedy inside.entry after)

/-- A fork at a new address, whose inner side is a part that leads back to it; `after` is its
outer side. -/
def loop (part : Fragment → Fragment) (greedy : Bool) (fragment : Fragment) : Fragment × Nat :=
  let fork := fragment.code.size
  let inside := part (fragment.push .fail)
  (⟨inside.code.setIfInBounds fork (.choose greedy inside.entry fragment.entry), fork⟩,
    inside.entry)

end Fragment

/-- Puts the instructions of a pattern in front of a fragment. A repetition whose body can be
empty enters the body before it comes to the fork, so that one empty round is taken. -/
def compile : Pattern → Fragment → Fragment
  | empty, after => after
  | chars set, after => after.push (.take set after.entry)
  | look condition, after => after.push (.look condition after.entry)
  | cat first second, after => first.compile (second.compile after)
  | alt left right, after =>
      let ofRight := right.compile after
      let ofLeft := left.compile ⟨ofRight.code, after.entry⟩
      ofLeft.push (.fork ofLeft.entry ofRight.entry)
  | group number body, after => body.compile (after.push (.mark number after.entry))
  | repeated least most greedy body, after =>
      match most with
      | some bound =>
          Fragment.times body.compile least
            (Fragment.upTo body.compile greedy after.entry (bound - least) after)
      | none =>
          let (looping, inside) := Fragment.loop body.compile greedy after
          match least with
          | 0 =>
              if body.leastLength?.any (0 < ·) then looping
              else looping.push (.choose greedy inside after.entry)
          | count + 1 => Fragment.times body.compile count ⟨looping.code, inside⟩

structure Program where
  code : Array Instruction
  entry : Nat

def program (pattern : Pattern) : Program :=
  let fragment := pattern.compile ⟨#[.accept], 0⟩
  ⟨fragment.code, fragment.entry⟩

structure Thread where
  address : Nat
  groups : List Nat

namespace Program

/-- Moves threads on until each is about to take a character or has matched. `pending` are to be
moved yet, the preferred one first, and `visited` tells where threads have been; the result has
the preferred thread last. -/
def settle (program : Program) (before after : Option Char) :
    Nat → List Thread → Array Bool → List Thread → List Thread
  | 0, _, _, settled => settled
  | _ + 1, [], _, settled => settled
  | fuel + 1, thread :: pending, visited, settled =>
      if visited.getD thread.address true then
        settle program before after fuel pending visited settled
      else
        let visited := visited.setIfInBounds thread.address true
        match program.code.getD thread.address .fail with
        | .take _ _ | .accept =>
            settle program before after fuel pending visited (thread :: settled)
        | .fork first second =>
            settle program before after fuel
              ({ thread with address := first } :: { thread with address := second } :: pending)
              visited settled
        | .look condition target =>
            if condition.holds before after then
              settle program before after fuel ({ thread with address := target } :: pending)
                visited settled
            else settle program before after fuel pending visited settled
        | .mark number target =>
            let groups :=
              if thread.groups.contains number then thread.groups else number :: thread.groups
            settle program before after fuel (⟨target, groups⟩ :: pending) visited settled
        | .fail => settle program before after fuel pending visited settled

/-- The threads that `started` become at a place, the preferred one first. Every instruction is
run at most once and adds at most two threads, which bounds the moves. -/
def settled (program : Program) (before after : Option Char) (started : List Thread) :
    List Thread :=
  (program.settle before after (started.length + 2 * program.code.size + 1) started
    (Array.replicate program.code.size false) []).reverse

def isMatch (program : Program) (thread : Thread) : Bool :=
  program.code.getD thread.address .fail == .accept

def take? (program : Program) (c : Char) (thread : Thread) : Option Thread :=
  match program.code.getD thread.address .fail with
  | .take set target => if set.contains c then some { thread with address := target } else none
  | _ => none

structure Match where
  length : Nat
  groups : List Nat

def ahead (program : Program) (threads : List Thread) : List Thread :=
  threads.takeWhile fun thread => !program.isMatch thread

def better (program : Program) (count : Nat) (threads : List Thread) (best : Option Match) :
    Option Match :=
  match threads.find? program.isMatch with
  | some thread => some ⟨count, thread.groups⟩
  | none => best

/-- Moves threads over a text of which `count` characters have been passed. `best` is the match
of a thread that was less preferred than any of `threads`. -/
def advance (program : Program) (count : Nat) (threads : List Thread) (best : Option Match) :
    List Char → Option Match
  | [] => program.better count threads best
  | c :: rest =>
      match (program.ahead threads).filterMap (program.take? c) with
      | [] => program.better count threads best
      | moved =>
          advance program (count + 1) (program.settled (some c) rest.head? moved)
            (program.better count threads best) rest

/-- The preferred match at the beginning of `text`, which comes after the character `before`. -/
def run (program : Program) (before : Option Char) (text : List Char) : Option Match :=
  program.advance 0 (program.settled before text.head? [⟨program.entry, []⟩]) none text

end Program

end Pattern

end SlrKit
