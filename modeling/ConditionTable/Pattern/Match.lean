/-
Matching. An attempt is one way in which a pattern may have matched so
far; a node turns a list of attempts, the preferred ones first, into the
list of their continuations in the same order. Of two attempts that have
come equally far only the preferred one is kept: what follows depends on
the place alone, so the other could never win.

A loop keeps an agenda of turns to take and attempts to let go. Each
place is entered for at most one turn, so the agenda runs dry; the
number of steps given to `loop` bounds what it can hold over time.
-/
import ConditionTable.Pattern.Node
import ConditionTable.Text.Basic

namespace ConditionTable

/-- One way of having matched so far. -/
structure Attempt where
  /-- The character before the place reached. -/
  before : Option Char
  /-- The text from that place on. -/
  rest : Text
  /-- The number of characters consumed. -/
  offset : Nat := 0
  /-- Where each group was entered last. -/
  opened : List (Nat × Nat) := []
  /-- From where to where each group matched, the latest first. -/
  spans : List (Nat × Nat × Nat) := []
  /-- The marks passed since a character was consumed. -/
  passed : List Nat := []
deriving DecidableEq, Repr

namespace Attempt

/-- The attempt after the next character, if that is in the table. -/
def consume? (table : RangeTable) (attempt : Attempt) : Option Attempt :=
  match attempt.rest with
  | [] => none
  | c :: rest =>
      if table.holds c.toNat then
        some { attempt with before := some c, rest, offset := attempt.offset + 1, passed := [] }
      else
        none

/-- The attempt past a mark, unless it has come back to it. -/
def pass? (mark : Option Nat) (attempt : Attempt) : Option Attempt :=
  match mark with
  | none => some attempt
  | some m =>
      if attempt.passed.contains m then none
      else some { attempt with passed := m :: attempt.passed }

/-- Notes that a group begins here. -/
def enter (index : Nat) (attempt : Attempt) : Attempt :=
  { attempt with opened := (index, attempt.offset) :: attempt.opened }

/-- Notes that a group ends here. -/
def exit (index : Nat) (attempt : Attempt) : Attempt :=
  match attempt.opened.lookup index with
  | none => attempt
  | some start => { attempt with spans := (index, start, attempt.offset) :: attempt.spans }

/-- The attempts without those that a preferred one has overtaken at the
same place. The bits of `seen` are the offsets met so far. -/
def distinct (seen : Nat) : List Attempt → List Attempt
  | [] => []
  | attempt :: rest =>
      if seen.testBit attempt.offset then distinct seen rest
      else attempt :: distinct (seen ||| 1 <<< attempt.offset) rest

end Attempt

/-- What a loop still has to do with an attempt. -/
inductive Task
  | turn (attempt : Attempt)
  | leave (attempt : Attempt)

/-- Works through the agenda of a loop. An attempt at a place not entered
before may take another turn or leave, in the order that greed asks for;
those that leave are collected in `done`, the last one first. -/
def loop (body : Attempt → List Attempt) (mark : Option Nat) (greedy : Bool) :
    (steps seen : Nat) → List Task → (done : List Attempt) → List Attempt
  | 0, _, _, done => done.reverse
  | _ + 1, _, [], done => done.reverse
  | steps + 1, seen, .leave attempt :: agenda, done =>
      loop body mark greedy steps seen agenda (attempt :: done)
  | steps + 1, seen, .turn attempt :: agenda, done =>
      if seen.testBit attempt.offset then
        loop body mark greedy steps seen agenda done
      else
        let seen := seen ||| 1 <<< attempt.offset
        match attempt.pass? mark with
        | none => loop body mark greedy steps seen agenda done
        | some attempt =>
            let turns := (body attempt).map Task.turn
            let agenda :=
              if greedy then turns ++ .leave attempt :: agenda
              else .leave attempt :: turns ++ agenda
            loop body mark greedy steps seen agenda done

/-- Enough steps for a loop over these attempts: each place adds at most
one task for every place, and one more. -/
def loopSteps : List Attempt → Nat
  | [] => 0
  | attempts@(attempt :: _) =>
      let places := attempt.offset + attempt.rest.length + 2
      places * places + attempts.length

/-- All ways to go on from these attempts through the node. -/
def Node.run : Node → List Attempt → List Attempt
  | .empty, attempts => attempts
  | .look l, attempts => attempts.filter fun a => l.holds a.before a.rest.head?
  | .set table, attempts => attempts.filterMap (·.consume? table)
  | .cat first second, attempts => second.run (first.run attempts)
  | .alt mark first second, attempts =>
      Attempt.distinct 0 <| attempts.flatMap fun a =>
        match a.pass? mark with
        | none => []
        | some a => first.run [a] ++ second.run [a]
  | .star mark greedy body, attempts =>
      loop (fun a => body.run [a]) mark greedy (loopSteps attempts) 0
        (attempts.map Task.turn) []
  | .plus mark greedy body, attempts =>
      let attempts := body.run attempts
      loop (fun a => body.run [a]) mark greedy (loopSteps attempts) 0
        (attempts.map Task.turn) []
  | .group index body, attempts =>
      (body.run (attempts.map (Attempt.enter index))).map (Attempt.exit index)

end ConditionTable
