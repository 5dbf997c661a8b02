/-
Conditions on the place between two characters.
-/
import ConditionTable.Text.Word

namespace ConditionTable

/-- A bound of a word, or one side of it. -/
inductive WordEdge
  | boundary
  | notBoundary
  | start
  | stop
  | startHalf
  | stopHalf
deriving DecidableEq, Repr

/-- Whether the bound lies at a place, given whether the characters before
and after it belong to words. -/
def WordEdge.holds (edge : WordEdge) (before next : Bool) : Bool :=
  match edge with
  | boundary => before != next
  | notBoundary => before == next
  | start => !before && next
  | stop => before && !next
  | startHalf => !before
  | stopHalf => !next

/-- A condition on the place between two characters. The words are those
of every script, or those of ASCII alone. -/
inductive Look
  | textStart
  | textEnd
  | lineStart
  | lineEnd
  | returnLineStart
  | returnLineEnd
  | word (edge : WordEdge) (ascii : Bool := false)
deriving DecidableEq, Repr

/-- Whether the condition holds between `before` and `next`. A line ends
at a line feed; the `return` forms count a carriage return as well, and
never hold inside the pair of both. -/
def Look.holds (look : Look) (before next : Option Char) : Bool :=
  match look with
  | textStart => before.isNone
  | textEnd => next.isNone
  | lineStart => before.isNone || before == some '\n'
  | lineEnd => next.isNone || next == some '\n'
  | returnLineStart =>
      before.isNone || before == some '\n' || (before == some '\r' && next != some '\n')
  | returnLineEnd =>
      next.isNone || next == some '\r' || (next == some '\n' && before != some '\r')
  | word edge ascii =>
      let inWord := if ascii then isAsciiWordChar else isWordChar
      edge.holds (before.any inWord) (next.any inWord)

end ConditionTable
