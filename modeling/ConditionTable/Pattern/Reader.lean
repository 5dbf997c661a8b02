/-
Reading a pattern. The notation is the common one: literals, escapes,
classes in brackets or by properties, anchors, repetition, groups with or
without a name, and flags. There is no look-around and no reference back,
since every pattern is matched in one pass over the text; and only what
can match nothing but whole characters is a pattern.

A pattern that cannot be read has no meaning; why it cannot be read is
not recorded.
-/
import ConditionTable.Pattern.Action
import ConditionTable.Pattern.Literals
import ConditionTable.Pattern.Room

namespace ConditionTable.Pattern

/-- Reads on to the end of the text. Each step takes a sign, so the length
of the text is fuel enough. -/
def readAll (properties : Properties) : (fuel : Nat) → Reading → Text → Option Reading
  | 0, _, _ => none
  | fuel + 1, reading, text =>
      match skipSpace reading.flags.verbose text with
      | [] => some reading
      | c :: rest => do
          let (action, rest) ← action? properties reading.flags c rest
          readAll properties fuel (← reading.perform? action) rest

/-- The steps that an expression stands for, if it fits into an automaton
or comes down to a few literals. -/
def Expr.steps? (expr : Expr) : Option Node :=
  if expr.fits then
    some expr.node.marked
  else
    expr.literals?.map fun texts => (Expr.ofBranches (texts.map Expr.literal)).node.marked

/-- The steps that a pattern stands for. -/
def node? (properties : Properties) (text : Text) : Option Node := do
  let reading ← readAll properties (text.length + 1) {} text
  let whole := reading.whole
  if reading.frames.isEmpty && whole.depth ≤ maxDepth then whole.expr.steps? else none

end ConditionTable.Pattern
