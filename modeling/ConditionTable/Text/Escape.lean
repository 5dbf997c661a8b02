/-
Escaping by backslash. A character is escaped when an odd number of
backslashes stands directly before it. Scans carry the answer forward
one character at a time with `Escape.next`; `isEscaped` looks backward
from a byte offset.
-/
import ConditionTable.Text.Basic

namespace ConditionTable

/-- The byte of the backslash. -/
def Escape.backslash : UInt8 := 0x5C

/-- Whether the next character is escaped, given whether this one is a
backslash and whether it is escaped itself. -/
def Escape.next (isBackslash escaped : Bool) : Bool :=
  isBackslash && !escaped

/-- Whether the byte at `index` is escaped: the run of backslashes that
ends just before it has odd length. Past the end, the run at the end of
the text counts. -/
def isEscaped (text : Text) (index : Nat) : Bool :=
  ((text.utf8.take index).reverse.takeWhile (· == Escape.backslash)).length % 2 == 1

end ConditionTable
