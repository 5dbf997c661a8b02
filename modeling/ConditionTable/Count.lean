/-
Counts. What the library counts and limits fits into an unsigned word of
64 bits.
-/

namespace ConditionTable

/-- The greatest count. -/
def maxCount : Nat := 0xFFFFFFFFFFFFFFFF

/-- A number, if it is a count. -/
def checked (n : Nat) : Option Nat :=
  if n ≤ maxCount then some n else none

end ConditionTable
