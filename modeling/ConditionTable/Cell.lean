/-
The three values of a cell: an entry must hold, must fail, or does not
matter.
-/
import ConditionTable.Text.Basic

namespace ConditionTable

/-- What is asked of one entry. -/
inductive Cell
  | holds
  | fails
  | free
deriving DecidableEq, Repr

namespace Cell

/-- The cell that asks for an outcome. -/
def ofBool : Bool → Cell
  | true => holds
  | false => fails

/-- The cell for an outcome that may be missing. -/
def ofOption : Option Bool → Cell
  | some outcome => ofBool outcome
  | none => free

/-- The outcome that the cell asks for, if any. -/
def outcome? : Cell → Option Bool
  | holds => some true
  | fails => some false
  | free => none

/-- How the cell is shown: a free cell leaves no text. -/
def render : Cell → Text
  | holds => ['t', 'r', 'u', 'e']
  | fails => ['f', 'a', 'l', 's', 'e']
  | free => []

/-- The name of the cell in data. -/
def name : Cell → Text
  | holds => ['T', 'r', 'u', 'e']
  | fails => ['F', 'a', 'l', 's', 'e']
  | free => ['D', 'o', 'n', 't', 'C', 'a', 'r', 'e']

end Cell

end ConditionTable
