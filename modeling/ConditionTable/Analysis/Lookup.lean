/-
Looking up one row as a dictionary from the texts of conditions to their
values. A text that stands for several columns keeps its first place and
takes its last value.
-/
import ConditionTable.Analysis.Basic
import ConditionTable.Count
import ConditionTable.Json.Value

namespace ConditionTable

/-- Why a row cannot be asked for. -/
inductive LookupFault
  | outcomeNotBool
  | indexNotInteger
  | indexOutOfRange
deriving DecidableEq, Repr

/-- Values by texts, in the order in which the texts came first. -/
abbrev Dictionary := List (Text × Option Bool)

namespace Dictionary

/-- Sets the value of a text. -/
def set (text : Text) (value : Option Bool) : Dictionary → Dictionary
  | [] => [(text, value)]
  | (key, old) :: rest =>
      if key == text then (key, value) :: rest else (key, old) :: set text value rest

/-- The value of a text. -/
def get? (dictionary : Dictionary) (text : Text) : Option (Option Bool) :=
  dictionary.lookup text

/-- The dictionary that sets the values from left to right. -/
def ofColumns (columns : List (Text × Option Bool)) : Dictionary :=
  columns.foldl (fun dictionary (text, value) => set text value dictionary) []

end Dictionary

/-- The row of an outcome at an index, if there is one. -/
def Analysis.row? (analysis : Analysis) (outcome : Bool) (index : Nat) : Option Dictionary :=
  (analysis.rows outcome)[index]?.map fun row =>
    .ofColumns (analysis.leafTexts.zip (row.map Cell.outcome?))

/-- An index given as a value: a whole number, where the two outcomes
count as one and zero. -/
def index? : Json.Value → Except LookupFault Nat
  | .bool value => .ok value.toNat
  | .number number =>
      if !number.integral then .error .indexNotInteger
      else if number.negative && number.digits != 0 || number.digits > maxCount then
        .error .indexOutOfRange
      else .ok number.digits
  | _ => .error .indexNotInteger

/-- The row that an outcome and an index ask for, both given as values. -/
def Analysis.lookup (analysis : Analysis) (outcome index : Json.Value) :
    Except LookupFault (Option Dictionary) :=
  match outcome with
  | .bool outcome => (index? index).map (analysis.row? outcome)
  | _ => .error .outcomeNotBool

end ConditionTable
