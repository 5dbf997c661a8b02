/-
Values as a store of plain data keeps them. A key that comes more than
once keeps its first place and takes its last value; a whole number has
no negative zero; other numbers must not go beyond the range of 64-bit
floating-point numbers.
-/
import ConditionTable.Json.Value

namespace ConditionTable.Json

/-- The least number that is rounded beyond the range of 64-bit
floating-point numbers. -/
def floatLimit : Nat := Nat.pow 2 1024 - Nat.pow 2 970

/-- Whether a number stays in that range. Numbers far from its end are
told by the count of their digits. -/
def Number.inFloatRange (number : Number) : Bool :=
  let places : Int := (Nat.toDigits 10 number.digits).length + number.exponent
  if number.digits = 0 || places < 300 then true
  else if places > 320 then false
  else
    match number.exponent with
    | .ofNat up => number.digits * Nat.pow 10 up < floatLimit
    | .negSucc down => number.digits < floatLimit * Nat.pow 10 (down + 1)

/-- Sets the value of a key. -/
def setMember {α : Type} (key : List Nat) (value : α) : List (List Nat × α) → List (List Nat × α)
  | [] => [(key, value)]
  | (other, old) :: rest =>
      if other == key then (other, value) :: rest else (other, old) :: setMember key value rest

/-- Members without repetition, each key with its last value. -/
def distinctMembers {α : Type} (members : List (List Nat × α)) : List (List Nat × α) :=
  members.foldl (fun kept (key, value) => setMember key value kept) []

/-- The members, if each has a value. -/
def allKept {α : Type} (members : List (List Nat × Option α)) : Option (List (List Nat × α)) :=
  members.mapM fun (key, value) => value.map fun value => (key, value)

namespace Value

mutual

/-- The value as plain data, if all the numbers that are kept can be. -/
def plain? : Value → Option Value
  | number value =>
      if value.integral then
        some (number { value with negative := value.negative && value.digits != 0 })
      else if value.inFloatRange then some (number value)
      else none
  | nonFinite => none
  | array items => (plainItems items).map array
  | object members =>
      (allKept (distinctMembers (plainMembers members))).map object
  | value => some value

/-- Items as plain data. -/
def plainItems : List Value → Option (List Value)
  | [] => some []
  | item :: items => do return (← item.plain?) :: (← plainItems items)

/-- The value of each member as plain data. -/
def plainMembers : List (List Nat × Value) → List (List Nat × Option Value)
  | [] => []
  | (key, value) :: members => (key, value.plain?) :: plainMembers members

end

end Value

end ConditionTable.Json
