/-
Records in JSON. A record has named fields in a fixed order and a default
for each. It may be written as an object, where unknown members are
passed over and no known one may come twice, or as an array of its first
fields in order.
-/
import ConditionTable.Json.Value

namespace ConditionTable.Json.Record

/-- A field of a record: its name, and how a value is put into it, if it
fits. -/
structure Field (α : Type) where
  name : Text
  set? : Value → α → Option α

/-- Fields from the members of an object. `known` holds the names that
have come already. -/
def ofMembers {α : Type} (fields : List (Field α)) :
    (known : List Text) → List (List Nat × Value) → α → Option α
  | _, [], record => some record
  | known, (key, value) :: members, record => do
      let name ← textOfPoints? key
      match fields.find? fun field => field.name == name with
      | none => ofMembers fields known members record
      | some field =>
          if known.contains name then none
          else ofMembers fields (name :: known) members (← field.set? value record)

/-- Fields from the items of an array, in order. -/
def ofItems {α : Type} : List (Field α) → List Value → α → Option α
  | _, [], record => some record
  | [], _ :: _, _ => none
  | field :: fields, value :: values, record => do
      ofItems fields values (← field.set? value record)

/-- The record with the fields that a value gives. -/
def ofValue? {α : Type} (fields : List (Field α)) (default : α) : Value → Option α
  | .object members => ofMembers fields [] members default
  | .array values => ofItems fields values default
  | _ => none

end ConditionTable.Json.Record
