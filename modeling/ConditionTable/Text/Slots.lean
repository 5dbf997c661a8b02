/-
A memory with a fixed number of slots. Every key has one slot, and what is
stored takes the slot from whatever was there, so an older key may be
forgotten while a younger one is remembered.
-/
import Std.Data.TreeMap

namespace ConditionTable

/-- What has been stored, slot by slot, with its key. -/
abbrev Slots := Std.TreeMap Nat (List Nat × Nat)

/-- The slot of a key among `count`: each number of the key is mixed into
a 64-bit word by exclusive or and a multiplication. -/
def slotOf (count : Nat) (key : List Nat) : Nat :=
  let word := key.foldl (fun (word : UInt64) n => (word ^^^ n.toUInt64) * 1099511628211)
    14695981039346656037
  word.toNat % count

namespace Slots

/-- What was stored under the key, unless its slot has been taken. -/
def stored? (count : Nat) (key : List Nat) (slots : Slots) : Option Nat :=
  match slots[slotOf count key]? with
  | some (other, value) => if other == key then some value else none
  | none => none

/-- Stores a value under a key. -/
def store (count : Nat) (key : List Nat) (value : Nat) (slots : Slots) : Slots :=
  slots.insert (slotOf count key) (key, value)

end Slots

end ConditionTable
