/-
A memo keeps the expressions made from texts, so that the same text gives
the very same expression again. It is emptied when it is full and a new
text comes; with capacity zero it keeps nothing.

Each expression made is numbered, and two results are the same one
exactly if their numbers agree.
-/
import ConditionTable.Tree.Basic

namespace ConditionTable

/-- An expression that several holders share, under its own number. -/
structure Shared where
  number : Nat
  expression : Expression
deriving DecidableEq

/-- Expressions by their texts, the latest first, and how many have ever
been made. -/
structure Memo where
  capacity : Nat
  entries : List (Text × Shared) := []
  made : Nat := 0
deriving DecidableEq

namespace Memo

/-- The number of expressions kept. -/
def size (memo : Memo) : Nat := memo.entries.length

/-- What is kept for a text. -/
def get? (memo : Memo) (text : Text) : Option Shared :=
  memo.entries.lookup text

/-- Whether something is kept for a text. -/
def contains (memo : Memo) (text : Text) : Bool :=
  (memo.get? text).isSome

/-- The memo without its expressions. -/
def clear (memo : Memo) : Memo :=
  { memo with entries := [] }

/-- Keeps an expression for a new text. -/
def keep (memo : Memo) (text : Text) (shared : Shared) : Memo :=
  if memo.capacity = 0 then memo
  else
    let entries := if memo.size < memo.capacity then memo.entries else []
    { memo with entries := (text, shared) :: entries }

/-- The expression of a text, made only if none is kept. -/
def fetch {ε : Type} (memo : Memo) (text : Text) (make : Text → Except ε Expression) :
    Except ε Shared × Memo :=
  match memo.get? text with
  | some shared => (.ok shared, memo)
  | none =>
      match make text with
      | .error fault => (.error fault, memo)
      | .ok expression =>
          let shared := Shared.mk memo.made expression
          (.ok shared, { memo with made := memo.made + 1 }.keep text shared)

end Memo

end ConditionTable
