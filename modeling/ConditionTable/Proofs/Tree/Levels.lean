/-
The levels of an expression: its own, and those of all groups below it.
What lies below several entries lies below one of them, so the levels of
an append are an append, and its depth is a maximum.
-/
import ConditionTable.Tree.Basic

namespace ConditionTable

namespace Entry

mutual

/-- The levels below an entry, the outer ones first. -/
def levels : Entry → List Expression
  | leaf _ => []
  | group connectives entries => ⟨connectives, entries⟩ :: levelsAll entries

/-- The levels below a list of entries. -/
def levelsAll : List Entry → List Expression
  | [] => []
  | entry :: entries => entry.levels ++ levelsAll entries

end

theorem levelsAll_append (front back : List Entry) :
    levelsAll (front ++ back) = levelsAll front ++ levelsAll back := by
  induction front with
  | nil => rfl
  | cons entry front ih => rw [List.cons_append, levelsAll, ih, levelsAll, List.append_assoc]

theorem depthAll_append (front back : List Entry) :
    depthAll (front ++ back) = max (depthAll front) (depthAll back) := by
  induction front with
  | nil => exact (Nat.zero_max _).symm
  | cons entry front ih => rw [List.cons_append, depthAll, ih, depthAll, Nat.max_assoc]

theorem levelsAll_leaves (conditions : List Condition) :
    levelsAll (conditions.map .leaf) = [] := by
  induction conditions with
  | nil => rfl
  | cons condition conditions ih => exact ih

theorem depthAll_leaves (conditions : List Condition) :
    depthAll (conditions.map .leaf) = 0 := by
  induction conditions with
  | nil => rfl
  | cons condition conditions ih =>
    rw [List.map_cons, depthAll, ih]
    rfl

end Entry

namespace Expression

/-- The levels of an expression, its own first. -/
def levels (expression : Expression) : List Expression :=
  expression :: Entry.levelsAll expression.entries

end Expression

end ConditionTable
