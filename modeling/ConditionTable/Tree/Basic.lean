/-
Expressions. A condition is a trimmed text that is not empty; an
expression joins entries by connectives, and an entry is a condition or
an expression in parentheses. Normally one connective stands between two
neighbouring entries, but a malformed text may leave more or fewer, so
the two lists of a level need not agree.
-/
import ConditionTable.Path
import ConditionTable.Text.Blank

namespace ConditionTable

/-- The text of an atomic condition. -/
structure Condition where
  text : Text
  trimmed : text.trim = text
  nonempty : text ≠ []
deriving DecidableEq

/-- The condition that a text holds between its blanks, if any. -/
def Condition.of? (text : Text) : Option Condition :=
  if h : text.trim ≠ [] then some ⟨text.trim, Text.trim_trim text, h⟩ else none

/-- What stands at one place of a level: a condition, or a group with the
connectives and entries of its own level. -/
inductive Entry
  | leaf (condition : Condition)
  | group (connectives : List Connective) (entries : List Entry)

/-- One level with all that lies below it. -/
structure Expression where
  connectives : List Connective
  entries : List Entry

namespace Entry

mutual

/-- Equality of entries can be decided. -/
def decEq : (a b : Entry) → Decidable (a = b)
  | leaf c, leaf d =>
      if h : c = d then isTrue (by rw [h]) else isFalse (by simp [h])
  | leaf _, group _ _ => isFalse (by simp)
  | group _ _, leaf _ => isFalse (by simp)
  | group cs es, group ds fs =>
      if h : cs = ds then
        match decEqAll es fs with
        | isTrue he => isTrue (by rw [h, he])
        | isFalse he => isFalse (by simp [he])
      else
        isFalse (by simp [h])

/-- Equality of lists of entries can be decided. -/
def decEqAll : (as bs : List Entry) → Decidable (as = bs)
  | [], [] => isTrue rfl
  | [], _ :: _ => isFalse (by simp)
  | _ :: _, [] => isFalse (by simp)
  | a :: as, b :: bs =>
      match decEq a b with
      | isTrue h =>
          match decEqAll as bs with
          | isTrue hs => isTrue (by rw [h, hs])
          | isFalse hs => isFalse (by simp [hs])
      | isFalse h => isFalse (by simp [h])

end

instance : DecidableEq Entry := decEq

mutual

/-- The conditions below an entry, from left to right. -/
def leaves : Entry → List Condition
  | leaf condition => [condition]
  | group _ entries => leavesAll entries

/-- The conditions below a list of entries. -/
def leavesAll : List Entry → List Condition
  | [] => []
  | entry :: entries => entry.leaves ++ leavesAll entries

end

mutual

/-- The number of conditions below an entry. -/
def leafCount : Entry → Nat
  | leaf _ => 1
  | group _ entries => leafCountAll entries

/-- The number of conditions below a list of entries. -/
def leafCountAll : List Entry → Nat
  | [] => 0
  | entry :: entries => entry.leafCount + leafCountAll entries

end

mutual

/-- The count of conditions is their number. -/
theorem length_leaves : (entry : Entry) → entry.leaves.length = entry.leafCount
  | leaf _ => rfl
  | group _ entries => length_leavesAll entries

theorem length_leavesAll : (entries : List Entry) →
    (leavesAll entries).length = leafCountAll entries
  | [] => rfl
  | entry :: entries => by
      rw [leavesAll, List.length_append, length_leaves entry, length_leavesAll entries,
        leafCountAll]

end

mutual

/-- How many groups lie around the deepest condition of the entry. -/
def depth : Entry → Nat
  | leaf _ => 0
  | group _ entries => depthAll entries + 1

/-- The greatest depth in a list of entries. -/
def depthAll : List Entry → Nat
  | [] => 0
  | entry :: entries => max entry.depth (depthAll entries)

end

mutual

/-- Whether some level below the entry mixes connectives. -/
def anyMixed : Entry → Bool
  | leaf _ => false
  | group connectives entries => Connective.mixed connectives || anyMixedAll entries

/-- Whether some level below a list of entries mixes connectives. -/
def anyMixedAll : List Entry → Bool
  | [] => false
  | entry :: entries => entry.anyMixed || anyMixedAll entries

end

end Entry

namespace Expression

deriving instance DecidableEq for Expression

/-- The expression without entries. -/
def empty : Expression := ⟨[], []⟩

/-- The expression as one entry of an outer level. -/
def toEntry (expression : Expression) : Entry :=
  .group expression.connectives expression.entries

/-- Whether the level itself has no entries. -/
def isEmpty (expression : Expression) : Bool :=
  expression.entries.isEmpty

/-- Whether the level itself mixes connectives. -/
def mixed (expression : Expression) : Bool :=
  Connective.mixed expression.connectives

/-- Whether the level or one below it mixes connectives. -/
def anyMixed (expression : Expression) : Bool :=
  expression.mixed || Entry.anyMixedAll expression.entries

/-- The one connective of a level that does not mix them. -/
def connective? (expression : Expression) : Option Connective :=
  if expression.mixed then none else expression.connectives.head?

/-- All conditions, from left to right. -/
def leaves (expression : Expression) : List Condition :=
  Entry.leavesAll expression.entries

/-- The number of conditions. -/
def leafCount (expression : Expression) : Nat :=
  Entry.leafCountAll expression.entries

/-- How deep groups are nested. -/
def depth (expression : Expression) : Nat :=
  Entry.depthAll expression.entries

end Expression

/-- The paths that give a level an outcome. A level that mixes
connectives has none. -/
def levelPaths (connectives : List Connective) (length : Nat) (outcome : Bool) : List Path :=
  if Connective.mixed connectives then []
  else
    let both := Path.forBoth connectives length
    if outcome then both.1 else both.2

namespace Expression

/-- The paths that give the top level an outcome. -/
def paths (expression : Expression) (outcome : Bool) : List Path :=
  levelPaths expression.connectives expression.entries.length outcome

/-- The same paths, made for one outcome alone. -/
def generatePaths (expression : Expression) (outcome : Bool) : List Path :=
  if expression.mixed then []
  else Path.forOutcome expression.connectives expression.entries.length outcome

end Expression

end ConditionTable
