/-
Dividing a text into groups and the text between them. Outside quotes, a
parenthesis that is not escaped either opens a group or begins the
arguments of a call; within a call all parentheses belong to the call.
Only outermost groups count here; what they hold is divided later.

A group that is never closed is no group, and its text belongs to the
tail.
-/
import ConditionTable.Source.Span
import ConditionTable.Vocabulary

namespace ConditionTable

/-- How far a text has been divided: the quote of an open literal, whether
the next character is escaped, and how many groups and calls are open. -/
structure DivisionState where
  quote : Option Char := none
  escaped : Bool := false
  groups : Nat := 0
  calls : Nat := 0
deriving DecidableEq, Repr

/-- What one character means for the outermost groups. -/
inductive Edge
  | none
  | opens
  | closes
deriving DecidableEq, Repr

/-- The state after the next character, given the text before it with its
nearest character first. -/
def DivisionState.step (vocabulary : Vocabulary) (state : DivisionState) (before : Text)
    (c : Char) : DivisionState × Edge :=
  let next := { state with escaped := Escape.next (c == '\\') state.escaped }
  if state.escaped then
    (next, .none)
  else
    match state.quote with
    | some quote => (if c == quote then { next with quote := none } else next, .none)
    | none =>
        if isQuote c then ({ next with quote := some c }, .none)
        else if c == '(' then
          if state.calls > 0 || !vocabulary.opensGroup before then
            ({ next with calls := state.calls + 1 }, .none)
          else
            ({ next with groups := state.groups + 1 },
              if state.groups = 0 then .opens else .none)
        else if c == ')' then
          if state.calls > 0 then ({ next with calls := state.calls - 1 }, .none)
          else if state.groups > 0 then
            ({ next with groups := state.groups - 1 },
              if state.groups = 1 then .closes else .none)
          else (next, .none)
        else (next, .none)

/-- A text as gaps, each followed by a group in its parentheses, and what
comes after the last group. -/
structure Division where
  pieces : List (Text × Text)
  tail : Text
deriving DecidableEq, Repr

/-- The text that has been divided. -/
def Division.text (division : Division) : Text :=
  division.pieces.flatMap (fun (gap, group) => gap ++ group) ++ division.tail

/-- Puts a gap and a group in front. -/
def Division.cons (gap group : Text) (division : Division) : Division :=
  { division with pieces := (gap, group) :: division.pieces }

/-- Divides the rest of a text. `before` is the text before it, `gap` what
has come since the last group, and `group` what has come of an open group,
each with the last character first. -/
def divideFrom (vocabulary : Vocabulary) : DivisionState → (before gap : Text) →
    (group : Option Text) → Text → Division
  | _, _, gap, group, [] => ⟨[], (group.getD [] ++ gap).reverse⟩
  | state, before, gap, group, c :: rest =>
      let (next, edge) := state.step vocabulary before c
      match edge, group with
      | .closes, some inner =>
          (divideFrom vocabulary next (c :: before) [] none rest).cons
            gap.reverse (c :: inner).reverse
      | .opens, none => divideFrom vocabulary next (c :: before) gap (some [c]) rest
      | _, some inner => divideFrom vocabulary next (c :: before) gap (some (c :: inner)) rest
      | _, none => divideFrom vocabulary next (c :: before) (c :: gap) none rest

/-- A text divided into its outermost groups and what lies between. -/
def divide (vocabulary : Vocabulary) (text : Text) : Division :=
  divideFrom vocabulary {} [] [] none text

@[simp] theorem Division.text_mk_nil (tail : Text) : (Division.mk [] tail).text = tail := rfl

@[simp] theorem Division.text_mk_cons (gap group : Text) (pieces : List (Text × Text))
    (tail : Text) :
    (Division.mk ((gap, group) :: pieces) tail).text
      = gap ++ group ++ (Division.mk pieces tail).text := by
  simp [text]

@[simp] theorem Division.text_cons (gap group : Text) (division : Division) :
    (division.cons gap group).text = gap ++ group ++ division.text := by
  simp [text, cons]

theorem text_divideFrom (vocabulary : Vocabulary) (state : DivisionState) (before gap : Text)
    (group : Option Text) (text : Text) :
    (divideFrom vocabulary state before gap group text).text
      = gap.reverse ++ (group.getD []).reverse ++ text := by
  fun_induction divideFrom vocabulary state before gap group text <;> simp_all

/-- Nothing of a text is lost when it is divided. -/
@[simp] theorem text_divide (vocabulary : Vocabulary) (text : Text) :
    (divide vocabulary text).text = text := by
  simp [divide, text_divideFrom]

/-- A group at its place: the offsets of the bytes of its two parentheses,
and its text with them. -/
structure Group where
  start : Nat
  stop : Nat
  text : Text
deriving DecidableEq, Repr

/-- The groups among pieces that begin at a byte offset. -/
def groupsFrom (offset : Nat) : List (Text × Text) → List Group
  | [] => []
  | (gap, group) :: pieces =>
      let start := offset + Text.byteSize gap
      let next := start + Text.byteSize group
      ⟨start, next - 1, group⟩ :: groupsFrom next pieces

/-- The outermost groups of a text and where they are. -/
def groups (vocabulary : Vocabulary) (text : Text) : List Group :=
  groupsFrom 0 (divide vocabulary text).pieces

end ConditionTable
