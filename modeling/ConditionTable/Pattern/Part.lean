/-
Parts of a pattern and the groups that hold them. What has been read is
put together at once into an expression, next to its nesting depth, which
is limited.
-/
import ConditionTable.Pattern.Expr
import ConditionTable.Pattern.Flags

namespace ConditionTable.Pattern

/-- How deep groups, repetitions and brackets may nest. -/
def maxDepth : Nat := 250

/-- A finished part of a pattern. Only a change of flags cannot be
repeated. -/
structure Part where
  expr : Expr
  depth : Nat := 0
  repeatable : Bool := true

/-- The greatest depth among parts. -/
def depthOf (parts : List Part) : Nat :=
  parts.foldl (fun depth part => max depth part.depth) 0

/-- Parts one after the other, the last one given first. -/
def Part.seq : List Part → Part
  | [] => { expr := .empty }
  | [part] => part
  | parts =>
      { expr := .ofItems (parts.reverse.map Part.expr)
        depth := depthOf parts + 1 }

/-- Parts to choose from, the last one given first. -/
def Part.choice : List Part → Part
  | [] => { expr := .empty }
  | [part] => part
  | parts =>
      { expr := .ofBranches (parts.reverse.map Part.expr)
        depth := depthOf parts + 1 }

/-- A part repeated. -/
def Part.repeated (part : Part) (greedy : Bool) (least : Nat) (most : Option Nat) : Part :=
  { expr := .ofTurns greedy least most part.expr
    depth := part.depth + 1 }

/-- The part that a group becomes. -/
def Part.grouped (index : Option Nat) (whole : Part) : Part :=
  { expr := match index with
      | none => whole.expr
      | some index => .group index whole.expr
    depth := whole.depth + 1 }

/-- What a change of flags leaves among the parts. It matches nothing, and
repeating it is a fault. -/
def Part.mute : Part :=
  { expr := .empty, repeatable := false }

/-- What surrounds an open group: the parts and choices before it, the
flags to go back to, and the number under which it is remembered. -/
structure Frame where
  parts : List Part
  choices : List Part
  flags : Flags
  index : Option Nat

/-- How far a pattern has been read. Parts and choices are those of the
innermost open group, the last one first. -/
structure Reading where
  flags : Flags := {}
  parts : List Part := []
  choices : List Part := []
  frames : List Frame := []
  groups : Nat := 0
  names : List Text := []

namespace Reading

/-- Adds a part. -/
def add (reading : Reading) (part : Part) : Reading :=
  { reading with parts := part :: reading.parts }

/-- Repeats the part read last. -/
def repeatLast? (reading : Reading) (greedy : Bool) (least : Nat) (most : Option Nat) :
    Option Reading :=
  match reading.parts with
  | [] => none
  | part :: parts =>
      if part.repeatable then
        let part := part.repeated (greedy != reading.flags.swapGreed) least most
        some { reading with parts := part :: parts }
      else
        none

/-- Starts the next branch. -/
def bar (reading : Reading) : Reading :=
  { reading with parts := [], choices := .seq reading.parts :: reading.choices }

/-- All that the innermost open group holds. -/
def whole (reading : Reading) : Part :=
  .choice (.seq reading.parts :: reading.choices)

/-- Opens a group. -/
def enter (reading : Reading) (flags : Flags) (index : Option Nat) : Reading :=
  { reading with
    flags
    parts := []
    choices := []
    frames := ⟨reading.parts, reading.choices, reading.flags, index⟩ :: reading.frames }

/-- Closes the innermost group. -/
def leave? (reading : Reading) : Option Reading :=
  match reading.frames with
  | [] => none
  | frame :: frames =>
      some { reading with
        flags := frame.flags
        parts := reading.whole.grouped frame.index :: frame.parts
        choices := frame.choices
        frames }

end Reading

end ConditionTable.Pattern
