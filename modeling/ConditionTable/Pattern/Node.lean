/-
What a pattern says, as a tree of matching steps. Repetition comes in
two forms only, `star` and `plus`; counted repetition is spelled out in
copies. A star's body always consumes a character: a body that may match
the empty text is repeated as an optional `plus`, which keeps the order
of preference right.

A branching step inside a body that may match the empty text carries a
mark. An attempt that comes back to a mark without having consumed a
character is given up, so no loop turns without end.
-/
import ConditionTable.Pattern.Look

namespace ConditionTable

/-- The steps of a pattern. Of an `alt` the first branch is preferred;
a greedy loop prefers another turn, any other prefers to leave. -/
inductive Node
  | empty
  | look (look : Look)
  | set (table : RangeTable)
  | cat (first second : Node)
  | alt (mark : Option Nat) (first second : Node)
  | star (mark : Option Nat) (greedy : Bool) (body : Node)
  | plus (mark : Option Nat) (greedy : Bool) (body : Node)
  | group (index : Nat) (body : Node)
deriving DecidableEq, Repr

namespace Node

/-- Whether the node may match the empty text. -/
def nullable : Node → Bool
  | empty => true
  | look _ => true
  | set _ => false
  | cat first second => first.nullable && second.nullable
  | alt _ first second => first.nullable || second.nullable
  | star _ _ _ => true
  | plus _ _ body => body.nullable
  | group _ body => body.nullable

/-- The greatest number of characters that the node matches, if there is
one. -/
def width? : Node → Option Nat
  | empty => some 0
  | look _ => some 0
  | set _ => some 1
  | cat first second => do return (← first.width?) + (← second.width?)
  | alt _ first second => do return max (← first.width?) (← second.width?)
  | star _ _ _ => none
  | plus _ _ _ => none
  | group _ body => body.width?

/-- The nodes one after the other. -/
def seq : List Node → Node
  | [] => empty
  | [node] => node
  | node :: rest => cat node (seq rest)

/-- One of the nodes, the first ones preferred. -/
def choice : List Node → Node
  | [] => empty
  | [node] => node
  | node :: rest => alt none node (choice rest)

/-- The node or nothing. -/
def optional (greedy : Bool) (body : Node) : Node :=
  if greedy then alt none body empty else alt none empty body

/-- Up to `count` times the node, each time only after the one before. -/
def upTo (greedy : Bool) (body : Node) : Nat → Node
  | 0 => empty
  | 1 => optional greedy body
  | count + 1 => optional greedy (cat body (upTo greedy body count))

/-- The node at least `least` times. -/
def atLeast (greedy : Bool) (body : Node) : Nat → Node
  | 0 => if body.nullable then optional greedy (plus none greedy body) else star none greedy body
  | 1 => plus none greedy body
  | least + 1 => seq (List.replicate least body ++ [plus none greedy body])

/-- The node at least `least` and at most `most` times. -/
def repeated (greedy : Bool) (least : Nat) (most : Option Nat) (body : Node) : Node :=
  match most with
  | none => atLeast greedy body least
  | some most =>
      seq (List.replicate least body
        ++ if least < most then [upTo greedy body (most - least)] else [])

/-- Puts marks on the branching steps inside bodies that may match the
empty text, numbered from `next`; the number that comes after them is
returned too. -/
def number (inside : Bool) (next : Nat) : Node → Node × Nat
  | empty => (empty, next)
  | look l => (look l, next)
  | set s => (set s, next)
  | cat first second =>
      let (first, next) := number inside next first
      let (second, next) := number inside next second
      (cat first second, next)
  | alt _ first second =>
      let (mark, next) := fresh next
      let (first, next) := number inside next first
      let (second, next) := number inside next second
      (alt mark first second, next)
  | star _ greedy body =>
      let (mark, next) := fresh next
      let (body, next) := number inside next body
      (star mark greedy body, next)
  | plus _ greedy body =>
      let (mark, next) := fresh next
      let (body, next) := number (inside || body.nullable) next body
      (plus mark greedy body, next)
  | group index body =>
      let (body, next) := number inside next body
      (group index body, next)
where
  /-- A new mark where one is needed. -/
  fresh (next : Nat) : Option Nat × Nat :=
    if inside then (some next, next + 1) else (none, next)

/-- The node with the marks it needs. -/
def marked (node : Node) : Node :=
  (number false 0 node).1

end Node

end ConditionTable
