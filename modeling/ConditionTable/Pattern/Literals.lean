/-
Patterns that come down to a few literals. Such a pattern is looked for
without an automaton, so it may be written with parts that would not fit
into one, as long as they add nothing: in `1|1{400000}` the second branch
can never be preferred.

What the matches begin with is collected as a list of fronts, the
preferred ones first. A front may be a whole match. Lists that grow too
long are given up or cut short, and so are fronts.
-/
import ConditionTable.Pattern.Expr

namespace ConditionTable.Pattern

/-- What a match begins with, as bytes. If that is the whole match, the
text says it too. -/
structure Front where
  bytes : List UInt8
  text : Text
  whole : Bool
deriving DecidableEq, Repr

/-- What matches begin with, the preferred fronts first. Without a list
they may begin with anything. -/
abbrev Fronts := Option (List Front)

namespace Front

/-- A whole match. -/
def ofText (text : Text) : Front :=
  ⟨text.utf8, text, true⟩

/-- The front as the mere beginning of a match. -/
def begun (front : Front) : Front :=
  { front with whole := false }

/-- The front with no more than `count` bytes. -/
def cut (count : Nat) (front : Front) : Front :=
  if count < front.bytes.length then ⟨front.bytes.take count, [], false⟩ else front

/-- One front goes on with another. -/
def append (front next : Front) : Front :=
  ⟨front.bytes ++ next.bytes, front.text ++ next.text, next.whole⟩

/-- The fronts without repetition of one right after itself. Two alike are
a whole match only if both are. -/
def distinct : List Front → List Front
  | [] => []
  | front :: rest =>
      match distinct rest with
      | next :: more =>
          if front.bytes == next.bytes then
            { front with whole := front.whole && next.whole } :: more
          else
            front :: next :: more
      | [] => [front]

/-- The fronts that no earlier one is the beginning of. -/
def preferred (fronts : List Front) : List Front :=
  (fronts.foldl
    (fun kept front =>
      if kept.any fun earlier => earlier.bytes.isPrefixOf front.bytes then kept
      else front :: kept)
    []).reverse

/-- The bytes that all fronts begin with. -/
def common (fronts : List Front) : List UInt8 :=
  match fronts.map Front.bytes with
  | [] => []
  | first :: rest =>
      rest.foldl
        (fun shared bytes =>
          ((shared.zip bytes).takeWhile fun (a, b) => a == b).map Prod.fst)
        first

end Front

namespace Fronts

/-- The greatest number of fronts. -/
def maxCount : Nat := 250

/-- The greatest number of bytes of a front. -/
def maxBytes : Nat := 100

/-- The greatest number of characters of a table, and of turns, that are
spelled out. -/
def maxSpelled : Nat := 10

/-- The empty text. -/
def nothing : Fronts :=
  some [.ofText []]

/-- Whether no front is a whole match, so that nothing can be added. -/
def closed (fronts : Fronts) : Bool :=
  fronts.all fun list => list.all fun front => !front.whole

/-- All fronts as mere beginnings. -/
def begun (fronts : Fronts) : Fronts :=
  fronts.map (·.map Front.begun)

/-- The fronts that are whole matches go on with what comes next. -/
def andThen (fronts next : Fronts) : Fronts :=
  let next := match fronts, next with
    | some list, some nexts => if maxCount < list.length * nexts.length then none else some nexts
    | _, next => next
  let result := match fronts, next with
    | none, _ => none
    | some list, none =>
        if list.any fun front => front.bytes.isEmpty then none
        else some (list.map Front.begun)
    | some list, some nexts =>
        some (Front.distinct (list.flatMap fun (front : Front) =>
          if front.whole then nexts.map front.append else [front]))
  result.map (·.map (Front.cut maxBytes))

/-- The fronts of either, those on the left preferred. If there would be
too many, they are cut short first. -/
def orElse (left right : Fronts) : Fronts :=
  match left, right with
  | some left, some right =>
      if left.length + right.length ≤ maxCount then
        some (Front.distinct (left ++ right))
      else
        let left := Front.distinct (left.map (Front.cut 4))
        let right := Front.distinct (right.map (Front.cut 4))
        if left.length + right.length ≤ maxCount then
          some (Front.distinct (left ++ right))
        else
          none
  | _, _ => none

/-- The characters of a table, unless there are too many. -/
def ofTable (table : RangeTable) : Fronts :=
  let count := table.foldl (fun count (first, last) => count + (last + 1 - first)) 0
  if maxSpelled < count then none
  else
    some (table.flatMap fun (first, last) =>
      (List.range (last + 1 - first)).map fun i => .ofText [Char.ofNat (first + i)])

/-- So many turns one after the other. -/
def times (turn : Fronts) : (count : Nat) → Fronts → Fronts
  | 0, fronts => fronts
  | count + 1, fronts =>
      if fronts.closed then fronts else times turn count (fronts.andThen turn)

/-- The fronts of `least` to `most` turns. -/
def ofTurns (greedy : Bool) (least : Nat) (most : Option Nat) (turn : Fronts) : Fronts :=
  if least == 0 then
    let turn := if most == some 1 then turn else turn.begun
    if greedy then turn.orElse nothing else nothing.orElse turn
  else
    let fronts := times turn (min least maxSpelled) nothing
    if most == some least && least ≤ maxSpelled then fronts else fronts.begun

end Fronts

mutual

/-- What the matches of an expression begin with. -/
def Expr.fronts : Expr → Fronts
  | .empty => .nothing
  | .literal text => some [(Front.ofText text).cut Fronts.maxBytes]
  | .anyOf table _ => .ofTable table
  | .look _ => .nothing
  | .seq items => Expr.frontsSeq .nothing items
  | .choice items => Expr.frontsChoice (some []) items
  | .turns greedy least most body => .ofTurns greedy least most body.fronts
  | .group _ body => body.fronts

/-- The fronts go on with those of a sequence. -/
def Expr.frontsSeq (fronts : Fronts) : List Expr → Fronts
  | [] => fronts
  | item :: rest =>
      if fronts.closed then fronts else Expr.frontsSeq (fronts.andThen item.fronts) rest

/-- The fronts, and after them those of all branches. -/
def Expr.frontsChoice (fronts : Fronts) : List Expr → Fronts
  | [] => fronts
  | item :: rest =>
      if fronts.isNone then fronts
      else Expr.frontsChoice (fronts.orElse item.fronts) rest

end

mutual

/-- Whether the expression is about characters alone: it remembers no
groups and looks at no places. -/
def Expr.plain : Expr → Bool
  | .empty => true
  | .literal _ => true
  | .anyOf _ _ => true
  | .look _ => false
  | .seq items => Expr.plainAll items
  | .choice items => Expr.plainAll items
  | .turns _ _ _ body => body.plain
  | .group _ _ => false

/-- Whether all are about characters alone. -/
def Expr.plainAll : List Expr → Bool
  | [] => true
  | item :: rest => item.plain && Expr.plainAll rest

end

namespace Front

/-- Bytes that are seldom met in texts. -/
def rareBytes : RangeTable := [
  (0x00, 0x09), (0x0B, 0x0C), (0x0E, 0x1F), (0x21, 0x27), (0x2A, 0x2B), (0x33, 0x38),
  (0x3B, 0x5E), (0x60, 0x60), (0x6A, 0x6B), (0x71, 0x71), (0x77, 0x77), (0x7A, 0x7B),
  (0x7D, 0x7F), (0x85, 0x8F), (0x91, 0xB0), (0xB2, 0xB4), (0xB8, 0xB8), (0xBE, 0xBE)]

/-- Bytes that are met everywhere. -/
def plentifulBytes : RangeTable := [(0x20, 0x20), (0x65, 0x65), (0x74, 0x74), (0xC0, 0xFF)]

/-- Whether a front would be met everywhere. -/
def plentiful (front : Front) : Bool :=
  match front.bytes with
  | [] => true
  | [byte] => plentifulBytes.holds byte.toNat
  | _ => false

/-- Cuts the fronts shorter and shorter while there are more of them than
the steps allow. -/
def shorten : (steps : List (Nat × Nat)) → List Front → List Front
  | [], fronts => fronts
  | (bytes, limit) :: steps, fronts =>
      if fronts.length ≤ limit then fronts
      else shorten steps (preferred (fronts.map (cut bytes)))

/-- The fronts that are worth looking for, out of a list of them. Where
all begin alike that beginning may be enough, and a long list may be cut
short, unless that makes the fronts too short or too many again. -/
def worthwhile (fronts : List Front) : List Front :=
  let kept := preferred fronts
  let shared := common kept
  let rare := match shared with
    | [] => false
    | byte :: _ => 1 < fronts.length && shared.length ≤ 3 && rareBytes.holds byte.toNat
  if rare then
    distinct (kept.map (cut 1))
  else
    let few := kept.length ≤ 16 && kept.all Front.whole
    let kept :=
      if 4 < shared.length || (1 < shared.length && !few) then
        distinct (kept.map (cut shared.length))
      else
        kept
    let short := shorten [(5, 10), (4, 10), (3, 64), (2, 64), (1, 10)] kept
    if kept.all Front.whole
        && (short.any plentiful || short.any (fun front => front.bytes.length ≤ 2)
          || 64 < short.length) then
      kept
    else
      short

end Front

/-- The literals that a pattern comes down to, the preferred ones first,
if it does. -/
def Expr.literals? (expr : Expr) : Option (List Text) := do
  let fronts ← expr.fronts
  if !expr.plain || fronts.isEmpty || fronts.any (fun front => front.bytes.isEmpty) then
    none
  else
    let fronts := Front.worthwhile fronts
    if fronts.all Front.whole then some (fronts.map Front.text) else none

end ConditionTable.Pattern
