/-
Pattern expressions, kept in a normal form: sequences and choices are
flat, neighbouring literals are one, a choice between characters is a
table, and what all branches of a choice begin with stands in front of
it. `ofItems`, `ofBranches`, `ofTable` and `ofTurns` build that form out
of parts that have it; the room that a pattern takes depends on it.

`node` lays an expression out as matching steps.
-/
import ConditionTable.Pattern.Node
import ConditionTable.Text.Basic

namespace ConditionTable.Pattern

/-- What a pattern says. A literal is not empty, sequences and choices
have two members at least, and a table without ranges never matches. A
table that was read as one of ASCII is kept apart from the others, though
it matches alike. -/
inductive Expr
  | empty
  | literal (text : Text)
  | anyOf (table : RangeTable) (ascii : Bool := false)
  | look (condition : Look)
  | seq (items : List Expr)
  | choice (items : List Expr)
  | turns (greedy : Bool) (least : Nat) (most : Option Nat) (body : Expr)
  | group (index : Nat) (body : Expr)

namespace Expr

-- ============================================================ equality

mutual

/-- Whether two expressions are the same. -/
def same : Expr → Expr → Bool
  | empty, empty => true
  | literal a, literal b => a == b
  | anyOf a ascii, anyOf b ascii' => a == b && ascii == ascii'
  | look a, look b => a == b
  | seq as, seq bs => sameAll as bs
  | choice as, choice bs => sameAll as bs
  | turns greedy least most a, turns greedy' least' most' b =>
      greedy == greedy' && least == least' && most == most' && same a b
  | group i a, group j b => i == j && same a b
  | _, _ => false

/-- Whether two lists of expressions are the same. -/
def sameAll : List Expr → List Expr → Bool
  | [], [] => true
  | a :: as, b :: bs => same a b && sameAll as bs
  | _, _ => false

end

-- ========================================================== properties

mutual

/-- Whether the expression never consumes a character. -/
def idle : Expr → Bool
  | empty => true
  | literal _ => false
  | anyOf _ _ => false
  | look _ => true
  | seq items => allIdle items
  | choice items => allIdle items
  | turns _ _ _ body => body.idle
  | group _ body => body.idle

/-- Whether none of the expressions consumes a character. -/
def allIdle : List Expr → Bool
  | [] => true
  | item :: rest => item.idle && allIdle rest

end

mutual

/-- The least number of characters that the expression matches. None is
given if part of it never matches. -/
def least? : Expr → Option Nat
  | empty => some 0
  | literal text => some text.length
  | anyOf table _ => if table.isEmpty then none else some 1
  | look _ => some 0
  | seq items => leastSum? items
  | choice items => leastOf? items
  | turns _ least _ body => body.least?.map (least * ·)
  | group _ body => body.least?

/-- The sum for a sequence. -/
def leastSum? : List Expr → Option Nat
  | [] => some 0
  | item :: rest =>
      match item.least?, leastSum? rest with
      | some m, some n => some (m + n)
      | _, _ => none

/-- The least for a choice. -/
def leastOf? : List Expr → Option Nat
  | [] => none
  | [item] => item.least?
  | item :: rest =>
      match item.least?, leastOf? rest with
      | some m, some n => some (min m n)
      | _, _ => none

end

/-- Whether every match consumes a character. -/
def consumes (expr : Expr) : Bool :=
  expr.least?.any (0 < ·)

mutual

/-- Whether a match must have the condition at its edge: at the front, or
`atEnd` at its end. -/
def bound (edge : Look) (atEnd : Bool) : Expr → Bool
  | empty => false
  | literal _ => false
  | anyOf _ _ => false
  | look condition => condition == edge
  | seq items => if atEnd then boundLast edge items else boundFirst edge items
  | choice items => boundAll edge atEnd items
  | turns _ least _ body => 0 < least && body.bound edge atEnd
  | group _ body => body.bound edge atEnd

/-- Whether the front of a sequence has it, before anything is consumed. -/
def boundFirst (edge : Look) : List Expr → Bool
  | [] => false
  | item :: rest => item.bound edge false || (item.idle && boundFirst edge rest)

/-- Whether the end of a sequence has it, after all is consumed. -/
def boundLast (edge : Look) : List Expr → Bool
  | [] => false
  | item :: rest => boundLast edge rest || (allIdle rest && item.bound edge true)

/-- Whether all branches have it. -/
def boundAll (edge : Look) (atEnd : Bool) : List Expr → Bool
  | [] => true
  | item :: rest => item.bound edge atEnd && boundAll edge atEnd rest

end

mutual

/-- The number of expressions that the expression is made of. -/
def size : Expr → Nat
  | empty => 1
  | literal _ => 1
  | anyOf _ _ => 1
  | look _ => 1
  | seq items => sizeAll items + 1
  | choice items => sizeAll items + 1
  | turns _ _ _ body => body.size + 1
  | group _ body => body.size + 1

/-- The number for all of them. -/
def sizeAll : List Expr → Nat
  | [] => 0
  | item :: rest => item.size + sizeAll rest

end

-- ========================================================= normal form

/-- One character out of a table. -/
def ofTable (table : RangeTable) (ascii : Bool := false) : Expr :=
  match table with
  | [] => anyOf []
  | [(low, high)] => if low == high then literal [Char.ofNat low] else anyOf [(low, high)] ascii
  | table => anyOf table ascii

/-- Literals next to each other become one. -/
def joinLiterals : List Expr → List Expr
  | [] => []
  | item :: rest =>
      match item, joinLiterals rest with
      | literal front, literal back :: more => literal (front ++ back) :: more
      | item, more => item :: more

/-- Expressions one after the other. -/
def ofItems (items : List Expr) : Expr :=
  let flat := items.flatMap fun item => match item with
    | empty => []
    | seq items => items
    | item => [item]
  match joinLiterals flat with
  | [] => empty
  | [item] => item
  | items => seq items

/-- The table of a choice between certain characters, or between tables.
Other choices have none, nor have those that mix the two. -/
def tableOf? (branches : List Expr) : Option RangeTable :=
  let chars := branches.mapM fun branch => match branch with
    | literal [c] => some [(c.toNat, c.toNat)]
    | _ => none
  let tables := branches.mapM fun branch => match branch with
    | anyOf table _ => some table
    | _ => none
  (chars.or tables).map fun tables => tables.foldl RangeTable.union []

/-- The items that two sequences have in common at their front. -/
def commonFront : List Expr → List Expr → List Expr
  | a :: as, b :: bs => if a.same b then a :: commonFront as bs else []
  | _, _ => []

/-- What all branches begin with, if they are all sequences. -/
def commonItems (branches : List Expr) : List Expr :=
  let lists := branches.mapM fun branch => match branch with
    | seq items => some items
    | _ => none
  match lists with
  | some (first :: rest) => rest.foldl commonFront first
  | _ => []

/-- The branch without so many of its first items. -/
def dropItems (count : Nat) : Expr → Expr
  | seq items => ofItems (items.drop count)
  | item => item

/-- Expressions to choose from, the first ones preferred. What they have
in common at the front is taken out, and so again from what is left, as
often as `fuel` allows. -/
def ofBranchesWithin : (fuel : Nat) → List Expr → Expr
  | fuel, branches =>
    let flat := branches.flatMap fun branch => match branch with
      | choice items => items
      | branch => [branch]
    match flat with
    | [branch] => branch
    | flat =>
        match tableOf? flat, commonItems flat, fuel with
        | some table, _, _ => ofTable table
        | none, [], _ => choice flat
        | none, _, 0 => choice flat
        | none, common, fuel + 1 =>
            ofItems (common ++ [ofBranchesWithin fuel (flat.map (dropItems common.length))])

/-- Expressions to choose from. Taking something out makes what is left
smaller, so their size is fuel enough. -/
def ofBranches (branches : List Expr) : Expr :=
  ofBranchesWithin (sizeAll branches) branches

/-- An expression repeated. More than one turn of what never consumes a
character would be the same as one. -/
def ofTurns (greedy : Bool) (least : Nat) (most : Option Nat) (body : Expr) : Expr :=
  let (least, most) :=
    if body.idle then (min least 1, some (min (most.getD 1) 1)) else (least, most)
  if most == some 0 then empty
  else if least == 1 && most == some 1 then body
  else turns greedy least most body

-- =============================================================== steps

mutual

/-- The matching steps that an expression stands for. -/
def node : Expr → Node
  | empty => .empty
  | literal text => .seq (text.map fun c => .set [(c.toNat, c.toNat)])
  | anyOf table _ => .set table
  | look condition => .look condition
  | seq items => .seq (nodes items)
  | choice items => .choice (nodes items)
  | turns greedy least most body => .repeated greedy least most body.node
  | group index body => .group index body.node

/-- The steps of each. -/
def nodes : List Expr → List Node
  | [] => []
  | item :: rest => item.node :: nodes rest

end

end Expr

end ConditionTable.Pattern
