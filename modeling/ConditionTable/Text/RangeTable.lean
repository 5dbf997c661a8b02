/-
Sets of characters given as sorted ranges of code points, and the
operations of sets on them. A result is sorted too, and ranges that touch
have become one.
-/

namespace ConditionTable

/-- Ranges of code points, both ends included, in increasing order. -/
abbrev RangeTable := List (Nat × Nat)

/-- The greatest code point. -/
def lastCodePoint : Nat := 0x10FFFF

namespace RangeTable

/-- Whether a code point lies in one of the ranges. The search stops at
the first range that begins above it. -/
def holds : RangeTable → Nat → Bool
  | [], _ => false
  | (first, last) :: rest, n => !(n < first) && (n ≤ last || holds rest n)

/-- The table with one more range, which takes in all that it touches. -/
def insert (first last : Nat) : RangeTable → RangeTable
  | [] => [(first, last)]
  | (low, high) :: rest =>
      if last + 1 < low then (first, last) :: (low, high) :: rest
      else if high + 1 < first then (low, high) :: insert first last rest
      else insert (min first low) (max last high) rest

/-- The given code points. -/
def ofPoints (points : List Nat) : RangeTable :=
  points.foldr (fun n table => insert n n table) []

/-- The given ranges, in whatever order. -/
def ofRanges (ranges : List (Char × Char)) : RangeTable :=
  ranges.foldr (fun (a, b) table => insert (min a.toNat b.toNat) (max a.toNat b.toNat) table) []

/-- Whether nothing in the table lies beyond ASCII. -/
def isAscii (table : RangeTable) : Bool :=
  table.all fun (_, last) => last < 0x80

/-- What is in either table. -/
def union (left right : RangeTable) : RangeTable :=
  left.foldr (fun (first, last) table => insert first last table) right

/-- The code points from `start` on that a table leaves out. -/
def complFrom (start : Nat) : RangeTable → RangeTable
  | [] => if start ≤ lastCodePoint then [(start, lastCodePoint)] else []
  | (first, last) :: rest =>
      if start < first then (start, first - 1) :: complFrom (last + 1) rest
      else complFrom (last + 1) rest

/-- All characters that are not in the table. Surrogates are none. -/
def compl (table : RangeTable) : RangeTable :=
  complFrom 0 (insert 0xD800 0xDFFF table)

/-- What is in both tables. -/
def inter (left right : RangeTable) : RangeTable :=
  compl (union (compl left) (compl right))

/-- What is in the first table only. -/
def diff (left right : RangeTable) : RangeTable :=
  inter left (compl right)

/-- What is in one of the tables but not in both. -/
def symmDiff (left right : RangeTable) : RangeTable :=
  union (diff left right) (diff right left)

/-- Every character. -/
def full : RangeTable :=
  compl []

end RangeTable

end ConditionTable
