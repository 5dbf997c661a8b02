/-
Reading an expression from its text. A level is freed from blanks and
parentheses around it and divided into groups and the text between them.
The text between is masked and cut in front of every connective; each
piece then gives up the connective it begins with and becomes a condition
if anything is left of it. Each group is a level of its own.

Every text has an expression. Within limits, a group that lies too deep
and an exclusive-or level with too many entries are faults instead; the
faults of a group come before those of what follows it and of the level
around it.
-/
import ConditionTable.Source.Division
import ConditionTable.Source.Mask
import ConditionTable.Tree.Basic

namespace ConditionTable

-- ============================================================== chunks

/-- One piece of a chunk: the connective it begins with, and the condition
that is left. -/
structure Piece where
  connective : Option Connective
  condition : Option Condition
deriving DecidableEq

/-- Reads one piece of a masked chunk. -/
def Piece.ofText (vocabulary : Vocabulary) (masked : Masked) (text : Text) : Piece :=
  match vocabulary.leading? text with
  | some (connective, rest) => ⟨some connective, Condition.of? (masked.restore rest)⟩
  | none => ⟨none, Condition.of? (masked.restore text)⟩

/-- The pieces of the text between two groups. -/
def piecesOf (vocabulary : Vocabulary) (chunk : Text) : List Piece :=
  let masked := mask vocabulary chunk
  (vocabulary.connective.cutBefore masked.text).map (Piece.ofText vocabulary masked)

/-- The connectives and conditions of the text between two groups. -/
def Expression.ofChunk (vocabulary : Vocabulary) (chunk : Text) : Expression :=
  let pieces := piecesOf vocabulary chunk
  ⟨pieces.filterMap Piece.connective, pieces.filterMap fun piece => piece.condition.map .leaf⟩

-- ============================================================== levels

namespace Expression

/-- Two stretches of one level, one after the other. -/
def append (left right : Expression) : Expression :=
  ⟨left.connectives ++ right.connectives, left.entries ++ right.entries⟩

instance : Append Expression := ⟨append⟩

/-- A level from its gaps, each with the group after it, and its tail. -/
def ofLevel (vocabulary : Vocabulary) (pieces : List (Text × Expression)) (tail : Text) :
    Expression :=
  pieces.foldr
    (fun (gap, group) level => ofChunk vocabulary gap ++ (⟨[], [group.toEntry]⟩ ++ level))
    (if tail.isEmpty then empty else ofChunk vocabulary tail)

/-- Whether an exclusive-or level has more entries than allowed. -/
def tooWide (level : Expression) (limit : Nat) : Bool :=
  level.connective? == some .xor && level.entries.length > limit

end Expression

-- =============================================================== limits

/-- Refuses groups inside `depth` others, if the limits do. -/
def checkDepth (limits : Option Limits) (depth : Nat) : Except Fault Unit :=
  match limits with
  | none => .ok ()
  | some limits =>
      let limit := limits.nesting.toNat
      if depth > limit then .error (.nestingTooDeep depth limit) else .ok ()

/-- Refuses an exclusive-or level that is too wide, if the limits do. -/
def checkWidth (limits : Option Limits) (level : Expression) : Except Fault Unit :=
  match limits with
  | none => .ok ()
  | some limits =>
      let limit := limits.xorOperands.toNat
      if level.tooWide limit then .error (.tooManyXorOperands level.entries.length limit)
      else .ok ()

namespace Expression

/-- Reads a level that lies inside `depth` groups. A group is shorter than
the level it stands in, so a level never lies inside more groups than the
whole text has characters. -/
def readLevel (vocabulary : Vocabulary) (limits : Option Limits) :
    (fuel depth : Nat) → Text → Except Fault Expression
  | 0, _, _ => .ok empty
  | fuel + 1, depth, text => do
      let division := divide vocabulary (stripParens text)
      let pieces ← division.pieces.mapM fun (gap, group) => do
        checkDepth limits (depth + 1)
        return (gap, ← readLevel vocabulary limits fuel (depth + 1) group)
      let level := ofLevel vocabulary pieces division.tail
      checkWidth limits level
      return level

/-- The expression of a text within limits. -/
def ofTextWithin (vocabulary : Vocabulary) (limits : Limits) (text : Text) :
    Except Fault Expression :=
  readLevel vocabulary (some limits) (text.length + 1) 0 text

/-- The expression of a text. -/
def ofText (vocabulary : Vocabulary) (text : Text) : Expression :=
  match readLevel vocabulary none (text.length + 1) 0 text with
  | .ok expression => expression
  | .error _ => empty

end Expression

end ConditionTable
