/-
Classes in brackets. Signs and ranges side by side form a union; two
unions may be joined by an operator, from left to right; brackets nest.
Case is folded where a bracket closes, where a class is named, and on both
sides of an operator.
-/
import ConditionTable.Pattern.Sign

namespace ConditionTable.Pattern

/-- The characters read so far, and how deep their brackets nest. -/
structure Bracketed where
  table : RangeTable
  depth : Nat

/-- The union of what stands side by side, the last one first. -/
def Bracketed.ofItems : List Bracketed → Bracketed
  | [] => ⟨[], 0⟩
  | [item] => item
  | items =>
      ⟨items.foldl (fun table item => item.table.union table) [],
        1 + items.foldl (fun depth item => max depth item.depth) 0⟩

/-- What two sets in brackets can be joined by. -/
inductive SetOp
  | inter
  | diff
  | symmDiff

/-- Where brackets are open: around a union, or at the right of an
operator. -/
inductive BracketFrame
  | opened (items : List Bracketed) (negated : Bool)
  | operand (op : SetOp) (left : Bracketed)

/-- Joins the set just read with the one waiting at its left. -/
def popOperand (flags : Flags) (right : Bracketed) :
    List BracketFrame → Bracketed × List BracketFrame
  | .operand op left :: frames =>
      let join := match op with
        | .inter => RangeTable.inter
        | .diff => RangeTable.diff
        | .symmDiff => RangeTable.symmDiff
      let side := fun side : Bracketed => flags.fold side.table
      (⟨join (side left) (side right), 1 + max left.depth right.depth⟩, frames)
  | frames => (right, frames)

/-- What comes first inside an opening bracket: a complement sign, dashes
that stand for themselves, and a closing bracket that does if it is the
very first. -/
def openBracket (verbose : Bool) (text : Text) : Option (Bool × List Bracketed × Text) := do
  let text := skipSpace verbose text
  let (negated, text) ← match text with
    | [] => none
    | '^' :: rest => some (true, skipSpace verbose rest)
    | _ => some (false, text)
  let (items, text) := dashes text.length [] text
  match items, text with
  | _, [] => none
  | [], ']' :: rest =>
      match skipSpace verbose rest with
      | [] => none
      | rest => some (negated, [⟨.ofPoints [']'.toNat], 0⟩], rest)
  | items, text => some (negated, items, text)
where
  /-- The dashes at the front. -/
  dashes : (fuel : Nat) → List Bracketed → Text → List Bracketed × Text
    | fuel + 1, items, '-' :: rest =>
        dashes fuel (⟨.ofPoints ['-'.toNat], 0⟩ :: items) (skipSpace verbose rest)
    | _, items, text => (items, text)

/-- A class named inside brackets, as in `[:alpha:]`, after its opening
bracket, and whether its complement is meant. -/
def namedClass (text : Text) : Option ((RangeTable × Bool) × Text) := do
  let text ← after? ":" text
  let (negated, text) := match text with
    | '^' :: rest => (true, rest)
    | _ => (false, text)
  let name := text.takeWhile (· != ':')
  let rest ← after? ":]" (text.dropWhile (· != ':'))
  let table ← asciiClass? (String.ofList name)
  return ((table, negated), rest)

section

variable (properties : Properties)

/-- One sign inside brackets. -/
def bracketSign (flags : Flags) : Text → Option (Sign × Text)
  | [] => none
  | '\\' :: rest => escaped properties flags rest
  | c :: rest => some (.char c, rest)

/-- One sign or one range inside brackets. -/
def bracketItem (flags : Flags) (text : Text) : Option (RangeTable × Text) := do
  let (low, rest) ← bracketSign properties flags text
  let single := match low with
    | .char c => flags.admit? [(c.toNat, c.toNat)]
    | .anyOf table => some table
    | .look _ => none
  match skipSpace flags.verbose rest with
  | [] => none
  | rest@('-' :: more) =>
      let next := peekPast flags.verbose more
      if next == some ']' || next == some '-' then
        return (← single, rest)
      else
        match skipSpace flags.verbose more with
        | [] => none
        | more => do
            let (high, rest) ← bracketSign properties flags more
            match low, high with
            | .char low, .char high =>
                if low ≤ high then return (← flags.admit? [(low.toNat, high.toNat)], rest)
                else none
            | _, _ => none
  | rest => return (← single, rest)

/-- Reads on inside brackets until the outermost one is closed. -/
def brackets (flags : Flags) : (fuel : Nat) → List BracketFrame → List Bracketed → Text →
    Option (Bracketed × Text)
  | 0, _, _, _ => none
  | fuel + 1, frames, items, text =>
      let operator := fun op rest =>
        let (left, frames) := popOperand flags (.ofItems items) frames
        brackets flags fuel (.operand op left :: frames) [] rest
      match skipSpace flags.verbose text with
      | [] => none
      | '[' :: rest =>
          match namedClass rest with
          | some ((table, negated), rest) => do
              let table ← closed? flags negated table
              brackets flags fuel frames (⟨table, 0⟩ :: items) rest
          | none => do
              let (negated, inner, rest) ← openBracket flags.verbose rest
              brackets flags fuel (.opened items negated :: frames) inner rest
      | ']' :: rest =>
          let (whole, frames) := popOperand flags (.ofItems items) frames
          match frames with
          | .opened outer negated :: frames => do
              let table ← closed? flags negated whole.table
              let whole : Bracketed := ⟨table, 1 + whole.depth⟩
              match frames with
              | [] => some (whole, rest)
              | frames => brackets flags fuel frames (whole :: outer) rest
          | _ => none
      | '&' :: '&' :: rest => operator .inter rest
      | '-' :: '-' :: rest => operator .diff rest
      | '~' :: '~' :: rest => operator .symmDiff rest
      | text => do
          let (table, rest) ← bracketItem properties flags text
          brackets flags fuel frames (⟨table, 0⟩ :: items) rest

/-- A whole class in brackets, after its opening bracket. -/
def bracketed (flags : Flags) (text : Text) : Option (Bracketed × Text) := do
  let (negated, items, rest) ← openBracket flags.verbose text
  brackets properties flags (rest.length + 1) [.opened [] negated] items rest

end

end ConditionTable.Pattern
