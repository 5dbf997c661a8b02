/-
Classes of characters that a pattern asks for: by a letter, by a name
inside brackets, or by a property.

Which properties there are and which characters have them is a matter of
the Unicode tables, which are no part of this library: a pattern is read
with whatever `Properties` are given.

Under flags without Unicode a class holds nothing beyond ASCII, and what
would hold more is refused.
-/
import ConditionTable.Pattern.Flags
import ConditionTable.Text.Fold
import ConditionTable.Text.Word

namespace ConditionTable

namespace RangeTable

/-- The digits of ASCII. -/
def asciiDigits : RangeTable := [(0x30, 0x39)]

/-- The blanks of ASCII. -/
def asciiBlanks : RangeTable := [(0x09, 0x0D), (0x20, 0x20)]

/-- The characters of ASCII that words are made of. -/
def asciiWords : RangeTable := [(0x30, 0x39), (0x41, 0x5A), (0x5F, 0x5F), (0x61, 0x7A)]

end RangeTable

namespace Pattern

-- =============================================================== tables

/-- The table with all that is equal to something in it up to case, if
case is ignored. -/
def Flags.fold (flags : Flags) (table : RangeTable) : RangeTable :=
  match flags.ignoreCase, flags.unicode with
  | false, _ => table
  | true, true => table.folded
  | true, false => table.folded FoldRun.ascii

/-- All code points that one stands for. -/
def Flags.orbit (flags : Flags) (n : Nat) : List Nat :=
  match flags.ignoreCase, flags.unicode with
  | false, _ => [n]
  | true, true => ConditionTable.orbit n
  | true, false => ConditionTable.orbit n FoldRun.ascii

/-- The table, unless it holds more than the flags allow. -/
def Flags.admit? (flags : Flags) (table : RangeTable) : Option RangeTable :=
  if flags.unicode || table.isAscii then some table else none

/-- The complement of the table, or the table itself. -/
def Flags.signed? (flags : Flags) (negated : Bool) (table : RangeTable) : Option RangeTable :=
  flags.admit? (if negated then table.compl else table)

/-- A table as it is closed: first folded, then complemented. So the
complement of one case leaves out the other too. -/
def closed? (flags : Flags) (negated : Bool) (table : RangeTable) : Option RangeTable :=
  flags.signed? negated (flags.fold table)

-- ============================================================== letters

/-- The class that a small letter asks for: digits, blanks, or what words
are made of. Each is closed under case. -/
def letterClass (flags : Flags) (letter : Char) : RangeTable :=
  match letter, flags.unicode with
  | 'd', true => .decimalDigits
  | 'd', false => .asciiDigits
  | 's', true => .blanks
  | 's', false => .asciiBlanks
  | _, true => .words
  | _, false => .asciiWords

/-- The ASCII classes that may be named inside brackets. -/
def asciiClass? (name : String) : Option RangeTable :=
  match name with
  | "alnum" => some [(0x30, 0x39), (0x41, 0x5A), (0x61, 0x7A)]
  | "alpha" => some [(0x41, 0x5A), (0x61, 0x7A)]
  | "ascii" => some [(0x00, 0x7F)]
  | "blank" => some [(0x09, 0x09), (0x20, 0x20)]
  | "cntrl" => some [(0x00, 0x1F), (0x7F, 0x7F)]
  | "digit" => some .asciiDigits
  | "graph" => some [(0x21, 0x7E)]
  | "lower" => some [(0x61, 0x7A)]
  | "print" => some [(0x20, 0x7E)]
  | "punct" => some [(0x21, 0x2F), (0x3A, 0x40), (0x5B, 0x60), (0x7B, 0x7E)]
  | "space" => some .asciiBlanks
  | "upper" => some [(0x41, 0x5A)]
  | "word" => some .asciiWords
  | "xdigit" => some [(0x30, 0x39), (0x41, 0x46), (0x61, 0x66)]
  | _ => none

-- =========================================================== properties

/-- A property as a pattern asks for it: by its name, or by its name and
a value that it is to have, or is to differ from. -/
inductive Property
  | named (name : Text)
  | valued (name value : Text) (differs : Bool)
deriving DecidableEq, Repr

/-- The ranges of characters that have a property, if there is one of that
name. -/
abbrev Properties := Property → Option (List (Char × Char))

/-- No property is known. -/
def Properties.unknown : Properties := fun _ => none

/-- The texts before and after the first place where the sign stands. -/
def splitAt? (sign : String) : Text → Option (Text × Text)
  | [] => none
  | c :: rest =>
      match after? sign (c :: rest) with
      | some behind => some ([], behind)
      | none => (splitAt? sign rest).map fun (front, behind) => (c :: front, behind)

/-- The property that a text in braces asks for. -/
def Property.ofText (text : Text) : Property :=
  match splitAt? "!=" text with
  | some (name, value) => valued name value true
  | none =>
      match (splitAt? ":" text).or (splitAt? "=" text) with
      | some (name, value) => valued name value false
      | none => named text

/-- The text up to a closing brace, and what follows the brace. -/
def untilBrace (verbose : Bool) : (fuel : Nat) → Text → Option (Text × Text)
  | 0, _ => none
  | fuel + 1, text =>
      match skipSpace verbose text with
      | [] => none
      | '\x7d' :: rest => some ([], rest)
      | c :: rest => (untilBrace verbose fuel rest).map fun (front, rest) => (c :: front, rest)

/-- A property, after the letter that announces it: one sign, or a text in
braces. -/
def property? (verbose : Bool) (text : Text) : Option (Property × Text) :=
  match skipSpace verbose text with
  | [] => none
  | '\x7b' :: rest =>
      (untilBrace verbose (rest.length + 1) rest).map fun (name, rest) =>
        (Property.ofText name, rest)
  | c :: rest => if c == '\\' then none else some (.named [c], rest)

/-- The class that a property stands for. -/
def propertyClass? (properties : Properties) (flags : Flags) (negated : Bool)
    (property : Property) : Option RangeTable :=
  if flags.unicode then
    (properties property).bind fun ranges => closed? flags negated (.ofRanges ranges)
  else
    none

end Pattern

end ConditionTable
