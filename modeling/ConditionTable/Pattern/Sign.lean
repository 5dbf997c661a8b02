/-
The signs of a pattern that a backslash announces, and the numbers that
may stand in them.
-/
import ConditionTable.Pattern.Class
import ConditionTable.Pattern.Look
import ConditionTable.Text.Digit

namespace ConditionTable.Pattern

-- ============================================================= numbers

/-- A character by its code point. -/
def charAt? (n : Nat) : Option Char :=
  if n.isValidChar then some (Char.ofNat n) else none

/-- Exactly `count` hexadecimal digits. -/
def hexFixed (verbose : Bool) : (count value : Nat) → Text → Option (Nat × Text)
  | 0, value, rest => some (value, rest)
  | count + 1, value, c :: rest => do
      hexFixed verbose count (value * 16 + (← hexDigit? c)) (skipSpace verbose rest)
  | _ + 1, _, [] => none

/-- Hexadecimal digits up to a closing brace. -/
def hexBraced (verbose : Bool) : (fuel : Nat) → (value : Option Nat) → Text → Option (Nat × Text)
  | 0, _, _ => none
  | fuel + 1, value, text =>
      match skipSpace verbose text with
      | [] => none
      | '\x7d' :: rest => value.map fun n => (n, skipSpace verbose rest)
      | c :: rest => do
          hexBraced verbose fuel (some (value.getD 0 * 16 + (← hexDigit? c))) rest

/-- A character spelled by its number, after the letter that announces
`count` digits. -/
def hexChar (verbose : Bool) (count : Nat) (text : Text) : Option (Char × Text) := do
  let (n, rest) ← match skipSpace verbose text with
    | '\x7b' :: rest => hexBraced verbose (rest.length + 1) none rest
    | rest => hexFixed verbose count 0 rest
  return (← charAt? n, rest)

/-- A character spelled by two digits, or by any number in braces. Without
Unicode two digits stand for a byte, and no text has a byte beyond ASCII
by itself. -/
def hexByte (flags : Flags) (text : Text) : Option (Char × Text) := do
  let braced := (skipSpace flags.verbose text).head? == some '\x7b'
  let (c, rest) ← hexChar flags.verbose 2 text
  if flags.unicode || braced || c.toNat < 0x80 then return (c, rest) else none

/-- The digits at the front, without blanks in between unless the pattern
is verbose. -/
def digits (verbose : Bool) : (fuel : Nat) → Text → Text × Text
  | 0, text => ([], text)
  | fuel + 1, text =>
      match text with
      | c :: rest =>
          if isDigit c then
            let (more, rest) := digits verbose fuel (skipSpace verbose rest)
            (c :: more, rest)
          else
            ([], text)
      | [] => ([], [])

/-- A decimal number and the blanks around it. -/
def decimal (verbose : Bool) (text : Text) : Option Nat × Text :=
  let text := text.dropWhile isBlank
  let (ds, rest) := digits verbose text.length text
  let rest := skipSpace verbose (rest.dropWhile isBlank)
  (if ds.isEmpty then none else some (decimalValue ds), rest)

-- ============================================================= escapes

/-- What one sign of a pattern can stand for. -/
inductive Sign
  | char (c : Char)
  | anyOf (table : RangeTable)
  | look (look : Look)

/-- A bound of a word named in braces after the sign for a word boundary.
Braces that hold something else are left for a repetition. -/
def namedBoundary (verbose : Bool) (text : Text) : Option (WordEdge × Text) :=
  let isNameChar := fun c : Char => c.isAlpha || c == '-'
  match text with
  | '\x7b' :: inner =>
      match skipSpace verbose inner with
      | [] => none
      | inner@(c :: _) =>
          if isNameChar c then
            nameEnd isNameChar inner.length [] inner
          else
            some (.boundary, text)
  | _ => some (.boundary, text)
where
  /-- Collects the name and looks it up. -/
  nameEnd (isNameChar : Char → Bool) : (fuel : Nat) → (name : Text) → Text →
      Option (WordEdge × Text)
    | 0, _, _ => none
    | _, _, [] => none
    | fuel + 1, name, c :: rest =>
        if isNameChar c then
          nameEnd isNameChar fuel (c :: name) (skipSpace verbose rest)
        else if c == '\x7d' then
          match String.ofList name.reverse with
          | "start" => some (.start, rest)
          | "end" => some (.stop, rest)
          | "start-half" => some (.startHalf, rest)
          | "end-half" => some (.stopHalf, rest)
          | _ => none
        else
          none

/-- A bound of a word under the flags. -/
def wordSign (flags : Flags) (edge : WordEdge) : Sign :=
  .look (.word edge !flags.unicode)

/-- A class of characters by a property. -/
def propertySign (properties : Properties) (flags : Flags) (negated : Bool) (text : Text) :
    Option (Sign × Text) := do
  let (property, rest) ← property? flags.verbose text
  let table ← propertyClass? properties flags negated property
  return (.anyOf table, rest)

/-- The sign that a backslash begins, given the text after it. -/
def escaped (properties : Properties) (flags : Flags) (text : Text) : Option (Sign × Text) :=
  match text with
  | [] => none
  | c :: rest =>
      let spelled := fun (found : Option (Char × Text)) =>
        found.map fun (c, rest) => (Sign.char c, rest)
      let letter := fun (negated : Bool) (letter : Char) =>
        (flags.signed? negated (letterClass flags letter)).map fun table => (Sign.anyOf table, rest)
      match c with
      | 'x' => spelled (hexByte flags rest)
      | 'u' => spelled (hexChar flags.verbose 4 rest)
      | 'U' => spelled (hexChar flags.verbose 8 rest)
      | 'd' => letter false 'd'
      | 'D' => letter true 'd'
      | 's' => letter false 's'
      | 'S' => letter true 's'
      | 'w' => letter false 'w'
      | 'W' => letter true 'w'
      | 'p' => propertySign properties flags false rest
      | 'P' => propertySign properties flags true rest
      | 'a' => some (.char '\x07', rest)
      | 'f' => some (.char '\x0c', rest)
      | 't' => some (.char '\t', rest)
      | 'n' => some (.char '\n', rest)
      | 'r' => some (.char '\r', rest)
      | 'v' => some (.char '\x0b', rest)
      | 'A' => some (.look .textStart, rest)
      | 'z' => some (.look .textEnd, rest)
      | 'b' => (namedBoundary flags.verbose rest).map fun (edge, rest) => (wordSign flags edge, rest)
      | 'B' => some (wordSign flags .notBoundary, rest)
      | '<' => some (wordSign flags .start, rest)
      | '>' => some (wordSign flags .stop, rest)
      | c => if c.toNat < 128 && !c.isAlphanum then some (.char c, rest) else none

end ConditionTable.Pattern
