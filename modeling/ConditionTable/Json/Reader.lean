/-
Reading JSON. The strict dialect is the standard one. The lenient dialect
also takes `NaN`, `Infinity` and `-Infinity` for numbers, but it refuses
whole numbers with more digits than it is ready to convert.

A string may spell a character above U+FFFF by two surrogates; a
surrogate without its partner stays in the string as it is.
-/
import ConditionTable.Json.Value
import ConditionTable.Text.Digit

namespace ConditionTable.Json

/-- What may be read as JSON. -/
inductive Dialect
  | strict
  | lenient
deriving DecidableEq

/-- The text after the blanks that JSON knows. -/
def skipBlanks (text : Text) : Text :=
  text.dropWhile fun c => c == ' ' || c == '\t' || c == '\n' || c == '\r'

/-- The text after a given word. -/
def afterWord? (word : String) (text : Text) : Option Text :=
  if word.toList.isPrefixOf text then some (text.drop word.length) else none

-- ============================================================= strings

/-- The value of four hexadecimal digits. -/
def hexDigits4? (a b c d : Char) : Option Nat := do
  return (((← hexDigit? a) * 16 + (← hexDigit? b)) * 16 + (← hexDigit? c)) * 16 + (← hexDigit? d)

/-- What a backslash and one letter stand for. -/
def escape? (c : Char) : Option Nat :=
  match c with
  | '"' => some 0x22
  | '\\' => some 0x5C
  | '/' => some 0x2F
  | 'b' => some 0x08
  | 'f' => some 0x0C
  | 'n' => some 0x0A
  | 'r' => some 0x0D
  | 't' => some 0x09
  | _ => none

/-- Joins a high surrogate with a low one that follows it. -/
def joinSurrogates : List Nat → List Nat
  | high :: low :: rest =>
      if 0xD800 ≤ high && high ≤ 0xDBFF && 0xDC00 ≤ low && low ≤ 0xDFFF then
        (0x10000 + (high - 0xD800) * 0x400 + (low - 0xDC00)) :: joinSurrogates rest
      else
        high :: joinSurrogates (low :: rest)
  | points => points

/-- The rest of a string after its opening quote; `done` holds what came
before, the last code point first. -/
def readString (done : List Nat) : Text → Option (List Nat × Text)
  | [] => none
  | '"' :: rest => some (joinSurrogates done.reverse, rest)
  | '\\' :: 'u' :: a :: b :: c :: d :: rest =>
      match hexDigits4? a b c d with
      | none => none
      | some n => readString (n :: done) rest
  | '\\' :: c :: rest =>
      match escape? c with
      | none => none
      | some n => readString (n :: done) rest
  | c :: rest => if c.toNat < 0x20 then none else readString (c.toNat :: done) rest

-- ============================================================= numbers

/-- The digits at the front and the text after them. -/
def spanDigits (text : Text) : Text × Text :=
  (text.takeWhile isDigit, text.dropWhile isDigit)

/-- A fraction, if there is a point. -/
def readFraction : Text → Option (Option Text × Text)
  | '.' :: rest =>
      match spanDigits rest with
      | ([], _) => none
      | (digits, rest) => some (some digits, rest)
  | text => some (none, text)

/-- An exponent, if there is its letter. -/
def readExponent (text : Text) : Option (Option Int × Text) :=
  match text with
  | c :: rest =>
      if c == 'e' || c == 'E' then
        let (negative, rest) := match rest with
          | '-' :: rest => (true, rest)
          | '+' :: rest => (false, rest)
          | rest => (false, rest)
        match spanDigits rest with
        | ([], _) => none
        | (digits, rest) =>
            let n : Int := decimalValue digits
            some (some (if negative then -n else n), rest)
      else
        some (none, text)
  | [] => some (none, text)

/-- A number. Its first digit is zero only if it is the only one before
the point. -/
def readNumber (text : Text) : Option (Number × Text) := do
  let (negative, text) := match text with
    | '-' :: rest => (true, rest)
    | text => (false, text)
  let (whole, rest) ← match text with
    | '0' :: rest => some (['0'], rest)
    | text =>
        match spanDigits text with
        | ([], _) => none
        | digits => some digits
  let (fraction, rest) ← readFraction rest
  let (exponent, rest) ← readExponent rest
  let decimals := fraction.getD []
  return ({ negative
            integral := fraction.isNone && exponent.isNone
            digits := decimalValue (whole ++ decimals)
            exponent := exponent.getD 0 - decimals.length }, rest)

-- ============================================================== values

/-- The greatest number of digits of a whole number in the lenient
dialect. -/
def maxDigits : Nat := 4300

/-- The words that stand for a value. -/
def valueWords (dialect : Dialect) : List (String × Value) :=
  [("null", .null), ("true", .bool true), ("false", .bool false)]
    ++ if dialect == .lenient then
      [("NaN", .nonFinite), ("Infinity", .nonFinite), ("-Infinity", .nonFinite)]
    else
      []

/-- A value that is spelled by a word. -/
def readWord (dialect : Dialect) (text : Text) : Option (Value × Text) :=
  (valueWords dialect).findSome? fun (word, value) =>
    (afterWord? word text).map fun rest => (value, rest)

mutual

/-- A value and the text after it. -/
def readValue (dialect : Dialect) : (fuel : Nat) → Text → Option (Value × Text)
  | 0, _ => none
  | fuel + 1, text =>
      match skipBlanks text with
      | '"' :: rest => (readString [] rest).map fun (points, rest) => (.string points, rest)
      | '[' :: rest =>
          match skipBlanks rest with
          | ']' :: rest => some (.array [], rest)
          | rest => (readItems dialect fuel rest).map fun (items, rest) => (.array items, rest)
      | '\x7b' :: rest =>
          match skipBlanks rest with
          | '\x7d' :: rest => some (.object [], rest)
          | rest =>
              (readMembers dialect fuel rest).map fun (members, rest) => (.object members, rest)
      | text =>
          match readWord dialect text with
          | some found => some found
          | none => do
              let (number, rest) ← readNumber text
              if dialect == .lenient && number.integral && number.digits ≥ Nat.pow 10 maxDigits then none
              else return (.number number, rest)

/-- At least one item, up to the closing bracket. -/
def readItems (dialect : Dialect) : (fuel : Nat) → Text → Option (List Value × Text)
  | 0, _ => none
  | fuel + 1, text => do
      let (item, rest) ← readValue dialect fuel text
      match skipBlanks rest with
      | ',' :: rest =>
          let (items, rest) ← readItems dialect fuel rest
          return (item :: items, rest)
      | ']' :: rest => return ([item], rest)
      | _ => none

/-- At least one member, up to the closing brace. -/
def readMembers (dialect : Dialect) : (fuel : Nat) → Text →
    Option (List (List Nat × Value) × Text)
  | 0, _ => none
  | fuel + 1, text =>
      match skipBlanks text with
      | '"' :: rest => do
          let (key, rest) ← readString [] rest
          let rest ← afterWord? ":" (skipBlanks rest)
          let (value, rest) ← readValue dialect fuel rest
          match skipBlanks rest with
          | ',' :: rest =>
              let (members, rest) ← readMembers dialect fuel rest
              return ((key, value) :: members, rest)
          | '\x7d' :: rest => return ([(key, value)], rest)
          | _ => none
      | _ => none

end

/-- The value of a whole text. Each call takes at least one character or
is the only one at its place that does not, so twice the length of the
text is fuel enough. -/
def Value.ofText? (dialect : Dialect) (text : Text) : Option Value := do
  let (value, rest) ← readValue dialect (2 * text.length + 2) text
  if (skipBlanks rest).isEmpty then return value else none

end ConditionTable.Json
