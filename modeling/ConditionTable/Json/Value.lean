/-
JSON values and their compact text. A string is a list of code points, so
that a surrogate may stand alone in it; such a string is no `Text`. A
number keeps what its spelling tells: its sign, whether it was spelled
with a fraction or an exponent, and its digits.
-/
import ConditionTable.Text.Basic

namespace ConditionTable.Json

/-- A number as it was spelled: `digits` times ten to the power of
`exponent`. Without fraction and exponent it is integral. -/
structure Number where
  negative : Bool := false
  integral : Bool := true
  digits : Nat
  exponent : Int := 0
deriving DecidableEq, Repr

/-- What a JSON text stands for. The members of an object keep their
order, and a key may come more than once. -/
inductive Value
  | null
  | bool (value : Bool)
  | number (value : Number)
  | nonFinite
  | string (points : List Nat)
  | array (items : List Value)
  | object (members : List (List Nat × Value))

/-- The text of a string, if no surrogate stands alone in it. -/
def textOfPoints? (points : List Nat) : Option Text :=
  points.mapM fun n => if n.isValidChar then some (Char.ofNat n) else none

/-- The code points of a text. -/
def pointsOfText (text : Text) : List Nat :=
  text.map Char.toNat

namespace Value

/-- A text as a value. -/
def text (text : Text) : Value := string (pointsOfText text)

/-- A natural number as a value. -/
def nat (n : Nat) : Value := number { digits := n }

/-- An object of named members. -/
def record (members : List (String × Value)) : Value :=
  object (members.map fun (name, value) => (pointsOfText name.toList, value))

/-- The member of an object with the given name. -/
def member? (value : Value) (name : String) : Option Value :=
  match value with
  | object members => members.lookup (pointsOfText name.toList)
  | _ => none

/-- The text of a string value. -/
def text? : Value → Option Text
  | string points => textOfPoints? points
  | _ => none

/-- The value of an integral number without sign. -/
def nat? : Value → Option Nat
  | number { negative := false, integral := true, digits, .. } => some digits
  | _ => none

end Value

-- ============================================================= writing

/-- A code point by its number, in four hexadecimal digits. -/
def numbered (n : Nat) : Text :=
  let digits := Nat.toDigits 16 n
  '\\' :: 'u' :: List.replicate (4 - digits.length) '0' ++ digits

/-- One code point of a string in writing. -/
def renderPoint (n : Nat) : Text :=
  match n with
  | 0x22 => ['\\', '"']
  | 0x5C => ['\\', '\\']
  | 0x08 => ['\\', 'b']
  | 0x09 => ['\\', 't']
  | 0x0A => ['\\', 'n']
  | 0x0C => ['\\', 'f']
  | 0x0D => ['\\', 'r']
  | n => if n < 0x20 || !n.isValidChar then numbered n else [Char.ofNat n]

/-- A string in writing. -/
def renderString (points : List Nat) : Text :=
  '"' :: points.flatMap renderPoint ++ ['"']

/-- A number in writing. One that is not integral is written with its
exponent. -/
def renderNumber (number : Number) : Text :=
  (if number.negative then ['-'] else []) ++ Nat.toDigits 10 number.digits
    ++ (if number.integral then [] else 'e' :: (toString number.exponent).toList)

namespace Value

mutual

/-- A value in writing, without blanks. -/
def render : Value → Text
  | null => ['n', 'u', 'l', 'l']
  | bool true => ['t', 'r', 'u', 'e']
  | bool false => ['f', 'a', 'l', 's', 'e']
  | number value => renderNumber value
  | nonFinite => ['N', 'a', 'N']
  | string points => renderString points
  | array items => '[' :: renderItems items ++ [']']
  | object members => '\x7b' :: renderMembers members ++ ['\x7d']

/-- Items with commas between them. -/
def renderItems : List Value → Text
  | [] => []
  | [item] => item.render
  | item :: items => item.render ++ ',' :: renderItems items

/-- Members with commas between them. -/
def renderMembers : List (List Nat × Value) → Text
  | [] => []
  | [(key, value)] => renderString key ++ ':' :: value.render
  | (key, value) :: members =>
      renderString key ++ ':' :: value.render ++ ',' :: renderMembers members

end

end Value

end ConditionTable.Json
