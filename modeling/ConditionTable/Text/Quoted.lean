/-
A text in double quotes, for display: quotes and backslashes carry a
backslash, the common controls have a letter, and a character that does
not print on its own is spelled by its number.
-/
import ConditionTable.Text.Basic
import ConditionTable.Text.UnprintedTable

namespace ConditionTable.Text

/-- One character inside the quotes. -/
def quotedChar (c : Char) : Text :=
  match c with
  | '"' => ['\\', '"']
  | '\\' => ['\\', '\\']
  | '\n' => ['\\', 'n']
  | '\r' => ['\\', 'r']
  | '\t' => ['\\', 't']
  | '\x00' => ['\\', '0']
  | c =>
      if RangeTable.unprinted.holds c.toNat then
        ['\\', 'u', '\x7b'] ++ Nat.toDigits 16 c.toNat ++ ['\x7d']
      else
        [c]

/-- The whole text, in quotes. -/
def quoted (text : Text) : Text :=
  '"' :: text.flatMap quotedChar ++ ['"']

end ConditionTable.Text
