/-
Settings: the tokens that a text is read with, and the limits of strict
analysis. Tokens are patterns. The standard settings know `&&`, `||` and
`^` and the words for them between blanks, and drop `if`, `else`, braces
and semicolons around an expression.
-/
import ConditionTable.Count
import ConditionTable.Fault

namespace ConditionTable

/-- What strict analysis allows. -/
structure Limits where
  /-- Bytes of the text as given. -/
  input : UInt64 := 10000
  /-- Groups around a condition. -/
  nesting : UInt64 := 32
  /-- Entries of an exclusive-or level. -/
  xorOperands : UInt64 := 12
  /-- Expressions kept for reuse. -/
  kept : UInt64 := 2048
  /-- Rows of both outcomes. -/
  rows : UInt64 := 65536
deriving DecidableEq, Repr

/-- Limits that allow all that can be counted. -/
def Limits.unbounded : Limits :=
  let most := UInt64.ofNat maxCount
  { input := most, nesting := most, xorOperands := most, kept := most, rows := most }

/-- The texts of several tokens. -/
def tokens (list : List String) : List Text :=
  list.map String.toList

/-- The tokens that a text is read with, and the limits. -/
structure Settings where
  lineBreak : List Text := tokens ["\\r\\n", "\\r", "\\n"]
  and : List Text := tokens ["&&", "\\sAND\\s"]
  or : List Text := tokens ["\\|\\|", "\\sOR\\s"]
  xor : List Text := tokens ["\\^", "\\sXOR\\s"]
  ignoreLeading : List Text := tokens ["\\s", "if\\b", "else\\b", "elseif\\b", "\\\x7d"]
  ignoreTrailing : List Text := tokens ["\\s", "\\\x7b", ";"]
  limits : Limits := {}
deriving DecidableEq, Repr

namespace Settings

/-- The standard settings. -/
def standard : Settings := {}

/-- The tokens of each connective under the name of their list. -/
def connectiveTokens (settings : Settings) : List (String × List Text) :=
  [("and", settings.and), ("or", settings.or), ("xor", settings.xor)]

/-- Finds the first list of connective tokens that is empty or holds an
empty token. -/
def validate (settings : Settings) : Except Fault Unit :=
  match settings.connectiveTokens.find? fun (_, list) => list.isEmpty || list.any List.isEmpty with
  | some (name, _) => .error (.emptyToken name.toList)
  | none => .ok ()

end Settings

end ConditionTable
