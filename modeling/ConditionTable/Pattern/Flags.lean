/-
The flags under which a pattern is read, and the blanks and comments that
verbose patterns may hold between their signs.
-/
import ConditionTable.Text.Basic
import ConditionTable.Text.Blank

namespace ConditionTable.Pattern

/-- The ways of reading that a pattern can switch on and off. Classes,
words and case are those of Unicode, or else those of ASCII. -/
structure Flags where
  ignoreCase : Bool := false
  multiLine : Bool := false
  dotAll : Bool := false
  swapGreed : Bool := false
  verbose : Bool := false
  returns : Bool := false
  unicode : Bool := true
deriving DecidableEq

-- ==================================================== blanks and signs

/-- In verbose patterns, what follows the blanks and comments. -/
def skipComments : (inComment : Bool) → Text → Text
  | _, [] => []
  | true, c :: rest => skipComments (c != '\n') rest
  | false, c :: rest =>
      if isBlank c then skipComments false rest
      else if c == '#' then skipComments true rest
      else c :: rest

/-- The text from its first sign on that counts. -/
def skipSpace (verbose : Bool) (text : Text) : Text :=
  if verbose then skipComments false text else text

/-- The first character after the next one that would count, where a
comment hides no more than its first sign. -/
def peekPast (verbose : Bool) (text : Text) : Option Char :=
  if verbose then
    match text.dropWhile isBlank with
    | '#' :: rest => (rest.dropWhile isBlank).head?
    | rest => rest.head?
  else
    text.head?

/-- What follows the given start, if the text has it. -/
def after? (start : String) (text : Text) : Option Text :=
  if start.toList.isPrefixOf text then some (text.drop start.length) else none

end ConditionTable.Pattern
