/-
What counts as a letter, a digit and a word character. Word characters
are the letters, the decimal digits, marks, connecting punctuation and
the joiners; a word boundary lies between one that is and one that is
not. Words and decimal digits are those of Unicode 16.0, unless only those
of ASCII are asked for. The letters and numbers that may stand in a name
are those of Unicode 17.0, which has more of them.
-/
import ConditionTable.Text.LetterTable

namespace ConditionTable

/-- A decimal digit of any script. -/
def isDecimalDigit (c : Char) : Bool :=
  RangeTable.decimalDigits.holds c.toNat

/-- All that words are made of. -/
def RangeTable.words : RangeTable :=
  (RangeTable.wordMarks.union RangeTable.decimalDigits).union RangeTable.letters

/-- A character that words are made of. -/
def isWordChar (c : Char) : Bool :=
  RangeTable.letters.holds c.toNat || isDecimalDigit c || RangeTable.wordMarks.holds c.toNat

/-- A character of ASCII that words are made of. -/
def isAsciiWordChar (c : Char) : Bool :=
  c.isAlphanum || c == '_'

/-- A letter of any script, the added ones too. -/
def isLetter (c : Char) : Bool :=
  RangeTable.letters.holds c.toNat || RangeTable.addedLetters.holds c.toNat

/-- A letter or a number of any kind, the added ones too. -/
def isAlphanumeric (c : Char) : Bool :=
  isLetter c || isDecimalDigit c || RangeTable.addedDigits.holds c.toNat
    || RangeTable.otherNumbers.holds c.toNat

end ConditionTable
