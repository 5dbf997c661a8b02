/-
Vocabularies. A vocabulary holds the patterns made from the tokens of
some settings: for line breaks, for the statement around an expression,
for connectives anywhere and at the front of a piece, and for a
parenthesis that opens a group.

A parenthesis opens a group if nothing but blanks stands before it, or a
connective and then nothing but blanks. To decide this it is enough to
look back over the blanks and as far beyond them as a connective can
reach.
-/
import ConditionTable.Connective
import ConditionTable.Pattern.Search
import ConditionTable.Settings.Basic

namespace ConditionTable

/-- The patterns made from the tokens of some settings. -/
structure Vocabulary where
  lineBreaks : Option Pattern
  statement : Pattern
  connective : Pattern
  leadingAnd : Pattern
  leadingOr : Pattern
  leadingXor : Pattern
  opening : Pattern
deriving DecidableEq, Repr

namespace Vocabulary

-- ====================================================== pattern texts

/-- One of several tokens, as the text of a pattern. Without tokens there
is none. -/
def oneOf? (tokens : List Text) : Option Text :=
  if tokens.isEmpty then none
  else some ("(?:".toList ++ ['|'].intercalate tokens ++ ")".toList)

/-- One of several tokens, or nothing. -/
def oneOf (tokens : List Text) : Text :=
  (oneOf? tokens).getD []

/-- Any number of tokens one after the other. -/
def manyOf (tokens : List Text) : Text :=
  ((oneOf? tokens).map (· ++ ['*'])).getD []

/-- Any connective. -/
def anyConnective (settings : Settings) : Text :=
  "(?:".toList ++ ['|'].intercalate
    [oneOf settings.and, oneOf settings.or, oneOf settings.xor] ++ ")".toList

/-- All that surrounds an expression, with the expression as its first
group unless a token holds a group itself. -/
def statementText (settings : Settings) : Text :=
  "(?is)^".toList ++ manyOf settings.ignoreLeading ++ "(.*?)".toList
    ++ manyOf settings.ignoreTrailing ++ ['$']

/-- A connective and the parenthesis of a group, at the end. -/
def openingText (settings : Settings) : Text :=
  "(?i)".toList ++ anyConnective settings ++ "\\s*\\($".toList

/-- Every token, in the order in which they are tried. -/
def allTokens (settings : Settings) : List Text :=
  settings.lineBreak ++ settings.and ++ settings.or ++ settings.xor
    ++ settings.ignoreLeading ++ settings.ignoreTrailing

-- ============================================================ compiling

/-- The pattern that a text spells, if it spells one. -/
def pattern (read : Text → Option Pattern) (text : Text) : Except Fault Pattern :=
  match read text with
  | some pattern => .ok pattern
  | none => .error (.invalidPattern text)

/-- The vocabulary of some settings, for a way of reading patterns. Each
token is tried by itself first, so that a fault names the token if it
can. -/
def ofSettings (settings : Settings)
    (read : Text → Option Pattern := Pattern.read? .unknown) : Except Fault Vocabulary := do
  let pattern := pattern read
  settings.validate
  (allTokens settings).forM fun token => do
    let _ ← pattern ("(?i)".toList ++ token)
  let lineBreaks ← (oneOf? settings.lineBreak).mapM fun text => pattern (text ++ ['+'])
  let statement ← pattern (statementText settings)
  let connective ← pattern ("(?i)".toList ++ anyConnective settings)
  let leadingAnd ← pattern ("(?i)^".toList ++ oneOf settings.and)
  let leadingOr ← pattern ("(?i)^".toList ++ oneOf settings.or)
  let leadingXor ← pattern ("(?i)^".toList ++ oneOf settings.xor)
  let opening ← pattern (openingText settings)
  return { lineBreaks, statement, connective, leadingAnd, leadingOr, leadingXor, opening }

/-- The standard tokens are all patterns. -/
theorem isSome_ofSettings_standard : (ofSettings .standard).toOption.isSome := by
  decide +kernel

/-- The vocabulary of the standard settings. -/
def standard : Vocabulary :=
  (ofSettings .standard).toOption.get isSome_ofSettings_standard

-- ============================================================== looking

/-- The pattern of one connective at the front. -/
def leading (vocabulary : Vocabulary) : Connective → Pattern
  | .and => vocabulary.leadingAnd
  | .or => vocabulary.leadingOr
  | .xor => vocabulary.leadingXor

/-- The connective at the front of a piece and the rest of the piece. Of
several that match, the first in the order and, or, exclusive-or counts. -/
def leading? (vocabulary : Vocabulary) (piece : Text) : Option (Connective × Text) :=
  Connective.all.findSome? fun connective =>
    ((vocabulary.leading connective).find? none piece).map fun (rest, attempt) =>
      (connective, rest.drop attempt.offset)

/-- The part of the text before a parenthesis that decides what it opens,
and the character before that part. The text comes with its nearest
character first. -/
def sight (vocabulary : Vocabulary) (before : Text) : Option Char × Text :=
  match vocabulary.connective.node.width? with
  | none => (none, before.reverse)
  | some width =>
      let blanks := before.takeWhile isBlank
      let beyond := before.dropWhile isBlank
      (beyond[width]?, (blanks ++ beyond.take width).reverse)

/-- Whether a parenthesis opens a group, given the text before it with
its nearest character first. -/
def opensGroup (vocabulary : Vocabulary) (before : Text) : Bool :=
  Text.isBlank before
    || let (edge, part) := vocabulary.sight before
       vocabulary.opening.occursIn edge (part ++ ['('])

end Vocabulary

end ConditionTable
