/-
How an expression may be written. A grammar says which texts write an
expression down in the standard tokens: every connective as its sign or
its word, every group in at least one pair of parentheses, and blanks
wherever they do no harm. It says so of a given expression, by recursion
over its entries, so that an expression and the texts for it can be
spoken of together.

# What a condition may hold

A condition is a text of its own, and it must not be taken for anything
else. Outside quoted literals and the arguments of calls it has no
quotes, parentheses, braces, backslashes or signs of connectives, and no
word of a connective stands alone between blanks. Inside them it may hold
nearly anything. What decides is therefore not the text but its outline
(`Outline`), in which each literal and each argument list is one mark.
-/
import ConditionTable.Source.Span
import ConditionTable.Tree.Basic

namespace ConditionTable

-- =============================================================== tokens

/-- The sign of a connective. -/
def Connective.sign : Connective → Text
  | and => ['&', '&']
  | or => ['|', '|']
  | xor => ['^']

/-- The characters of signs. -/
def signs : List Char := ['&', '|', '^']

/-- The text is the word of a connective, in any case. -/
def Connective.IsWord (connective : Connective) (text : Text) : Prop :=
  text.map Char.toUpper = connective.symbol

instance (connective : Connective) (text : Text) : Decidable (connective.IsWord text) :=
  inferInstanceAs (Decidable (_ = _))

/-- What the standard tokens of a connective match: its sign, or its word
with a blank on each side. -/
inductive Token (connective : Connective) : Text → Prop
  | sign : Token connective connective.sign
  | word {front back : Char} {word : Text} (hfront : isBlank front = true)
      (hword : connective.IsWord word) (hback : isBlank back = true) :
      Token connective (front :: word ++ [back])

/-- The text joins two entries by a connective: a token among blanks. -/
def Joins (connective : Connective) (text : Text) : Prop :=
  ∃ before token after, Text.isBlank before = true ∧ Token connective token
    ∧ Text.isBlank after = true ∧ text = before ++ token ++ after

-- ============================================================ conditions

/-- Whether a character stands for itself between literals and
parentheses. -/
def isNeutral (c : Char) : Bool :=
  !isQuote c && c != '(' && c != ')' && c != '\\'

/-- The text holds neither the quote nor a backslash, so a literal in
these quotes ends where it should. -/
def Inert (quote : Char) (text : Text) : Prop :=
  quote ∉ text ∧ '\\' ∉ text

instance (quote : Char) (text : Text) : Decidable (Inert quote text) :=
  inferInstanceAs (Decidable (_ ∧ _))

/-- All literals of the text are closed, and outside them parentheses
come in pairs. -/
inductive Balanced : Text → Prop
  | nil : Balanced []
  | sign {c : Char} {rest : Text} (hc : isNeutral c = true) (hrest : Balanced rest) :
      Balanced (c :: rest)
  | literal {quote : Char} {content rest : Text} (hquote : isQuote quote = true)
      (hcontent : Inert quote content) (hrest : Balanced rest) :
      Balanced (quote :: content ++ quote :: rest)
  | parens {inner rest : Text} (hinner : Balanced inner) (hrest : Balanced rest) :
      Balanced ('(' :: inner ++ ')' :: rest)

/-- Whether a character may stand in a condition outside literals and
arguments. -/
def isPlain (c : Char) : Bool :=
  isNeutral c && c != '\x7b' && c != '\x7d' && c != '&' && c != '|' && c != '^'

/-- What an outline shows in place of a literal or an argument list. -/
def outlineMark : Char := '"'

/-- The text of a condition, or the rest of it, has this outline. `glued`
tells that the character before is not blank, for only there an argument
list may follow. -/
inductive Outline : (glued : Bool) → (text outline : Text) → Prop
  | nil {glued : Bool} : Outline glued [] []
  | sign {glued : Bool} {c : Char} {rest outline : Text} (hc : isPlain c = true)
      (hrest : Outline (!isBlank c) rest outline) : Outline glued (c :: rest) (c :: outline)
  | literal {glued : Bool} {quote : Char} {content rest outline : Text}
      (hquote : isQuote quote = true) (hcontent : Inert quote content)
      (hrest : Outline true rest outline) :
      Outline glued (quote :: content ++ quote :: rest) (outlineMark :: outline)
  | call {inner rest outline : Text} (hinner : Balanced inner)
      (hrest : Outline true rest outline) :
      Outline true ('(' :: inner ++ ')' :: rest) (outlineMark :: outline)

/-- No word of a connective stands between blanks, or between a blank and
an end. -/
def NoWords (outline : Text) : Prop :=
  ∀ word ∈ outline.splitOnP isBlank, ∀ connective : Connective, ¬ connective.IsWord word

instance (outline : Text) : Decidable (NoWords outline) :=
  decidable_of_iff (∀ word ∈ outline.splitOnP isBlank, ∀ connective ∈ Connective.all,
      ¬ connective.IsWord word)
    ⟨fun h word hword connective => h word hword connective connective.mem_all,
      fun h word hword connective _ => h word hword connective⟩

/-- The condition can be written as it is. -/
def Condition.Writable (condition : Condition) : Prop :=
  ∃ outline, Outline false condition.text outline ∧ NoWords outline

-- =============================================================== levels

/-- The text puts a level into so many pairs of parentheses, with blanks
inside them. -/
def Wrapped (level : Text) : (pairs : Nat) → Text → Prop
  | 0, text => text = level
  | pairs + 1, text => ∃ before inner after, Text.isBlank before = true
      ∧ Wrapped level pairs inner ∧ Text.isBlank after = true
      ∧ text = '(' :: (before ++ inner ++ after) ++ [')']

theorem Wrapped.zero (level : Text) : Wrapped level 0 level := rfl

theorem Wrapped.succ {level inner before after : Text} {pairs : Nat}
    (h : Wrapped level pairs inner) (hbefore : Text.isBlank before = true)
    (hafter : Text.isBlank after = true) :
    Wrapped level (pairs + 1) ('(' :: (before ++ inner ++ after) ++ [')']) :=
  ⟨before, inner, after, hbefore, h, hafter, rfl⟩

namespace Entry

mutual

/-- The text writes the entry. -/
def Written : Entry → Text → Prop
  | leaf condition, text => condition.Writable ∧ text = condition.text
  | group connectives entries, text =>
      ∃ level pairs, LevelWritten connectives entries level ∧ Wrapped level (pairs + 1) text

/-- The text writes the level. A level has an entry, and a condition if
this is the only one. -/
def LevelWritten (connectives : List Connective) : List Entry → Text → Prop
  | [], _ => False
  | entry :: entries, text =>
      (entries = [] → ∃ condition, entry = leaf condition)
        ∧ ∃ first rest, entry.Written first ∧ RestWritten connectives entries rest
          ∧ text = first ++ rest

/-- The text writes the entries of a level after its first one, each
after the connective that joins it to the one before. -/
def RestWritten (connectives : List Connective) : List Entry → Text → Prop
  | [], text => connectives = [] ∧ text = []
  | entry :: entries, text =>
      ∃ connective others joint written rest, connectives = connective :: others
        ∧ Joins connective joint ∧ entry.Written written ∧ RestWritten others entries rest
        ∧ text = joint ++ written ++ rest

end

variable {connective : Connective} {connectives : List Connective} {entry next : Entry}
  {entries : List Entry} {first joint written rest : Text}

theorem written_leaf {condition : Condition} (h : condition.Writable) :
    (leaf condition).Written condition.text := by
  rw [Written]
  exact ⟨h, rfl⟩

theorem written_group {level text : Text} {pairs : Nat}
    (hlevel : LevelWritten connectives entries level) (htext : Wrapped level (pairs + 1) text) :
    (group connectives entries).Written text := by
  rw [Written]
  exact ⟨level, pairs, hlevel, htext⟩

theorem levelWritten_cons (hfirst : entry.Written first)
    (hrest : RestWritten connectives (next :: entries) rest) :
    LevelWritten connectives (entry :: next :: entries) (first ++ rest) := by
  rw [LevelWritten]
  exact ⟨fun hnil => absurd hnil (List.cons_ne_nil _ _), first, rest, hfirst, hrest, rfl⟩

theorem restWritten_nil : RestWritten [] [] [] := by
  rw [RestWritten]
  exact ⟨rfl, rfl⟩

theorem restWritten_cons (hjoint : Joins connective joint) (hwritten : entry.Written written)
    (hrest : RestWritten connectives entries rest) :
    RestWritten (connective :: connectives) (entry :: entries) (joint ++ written ++ rest) := by
  rw [RestWritten]
  exact ⟨connective, connectives, joint, written, rest, rfl, hjoint, hwritten, hrest, rfl⟩

end Entry

/-- The text writes the expression, perhaps among blanks and in
parentheses. -/
def Expression.Written (expression : Expression) (text : Text) : Prop :=
  ∃ level pairs before inner after,
    Entry.LevelWritten expression.connectives expression.entries level
      ∧ Wrapped level pairs inner ∧ Text.isBlank before = true ∧ Text.isBlank after = true
      ∧ text = before ++ inner ++ after

end ConditionTable
