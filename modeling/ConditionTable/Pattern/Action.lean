/-
What the signs of a pattern ask for, and what is done about it. What a
sign asks for depends on the flags and on the text behind it (`action?`).
What is done about it depends on what has been read, and the text has no
say in it any more (`Reading.perform?`).
-/
import ConditionTable.Pattern.Bracket
import ConditionTable.Pattern.Part

namespace ConditionTable.Pattern

/-- What a sign asks for. -/
inductive Action
  | add (part : Part)
  | turns (greedy : Bool) (least : Nat) (most : Option Nat)
  | bar
  | close
  | remember (name : Option Text)
  | enter (flags : Flags)
  | change (flags : Flags)

/-- Does what a sign asks for. No two groups have the same name. -/
def Reading.perform? (reading : Reading) : Action → Option Reading
  | .add part => some (reading.add part)
  | .turns greedy least most => reading.repeatLast? greedy least most
  | .bar => some reading.bar
  | .close => reading.leave?
  | .remember none =>
      let index := reading.groups + 1
      some ({ reading with groups := index }.enter reading.flags (some index))
  | .remember (some name) =>
      let index := reading.groups + 1
      if reading.names.contains name then none
      else
        some ({ reading with groups := index, names := name :: reading.names }.enter
          reading.flags (some index))
  | .enter flags => some (reading.enter flags none)
  | .change flags => some ({ reading with flags }.add .mute)

-- ============================================================== groups

/-- The name of a group and what follows the sign that ends it. A name
begins with a letter or an underscore. -/
def groupName? (text : Text) : Option (Text × Text) :=
  let name := text.takeWhile (· != '>')
  match name, text.dropWhile (· != '>') with
  | first :: more, _ :: rest =>
      if (first == '_' || isLetter first)
          && more.all fun c => c == '_' || c == '.' || c == '[' || c == ']' || isAlphanumeric c
      then some (name, rest) else none
  | _, _ => none

/-- Sets one flag by its letter. -/
def Flags.set? (flags : Flags) (value : Bool) (letter : Char) : Option Flags :=
  match letter with
  | 'i' => some { flags with ignoreCase := value }
  | 'm' => some { flags with multiLine := value }
  | 's' => some { flags with dotAll := value }
  | 'U' => some { flags with swapGreed := value }
  | 'x' => some { flags with verbose := value }
  | 'R' => some { flags with returns := value }
  | 'u' => some { flags with unicode := value }
  | _ => none

/-- The letters of a change of flags, up to the sign that ends it. No
letter may be given twice, and a dash needs letters after it. -/
def changeFlags : Flags → (value : Bool) → (met : Text) → Text → Option (Flags × Bool × Text)
  | _, _, _, [] => none
  | flags, value, met, c :: rest =>
      if c == ':' || c == ')' then
        if met.head? == some '-' || (met.isEmpty && c == ')') then none
        else some (flags, c == ':', rest)
      else if met.contains c then
        none
      else if c == '-' then
        changeFlags flags false (c :: met) rest
      else do
        changeFlags (← flags.set? value c) value (c :: met) rest

/-- Whether a parenthesis begins a look-around, which patterns do not have. -/
def looksAround (text : Text) : Bool :=
  ["?=", "?!", "?<=", "?<!"].any fun start => (after? start text).isSome

/-- The text after the sign that names a group. -/
def named? (text : Text) : Option Text :=
  (after? "?P<" text).or (after? "?<" text)

/-- What an opening parenthesis asks for. -/
def opening? (flags : Flags) (text : Text) : Option (Action × Text) :=
  if looksAround text then none
  else
    match named? text, text with
    | some inner, _ => (groupName? inner).map fun (name, rest) => (.remember (some name), rest)
    | none, '?' :: inner =>
        (changeFlags flags true [] inner).map fun (flags, opens, rest) =>
          (if opens then .enter flags else .change flags, rest)
    | none, text => some (.remember none, text)

-- ========================================================== repetition

/-- The greatest count in a repetition. -/
def maxTimes : Nat := 0xFFFFFFFF

/-- Takes the sign that turns greed off, if it follows. -/
def takeLazy (text : Text) : Bool × Text :=
  match text with
  | '?' :: rest => (false, rest)
  | _ => (true, text)

/-- What a sign of repetition asks for, and the sign after it. -/
def turns (least : Nat) (most : Option Nat) (text : Text) : Action × Text :=
  (.turns (takeLazy text).1 least most, (takeLazy text).2)

/-- The bounds of a counted repetition, after its opening brace. -/
def countBounds (verbose : Bool) (text : Text) : Option (Nat × Option Nat × Text) := do
  let (least, rest) := decimal verbose (skipSpace verbose text)
  let least ← least
  let (most, rest) ← boundsEnd least rest
  if least ≤ most.getD least && most.getD least ≤ maxTimes then
    return (least, most, skipSpace verbose rest)
  else
    none
where
  /-- The upper bound, which may be missing, and the closing brace. -/
  boundsEnd (least : Nat) : Text → Option (Option Nat × Text)
    | ',' :: rest =>
        match skipSpace verbose rest with
        | '\x7d' :: rest => some (none, rest)
        | rest => do
            let (most, rest) := decimal verbose rest
            return (some (← most), ← after? "\x7d" rest)
    | rest => do return (some least, ← after? "\x7d" rest)

-- =========================================================== characters

/-- What a single sign stands for. A character may stand for all that are
equal to it up to case. -/
def Sign.expr (flags : Flags) : Sign → Expr
  | .char c => .ofTable (.ofPoints (flags.orbit c.toNat)) !flags.unicode
  | .anyOf table => .ofTable table !flags.unicode
  | .look condition => .look condition

/-- What a dot stands for: any character but those that end a line. -/
def dotTable? (flags : Flags) : Option RangeTable :=
  flags.admit? (if flags.dotAll then .full
    else if flags.returns then RangeTable.compl [(0x0A, 0x0A), (0x0D, 0x0D)]
    else RangeTable.compl [(0x0A, 0x0A)])

/-- What an anchor at the start of a line stands for. -/
def startLook (flags : Flags) : Look :=
  if !flags.multiLine then .textStart
  else if flags.returns then .returnLineStart
  else .lineStart

/-- What an anchor at the end of a line stands for. -/
def endLook (flags : Flags) : Look :=
  if !flags.multiLine then .textEnd
  else if flags.returns then .returnLineEnd
  else .lineEnd

/-- What a sign asks for. -/
def action? (properties : Properties) (flags : Flags) (c : Char) (rest : Text) :
    Option (Action × Text) :=
  match c with
  | '(' => opening? flags (skipSpace flags.verbose rest)
  | ')' => some (.close, rest)
  | '|' => some (.bar, rest)
  | '[' => (bracketed properties flags rest).map fun (whole, rest) =>
      (.add { expr := .ofTable whole.table !flags.unicode, depth := whole.depth }, rest)
  | '?' => some (turns 0 (some 1) rest)
  | '*' => some (turns 0 none rest)
  | '+' => some (turns 1 none rest)
  | '\x7b' => (countBounds flags.verbose rest).map fun (least, most, rest) =>
      turns least most rest
  | '\\' => (escaped properties flags rest).map fun (sign, rest) =>
      (.add { expr := sign.expr flags }, rest)
  | '.' => (dotTable? flags).map fun table => (.add { expr := .ofTable table }, rest)
  | '^' => some (.add { expr := .look (startLook flags) }, rest)
  | '$' => some (.add { expr := .look (endLook flags) }, rest)
  | c => some (.add { expr := Sign.expr flags (.char c) }, rest)

end ConditionTable.Pattern
