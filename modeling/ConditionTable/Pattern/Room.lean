/-
How much room a pattern takes. A pattern is matched in one pass by an
automaton that reads the bytes of a text, and a second automaton reads
them backward. Both are laid out in full, with a copy of the body for
every turn of a counted repetition, and neither may grow beyond
`maxRoom` bytes.

A state takes 32 bytes. A state with several ways out takes 4 more for
each, or 8 where a way is taken for some bytes only. Reading forward, the
places where a group begins and ends are states as well.

States are numbered as they are laid out. The layout of a table of
characters looks states up by number, in a memory that may forget, so it
depends a little on how many states came before.
-/
import ConditionTable.Pattern.Expr
import ConditionTable.Text.Encoding
import ConditionTable.Text.Slots

namespace ConditionTable.Pattern

/-- The bytes that an automaton may take: ten mebibytes. -/
def maxRoom : Nat := 10485760

/-- An automaton as far as it is laid out: the number of its states, and
the bytes that their ways out take. -/
structure Layout where
  states : Nat
  ways : Nat
deriving DecidableEq, Repr

namespace Layout

/-- The bytes of the automaton. -/
def room (layout : Layout) : Nat :=
  32 * layout.states + layout.ways

/-- Whether the automaton stays within its limit. -/
def fits (layout : Layout) : Bool :=
  layout.room ≤ maxRoom

/-- Adds states. -/
def add (count : Nat) (layout : Layout) : Layout :=
  { layout with states := layout.states + count }

/-- Adds a state, given the bytes of its ways out. -/
def addWays (ways : Nat) (layout : Layout) : Layout :=
  ⟨layout.states + 1, layout.ways + ways⟩

/-- Adds a state that is left by `count` ways whatever comes next. -/
def addFork (count : Nat) (layout : Layout) : Layout :=
  layout.addWays (4 * count)

/-- Adds a state that is left by `count` ways, each for some bytes. -/
def addSwitch (count : Nat) (layout : Layout) : Layout :=
  layout.addWays (8 * count)

-- ============================================================ characters

/-- Blocks that begin alike, side by side, as what they begin with and
what they go on with. -/
def groupBlocks : List ByteBlock → List ((Nat × Nat) × List ByteBlock)
  | [] => []
  | [] :: rest => groupBlocks rest
  | (range :: tail) :: rest =>
      match groupBlocks rest with
      | (next, tails) :: groups =>
          if next == range then (range, tail :: tails) :: groups
          else (range, [tail]) :: (next, tails) :: groups
      | [] => [(range, [tail])]

/-- Slots for the states of a table that is read forward. -/
def switchSlots : Nat := 10000

/-- Adds states that read the blocks forward and go on to `target`; the
number of the first of them is returned. A state that is remembered with
the same ways out serves again. Blocks are no longer than `fuel`. -/
def addBlocks (target : Nat) : (fuel : Nat) → List ByteBlock → Layout × Slots →
    Nat × Layout × Slots
  | 0, _, (layout, slots) => (target, layout, slots)
  | fuel + 1, blocks, (layout, slots) =>
      let groups := groupBlocks blocks
      let (key, layout, slots) := groups.foldl
        (fun (key, layout, slots) ((first, last), tails) =>
          if tails.all List.isEmpty then
            (key ++ [first, last, target], layout, slots)
          else
            let (next, layout, slots) := addBlocks target fuel tails (layout, slots)
            (key ++ [first, last, next], layout, slots))
        ([], layout, slots)
      match slots.stored? switchSlots key with
      | some state => (state, layout, slots)
      | none =>
          (layout.states, layout.addSwitch groups.length,
            slots.store switchSlots key layout.states)

/-- Adds a table that is read forward: blocks that begin alike share
their states, and so do those that end alike. -/
def addForward (blocks : List ByteBlock) (layout : Layout) : Layout :=
  (addBlocks layout.states 4 blocks (layout.add 1, ∅)).2.1

/-- Slots for the states of a table that is read backward. -/
def byteSlots : Nat := 1000

/-- Adds the states that read one block backward, from its last byte to
its first. Each byte has a state of its own, which leads to `after`, and
one that is remembered serves again. -/
def addBackwardBlock : (after : Nat) → ByteBlock → Layout × Slots → Layout × Slots
  | _, [], state => state
  | after, (first, last) :: rest, (layout, slots) =>
      let key := [after, first, last]
      match slots.stored? byteSlots key with
      | some state => addBackwardBlock state rest (layout, slots)
      | none =>
          addBackwardBlock layout.states rest
            (layout.add 1, slots.store byteSlots key layout.states)

/-- Adds a table that is read backward: a fork into all blocks and the
state where they meet. -/
def addBackward (blocks : List ByteBlock) (layout : Layout) : Layout :=
  let after := layout.states + 1
  let start := (layout.addFork blocks.length).add 1
  (blocks.foldl (fun state block => addBackwardBlock after block state) (start, ∅)).1

/-- Adds a character out of a table. In a table of ASCII each range is a
way from one state to another. Any other table is read by its blocks. -/
def addTable (backward : Bool) (table : RangeTable) (layout : Layout) : Layout :=
  if table.isAscii then
    (layout.addSwitch table.length).add 1
  else
    let blocks := table.flatMap fun (first, last) => encodedBlocks first last
    if backward then layout.addBackward blocks else layout.addForward blocks

-- =============================================================== literals

/-- Ends the chunk of words that stand before a word that is complete. A
second complete word in front of all others changes nothing. -/
def endChunk : List (List (List UInt8)) → List (List (List UInt8))
  | [[], []] => [[], []]
  | chunks => [] :: chunks

/-- The words, in chunks that lie between complete words, the last chunk
first. -/
def chunksOf (words : List (List UInt8)) : List (List (List UInt8)) :=
  words.foldl (fun chunks word => match word, chunks with
      | [], chunks => endChunk chunks
      | word, chunk :: chunks => (chunk ++ [word]) :: chunks
      | word, [] => [[word]])
    [[]]

/-- Adds a choice between literals that is read byte by byte: one fork
for every place where words part or end, with a switch for each chunk of
words. Words are no longer than `fuel`. -/
def addWords : (fuel : Nat) → List (List UInt8) → Layout → Layout
  | 0, _, layout => layout
  | fuel + 1, words, layout =>
      let chunks := chunksOf words
      let layout := chunks.foldr
        (fun chunk layout =>
          let firsts := (chunk.filterMap List.head?).eraseDups
          let layout := firsts.foldl
            (fun layout first =>
              let tails := chunk.filterMap fun word => match word with
                | c :: tail => if c == first then some tail else none
                | [] => none
              if tails.all List.isEmpty then layout else addWords fuel tails layout)
            layout
          match firsts.length with
          | 0 => layout
          | 1 => layout.add 1
          | count => layout.addSwitch count)
        layout
      let full := (chunks.filter fun chunk => !chunk.isEmpty).length
      layout.addFork (full + (chunks.length - 1))

-- ============================================================= structure

/-- The text of a literal. -/
def literal? : Expr → Option Text
  | .literal text => some text
  | _ => none

/-- Does something `count` times, but no more often once the automaton has
grown too large. -/
def copies (step : Layout → Layout) : (count : Nat) → Layout → Layout
  | 0, layout => layout
  | count + 1, layout =>
      if layout.fits then copies step count (step layout) else layout

/-- Adds `least` to `most` turns. A loop without end is a fork behind the
last copy; if a turn may match the empty text, another fork in front
passes it by. Each turn that may be left out has a fork in front. -/
def addTurns (consumes : Bool) (least : Nat) (most : Option Nat) (step : Layout → Layout)
    (layout : Layout) : Layout :=
  match least, most with
  | 0, none =>
      if consumes then step (layout.addFork 2)
      else (((step layout).addFork 2).addFork 2).add 1
  | least, none => (copies step least layout).addFork 2
  | 0, some 1 => (step (layout.addFork 2)).add 1
  | least, some most =>
      if least == most then copies step least layout
      else
        let front := if least == 0 then layout.add 1 else copies step least layout
        copies (fun layout => step (layout.addFork 2)) (most - least) (front.add 1)

end Layout

open Layout in
mutual

/-- Lays out an expression. -/
def Expr.layOut (backward : Bool) : Expr → Layout → Layout
  | .empty, layout => layout.add 1
  | .literal text, layout => layout.add text.byteSize
  | .anyOf table _, layout => layout.addTable backward table
  | .look _, layout => layout.add 1
  | .seq items, layout => layOutSeq backward items layout
  | .choice items, layout =>
      match items.mapM literal? with
      | some texts =>
          let words := texts.map fun text =>
            if backward then text.utf8.reverse else text.utf8
          (layout.add 1).addWords (texts.foldl (fun n text => max n text.byteSize) 0) words
      | none => layOutBranches backward 0 items layout
  | .turns _ least most body, layout =>
      layout.addTurns body.consumes least most (fun layout => body.layOut backward layout)
  | .group _ body, layout =>
      if backward then body.layOut backward layout
      else (body.layOut backward (layout.add 1)).add 1

/-- Lays out expressions one after the other, the last one first when
reading backward. -/
def Expr.layOutSeq (backward : Bool) : List Expr → Layout → Layout
  | [], layout => layout
  | item :: rest, layout =>
      if backward then item.layOut backward (Expr.layOutSeq backward rest layout)
      else Expr.layOutSeq backward rest (item.layOut backward layout)

/-- Lays out branches. The fork into them and the state where they meet
come after the second one. -/
def Expr.layOutBranches (backward : Bool) : (count : Nat) → List Expr → Layout → Layout
  | count, [], layout => { layout with ways := layout.ways + 4 * count }
  | count, item :: rest, layout =>
      let layout := item.layOut backward layout
      Expr.layOutBranches backward (count + 1) rest (if count == 1 then layout.add 2 else layout)

end

/-- Lays out a whole pattern: the loop that passes over the text before a
match, unless a match can only be at the edge of the text, then the
pattern, and the state at its end. The match itself is a group. -/
def Expr.layOutWhole (backward : Bool) (expr : Expr) : Layout :=
  let atEdge := expr.bound (if backward then .textEnd else .textStart) backward
  let front : Layout := if atEdge then ⟨1, 0⟩ else ⟨3, 16⟩
  ((Expr.group 0 expr).layOut backward front).add 1

mutual

/-- A rough count. No automaton takes more than 2200 bytes for each unit
of an expression's weight, a range of characters falling apart into no
more than sixteen blocks. -/
def Expr.weight : Expr → Nat
  | .empty => 1
  | .literal text => text.length
  | .anyOf table _ => table.length + 1
  | .look _ => 1
  | .seq items => Expr.weightAll items
  | .choice items => Expr.weightAll items + items.length
  | .turns _ least most body => (most.getD least + 2) * (body.weight + 1)
  | .group _ body => body.weight + 1

/-- The weight of all of them. -/
def Expr.weightAll : List Expr → Nat
  | [] => 0
  | item :: rest => item.weight + Expr.weightAll rest

end

/-- Whether both automata stay within their limit. What weighs little
need not be laid out to see that it does. -/
def Expr.fits (expr : Expr) : Bool :=
  expr.weight ≤ 4000 || ((expr.layOutWhole true).fits && (expr.layOutWhole false).fits)

end ConditionTable.Pattern
