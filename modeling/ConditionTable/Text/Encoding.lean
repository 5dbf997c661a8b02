/-
Ranges of code points as UTF-8 spells them. A range falls apart into
blocks; the characters of a block have codes of one length, and each byte
of the code runs through a range of its own, whatever the other bytes are.
-/
import ConditionTable.Text.RangeTable

namespace ConditionTable

/-- The ranges that the bytes of a code run through, the first byte's
first. -/
abbrev ByteBlock := List (Nat × Nat)

/-- How many codes end in `count` bytes that continue a code, when the
bytes before these are fixed. -/
def continuations : (count : Nat) → Nat
  | 0 => 1
  | count + 1 => 64 * continuations count

/-- The blocks of the codes whose first byte is `mark` at least, with
`count` bytes after it, and that carry the numbers from `low` to `high`. -/
def byteBlocks (mark : Nat) : (count low high : Nat) → List ByteBlock
  | 0, low, high => [[(mark + low, mark + high)]]
  | count + 1, low, high =>
      let unit := continuations (count + 1)
      let (first, start) := (low / unit, low % unit)
      let (last, stop) := (high / unit, high % unit)
      let under := fun byte low high =>
        (byteBlocks 0x80 count low high).map ((mark + byte, mark + byte) :: ·)
      if first == last then
        under first start stop
      else
        let front := if start == 0 then [] else under first start (unit - 1)
        let back := if stop == unit - 1 then [] else under last 0 stop
        let from_ := if start == 0 then first else first + 1
        let below := if stop == unit - 1 then last + 1 else last
        let middle :=
          if from_ < below then
            [(mark + from_, mark + below - 1) :: List.replicate (count + 1) (0x80, 0xBF)]
          else
            []
        front ++ middle ++ back

/-- The code points whose codes have one length: the first and the last
of them, the least first byte, and how many bytes follow. Surrogates have
no code. -/
def codeLengths : List (Nat × Nat × Nat × Nat) :=
  [(0x0, 0x7F, 0x0, 0), (0x80, 0x7FF, 0xC0, 1), (0x800, 0xD7FF, 0xE0, 2),
    (0xE000, 0xFFFF, 0xE0, 2), (0x10000, lastCodePoint, 0xF0, 3)]

/-- The blocks that a range of code points falls apart into, in order. -/
def encodedBlocks (low high : Nat) : List ByteBlock :=
  codeLengths.flatMap fun (first, last, mark, count) =>
    if max low first ≤ min high last then
      byteBlocks mark count (max low first) (min high last)
    else
      []

end ConditionTable
