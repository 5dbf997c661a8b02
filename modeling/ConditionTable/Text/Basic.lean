/-
Text as a list of characters, and its size and places counted in UTF-8
bytes. Every length and position that the library reports is a byte
count; `cut?` and `slice?` turn such positions back into pieces of text
and refuse one that lies beyond the end or inside a character.
-/

namespace ConditionTable

/-- A text, character by character. -/
abbrev Text := List Char

namespace Text

/-- The number of bytes of a text in UTF-8. -/
def byteSize : Text → Nat
  | [] => 0
  | c :: rest => c.utf8Size + byteSize rest

/-- The UTF-8 bytes of a text. -/
def utf8 (text : Text) : List UInt8 :=
  text.flatMap String.utf8EncodeChar

/-- The pieces before and after a byte offset that falls between two
characters. -/
def cut? : Text → Nat → Option (Text × Text)
  | text, 0 => some ([], text)
  | [], _ + 1 => none
  | c :: rest, offset@(_ + 1) =>
      if c.utf8Size ≤ offset then
        (cut? rest (offset - c.utf8Size)).map fun (front, back) => (c :: front, back)
      else
        none

/-- The piece between two byte offsets, the second one excluded. -/
def slice? (text : Text) (start stop : Nat) : Option Text :=
  if start ≤ stop then
    (cut? text start).bind fun (_, back) => (cut? back (stop - start)).map Prod.fst
  else
    none

@[simp] theorem byteSize_nil : byteSize [] = 0 := rfl

@[simp] theorem byteSize_cons (c : Char) (rest : Text) :
    byteSize (c :: rest) = c.utf8Size + byteSize rest := rfl

@[simp] theorem byteSize_append (front back : Text) :
    byteSize (front ++ back) = byteSize front + byteSize back := by
  induction front with
  | nil => simp
  | cons c front ih => simp [ih, Nat.add_assoc]

/-- Cutting at the size of a front piece gives back the two pieces. -/
theorem cut?_byteSize_append (front back : Text) :
    cut? (front ++ back) (byteSize front) = some (front, back) := by
  induction front with
  | nil => cases back <;> rfl
  | cons c front ih =>
    obtain ⟨n, hn⟩ : ∃ n, c.utf8Size + byteSize front = n + 1 :=
      ⟨c.utf8Size + byteSize front - 1, by have := c.utf8Size_pos; omega⟩
    have hle : c.utf8Size ≤ n + 1 := by omega
    have hsub : n + 1 - c.utf8Size = byteSize front := by omega
    simp only [List.cons_append, byteSize_cons, hn, cut?, if_pos hle, hsub, ih, Option.map_some]

/-- Slicing between two such offsets gives the piece between them. -/
theorem slice?_byteSize_append (front middle back : Text) :
    slice? (front ++ middle ++ back) (byteSize front) (byteSize front + byteSize middle)
      = some middle := by
  have hle : byteSize front ≤ byteSize front + byteSize middle := by omega
  simp only [slice?, if_pos hle, List.append_assoc, cut?_byteSize_append, Option.bind_some,
    Nat.add_sub_cancel_left, Option.map_some]

end Text

end ConditionTable
