/-
Byte offsets of a text. An offset is a boundary if it falls between two
characters. Between two boundaries in order there is a slice
(`exists_slice?_eq`).

# ASCII characters

An ASCII character is one byte, and this byte is part of no other
character: all bytes of the others are 0x80 or more. So where there is
such a byte, there is such a character (`exists_split_of_byte`), with
boundaries before and after it. All signs on which a scan for quotes,
brackets and backslashes acts are ASCII, which is why it may look at bytes
without knowing where characters begin.
-/
import ConditionTable.Text.Basic

namespace ConditionTable.Text

-- ===================================================== bytes of a text

@[simp] theorem utf8_nil : utf8 [] = [] := rfl

@[simp] theorem utf8_cons (c : Char) (rest : Text) :
    utf8 (c :: rest) = String.utf8EncodeChar c ++ utf8 rest := rfl

@[simp] theorem utf8_append (front back : Text) : utf8 (front ++ back) = utf8 front ++ utf8 back :=
  List.flatMap_append

@[simp] theorem length_utf8 (text : Text) : (utf8 text).length = byteSize text := by
  induction text with
  | nil => rfl
  | cons c rest ih =>
    rw [utf8_cons, List.length_append, ih, String.length_utf8EncodeChar, byteSize_cons]

theorem byteSize_eq_zero_iff {text : Text} : byteSize text = 0 ↔ text = [] := by
  cases text with
  | nil => exact iff_of_true rfl rfl
  | cons c rest =>
    have hpos := c.utf8Size_pos
    rw [byteSize_cons]
    exact iff_of_false (by omega) (List.cons_ne_nil _ _)

theorem byteSize_reverse (text : Text) : byteSize text.reverse = byteSize text := by
  induction text with
  | nil => rfl
  | cons c rest ih =>
    rw [List.reverse_cons, byteSize_append, ih, byteSize_cons, byteSize_cons, byteSize_nil]
    omega

theorem byteSize_le_of_isInfix {inner text : Text} (h : inner <:+: text) :
    byteSize inner ≤ byteSize text := by
  obtain ⟨front, back, rfl⟩ := h
  rw [byteSize_append, byteSize_append]
  omega

theorem byteSize_lt_of_isInfix {inner text : Text} (h : inner <:+: text) (hne : inner ≠ text) :
    byteSize inner < byteSize text := by
  obtain ⟨front, back, rfl⟩ := h
  refine Nat.lt_of_not_le fun hle => hne ?_
  rw [byteSize_append, byteSize_append] at hle
  obtain rfl : front = [] := byteSize_eq_zero_iff.1 (by omega)
  obtain rfl : back = [] := byteSize_eq_zero_iff.1 (by omega)
  rw [List.nil_append, List.append_nil]

theorem lt_byteSize_of_getElem? {text : Text} {index : Nat} {b : UInt8}
    (hb : (utf8 text)[index]? = some b) : index < byteSize text := by
  rw [← length_utf8]
  exact (List.getElem?_eq_some_iff.1 hb).1

theorem exists_getElem?_utf8 {text : Text} {index : Nat} (hindex : index < byteSize text) :
    ∃ b, (utf8 text)[index]? = some b := by
  rw [← length_utf8] at hindex
  exact ⟨_, List.getElem?_eq_getElem hindex⟩

theorem take_utf8_append (front back : Text) :
    (utf8 (front ++ back)).take (byteSize front) = utf8 front := by
  rw [utf8_append, ← length_utf8 front, List.take_left]

/-- What is left of the bytes after a front of the text. -/
theorem drop_utf8_append (front back : Text) :
    (utf8 (front ++ back)).drop (byteSize front) = utf8 back := by
  rw [utf8_append, ← length_utf8 front, List.drop_left]

-- ==================================================== ASCII characters

/-- A character with a code of one byte. -/
def Ascii (c : Char) : Prop := c.toNat < 0x80

instance (c : Char) : Decidable (Ascii c) := inferInstanceAs (Decidable (_ < _))

/-- The byte of an ASCII character. -/
def byte (c : Char) : UInt8 := c.val.toUInt8

variable {c d : Char}

theorem toNat_byte (hc : Ascii c) : (byte c).toNat = c.toNat := by
  have hlt : c.toNat < 0x80 := hc
  show c.val.toUInt8.toNat = c.val.toNat
  rw [UInt32.toNat_toUInt8]
  exact Nat.mod_eq_of_lt (Nat.lt_trans hlt (by decide))

/-- ASCII characters are told apart by their bytes. -/
theorem byte_beq (hc : Ascii c) (hd : Ascii d) : (byte c == byte d) = (c == d) := by
  rw [Bool.eq_iff_iff, beq_iff_eq, beq_iff_eq]
  constructor
  · intro h
    rw [← Char.toNat_inj, ← toNat_byte hc, ← toNat_byte hd, h]
  · intro h
    rw [h]

theorem utf8Size_of_ascii (hc : Ascii c) : c.utf8Size = 1 := by
  have hlt : c.val.toNat < 0x80 := hc
  exact Char.utf8Size_eq_one_iff.2 (UInt32.le_iff_toNat_le.2 (Nat.le_of_lt_succ hlt))

theorem utf8EncodeChar_of_ascii (hc : Ascii c) : String.utf8EncodeChar c = [byte c] :=
  String.utf8EncodeChar_eq_singleton (utf8Size_of_ascii hc)

/-- No byte of another character is that of an ASCII character. -/
theorem le_of_mem_utf8EncodeChar (hc : ¬ Ascii c) {b : UInt8} (hb : b ∈ String.utf8EncodeChar c) :
    0x80 ≤ b.toNat := by
  have hge : ¬ c.val.toNat ≤ 0x7f := fun h => hc (Nat.lt_succ_of_le h)
  have hcode : ∀ n mark : Nat, 0x80 ≤ mark → mark + n < 0x100 →
      0x80 ≤ (UInt8.ofNat (n + mark)).toNat := by
    intro n mark hmark hlt
    rw [UInt8.toNat_ofNat', Nat.mod_eq_of_lt (by omega)]
    omega
  unfold String.utf8EncodeChar at hb
  simp only [if_neg hge] at hb
  split at hb
  · simp only [List.mem_cons, List.not_mem_nil, or_false] at hb
    rcases hb with rfl | rfl <;> exact hcode _ _ (by omega) (by omega)
  · split at hb
    · simp only [List.mem_cons, List.not_mem_nil, or_false] at hb
      rcases hb with rfl | rfl | rfl <;> exact hcode _ _ (by omega) (by omega)
    · simp only [List.mem_cons, List.not_mem_nil, or_false] at hb
      rcases hb with rfl | rfl | rfl | rfl <;> exact hcode _ _ (by omega) (by omega)

/-- Suppose that every byte of 0x80 or more does the same to a scan. Then
the bytes of a character that is not ASCII do together what one of them
does. `Fits` is what holds where such a byte is read. -/
theorem scan_character {σ ρ : Type} (scan : Nat → σ → List UInt8 → ρ) (calm : σ → σ)
    (Fits : Nat → σ → List UInt8 → Prop) (hcalm : ∀ progress, calm (calm progress) = calm progress)
    (hstep : ∀ index progress b rest, 0x80 ≤ b.toNat → Fits index progress (b :: rest) →
      scan index progress (b :: rest) = scan (index + 1) (calm progress) rest
        ∧ Fits (index + 1) (calm progress) rest)
    (hc : ¬ Ascii c) {index : Nat} {progress : σ} {rest : List UInt8}
    (h : Fits index progress (String.utf8EncodeChar c ++ rest)) :
    scan index progress (String.utf8EncodeChar c ++ rest)
      = scan (index + c.utf8Size) (calm progress) rest := by
  have hbytes : ∀ b ∈ String.utf8EncodeChar c, 0x80 ≤ b.toNat := fun _ => le_of_mem_utf8EncodeChar hc
  have hlength := String.length_utf8EncodeChar c
  have hpos := c.utf8Size_pos
  rw [← hlength] at hpos ⊢
  clear hlength
  generalize String.utf8EncodeChar c = bytes at hbytes hpos h ⊢
  -- on the bytes left, the first of which is read before the rest
  induction bytes generalizing index progress with
  | nil => cases hpos
  | cons b bytes ih =>
    obtain ⟨hread, hnext⟩ := hstep index progress b (bytes ++ rest) (hbytes b List.mem_cons_self) h
    rw [List.cons_append, hread]
    cases bytes with
    | nil => rfl
    | cons b' bytes =>
      rw [ih (fun d hd => hbytes d (List.mem_cons_of_mem b hd)) (Nat.succ_pos _) hnext, hcalm,
        List.length_cons (a := b), Nat.add_assoc, Nat.add_comm 1]

/-- The byte of an ASCII character is found as often as the character. -/
theorem count_utf8 (hc : Ascii c) (text : Text) :
    (utf8 text).count (byte c) = text.count c := by
  induction text with
  | nil => rfl
  | cons d rest ih =>
    rw [utf8_cons, List.count_append, ih, List.count_cons, Nat.add_comm]
    by_cases hd : Ascii d
    · rw [utf8EncodeChar_of_ascii hd, List.count_singleton, byte_beq hd hc]
    · have habsent : byte c ∉ String.utf8EncodeChar d := fun hmem => by
        have hle := le_of_mem_utf8EncodeChar hd hmem
        rw [toNat_byte hc] at hle
        exact Nat.not_lt.2 hle hc
      have hne : d ≠ c := fun heq => hd (heq ▸ hc)
      rw [List.count_eq_zero.2 habsent, beq_eq_false_iff_ne.2 hne]
      rfl

/-- Where there is the byte of an ASCII character, there is the
character. -/
theorem exists_split_of_byte {text : Text} {offset : Nat} {b : UInt8}
    (h : (utf8 text)[offset]? = some b) (hb : b.toNat < 0x80) :
    ∃ front c back, text = front ++ c :: back ∧ byteSize front = offset ∧ Ascii c
      ∧ byte c = b := by
  induction text generalizing offset with
  | nil => simp at h
  | cons d rest ih =>
    rw [utf8_cons] at h
    rcases Nat.lt_or_ge offset (String.utf8EncodeChar d).length with hhere | hlater
    · rw [List.getElem?_append_left hhere] at h
      have hmem : b ∈ String.utf8EncodeChar d := List.mem_of_getElem? h
      have hd : Ascii d := by
        refine Decidable.byContradiction fun hd => ?_
        have := le_of_mem_utf8EncodeChar hd hmem
        omega
      rw [utf8EncodeChar_of_ascii hd] at h hhere
      obtain rfl : offset = 0 := Nat.lt_one_iff.1 hhere
      exact ⟨[], d, rest, rfl, rfl, hd, by simpa using h⟩
    · rw [List.getElem?_append_right hlater] at h
      obtain ⟨front, c, back, rfl, hsize, hc, hbyte⟩ := ih h
      rw [String.length_utf8EncodeChar] at hlater hsize
      refine ⟨d :: front, c, back, rfl, ?_, hc, hbyte⟩
      rw [byteSize_cons, hsize]
      omega

-- ========================================================== boundaries

/-- An offset that falls between two characters, or before or after all
of them. -/
def Boundary (text : Text) (offset : Nat) : Prop :=
  ∃ front back, text = front ++ back ∧ byteSize front = offset

theorem boundary_zero (text : Text) : Boundary text 0 := ⟨[], text, rfl, rfl⟩

theorem boundary_byteSize (text : Text) : Boundary text (byteSize text) :=
  ⟨text, [], (List.append_nil text).symm, rfl⟩

theorem boundary_append (front back : Text) : Boundary (front ++ back) (byteSize front) :=
  ⟨front, back, rfl, rfl⟩

theorem Boundary.le {text : Text} {offset : Nat} (h : Boundary text offset) :
    offset ≤ byteSize text := by
  obtain ⟨front, back, rfl, rfl⟩ := h
  rw [byteSize_append]
  exact Nat.le_add_right _ _

/-- There are boundaries before and after an ASCII character. -/
theorem boundaries_of_byte {text : Text} {offset : Nat} {b : UInt8}
    (h : (utf8 text)[offset]? = some b) (hb : b.toNat < 0x80) :
    Boundary text offset ∧ Boundary text (offset + 1) := by
  obtain ⟨front, c, back, rfl, rfl, hc, -⟩ := exists_split_of_byte h hb
  refine ⟨boundary_append front _, front ++ [c], back, ?_, ?_⟩
  · rw [List.append_assoc, List.singleton_append]
  · rw [byteSize_append, byteSize_cons, utf8Size_of_ascii hc, byteSize_nil]

/-- The slice between two pieces. -/
theorem slice?_eq_some {text front middle back : Text} {start stop : Nat}
    (htext : text = front ++ middle ++ back) (hstart : start = byteSize front)
    (hstop : stop = start + byteSize middle) : slice? text start stop = some middle := by
  rw [htext, hstop, hstart]
  exact slice?_byteSize_append front middle back

/-- The slice up to and with an ASCII character. -/
theorem slice?_through {text before rest : Text} {index : Nat} (hc : Ascii c)
    (htext : text = before.reverse ++ c :: rest) (hindex : index = byteSize before) :
    slice? text 0 (index + 1) = some (before.reverse ++ [c]) := by
  refine slice?_eq_some (?_ : _ = [] ++ _ ++ rest) rfl ?_
  · rw [htext, List.nil_append, List.append_assoc, List.singleton_append]
  · rw [byteSize_append, byteSize_reverse, byteSize_cons, utf8Size_of_ascii hc, byteSize_nil, hindex,
      Nat.zero_add]

/-- Between two boundaries in order there is a slice. -/
theorem exists_slice?_eq {text : Text} {start stop : Nat} (hstart : Boundary text start)
    (hstop : Boundary text stop) (hle : start ≤ stop) :
    ∃ piece, slice? text start stop = some piece := by
  obtain ⟨front, back, rfl, rfl⟩ := hstart
  obtain ⟨front', back', heq, rfl⟩ := hstop
  rcases List.append_eq_append_iff.1 heq with ⟨middle, rfl, rfl⟩ | ⟨middle, rfl, rfl⟩
  · exact ⟨middle, slice?_eq_some (List.append_assoc _ _ _).symm rfl (byteSize_append _ _)⟩
  · obtain rfl : middle = [] := by
      rw [byteSize_append] at hle
      exact byteSize_eq_zero_iff.1 (by omega)
    exact ⟨[], slice?_eq_some (rfl : _ = front' ++ [] ++ back) (by simp) (by simp)⟩

end ConditionTable.Text
