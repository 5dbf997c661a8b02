/-
Reading what has been written. The strict dialect reads the text of a
lossless value back as that value (`Value.ofText?_render`). A value is
lossless if its strings are texts and its numbers are whole: a surrogate
by itself could be taken together with another one, and a number with an
exponent has more than one form.

# What comes after

Each reader is given the text of its value and whatever comes after it.
Nothing that stands after a value in a text can continue it (`Ends`): it
is a comma, a closing bracket or brace, or nothing. Only a number needs to
know, as digits could go on.

# Strings

Every character of a string is read as written, one at a time
(`readString_renderPoint`): it stands there by itself, or behind a
backslash as a letter, or as the number of a control character, and these
three exclude each other by their first characters.

# Fuel

To read an item of an array takes one round for the array, one for each
item before it and one for the item, and each of these has a character of
its own: a bracket, a comma, and what the item begins with. So twice the
length of the text is enough.
-/
import ConditionTable.Json.Reader
import ConditionTable.Proofs.Source.Masking

namespace ConditionTable.Json

-- ============================================================= strings

/-- What is written for a control character without a letter of its own
is read as its number. -/
theorem numbered_eq : ∀ n < 0x20,
    numbered n = ['\\', 'u', '0', '0', (n / 16).digitChar, (n % 16).digitChar]
      ∧ hexDigits4? '0' '0' (n / 16).digitChar (n % 16).digitChar = some n := by
  decide

/-- A character that is written by itself. -/
theorem readString_char {c : Char} (hquote : c ≠ '"') (hbackslash : c ≠ '\\')
    (hprinted : ¬ c.toNat < 0x20) (done : List Nat) (rest : Text) :
    readString done (c :: rest) = readString (c.toNat :: done) rest := by
  rw [readString]
  · rw [if_neg hprinted]
  · exact hquote
  · exact fun _ _ _ _ _ h => absurd h hbackslash
  · exact fun _ _ h => absurd h hbackslash

/-- A character of a string is read as it has been written. -/
theorem readString_renderPoint (c : Char) (done : List Nat) (rest : Text) :
    readString done (renderPoint c.toNat ++ rest) = readString (c.toNat :: done) rest := by
  have hne : ∀ d : Char, c.toNat ≠ d.toNat → c ≠ d := fun _ h heq => h (by rw [heq])
  generalize hn : c.toNat = n at hne
  unfold renderPoint
  split
  -- a quote, a backslash, or a control character with a letter of its own
  iterate 7 rfl
  · next hquote hbackslash _ _ _ _ _ =>
    by_cases hcontrol : n < 0x20
    · obtain ⟨hwritten, hread⟩ := numbered_eq n hcontrol
      rw [if_pos (by simp [hcontrol]), hwritten]
      simp only [List.cons_append, List.nil_append]
      rw [readString, hread]
    · subst hn
      have hvalid : c.toNat.isValidChar := c.valid
      rw [if_neg (by simp [hcontrol, hvalid]), Char.ofNat_toNat, List.singleton_append,
        readString_char (hne '"' hquote) (hne '\\' hbackslash) hcontrol]

/-- No character is a surrogate, so none are joined. -/
theorem joinSurrogates_pointsOfText (text : Text) :
    joinSurrogates (pointsOfText text) = pointsOfText text := by
  have hvalid : ∀ n ∈ pointsOfText text, n.isValidChar := by
    intro n hn
    obtain ⟨c, -, rfl⟩ := List.mem_map.1 hn
    exact c.valid
  generalize pointsOfText text = points at hvalid
  fun_induction joinSurrogates points with
  | case1 high low rest hjoined ih =>
    have hhigh := hvalid high List.mem_cons_self
    simp only [Bool.and_eq_true, decide_eq_true_eq] at hjoined
    unfold Nat.isValidChar at hhigh
    omega
  | case2 high low rest _ ih =>
    rw [ih fun n hn => hvalid n (List.mem_cons_of_mem _ hn)]
  | case3 => rfl

/-- A string is read up to its closing quote. -/
theorem readString_renderString (text rest : Text) :
    readString [] ((pointsOfText text).flatMap renderPoint ++ '"' :: rest)
      = some (pointsOfText text, rest) := by
  have hread : ∀ done : List Nat,
      readString done ((pointsOfText text).flatMap renderPoint ++ '"' :: rest)
        = some (joinSurrogates (done.reverse ++ pointsOfText text), rest) := by
    induction text with
    | nil =>
      intro done
      rw [pointsOfText, List.map_nil, List.append_nil]
      rfl
    | cons c text ih =>
      intro done
      rw [pointsOfText, List.map_cons, List.flatMap_cons, List.append_assoc,
        readString_renderPoint, ← pointsOfText, ih]
      simp
  rw [hread, List.reverse_nil, List.nil_append, joinSurrogates_pointsOfText]

theorem textOfPoints?_pointsOfText (text : Text) :
    textOfPoints? (pointsOfText text) = some text := by
  induction text with
  | nil => rfl
  | cons c text ih =>
    have hvalid : c.toNat.isValidChar := c.valid
    rw [textOfPoints?, pointsOfText] at ih ⊢
    rw [List.map_cons, List.mapM_cons, ih, if_pos hvalid, Char.ofNat_toNat]
    rfl

-- ============================================================= numbers

/-- A text that cannot go on with a value. -/
def Ends (rest : Text) : Prop :=
  ∀ c ∈ rest.head?, c = ',' ∨ c = ']' ∨ c = '\x7d'

/-- A number without fraction or exponent. -/
def Number.Whole (number : Number) : Prop :=
  number.integral = true ∧ number.exponent = 0

theorem ends_nil : Ends [] := by
  simp [Ends]

theorem ends_comma (rest : Text) : Ends (',' :: rest) := by
  simp [Ends]

theorem ends_bracket (rest : Text) : Ends (']' :: rest) := by
  simp [Ends]

theorem ends_brace (rest : Text) : Ends ('\x7d' :: rest) := by
  simp [Ends]

/-- Only the digits of zero begin with a zero. -/
theorem head?_toDigits_ne {n : Nat} (hn : n ≠ 0) : (Nat.toDigits 10 n).head? ≠ some '0' := by
  induction n using Nat.strongRecOn with
  | ind n ih =>
    rcases Nat.lt_or_ge n 10 with hsmall | hlarge
    · have hdigit : ∀ m < 10, m ≠ 0 → m.digitChar ≠ '0' := by decide
      rw [Nat.toDigits_of_lt_base hsmall]
      simpa using hdigit n hsmall hn
    · have hfront := ih (n / 10) (by omega) (by omega)
      obtain ⟨c, digits, hdigits⟩ := List.exists_cons_of_ne_nil
        (Nat.toDigits_ne_nil (b := 10) (n := n / 10))
      rw [Nat.toDigits_of_base_le (by decide) hlarge, hdigits]
      rwa [hdigits] at hfront

/-- The digits of a number end where the number does. -/
theorem spanDigits_toDigits {rest : Text} (hrest : Ends rest) (n : Nat) :
    spanDigits (Nat.toDigits 10 n ++ rest) = (Nat.toDigits 10 n, rest) := by
  have hdigits : ∀ c ∈ Nat.toDigits 10 n, isDigit c = true := fun _ => isDigit_of_mem_toDigits
  have hstop : rest.takeWhile isDigit = [] ∧ rest.dropWhile isDigit = rest := by
    cases rest with
    | nil => exact ⟨rfl, rfl⟩
    | cons c rest =>
      have hc : isDigit c = false := by
        rcases hrest c rfl with rfl | rfl | rfl <;> decide
      simp [hc]
  rw [spanDigits, List.takeWhile_append_of_pos hdigits, List.dropWhile_append_of_pos hdigits,
    hstop.1, hstop.2, List.append_nil]

/-- What ends a value is neither a fraction nor an exponent. -/
theorem readFraction_of_ends {rest : Text} (hrest : Ends rest) :
    readFraction rest = some (none, rest) := by
  cases rest with
  | nil => rfl
  | cons c rest => rcases hrest c rfl with rfl | rfl | rfl <;> rfl

theorem readExponent_of_ends {rest : Text} (hrest : Ends rest) :
    readExponent rest = some (none, rest) := by
  cases rest with
  | nil => rfl
  | cons c rest => rcases hrest c rfl with rfl | rfl | rfl <;> rfl

theorem readNumber_renderNumber {number : Number} (hwhole : number.Whole) {rest : Text}
    (hrest : Ends rest) :
    readNumber (renderNumber number ++ rest) = some (number, rest) := by
  obtain ⟨negative, integral, digits, exponent⟩ := number
  obtain ⟨rfl, rfl⟩ : integral = true ∧ exponent = 0 := hwhole
  have hspan := spanDigits_toDigits hrest digits
  have hvalue := decimalValue_toDigits digits
  have hfraction := readFraction_of_ends hrest
  have hexponent := readExponent_of_ends hrest
  obtain ⟨c, more, hdigits⟩ := List.exists_cons_of_ne_nil
    (Nat.toDigits_ne_nil (b := 10) (n := digits))
  have hminus : c ≠ '-' := by
    have hc : isDigit c = true := isDigit_of_mem_toDigits (by rw [hdigits]; exact List.mem_cons_self)
    intro heq
    rw [heq] at hc
    exact absurd hc (by decide)
  have hzero : c = '0' → more = [] := by
    intro hc
    by_cases hdigits' : digits = 0
    · rw [hdigits'] at hdigits
      exact (List.cons.inj hdigits).2.symm
    · exact absurd (by rw [hdigits, hc]; rfl) (head?_toDigits_ne hdigits')
  unfold readNumber renderNumber
  rw [hdigits] at hspan hvalue ⊢
  rw [List.cons_append] at hspan
  by_cases hc : c = '0'
  · obtain rfl := hzero hc
    subst hc
    cases negative <;> simp [hfraction, hexponent, hvalue]
  · cases negative <;> simp [hc, hminus, hspan, hfraction, hexponent, hvalue]

-- ============================================================== values

mutual

/-- A value that its text tells in full. -/
def Value.Lossless : Value → Prop
  | .null => True
  | .bool _ => True
  | .number value => value.Whole
  | .nonFinite => False
  | .string points => ∃ text, points = pointsOfText text
  | .array items => Value.LosslessItems items
  | .object members => Value.LosslessMembers members

/-- Items that are all lossless. -/
def Value.LosslessItems : List Value → Prop
  | [] => True
  | item :: items => item.Lossless ∧ Value.LosslessItems items

/-- Members that are all lossless, the keys too. -/
def Value.LosslessMembers : List (List Nat × Value) → Prop
  | [] => True
  | (key, value) :: members =>
      (∃ text, key = pointsOfText text) ∧ value.Lossless ∧ Value.LosslessMembers members

end

/-- A text that begins with a sign that is no blank. -/
theorem skipBlanks_cons {c : Char} (hc : c ∉ [' ', '\t', '\n', '\r']) (rest : Text) :
    skipBlanks (c :: rest) = c :: rest := by
  simp only [List.mem_cons, List.not_mem_nil, or_false, not_or] at hc
  simp [skipBlanks, hc]

/-- The sign that a number begins with. -/
theorem exists_renderNumber_eq_cons (number : Number) :
    ∃ c more, renderNumber number = c :: more ∧ (c = '-' ∨ isDigit c = true) := by
  obtain ⟨c, more, hdigits⟩ := List.exists_cons_of_ne_nil
    (Nat.toDigits_ne_nil (b := 10) (n := number.digits))
  have hc : isDigit c = true := isDigit_of_mem_toDigits (by rw [hdigits]; exact List.mem_cons_self)
  unfold renderNumber
  rw [hdigits]
  cases number.negative with
  | true => exact ⟨'-', _, rfl, .inl rfl⟩
  | false => exact ⟨c, _, rfl, .inr hc⟩

theorem readValue_renderNumber {number : Number} (hwhole : number.Whole) {rest : Text}
    (hrest : Ends rest) (fuel : Nat) :
    readValue .strict (fuel + 1) (renderNumber number ++ rest) = some (.number number, rest) := by
  have hnumber := readNumber_renderNumber hwhole hrest
  obtain ⟨c, more, hcons, hc⟩ := exists_renderNumber_eq_cons number
  have hne : ∀ d : Char, d ≠ '-' → isDigit d = false → c ≠ d := by
    intro d hminus hdigit heq
    subst heq
    rcases hc with hc | hc
    · exact hminus hc
    · rw [hdigit] at hc
      cases hc
  have hblank : c ∉ [' ', '\t', '\n', '\r'] := by
    simp only [List.mem_cons, List.not_mem_nil, or_false, not_or]
    exact ⟨hne _ (by decide) (by decide), hne _ (by decide) (by decide),
      hne _ (by decide) (by decide), hne _ (by decide) (by decide)⟩
  have hword : readWord .strict (c :: (more ++ rest)) = none := by
    have hn : c ≠ 'n' := hne _ (by decide) (by decide)
    have ht : c ≠ 't' := hne _ (by decide) (by decide)
    have hf : c ≠ 'f' := hne _ (by decide) (by decide)
    simp [readWord, valueWords, afterWord?, hn.symm, ht.symm, hf.symm]
  rw [hcons, List.cons_append] at hnumber ⊢
  rw [readValue, skipBlanks_cons hblank]
  split
  · next heq => exact absurd (List.cons.inj heq).1 (hne '"' (by decide) (by decide))
  · next heq => exact absurd (List.cons.inj heq).1 (hne '[' (by decide) (by decide))
  · next heq => exact absurd (List.cons.inj heq).1 (hne '\x7b' (by decide) (by decide))
  · rw [hword, hnumber]
    rfl

theorem readValue_renderString (text rest : Text) (fuel : Nat) :
    readValue .strict (fuel + 1) (renderString (pointsOfText text) ++ rest)
      = some (.string (pointsOfText text), rest) := by
  rw [renderString, List.cons_append, List.cons_append, List.append_assoc, readValue,
    skipBlanks_cons (by decide)]
  show (readString [] ((pointsOfText text).flatMap renderPoint ++ '"' :: rest)).map _ = _
  rw [readString_renderString]
  rfl

/-- What a value begins with: no blank, and none of the signs that end
a value. -/
theorem exists_render_eq_cons {value : Value} (h : value.Lossless) :
    ∃ c more, value.render = c :: more ∧ c ∉ [' ', '\t', '\n', '\r'] ∧ c ≠ ']' := by
  cases value with
  | null => exact ⟨'n', _, rfl, by decide, by decide⟩
  | bool value =>
    cases value with
    | true => exact ⟨'t', _, rfl, by decide, by decide⟩
    | false => exact ⟨'f', _, rfl, by decide, by decide⟩
  | number number =>
    obtain ⟨c, more, hcons, hc⟩ := exists_renderNumber_eq_cons number
    refine ⟨c, more, hcons, ?_, ?_⟩
    · intro hmem
      simp only [List.mem_cons, List.not_mem_nil, or_false] at hmem
      rcases hmem with rfl | rfl | rfl | rfl <;> exact absurd hc (by decide)
    · intro heq
      rw [heq] at hc
      exact absurd hc (by decide)
  | nonFinite => exact absurd h id
  | string points => exact ⟨'"', _, rfl, by decide, by decide⟩
  | array items => exact ⟨'[', _, rfl, by decide, by decide⟩
  | object members => exact ⟨'\x7b', _, rfl, by decide, by decide⟩

theorem exists_renderItems_eq_cons {item : Value} (items : List Value) (h : item.Lossless) :
    ∃ c more, Value.renderItems (item :: items) = c :: more
      ∧ c ∉ [' ', '\t', '\n', '\r'] ∧ c ≠ ']' := by
  obtain ⟨c, more, hcons, hblank, hclose⟩ := exists_render_eq_cons h
  cases items with
  | nil => exact ⟨c, more, hcons, hblank, hclose⟩
  | cons next items =>
    refine ⟨c, more ++ ',' :: Value.renderItems (next :: items), ?_, hblank, hclose⟩
    rw [Value.renderItems, hcons, List.cons_append]
    exact List.cons_ne_nil _ _

/-- A member is read up to the comma or the brace after it. -/
theorem readMembers_member {value : Value} {after : Text} {fuel : Nat} (key : Text)
    (hvalue : readValue .strict fuel (value.render ++ after) = some (value, after)) :
    readMembers .strict (fuel + 1) (renderString (pointsOfText key) ++ ':' :: value.render ++ after)
      = match skipBlanks after with
        | ',' :: rest =>
            (readMembers .strict fuel rest).map fun (members, rest) =>
              ((pointsOfText key, value) :: members, rest)
        | '\x7d' :: rest => some ([(pointsOfText key, value)], rest)
        | _ => none := by
  have hkey := readString_renderString key (':' :: (value.render ++ after))
  rw [renderString, List.cons_append, List.cons_append, List.cons_append, List.append_assoc,
    List.append_assoc, List.singleton_append, List.cons_append, readMembers,
    skipBlanks_cons (by decide)]
  show (readString [] ((pointsOfText key).flatMap renderPoint
    ++ '"' :: ':' :: (value.render ++ after))).bind _ = _
  rw [hkey]
  show (readValue .strict fuel (value.render ++ after)).bind _ = _
  rw [hvalue]
  show (match skipBlanks after with
    | ',' :: rest => _
    | '\x7d' :: rest => _
    | _ => _) = _
  split
  · next rest _ => cases readMembers .strict fuel rest <;> rfl
  · rfl
  · rfl

mutual

/-- A value is read up to where it ends. -/
theorem readValue_render : (value : Value) → value.Lossless → (rest : Text) → Ends rest →
    (fuel : Nat) → 2 * value.render.length ≤ fuel →
      readValue .strict fuel (value.render ++ rest) = some (value, rest)
  | value, hvalue, rest, _, 0, hfuel => by
      obtain ⟨c, more, hcons, -, -⟩ := exists_render_eq_cons hvalue
      rw [hcons] at hfuel
      simp at hfuel
  | .null, _, rest, _, fuel + 1, _ => rfl
  | .bool true, _, rest, _, fuel + 1, _ => rfl
  | .bool false, _, rest, _, fuel + 1, _ => rfl
  | .number value, hvalue, rest, hrest, fuel + 1, _ => readValue_renderNumber hvalue hrest fuel
  | .nonFinite, hvalue, _, _, _, _ => absurd hvalue id
  | .string points, hvalue, rest, _, fuel + 1, _ => by
      obtain ⟨text, rfl⟩ : ∃ text, points = pointsOfText text := hvalue
      exact readValue_renderString text rest fuel
  | .array [], _, rest, _, fuel + 1, _ => rfl
  | .array (item :: items), hvalue, rest, _, fuel + 1, hfuel => by
      have hitems := readItems_renderItems (item :: items) (List.cons_ne_nil _ _) hvalue rest fuel
        (by simp only [Value.render, List.length_append, List.length_cons] at hfuel; omega)
      obtain ⟨c, more, hcons, hblank, hclose⟩ := exists_renderItems_eq_cons items hvalue.1
      rw [hcons, List.cons_append] at hitems
      rw [Value.render, hcons, List.cons_append, List.cons_append, List.append_assoc, readValue,
        skipBlanks_cons (by decide)]
      show (match skipBlanks (c :: (more ++ ']' :: rest)) with
        | ']' :: rest => some (Value.array [], rest)
        | rest => (readItems .strict fuel rest).map fun (items, rest) =>
            (Value.array items, rest)) = _
      rw [skipBlanks_cons hblank]
      split
      · next heq => exact absurd (List.cons.inj heq).1 hclose
      · rw [hitems]
        rfl
  | .object [], _, rest, _, fuel + 1, _ => rfl
  | .object ((key, value) :: members), hvalue, rest, _, fuel + 1, hfuel => by
      have hmembers := readMembers_renderMembers ((key, value) :: members) (List.cons_ne_nil _ _)
        hvalue rest fuel
        (by simp only [Value.render, List.length_append, List.length_cons] at hfuel; omega)
      obtain ⟨more, hcons⟩ : ∃ more, Value.renderMembers ((key, value) :: members) = '"' :: more := by
        cases members <;> exact ⟨_, rfl⟩
      rw [hcons, List.cons_append] at hmembers
      rw [Value.render, hcons, List.cons_append, List.cons_append, List.append_assoc, readValue,
        skipBlanks_cons (by decide)]
      show (readMembers .strict fuel ('"' :: (more ++ '\x7d' :: rest))).map _ = _
      rw [hmembers]
      rfl

/-- Items are read up to the bracket that closes them. -/
theorem readItems_renderItems : (items : List Value) → items ≠ [] → Value.LosslessItems items →
    (rest : Text) → (fuel : Nat) → 2 * (Value.renderItems items).length + 1 ≤ fuel →
      readItems .strict fuel (Value.renderItems items ++ ']' :: rest) = some (items, rest)
  | [], hne, _, _, _, _ => absurd rfl hne
  | [item], _, hitems, rest, fuel + 1, hfuel => by
      have hitem := readValue_render item hitems.1 (']' :: rest) (ends_bracket rest) fuel
        (by simp only [Value.renderItems] at hfuel; omega)
      rw [Value.renderItems, readItems, hitem]
      rfl
  | item :: next :: items, _, hitems, rest, fuel + 1, hfuel => by
      have hlength : 2 * item.render.length ≤ fuel
          ∧ 2 * (Value.renderItems (next :: items)).length + 1 ≤ fuel := by
        simp only [Value.renderItems, List.length_append, List.length_cons] at hfuel
        omega
      have hitem := readValue_render item hitems.1
        (',' :: (Value.renderItems (next :: items) ++ ']' :: rest)) (ends_comma _) fuel hlength.1
      have hnext := readItems_renderItems (next :: items) (List.cons_ne_nil _ _) hitems.2 rest fuel
        hlength.2
      rw [Value.renderItems, List.append_assoc, List.cons_append, readItems, hitem]
      · show (readItems .strict fuel (Value.renderItems (next :: items) ++ ']' :: rest)).bind _ = _
        rw [hnext]
        rfl
      · exact List.cons_ne_nil _ _

/-- Members are read up to the brace that closes them. -/
theorem readMembers_renderMembers : (members : List (List Nat × Value)) → members ≠ [] →
    Value.LosslessMembers members → (rest : Text) → (fuel : Nat) →
    2 * (Value.renderMembers members).length + 1 ≤ fuel →
      readMembers .strict fuel (Value.renderMembers members ++ '\x7d' :: rest)
        = some (members, rest)
  | [], hne, _, _, _, _ => absurd rfl hne
  | [(key, value)], _, hmembers, rest, fuel + 1, hfuel => by
      obtain ⟨⟨name, rfl⟩, hvalue, -⟩ := hmembers
      have hlength : 2 * value.render.length ≤ fuel := by
        simp only [Value.renderMembers, List.length_append, List.length_cons] at hfuel
        omega
      have hread := readValue_render value hvalue ('\x7d' :: rest) (ends_brace rest) fuel hlength
      rw [Value.renderMembers, readMembers_member name hread]
      rfl
  | (key, value) :: next :: members, _, hmembers, rest, fuel + 1, hfuel => by
      obtain ⟨⟨name, rfl⟩, hvalue, hnext⟩ := hmembers
      have hlength : 2 * value.render.length ≤ fuel
          ∧ 2 * (Value.renderMembers (next :: members)).length + 1 ≤ fuel := by
        simp only [Value.renderMembers, List.length_append, List.length_cons] at hfuel
        omega
      have hread := readValue_render value hvalue
        (',' :: (Value.renderMembers (next :: members) ++ '\x7d' :: rest)) (ends_comma _) fuel
        hlength.1
      have hrest := readMembers_renderMembers (next :: members) (List.cons_ne_nil _ _) hnext rest
        fuel hlength.2
      rw [Value.renderMembers, List.append_assoc, List.cons_append, readMembers_member name hread]
      · show (readMembers .strict fuel
          (Value.renderMembers (next :: members) ++ '\x7d' :: rest)).map _ = _
        rw [hrest]
        rfl
      · exact List.cons_ne_nil _ _

end

/-- The text of a lossless value is read back as that value. -/
theorem Value.ofText?_render {value : Value} (h : value.Lossless) :
    Value.ofText? .strict value.render = some value := by
  have hread := readValue_render value h [] ends_nil (2 * value.render.length + 2) (by omega)
  rw [List.append_nil] at hread
  rw [Value.ofText?, hread]
  rfl

end ConditionTable.Json
