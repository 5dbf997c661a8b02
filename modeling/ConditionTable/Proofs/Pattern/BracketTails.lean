/-
Brackets with a tail behind them. What is read up to the bracket that
closes a class does not change (`bracketed_append`): a sign or a range,
a class that is named, the first signs after an opening bracket, and then
one bracket after the other.
-/
import ConditionTable.Pattern.Bracket
import ConditionTable.Proofs.Pattern.SignTails

namespace ConditionTable.Pattern

variable {properties : Properties} {flags : Flags} {verbose : Bool} {text rest tail : Text}
  {fuel fuel' : Nat}

theorem bracketSign_append {sign : Sign} (hstops : Stops tail)
    (h : bracketSign properties flags text = some (sign, rest))
    (hsettled : Settled flags.verbose rest) :
    bracketSign properties flags (text ++ tail) = some (sign, rest ++ tail) := by
  unfold bracketSign at h
  split at h
  · cases h
  · exact escaped_append hstops h hsettled
  · next c left hslash =>
    cases h
    rw [List.cons_append, bracketSign]
    exact hslash

/-- Looking past blanks into a tail finds no sign that brackets ask for. -/
theorem peekPast_append (hstops : Stops tail) (text : Text) {c : Char} (hbar : c ≠ '|')
    (hparen : c ≠ ')') :
    (peekPast verbose (text ++ tail) == some c) = (peekPast verbose text == some c) := by
  obtain ⟨sign, behind, rfl, hsign⟩ := hstops
  have hblank : isBlank sign = false := by
    rcases hsign with rfl | rfl <;> decide
  have hne : (some sign == some c) = false := by
    rw [beq_eq_false_iff_ne]
    rintro ⟨⟩
    exact hsign.elim hbar hparen
  -- what is left of a text, or the sign that ends the branch
  have hhead : ∀ left : Text,
      ((left ++ sign :: behind).head? == some c) = (left.head? == some c) := by
    intro left
    cases left with
    | nil => simpa using hne
    | cons d left => rfl
  have hskip : ∀ left : Text, (left ++ sign :: behind).dropWhile isBlank
      = left.dropWhile isBlank ++ sign :: behind := by
    intro left
    rw [List.dropWhile_append]
    split
    · next hnil => rw [List.isEmpty_iff.1 hnil, List.dropWhile_cons, hblank]; rfl
    · rfl
  cases verbose with
  | false => exact hhead text
  | true =>
    simp only [peekPast, if_true, hskip]
    cases text.dropWhile isBlank with
    | nil =>
      rw [List.nil_append]
      rcases hsign with rfl | rfl <;> simpa using hne
    | cons d left =>
      by_cases hd : d = '#'
      · subst hd
        show (((left ++ sign :: behind).dropWhile isBlank).head? == some c) = _
        rw [hskip]
        exact hhead _
      · rw [List.cons_append]
        split
        · next heq => exact absurd (List.cons.inj heq).1 hd
        · split
          · next heq => exact absurd (List.cons.inj heq).1 hd
          · rfl

theorem bracketItem_append {table : RangeTable} (hstops : Stops tail)
    (h : bracketItem properties flags text = some (table, rest)) (hne : rest ≠ []) :
    bracketItem properties flags (text ++ tail) = some (table, rest ++ tail) := by
  unfold bracketItem at h ⊢
  simp only [Option.bind_eq_bind, Option.bind_eq_some_iff] at h
  obtain ⟨⟨low, left⟩, hlow, h⟩ := h
  dsimp only at h
  have hskip : skipSpace flags.verbose left ≠ [] := by
    intro hnil
    rw [hnil] at h
    cases h
  have hleft : left ≠ [] := by
    rintro rfl
    exact hskip (skipSpace_nil flags.verbose)
  rw [bracketSign_append hstops hlow (.of_ne_nil hleft), Option.bind_eq_bind, Option.bind_some]
  dsimp only
  rw [skipSpace_append (.of_ne_nil hskip)]
  obtain ⟨d, more, hcons⟩ := List.exists_cons_of_ne_nil hskip
  rw [hcons] at h ⊢
  rw [List.cons_append]
  split at h
  · cases h
  · -- a dash follows: an item by itself, or the low end of a range
    next inner heq =>
    obtain ⟨rfl, rfl⟩ := List.cons.inj heq
    split
    · next hnil => cases hnil
    · next inner heq' =>
      obtain ⟨-, rfl⟩ := List.cons.inj heq'
      rw [peekPast_append hstops _ (by decide) (by decide),
        peekPast_append hstops _ (by decide) (by decide)]
      split at h
      · next hend =>
        rw [if_pos hend]
        obtain ⟨single, hsingle, heq⟩ := Option.bind_eq_some_iff.1 h
        obtain ⟨rfl, rfl⟩ := Prod.mk.inj (Option.some.inj heq)
        rw [hsingle]
        rfl
      · next hend =>
        rw [if_neg hend]
        have hmore : skipSpace flags.verbose more ≠ [] := by
          intro hnil
          rw [hnil] at h
          cases h
        rw [skipSpace_append (.of_ne_nil hmore)]
        obtain ⟨e, behind, hcons'⟩ := List.exists_cons_of_ne_nil hmore
        rw [hcons'] at h ⊢
        obtain ⟨⟨high, left'⟩, hhigh, h⟩ := Option.bind_eq_some_iff.1 h
        show (bracketSign properties flags (e :: behind ++ tail)).bind _ = _
        split at h
        · next c c' hc hc' =>
          split at h
          · next hle =>
            obtain ⟨range, hrange, heq⟩ := Option.bind_eq_some_iff.1 h
            obtain ⟨rfl, rfl⟩ := Prod.mk.inj (Option.some.inj heq)
            rw [bracketSign_append hstops hhigh (.of_ne_nil hne), Option.bind_some]
            dsimp only at hc ⊢
            rw [hc]
            dsimp only
            rw [if_pos hle, hrange]
            rfl
          · cases h
        · cases h
    · next hdash => exact absurd rfl (hdash _)
  · next hnil hdash =>
    obtain ⟨single, hsingle, heq⟩ := Option.bind_eq_some_iff.1 h
    obtain ⟨rfl, rfl⟩ := Prod.mk.inj (Option.some.inj heq)
    split
    · next hnil => cases hnil
    · next inner heq' =>
      obtain ⟨rfl, -⟩ := List.cons.inj heq'
      exact absurd rfl (hdash more)
    · rw [hsingle]
      rfl

/-- The names of classes are made of letters. -/
theorem isAlpha_of_asciiClass? {name : String} {table : RangeTable}
    (h : asciiClass? name = some table) : name.toList.all Char.isAlpha = true := by
  unfold asciiClass? at h
  split at h
  case h_15 => cases h
  all_goals rfl

/-- The class that is named, after the colon and the sign of complement. -/
def className? (text : Text) : Option (RangeTable × Text) :=
  (after? ":]" (text.dropWhile (· != ':'))).bind fun rest =>
    (asciiClass? (String.ofList (text.takeWhile (· != ':')))).map fun table => (table, rest)

/-- Takes the sign of complement, if it follows. -/
def takeCaret (text : Text) : Bool × Text :=
  match text with
  | '^' :: rest => (true, rest)
  | _ => (false, text)

theorem takeCaret_append (hstops : Stops tail) (text : Text) :
    takeCaret (text ++ tail) = ((takeCaret text).1, (takeCaret text).2 ++ tail) := by
  cases text with
  | nil =>
    obtain ⟨sign, behind, rfl, hsign⟩ := hstops
    rcases hsign with rfl | rfl <;> rfl
  | cons c text =>
    by_cases hc : c = '^'
    · subst hc
      rfl
    · unfold takeCaret
      split <;> simp_all

theorem namedClass_eq (text : Text) : namedClass text =
    (after? ":" text).bind fun inner =>
      (className? (takeCaret inner).2).map fun (table, rest) =>
        ((table, (takeCaret inner).1), rest) := by
  unfold namedClass className? takeCaret
  simp only [Option.bind_eq_bind]
  congr 1
  funext inner
  split <;> simp [Option.map_eq_bind, Option.bind_assoc]

/-- A class has its name in the text or nowhere. -/
theorem className?_append (hstops : Stops tail) (text : Text) :
    className? (text ++ tail) = (className? text).map fun (table, rest) => (table, rest ++ tail) := by
  by_cases hnil : text.dropWhile (· != ':') = []
  · -- with the tail the name holds a sign that is no letter
    obtain ⟨sign, behind, rfl, hsign⟩ := hstops
    have hall : ∀ c ∈ text, (c != ':') = true := List.dropWhile_eq_nil_iff.1 hnil
    have hcolon : (sign != ':') = true := by rcases hsign with rfl | rfl <;> decide
    have hmem : sign ∈ (text ++ sign :: behind).takeWhile (· != ':') := by
      rw [List.takeWhile_append_of_pos hall, List.takeWhile_cons, if_pos hcolon]
      exact List.mem_append_right _ List.mem_cons_self
    have hname :
        asciiClass? (String.ofList ((text ++ sign :: behind).takeWhile (· != ':'))) = none := by
      rw [Option.eq_none_iff_forall_ne_some]
      intro table htable
      have halpha := List.all_eq_true.1 (isAlpha_of_asciiClass? htable) sign
        (by rwa [String.toList_ofList])
      rcases hsign with rfl | rfl <;> exact absurd halpha (by decide)
    have halone : after? ":]" (text.dropWhile (· != ':')) = none := by
      rw [hnil]
      rfl
    rw [className?, className?, hname, halone]
    simp
  · rw [className?, className?, takeWhile_append_of_ne_nil hnil, dropWhile_append_of_ne_nil hnil,
      after?_append_eq hstops (by decide), Option.map_bind, Option.bind_map]
    simp only [Function.comp_def, Option.map_map]

theorem namedClass_append (hstops : Stops tail) (text : Text) :
    namedClass (text ++ tail)
      = (namedClass text).map fun (found, rest) => (found, rest ++ tail) := by
  rw [namedClass_eq, namedClass_eq]
  rw [after?_append_eq hstops (by decide), Option.map_bind, Option.bind_map]
  congr 1
  funext inner
  dsimp only [Function.comp_apply]
  rw [takeCaret_append hstops, className?_append hstops, Option.map_map, Option.map_map]
  rfl

@[simp] theorem dashes_nil (fuel : Nat) (items : List Bracketed) :
    openBracket.dashes verbose fuel items [] = (items, []) := by
  cases fuel <;> rfl

theorem dashes_append {items items' : List Bracketed}
    (h : openBracket.dashes verbose fuel items text = (items', rest)) (hfuel : text.length ≤ fuel)
    (hne : rest ≠ []) (hmore : fuel ≤ fuel') (tail : Text) :
    openBracket.dashes verbose fuel' items (text ++ tail) = (items', rest ++ tail) := by
  induction fuel generalizing fuel' items text with
  | zero =>
    obtain rfl := List.length_eq_zero_iff.1 (Nat.le_zero.1 hfuel)
    rw [dashes_nil] at h
    exact absurd (Prod.mk.inj h).2.symm hne
  | succ fuel ih =>
    obtain ⟨fuel', rfl⟩ : ∃ n, fuel' = n + 1 := ⟨fuel' - 1, by omega⟩
    cases text with
    | nil => exact absurd (Prod.mk.inj h).2.symm hne
    | cons c text =>
      by_cases hc : c = '-'
      · subst hc
        rw [openBracket.dashes] at h
        have hskip : skipSpace verbose text ≠ [] := by
          intro hnil
          rw [hnil, dashes_nil] at h
          exact hne (Prod.mk.inj h).2.symm
        have hlength := length_skipSpace_le verbose text
        rw [List.cons_append, openBracket.dashes, skipSpace_append (.of_ne_nil hskip)]
        exact ih h (by simp only [List.length_cons] at hfuel; omega) (Nat.le_of_succ_le_succ hmore)
      · have hstay : ∀ (fuel : Nat) (text : Text),
            openBracket.dashes verbose fuel items (c :: text) = (items, c :: text) := by
          intro fuel text
          cases fuel with
          | zero => rfl
          | succ fuel =>
            unfold openBracket.dashes
            split <;> simp_all
        rw [hstay] at h
        obtain ⟨rfl, rfl⟩ := Prod.mk.inj h
        exact hstay _ _

/-- What an opening bracket leaves when the dashes have been read. -/
def afterDashes (verbose negated : Bool) (items : List Bracketed) (text : Text) :
    Option (Bool × List Bracketed × Text) :=
  match items, text with
  | _, [] => none
  | [], ']' :: rest =>
      match skipSpace verbose rest with
      | [] => none
      | rest => some (negated, [⟨.ofPoints [']'.toNat], 0⟩], rest)
  | items, text => some (negated, items, text)

/-- What the dashes of an opening bracket are read from. -/
def dashesFrom (verbose : Bool) (text : Text) : Text :=
  let (negated, more) := takeCaret text
  if negated then skipSpace verbose more else more

theorem openBracket_eq (verbose : Bool) (text : Text) : openBracket verbose text =
    if skipSpace verbose text = [] then none
    else
      let more := dashesFrom verbose (skipSpace verbose text)
      let (items, rest) := openBracket.dashes verbose more.length [] more
      afterDashes verbose (takeCaret (skipSpace verbose text)).1 items rest := by
  unfold openBracket dashesFrom
  dsimp only
  generalize skipSpace verbose text = text
  split
  · rfl
  · rfl
  · next hne hcaret =>
    have htake : takeCaret text = (false, text) := by
      unfold takeCaret
      split
      · exact absurd rfl (hcaret _)
      · rfl
    rw [if_neg hne, htake]
    rfl

theorem afterDashes_append {negated negated' : Bool} {items items' : List Bracketed}
    (h : afterDashes verbose negated items text = some (negated', items', rest)) (tail : Text) :
    rest ≠ []
      ∧ afterDashes verbose negated items (text ++ tail) = some (negated', items', rest ++ tail) := by
  cases text with
  | nil => cases items <;> cases h
  | cons c text =>
    by_cases hclosing : items = [] ∧ c = ']'
    · obtain ⟨rfl, rfl⟩ := hclosing
      have hskip : skipSpace verbose text ≠ [] := by
        intro hnil
        simp only [afterDashes, hnil] at h
        cases h
      rw [List.cons_append, afterDashes, skipSpace_append (.of_ne_nil hskip)]
      rw [afterDashes] at h
      obtain ⟨d, more, hcons⟩ := List.exists_cons_of_ne_nil hskip
      rw [hcons] at h ⊢
      cases h
      exact ⟨List.cons_ne_nil _ _, rfl⟩
    · have hstay : ∀ text, afterDashes verbose negated items (c :: text)
          = some (negated, items, c :: text) := by
        intro text
        unfold afterDashes
        split <;> simp_all
      rw [hstay] at h
      cases h
      exact ⟨List.cons_ne_nil _ _, hstay _⟩

theorem openBracket_append {negated : Bool} {items : List Bracketed} (hstops : Stops tail)
    (h : openBracket verbose text = some (negated, items, rest)) :
    rest ≠ [] ∧ openBracket verbose (text ++ tail) = some (negated, items, rest ++ tail) := by
  rw [openBracket_eq] at h ⊢
  have hskip : skipSpace verbose text ≠ [] := by
    intro hnil
    rw [if_pos hnil] at h
    cases h
  rw [if_neg hskip] at h
  rw [skipSpace_append (.of_ne_nil hskip), if_neg (by simp [hskip])]
  dsimp only at h ⊢
  obtain ⟨first, left, hdashes⟩ : ∃ first left, openBracket.dashes verbose
      (dashesFrom verbose (skipSpace verbose text)).length [] (dashesFrom verbose (skipSpace verbose text))
        = (first, left) := ⟨_, _, rfl⟩
  rw [hdashes] at h
  have hleft : left ≠ [] := by
    rintro rfl
    cases first <;> cases h
  have hfrom : dashesFrom verbose (skipSpace verbose text) ≠ [] := by
    intro hnil
    rw [hnil, dashes_nil] at hdashes
    exact hleft (Prod.mk.inj hdashes).2.symm
  have hmore : dashesFrom verbose (skipSpace verbose text ++ tail)
      = dashesFrom verbose (skipSpace verbose text) ++ tail := by
    unfold dashesFrom at hfrom ⊢
    rw [takeCaret_append hstops]
    dsimp only at hfrom ⊢
    split
    · next hcaret =>
      rw [if_pos hcaret] at hfrom
      exact skipSpace_append (.of_ne_nil hfrom) tail
    · rfl
  obtain ⟨hne, hafter⟩ := afterDashes_append h tail
  rw [hmore, dashes_append hdashes (Nat.le_refl _) hleft (by simp), takeCaret_append hstops]
  exact ⟨hne, hafter⟩

/-- Two signs that do not end a branch stand in the text or nowhere. -/
theorem exists_of_append_eq_cons_cons {a b : Char} {more : Text} (hstops : Stops tail)
    (hne : text ≠ []) (hb : b ≠ '|' ∧ b ≠ ')') (h : text ++ tail = a :: b :: more) :
    ∃ rest, text = a :: b :: rest := by
  match text with
  | [] => exact absurd rfl hne
  | [c] =>
    obtain ⟨sign, behind, rfl, hsign⟩ := hstops
    obtain ⟨-, hmore⟩ := List.cons.inj h
    obtain ⟨rfl, -⟩ := List.cons.inj hmore
    exact (hsign.elim hb.1 hb.2).elim
  | c :: d :: rest =>
    obtain ⟨rfl, hmore⟩ := List.cons.inj h
    obtain ⟨rfl, -⟩ := List.cons.inj hmore
    exact ⟨rest, rfl⟩

theorem brackets_nil (fuel : Nat) (frames : List BracketFrame) (items : List Bracketed) :
    brackets properties flags fuel frames items [] = none := by
  cases fuel with
  | zero => rfl
  | succ fuel => rw [brackets, skipSpace_nil]

section

variable {frames : List BracketFrame} {items : List Bracketed} {whole : Bracketed} {left : Text}

theorem brackets_class {table : RangeTable} {negated : Bool}
    (hskip : skipSpace flags.verbose text = '[' :: left)
    (hclass : namedClass left = some ((table, negated), rest)) :
    brackets properties flags (fuel + 1) frames items text
      = (closed? flags negated table).bind fun table =>
          brackets properties flags fuel frames (⟨table, 0⟩ :: items) rest := by
  rw [brackets, hskip]
  simp only [hclass, Option.bind_eq_bind]

theorem brackets_open (hskip : skipSpace flags.verbose text = '[' :: left)
    (hclass : namedClass left = none) :
    brackets properties flags (fuel + 1) frames items text
      = (openBracket flags.verbose left).bind fun (negated, inner, rest) =>
          brackets properties flags fuel (.opened items negated :: frames) inner rest := by
  rw [brackets, hskip]
  simp only [hclass, Option.bind_eq_bind]

theorem brackets_append (hstops : Stops tail)
    (h : brackets properties flags fuel frames items text = some (whole, rest))
    (hmore : fuel ≤ fuel') :
    brackets properties flags fuel' frames items (text ++ tail) = some (whole, rest ++ tail) := by
  induction fuel generalizing fuel' frames items text with
  | zero => cases h
  | succ fuel ih =>
    obtain ⟨fuel', rfl⟩ : ∃ n, fuel' = n + 1 := ⟨fuel' - 1, by omega⟩
    have hle := Nat.le_of_succ_le_succ hmore
    have hskip : skipSpace flags.verbose text ≠ [] := by
      intro hnil
      rw [brackets, hnil] at h
      cases h
    have hskip' := skipSpace_append (.of_ne_nil hskip) tail
    by_cases hbracket : ∃ left, skipSpace flags.verbose text = '[' :: left
    · obtain ⟨left, hleft⟩ := hbracket
      rw [hleft, List.cons_append] at hskip'
      have hnamed := namedClass_append hstops left
      cases hclass : namedClass left with
      | some found =>
        obtain ⟨⟨table, negated⟩, more⟩ := found
        rw [brackets_class hleft hclass, Option.bind_eq_some_iff] at h
        obtain ⟨closed, hclosed, h⟩ := h
        rw [brackets_class hskip' (by rw [hnamed, hclass]; rfl), hclosed]
        exact ih h hle
      | none =>
        rw [brackets_open hleft hclass, Option.bind_eq_some_iff] at h
        obtain ⟨⟨negated, inner, more⟩, hopen, h⟩ := h
        rw [brackets_open hskip' (by rw [hnamed, hclass]; rfl), (openBracket_append hstops hopen).2]
        exact ih h hle
    unfold brackets at h ⊢
    dsimp only at h ⊢
    rw [hskip']
    generalize skipSpace flags.verbose text = text at h hskip hbracket ⊢
    split at h
    · cases h
    · exact (hbracket ⟨_, rfl⟩).elim
    · next left =>
      split at h
      · obtain ⟨closed, hclosed, h⟩ := Option.bind_eq_some_iff.1 h
        simp only [List.cons_append, hclosed, Option.bind_eq_bind, Option.bind_some]
        split at h
        · cases h
          rfl
        · exact ih h hle
      · cases h
    · exact ih h hle
    · exact ih h hle
    · exact ih h hle
    · next hclass hclose hinter hdiff hsymm =>
      simp only [Option.bind_eq_bind, Option.bind_eq_some_iff] at h
      obtain ⟨⟨table, left⟩, hitem, h⟩ := h
      have hleft : left ≠ [] := by
        rintro rfl
        rw [brackets_nil] at h
        cases h
      have hlater := ih h hle
      obtain ⟨c, more, rfl⟩ := List.exists_cons_of_ne_nil hskip
      split
      · next heq => cases heq
      · next heq =>
        obtain ⟨rfl, -⟩ := List.cons.inj heq
        exact (hclass _ rfl).elim
      · next heq =>
        obtain ⟨rfl, -⟩ := List.cons.inj heq
        exact (hclose _ rfl).elim
      · next heq =>
        obtain ⟨left', heq⟩ := exists_of_append_eq_cons_cons hstops hskip (by decide) heq
        exact (hinter _ heq).elim
      · next heq =>
        obtain ⟨left', heq⟩ := exists_of_append_eq_cons_cons hstops hskip (by decide) heq
        exact (hdiff _ heq).elim
      · next heq =>
        obtain ⟨left', heq⟩ := exists_of_append_eq_cons_cons hstops hskip (by decide) heq
        exact (hsymm _ heq).elim
      · rw [bracketItem_append hstops hitem hleft]
        exact hlater

theorem bracketed_append (hstops : Stops tail)
    (h : bracketed properties flags text = some (whole, rest)) :
    bracketed properties flags (text ++ tail) = some (whole, rest ++ tail) := by
  unfold bracketed at h ⊢
  simp only [Option.bind_eq_bind, Option.bind_eq_some_iff] at h
  obtain ⟨⟨negated, items, more⟩, hopen, h⟩ := h
  rw [(openBracket_append hstops hopen).2]
  exact brackets_append hstops h (by simp)

end

end ConditionTable.Pattern
