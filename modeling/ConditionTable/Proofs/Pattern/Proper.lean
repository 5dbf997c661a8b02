/-
What the reader adds is proper. The tables that it puts together are in
order, be they named, listed in brackets or joined by the operators there,
so the parts made of them are proper expressions; and a counted repetition
asks for no more turns at least than at most.
-/
import ConditionTable.Proofs.Pattern.Tails
import ConditionTable.Proofs.Text.Tables
import ConditionTable.Proofs.Pattern.Forms

namespace ConditionTable.Pattern

open RangeTable (Ordered)

variable {properties : Properties} {flags : Flags} {verbose negated : Bool} {text rest : Text}
  {sign : Sign} {table result : RangeTable} {items : List Bracketed}
  {frames frames' : List BracketFrame} {whole : Bracketed}

-- =============================================================== classes

theorem Flags.eq_of_admit? (h : flags.admit? table = some result) : result = table := by
  unfold Flags.admit? at h
  split at h
  · exact (Option.some.inj h).symm
  · cases h

theorem ordered_signed? (h : flags.signed? negated table = some result) (htable : table.Ordered) :
    result.Ordered := by
  obtain rfl := Flags.eq_of_admit? h
  cases negated
  · exact htable
  · exact htable.compl

theorem ordered_fold (h : table.Ordered) : (flags.fold table).Ordered := by
  unfold Flags.fold
  split
  · exact h
  · exact h.folded _
  · exact h.folded _

theorem ordered_closed? (h : closed? flags negated table = some result) (htable : table.Ordered) :
    result.Ordered :=
  ordered_signed? h (ordered_fold htable)

theorem ordered_letterClass (flags : Flags) (letter : Char) :
    (letterClass flags letter).Ordered := by
  unfold letterClass
  split
  · exact RangeTable.ordered_decimalDigits
  · exact RangeTable.ordered_of_inOrder (by decide)
  · exact RangeTable.ordered_blanks
  · exact RangeTable.ordered_of_inOrder (by decide)
  · exact RangeTable.ordered_words
  · exact RangeTable.ordered_of_inOrder (by decide)

theorem ordered_asciiClass? {name : String} (h : asciiClass? name = some table) :
    table.Ordered := by
  unfold asciiClass? at h
  split at h
  case h_15 => cases h
  all_goals
    cases h
    exact RangeTable.ordered_of_inOrder (by decide)

/-- Whatever is known of a property, its class is in order. -/
theorem ordered_propertyClass? {property : Property}
    (h : propertyClass? properties flags negated property = some table) : table.Ordered := by
  unfold propertyClass? at h
  split at h
  · obtain ⟨ranges, -, hclosed⟩ := Option.bind_eq_some_iff.1 h
    exact ordered_closed? hclosed (RangeTable.ordered_ofRanges ranges)
  · cases h

-- ================================================================= signs

/-- A sign that is a table in order, or no table. -/
def Sign.Proper : Sign → Prop
  | .anyOf table => table.Ordered
  | _ => True

theorem proper_of_map_char {result : Option (Char × Text)}
    (h : result.map (fun (c, rest) => (Sign.char c, rest)) = some (sign, rest)) : sign.Proper := by
  obtain ⟨⟨c, left⟩, -, heq⟩ := Option.map_eq_some_iff.1 h
  cases heq
  trivial

theorem proper_of_letterClass {letter : Char} {left : Text}
    (h : (flags.signed? negated (letterClass flags letter)).map
      (fun table => (Sign.anyOf table, left)) = some (sign, rest)) : sign.Proper := by
  obtain ⟨table, htable, heq⟩ := Option.map_eq_some_iff.1 h
  cases heq
  exact ordered_signed? htable (ordered_letterClass flags letter)

theorem proper_propertySign (h : propertySign properties flags negated text = some (sign, rest)) :
    sign.Proper := by
  simp only [propertySign, Option.bind_eq_bind, Option.bind_eq_some_iff] at h
  obtain ⟨found, -, table, htable, heq⟩ := h
  cases heq
  exact ordered_propertyClass? htable

theorem proper_escaped (h : escaped properties flags text = some (sign, rest)) : sign.Proper := by
  cases text with
  | nil => cases h
  | cons c text =>
    unfold escaped at h
    dsimp only at h
    split at h
    case h_1 | h_2 | h_3 => exact proper_of_map_char h
    case h_4 | h_5 | h_6 | h_7 | h_8 | h_9 => exact proper_of_letterClass h
    case h_10 | h_11 => exact proper_propertySign h
    case h_20 =>
      obtain ⟨⟨edge, left⟩, -, heq⟩ := Option.map_eq_some_iff.1 h
      cases heq
      trivial
    case h_24 =>
      split at h
      · cases h
        trivial
      · cases h
    all_goals
      cases h
      trivial

theorem Sign.Proper.expr (h : sign.Proper) : (sign.expr flags).Proper := by
  cases sign with
  | char c => exact Expr.proper_ofTable (RangeTable.ordered_ofPoints _) _
  | anyOf table => exact Expr.proper_ofTable h _
  | look condition => trivial

theorem ordered_dotTable? (h : dotTable? flags = some table) : table.Ordered := by
  obtain rfl := Flags.eq_of_admit? h
  split
  · exact RangeTable.ordered_nil.compl
  · split
    · exact (RangeTable.ordered_of_inOrder (by decide)).compl
    · exact (RangeTable.ordered_of_inOrder (by decide)).compl

-- ============================================================== brackets

/-- All that has been read between brackets is in order. -/
def BracketedAll (items : List Bracketed) : Prop :=
  ∀ item ∈ items, item.table.Ordered

/-- So is all that waits around them. -/
def BracketFrame.Proper : BracketFrame → Prop
  | .opened items _ => BracketedAll items
  | .operand _ left => left.table.Ordered

theorem bracketedAll_cons (h : whole.table.Ordered) (hitems : BracketedAll items) :
    BracketedAll (whole :: items) :=
  List.forall_mem_cons.2 ⟨h, hitems⟩

theorem ordered_foldl_union {tables : RangeTable} (htables : tables.Ordered)
    (h : BracketedAll items) :
    (items.foldl (fun table item => item.table.union table) tables).Ordered := by
  induction items generalizing tables with
  | nil => exact htables
  | cons item items ih =>
    obtain ⟨hitem, hitems⟩ := List.forall_mem_cons.1 h
    exact ih (hitem.union htables) hitems

theorem ordered_ofItems (h : BracketedAll items) : (Bracketed.ofItems items).table.Ordered := by
  unfold Bracketed.ofItems
  split
  · exact RangeTable.ordered_nil
  · exact h _ (List.mem_singleton_self _)
  · exact ordered_foldl_union RangeTable.ordered_nil h

theorem ordered_popOperand (flags : Flags) (h : whole.table.Ordered)
    (hframes : ∀ frame ∈ frames, frame.Proper) :
    (popOperand flags whole frames).1.table.Ordered
      ∧ ∀ frame ∈ (popOperand flags whole frames).2, frame.Proper := by
  unfold popOperand
  split
  · next op left frames =>
    obtain ⟨hleft, hrest⟩ := List.forall_mem_cons.1 hframes
    refine ⟨?_, hrest⟩
    cases op with
    | inter => exact (ordered_fold hleft).inter (ordered_fold h)
    | diff => exact (ordered_fold hleft).diff (ordered_fold h)
    | symmDiff => exact (ordered_fold hleft).symmDiff (ordered_fold h)
  · exact ⟨h, hframes⟩

theorem proper_dashes {fuel : Nat} {items' : List Bracketed}
    (h : openBracket.dashes verbose fuel items text = (items', rest)) (hitems : BracketedAll items) :
    BracketedAll items' := by
  induction fuel generalizing items text with
  | zero =>
    cases h
    exact hitems
  | succ fuel ih =>
    unfold openBracket.dashes at h
    split at h
    · next heq =>
      cases heq
      exact ih h (List.forall_mem_cons.2 ⟨RangeTable.ordered_ofPoints _, hitems⟩)
    · cases h
      exact hitems

theorem proper_openBracket
    (h : openBracket verbose text = some (negated, items, rest)) : BracketedAll items := by
  rw [openBracket_eq] at h
  split at h
  · cases h
  · dsimp only at h
    generalize hmore : dashesFrom verbose (skipSpace verbose text) = more at h
    obtain ⟨first, left, hdashes⟩ : ∃ first left,
        openBracket.dashes verbose more.length [] more = (first, left) := ⟨_, _, rfl⟩
    have hfirst := proper_dashes hdashes (List.forall_mem_nil _)
    rw [hdashes] at h
    unfold afterDashes at h
    split at h
    · cases h
    · split at h
      · cases h
      · cases h
        exact bracketedAll_cons (RangeTable.ordered_ofPoints _) (List.forall_mem_nil _)
    · cases h
      exact hfirst

theorem ordered_namedClass (h : namedClass text = some ((table, negated), rest)) :
    table.Ordered := by
  unfold namedClass at h
  simp only [Option.bind_eq_bind, Option.bind_eq_some_iff] at h
  obtain ⟨inner, -, left, -, named, hnamed, h⟩ := h
  cases h
  exact ordered_asciiClass? hnamed

theorem proper_bracketSign (h : bracketSign properties flags text = some (sign, rest)) :
    sign.Proper := by
  unfold bracketSign at h
  split at h
  · cases h
  · exact proper_escaped h
  · cases h
    trivial

/-- The characters that a sign in brackets stands for by itself. -/
def Sign.single? (flags : Flags) : Sign → Option RangeTable
  | .char c => flags.admit? [(c.toNat, c.toNat)]
  | .anyOf table => some table
  | .look _ => none

theorem Sign.Proper.ordered_of_single? (h : sign.Proper)
    (hsingle : sign.single? flags = some table) : table.Ordered := by
  cases sign with
  | char c =>
    obtain rfl := Flags.eq_of_admit? hsingle
    exact RangeTable.ordered_singleton (Nat.le_refl _)
  | anyOf table =>
    cases hsingle
    exact h
  | look condition => cases hsingle

theorem ordered_bracketItem (h : bracketItem properties flags text = some (table, rest)) :
    table.Ordered := by
  unfold bracketItem at h
  simp only [Option.bind_eq_bind, Option.bind_eq_some_iff] at h
  obtain ⟨⟨low, left⟩, hlow, h⟩ := h
  have hproper := proper_bracketSign hlow
  have hsingle : ∀ left : Text,
      ((low.single? flags).bind fun single => some (single, left)) = some (table, rest) →
        table.Ordered := by
    intro left h
    obtain ⟨single, hsingle, heq⟩ := Option.bind_eq_some_iff.1 h
    cases heq
    exact hproper.ordered_of_single? hsingle
  dsimp only at h
  split at h
  · cases h
  · split at h
    · exact hsingle _ h
    · split at h
      · cases h
      · obtain ⟨⟨high, left'⟩, -, h⟩ := Option.bind_eq_some_iff.1 h
        split at h
        · split at h
          · next hle =>
            obtain ⟨range, hrange, heq⟩ := Option.bind_eq_some_iff.1 h
            cases heq
            obtain rfl := Flags.eq_of_admit? hrange
            exact RangeTable.ordered_singleton hle
          · cases h
        · cases h
  · exact hsingle _ h

theorem ordered_brackets {fuel : Nat}
    (h : brackets properties flags fuel frames items text = some (whole, rest))
    (hframes : ∀ frame ∈ frames, frame.Proper) (hitems : BracketedAll items) :
    whole.table.Ordered := by
  induction fuel generalizing frames items text with
  | zero => cases h
  | succ fuel ih =>
    have hpop := ordered_popOperand flags (ordered_ofItems hitems) hframes
    have hoperator : ∀ op rest', brackets properties flags fuel
        (.operand op (popOperand flags (.ofItems items) frames).1
          :: (popOperand flags (.ofItems items) frames).2) [] rest' = some (whole, rest) →
        whole.table.Ordered := fun op rest' h =>
      ih h (List.forall_mem_cons.2 ⟨hpop.1, hpop.2⟩) (List.forall_mem_nil _)
    unfold brackets at h
    dsimp only at h
    split at h
    · cases h
    · split at h
      · next hclass =>
        obtain ⟨table, htable, h⟩ := Option.bind_eq_some_iff.1 h
        exact ih h hframes
          (bracketedAll_cons (ordered_closed? htable (ordered_namedClass hclass)) hitems)
      · simp only [Option.bind_eq_bind, Option.bind_eq_some_iff] at h
        obtain ⟨⟨negated, inner, more⟩, hopen, h⟩ := h
        exact ih h (List.forall_mem_cons.2 ⟨hitems, hframes⟩) (proper_openBracket hopen)
    · split at h
      · next outer negated frames' hpopped =>
        rw [hpopped] at hpop
        obtain ⟨houter, hrest⟩ := List.forall_mem_cons.1 hpop.2
        obtain ⟨table, htable, h⟩ := Option.bind_eq_some_iff.1 h
        have hordered := ordered_closed? htable hpop.1
        split at h
        · cases h
          exact hordered
        · exact ih h hrest (bracketedAll_cons hordered houter)
      · cases h
    · exact hoperator _ _ h
    · exact hoperator _ _ h
    · exact hoperator _ _ h
    · simp only [Option.bind_eq_bind, Option.bind_eq_some_iff] at h
      obtain ⟨⟨table, left⟩, hitem, h⟩ := h
      exact ih h hframes (bracketedAll_cons (ordered_bracketItem hitem) hitems)

theorem ordered_bracketed (h : bracketed properties flags text = some (whole, rest)) :
    whole.table.Ordered := by
  unfold bracketed at h
  simp only [Option.bind_eq_bind, Option.bind_eq_some_iff] at h
  obtain ⟨⟨negated, items, more⟩, hopen, h⟩ := h
  exact ordered_brackets h (List.forall_mem_singleton.2 (List.forall_mem_nil _))
    (proper_openBracket hopen)

-- =============================================================== actions

/-- What is added is a proper expression, and what is repeated has bounds
that can be met. -/
def Action.Proper : Action → Prop
  | .add part => part.expr.Proper
  | .turns _ least most => ∀ m ∈ most, least ≤ m
  | _ => True

theorem le_of_countBounds {least : Nat} {most : Option Nat}
    (h : countBounds verbose text = some (least, most, rest)) : ∀ m ∈ most, least ≤ m := by
  unfold countBounds at h
  simp only [Option.bind_eq_bind, Option.bind_eq_some_iff] at h
  obtain ⟨least', -, ⟨most', more⟩, -, h⟩ := h
  dsimp only at h
  split at h
  · next hbounds =>
    cases h
    rw [Bool.and_eq_true, decide_eq_true_eq] at hbounds
    intro m hm
    rw [Option.mem_def.1 hm] at hbounds
    exact hbounds.1
  · cases h

theorem proper_opening? {action : Action} (h : opening? flags text = some (action, rest)) :
    action.Proper := by
  unfold opening? at h
  split at h
  · cases h
  · split at h
    · obtain ⟨found, -, heq⟩ := Option.map_eq_some_iff.1 h
      cases heq
      trivial
    · obtain ⟨⟨changed, opens, left⟩, -, heq⟩ := Option.map_eq_some_iff.1 h
      cases heq
      cases opens <;> trivial
    · cases h
      trivial

/-- What a sign asks for is proper. -/
theorem proper_action? {c : Char} {action : Action}
    (h : action? properties flags c text = some (action, rest)) : action.Proper := by
  unfold action? at h
  split at h
  case h_1 => exact proper_opening? h
  case h_4 =>
    obtain ⟨⟨whole, left⟩, hwhole, heq⟩ := Option.map_eq_some_iff.1 h
    cases heq
    exact Expr.proper_ofTable (ordered_bracketed hwhole) _
  case h_5 | h_6 | h_7 =>
    cases h
    simp [Action.Proper]
  case h_8 =>
    obtain ⟨⟨least, most, left⟩, hbounds, heq⟩ := Option.map_eq_some_iff.1 h
    cases heq
    exact le_of_countBounds hbounds
  case h_9 =>
    obtain ⟨⟨sign, left⟩, hsign, heq⟩ := Option.map_eq_some_iff.1 h
    cases heq
    exact (proper_escaped hsign).expr
  case h_10 =>
    obtain ⟨table, htable, heq⟩ := Option.map_eq_some_iff.1 h
    cases heq
    exact Expr.proper_ofTable (ordered_dotTable? htable) _
  case h_13 =>
    cases h
    exact Expr.proper_ofTable (RangeTable.ordered_ofPoints _) _
  all_goals
    cases h
    trivial

end ConditionTable.Pattern
