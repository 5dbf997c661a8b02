/-
Range tables in order: no range is empty, each lies above the one before
it, and between them at least one code point is left out. All operations
on tables keep this order. In an ordered table a search that stops early
misses nothing, so inserting a range and the union of two tables do what
their names say (`holds_insert`, `holds_union`).
-/
import ConditionTable.Text.Fold
import ConditionTable.Text.Word
import ConditionTable.Text.Blank

namespace ConditionTable.RangeTable

/-- The table is in order, and begins at `low` or above. -/
def OrderedFrom : (low : Nat) → RangeTable → Prop
  | _, [] => True
  | low, (first, last) :: rest => low ≤ first ∧ first ≤ last ∧ OrderedFrom (last + 2) rest

/-- The table is in order. -/
structure Ordered (table : RangeTable) : Prop where
  from_zero : OrderedFrom 0 table

/-- Whether the table is in order, range by range. -/
def inOrder : (low : Nat) → RangeTable → Bool
  | _, [] => true
  | low, (first, last) :: rest => low ≤ first && first ≤ last && inOrder (last + 2) rest

variable {low high first last start n : Nat} {table left right : RangeTable}

theorem OrderedFrom.mono (h : OrderedFrom high table) (hle : low ≤ high) :
    OrderedFrom low table := by
  cases table with
  | nil => trivial
  | cons range table => exact ⟨Nat.le_trans hle h.1, h.2⟩

theorem OrderedFrom.ordered (h : OrderedFrom low table) : Ordered table :=
  ⟨h.mono (Nat.zero_le low)⟩

theorem orderedFrom_of_inOrder (h : inOrder low table = true) : OrderedFrom low table := by
  induction table generalizing low with
  | nil => trivial
  | cons range table ih =>
    simp only [inOrder, Bool.and_eq_true, decide_eq_true_eq] at h
    exact ⟨h.1.1, h.1.2, ih h.2⟩

theorem ordered_of_inOrder (h : inOrder 0 table = true) : Ordered table :=
  ⟨orderedFrom_of_inOrder h⟩

theorem ordered_nil : Ordered [] :=
  ⟨trivial⟩

theorem ordered_singleton (h : first ≤ last) : Ordered [(first, last)] :=
  ⟨Nat.zero_le _, h, trivial⟩

theorem holds_cons : holds ((first, last) :: table) n = true
    ↔ first ≤ n ∧ (n ≤ last ∨ table.holds n = true) := by
  simp [holds]

/-- An ordered table holds nothing below its beginning. -/
theorem OrderedFrom.le_of_holds (h : OrderedFrom low table) (hn : table.holds n = true) :
    low ≤ n := by
  cases table with
  | nil => cases hn
  | cons range table => exact Nat.le_trans h.1 (holds_cons.1 hn).1

-- ============================================================ operations

/-- A range that is inserted is in the table then, and no more. -/
theorem OrderedFrom.insert (h : OrderedFrom low table) (hlow : low ≤ first) (hle : first ≤ last) :
    OrderedFrom low (table.insert first last)
      ∧ ∀ n, (table.insert first last).holds n = true
        ↔ first ≤ n ∧ n ≤ last ∨ table.holds n = true := by
  induction table generalizing low first last with
  | nil => exact ⟨⟨hlow, hle, trivial⟩, fun n => by simp [RangeTable.insert, holds]⟩
  | cons range table ih =>
    obtain ⟨bottom, top⟩ := range
    obtain ⟨hbottom, hrange, hrest⟩ := h
    rw [RangeTable.insert]
    split
    · next hbelow =>
      refine ⟨⟨hlow, hle, by omega, hrange, hrest⟩, fun n => ?_⟩
      rw [holds_cons, holds_cons]
      grind
    · split
      · next habove =>
        obtain ⟨hordered, hholds⟩ := ih hrest (by omega : top + 2 ≤ first) hle
        refine ⟨⟨hbottom, hrange, hordered⟩, fun n => ?_⟩
        rw [holds_cons, holds_cons, hholds]
        grind
      · next hbelow habove =>
        -- the two ranges touch
        have hjoined : OrderedFrom (min first bottom) table := hrest.mono (by omega)
        obtain ⟨hordered, hholds⟩ := @ih _ (min first bottom) (max last top) hjoined
          (Nat.le_refl _) (by omega)
        refine ⟨hordered.mono (by omega), fun n => ?_⟩
        have hhigh := fun hn : RangeTable.holds table n = true => hrest.le_of_holds hn
        rw [hholds, holds_cons]
        grind

theorem Ordered.insert (h : Ordered table) (hle : first ≤ last) :
    Ordered (table.insert first last) :=
  (h.from_zero.insert (Nat.zero_le _) hle).1.ordered

theorem holds_insert (h : Ordered table) (hle : first ≤ last) :
    (table.insert first last).holds n = true ↔ first ≤ n ∧ n ≤ last ∨ table.holds n = true :=
  (h.from_zero.insert (Nat.zero_le _) hle).2 n

/-- Points may be added to a table one after the other. -/
theorem ordered_foldr_insert (points : List Nat) (h : Ordered table) :
    Ordered (points.foldr (fun n table => table.insert n n) table) := by
  induction points with
  | nil => exact h
  | cons n points ih => exact ih.insert (Nat.le_refl _)

theorem ordered_ofPoints (points : List Nat) : Ordered (ofPoints points) :=
  ordered_foldr_insert points ordered_nil

/-- The union of two tables. -/
theorem ordered_ofRanges (ranges : List (Char × Char)) : Ordered (ofRanges ranges) := by
  induction ranges with
  | nil => exact ordered_nil
  | cons range ranges ih => exact ih.insert (Nat.le_trans (Nat.min_le_left _ _) (Nat.le_max_left _ _))

theorem OrderedFrom.union (hleft : OrderedFrom low left) (hright : Ordered right) :
    Ordered (left.union right)
      ∧ ∀ n, (left.union right).holds n = true ↔ left.holds n = true ∨ right.holds n = true := by
  induction left generalizing low with
  | nil => exact ⟨hright, fun n => by simp [RangeTable.union, holds]⟩
  | cons range left ih =>
    obtain ⟨first, last⟩ := range
    obtain ⟨-, hrange, hrest⟩ := hleft
    obtain ⟨hordered, hholds⟩ := ih hrest
    have hunion : RangeTable.union ((first, last) :: left) right
        = RangeTable.insert first last (RangeTable.union left right) := rfl
    rw [hunion]
    refine ⟨hordered.insert hrange, fun n => ?_⟩
    have hhigh := fun hn : RangeTable.holds left n = true => hrest.le_of_holds hn
    rw [holds_insert hordered hrange, hholds, holds_cons]
    grind

theorem Ordered.union (hleft : Ordered left) (hright : Ordered right) :
    Ordered (left.union right) :=
  (hleft.from_zero.union hright).1

theorem holds_union (hleft : Ordered left) (hright : Ordered right) :
    (left.union right).holds n = true ↔ left.holds n = true ∨ right.holds n = true :=
  (hleft.from_zero.union hright).2 n

theorem OrderedFrom.complFrom (h : OrderedFrom start table) :
    OrderedFrom start (complFrom start table) := by
  induction table generalizing start with
  | nil =>
    rw [RangeTable.complFrom]
    split
    · next hstart => exact ⟨Nat.le_refl _, hstart, trivial⟩
    · trivial
  | cons range table ih =>
    obtain ⟨first, last⟩ := range
    obtain ⟨hfirst, hrange, hrest⟩ := h
    have hlater := ih (hrest.mono (Nat.le_succ (last + 1)))
    rw [RangeTable.complFrom]
    split
    · exact ⟨Nat.le_refl _, by omega, hlater.mono (by omega)⟩
    · exact hlater.mono (by omega)

theorem Ordered.compl (h : Ordered table) : Ordered table.compl :=
  (Ordered.insert h (by decide)).from_zero.complFrom.ordered

theorem Ordered.inter (hleft : Ordered left) (hright : Ordered right) :
    Ordered (left.inter right) :=
  (hleft.compl.union hright.compl).compl

theorem Ordered.diff (hleft : Ordered left) (hright : Ordered right) : Ordered (left.diff right) :=
  hleft.inter hright.compl

theorem Ordered.symmDiff (hleft : Ordered left) (hright : Ordered right) :
    Ordered (left.symmDiff right) :=
  (hleft.diff hright).union (hright.diff hleft)

theorem Ordered.folded (h : Ordered table) (runs : List FoldRun) : Ordered (table.folded runs) :=
  ordered_foldr_insert _ (ordered_foldr_insert _ h)

-- ================================================================ tables

theorem ordered_blanks : Ordered blanks :=
  ordered_of_inOrder (by decide +kernel)

theorem ordered_decimalDigits : Ordered decimalDigits :=
  ordered_of_inOrder (by decide +kernel)

theorem ordered_words : Ordered words := by
  have hmarks : Ordered wordMarks := ordered_of_inOrder (by decide +kernel)
  have hletters : Ordered letters := ordered_of_inOrder (by decide +kernel)
  rw [words]
  exact (hmarks.union ordered_decimalDigits).union hletters

/-- An ordered table that holds one code point and no other. -/
theorem Ordered.eq_singleton (h : Ordered table) (hne : table ≠ [])
    (hall : ∀ m, table.holds m = true → m = n) : table = [(n, n)] := by
  cases table with
  | nil => exact absurd rfl hne
  | cons range table =>
    obtain ⟨first, last⟩ := range
    obtain ⟨-, hrange, hrest⟩ := h.from_zero
    have hfirst := hall first (holds_cons.2 ⟨Nat.le_refl _, .inl hrange⟩)
    have hlast := hall last (holds_cons.2 ⟨hrange, .inl (Nat.le_refl _)⟩)
    cases table with
    | nil => rw [hfirst, hlast]
    | cons range table =>
      obtain ⟨hnext, hrange', -⟩ := hrest
      have hmore := hall range.1
        (holds_cons.2 ⟨by omega, .inr (holds_cons.2 ⟨Nat.le_refl _, .inl hrange'⟩)⟩)
      omega

end ConditionTable.RangeTable
