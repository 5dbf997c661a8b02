/-
Rows in parts. The row of a level is the rows of its entries one after
the other, and a path of the level has a cell for each of them
(`InParts`). What holds between a part and its cell is a parameter: that
the part reads as the cell, that it does so tightly, or that it is a row
supplied for the cell.

# From the entries to the level

A part reads as a cell when the values it can give to its entry are those
that the cell allows (`ReadsAs`). So a row and the path it reads as leave
the same values to the entries (`InParts.admits_iff`), and force the same
outcomes of the level. A part is tight when no cell of it can be freed
without changing what it reads as. `prime_ofParts_iff` puts both
together: a row is prime for a level exactly if it is tight over a prime
path.

- If a cell of a prime row were not tight, it could be freed and the row
  would still read as the same path.
- If a cell of its path could be freed, so could any constrained cell of
  the part below it, and the part has one, since an entry that varies is
  not decided by a part that is free throughout.
-/
import ConditionTable.Proofs.Table.Truth

namespace ConditionTable

/-- A row in consecutive parts, one for each cell of a path, each related
to its cell. -/
inductive InParts {α : Type} (related : α → List Cell → Cell → Prop) :
    List α → List Cell → Path → Prop
  | nil : InParts related [] [] []
  | cons {part : α} {parts : List α} {front back : List Cell} {cell : Cell} {path : Path}
      (head : related part front cell) (tail : InParts related parts back path) :
      InParts related (part :: parts) (front ++ back) (cell :: path)

namespace InParts

variable {α β : Type} {related : α → List Cell → Cell → Prop}

theorem length_path {parts : List α} {cells : List Cell} {path : Path}
    (h : InParts related parts cells path) : path.length = parts.length := by
  induction h with
  | nil => rfl
  | cons _ _ ih => rw [List.length_cons, List.length_cons, ih]

/-- The parts of one kind are parts of another. -/
theorem imp {other : β → List Cell → Cell → Prop} {parts : List α} {others : List β}
    (himp : List.Forall₂ (fun part other_ => ∀ front cell, related part front cell
      → other other_ front cell) parts others)
    {cells : List Cell} {path : Path} (h : InParts related parts cells path) :
    InParts other others cells path := by
  induction h generalizing others with
  | nil =>
    cases himp
    exact .nil
  | cons head _ ih =>
    cases himp with
    | cons hhead htail => exact .cons (hhead _ _ head) (ih htail)

/-- The parts of two kinds that are the same. -/
theorem congr {other : β → List Cell → Cell → Prop} {parts : List α} {others : List β}
    (hiff : List.Forall₂ (fun part other_ => ∀ front cell, related part front cell
      ↔ other other_ front cell) parts others)
    {cells : List Cell} {path : Path} :
    InParts related parts cells path ↔ InParts other others cells path := by
  constructor
  · exact imp (hiff.imp fun _ _ h front cell => (h front cell).1)
  · exact imp (hiff.flip.imp fun _ _ h front cell => (h front cell).2)

end InParts

-- ============================================================== reading

namespace TruthFunction

/-- Under the cells the function takes just the values that the one cell
allows. -/
def ReadsAs (function : TruthFunction) (cells : List Cell) (cell : Cell) : Prop :=
  cells.length = function.arity
    ∧ ∀ value, cell.allows value = true
      ↔ ∃ values, Admits cells values ∧ function.value values = value

/-- The cells read as the cell, and would not with one of them freed. -/
structure Tight (function : TruthFunction) (cells : List Cell) (cell : Cell) : Prop where
  reads : function.ReadsAs cells cell
  minimal : ∀ looser, Loosens cells looser → ¬ function.ReadsAs looser cell

/-- The function takes both values. -/
def Varies (function : TruthFunction) : Prop :=
  function.ReadsAs (List.replicate function.arity .free) .free

variable {function : TruthFunction} {cells looser : List Cell} {cell other : Cell} {outcome : Bool}

/-- Cells read as some cell, since they leave at least one value. -/
theorem exists_readsAs (function : TruthFunction) {cells : List Cell}
    (hlength : cells.length = function.arity) :
    ∃ cell, function.ReadsAs cells cell := by
  obtain ⟨values, hadmits⟩ := exists_admits cells
  by_cases hforces : Forces function.value cells (function.value values)
  · refine ⟨.ofBool (function.value values), hlength, fun value => ?_⟩
    rw [Cell.allows_ofBool]
    constructor
    · intro heq
      obtain rfl := heq
      exact ⟨values, hadmits, rfl⟩
    · intro h
      obtain ⟨others, hothers, rfl⟩ := h
      exact hforces others hothers
  · obtain ⟨others, hothers, hne⟩ : ∃ others, Admits cells others
        ∧ function.value others ≠ function.value values := by
      simpa [Forces] using hforces
    refine ⟨.free, hlength, fun value => ⟨fun _ => ?_, fun _ => rfl⟩⟩
    by_cases hvalue : function.value values = value
    · exact ⟨values, hadmits, hvalue⟩
    · exact ⟨others, hothers, by rw [Bool.eq_not.2 hne, Bool.eq_not.2 hvalue, Bool.not_not]⟩

theorem ReadsAs.unique (h : function.ReadsAs cells cell) (hother : function.ReadsAs cells other) :
    cell = other :=
  Cell.eq_of_allows_iff fun value => (h.2 value).trans (hother.2 value).symm

/-- To read as an outcome is to force it. -/
theorem readsAs_ofBool_iff :
    function.ReadsAs cells (.ofBool outcome)
      ↔ cells.length = function.arity ∧ Forces function.value cells outcome := by
  refine and_congr_right fun _ => ⟨fun h values hadmits => ?_, fun h value => ?_⟩
  · exact (Cell.allows_ofBool _ _).1 ((h _).2 ⟨values, hadmits, rfl⟩)
  · rw [Cell.allows_ofBool]
    constructor
    · intro heq
      obtain rfl := heq
      obtain ⟨values, hadmits⟩ := exists_admits cells
      exact ⟨values, hadmits, h values hadmits⟩
    · intro h
      obtain ⟨values, hadmits, rfl⟩ := h
      exact h values hadmits

/-- Freed cells leave the values they left before. -/
theorem ReadsAs.allows_of_loosens (h : function.ReadsAs cells cell)
    (hlooser : function.ReadsAs looser other) (hloosens : Loosens cells looser) {value : Bool}
    (hvalue : cell.allows value = true) : other.allows value = true := by
  obtain ⟨values, hadmits, heq⟩ := (h.2 value).1 hvalue
  exact (hlooser.2 value).2 ⟨values, hloosens.admits hadmits, heq⟩

/-- A tight part for an outcome is a prime one. -/
theorem tight_ofBool_iff :
    function.Tight cells (.ofBool outcome) ↔ function.Prime cells outcome := by
  constructor
  · intro h
    obtain ⟨hreads, hminimal⟩ := h
    obtain ⟨hlength, hforces⟩ := readsAs_ofBool_iff.1 hreads
    refine ⟨hlength, hforces, fun looser hloosens hlooser => hminimal looser hloosens ?_⟩
    exact readsAs_ofBool_iff.2 ⟨by rw [hloosens.length_eq, hlength], hlooser⟩
  · intro h
    obtain ⟨hlength, hforces, hminimal⟩ := h
    refine ⟨readsAs_ofBool_iff.2 ⟨hlength, hforces⟩, fun looser hloosens hlooser => ?_⟩
    exact hminimal looser hloosens (readsAs_ofBool_iff.1 hlooser).2

/-- A tight part that decides nothing is free throughout. -/
theorem Varies.tight_free_iff (hvaries : function.Varies) :
    function.Tight cells .free ↔ cells = List.replicate function.arity .free := by
  constructor
  · intro h
    obtain ⟨hreads, hminimal⟩ := h
    rcases eq_replicate_free_or_loosens cells with hfree | ⟨looser, hloosens⟩
    · rw [hfree, hreads.1]
    · have hlength : looser.length = function.arity := by rw [hloosens.length_eq, hreads.1]
      obtain ⟨cell, hcell⟩ := function.exists_readsAs hlength
      have hfree : cell = .free := Cell.eq_of_allows_iff fun value =>
        ⟨fun _ => rfl, hreads.allows_of_loosens hcell hloosens⟩
      exact absurd (hfree ▸ hcell) (hminimal looser hloosens)
  · intro heq
    obtain rfl := heq
    exact ⟨hvaries, fun looser hloosens => absurd hloosens not_loosens_replicate_free⟩

/-- A part that decides its entry has a constrained cell. -/
theorem Varies.exists_loosens (hvaries : function.Varies) (hreads : function.ReadsAs cells cell)
    (hcell : cell ≠ .free) : ∃ looser, Loosens cells looser := by
  rcases eq_replicate_free_or_loosens cells with hfree | hloosens
  · have hall : cells = List.replicate function.arity .free := by rw [hfree, hreads.1]
    subst hall
    exact absurd (hreads.unique hvaries) hcell
  · exact hloosens

/-- A tight part that decides its entry no longer does when a cell is
freed. -/
theorem Tight.readsAs_free (htight : function.Tight cells cell) (hloosens : Loosens cells looser) :
    cell ≠ .free ∧ function.ReadsAs looser .free := by
  have hlength : looser.length = function.arity := by rw [hloosens.length_eq, htight.reads.1]
  obtain ⟨other, hother⟩ := function.exists_readsAs hlength
  have hallows : ∀ value, cell.allows value = true → other.allows value = true :=
    fun _ => htight.reads.allows_of_loosens hother hloosens
  have hne : other ≠ cell := fun heq => htight.minimal looser hloosens (heq ▸ hother)
  rcases cell.eq_free_or_ofBool with rfl | ⟨asked, rfl⟩
  · exact absurd (Cell.eq_of_allows_iff fun value => ⟨fun _ => rfl, hallows value⟩) hne
  · refine ⟨Cell.ofBool_ne_free asked, ?_⟩
    rcases other.eq_free_or_ofBool with rfl | ⟨left, rfl⟩
    · exact hother
    · have hleft : asked = left := by simpa using hallows asked (by simp)
      exact absurd (by rw [hleft]) hne

end TruthFunction

-- ======================================================= rows and paths

open TruthFunction (ReadsAs Tight Varies)

variable {parts : List TruthFunction} {cells looser : List Cell} {path : Path} {outcome : Bool}

theorem InParts.length_cells (h : InParts ReadsAs parts cells path) :
    cells.length = (parts.map TruthFunction.arity).sum := by
  induction h with
  | nil => rfl
  | cons head _ ih => rw [List.length_append, head.1, ih, List.map_cons, List.sum_cons]

/-- A row of the right length reads as some path. -/
theorem exists_reads (hlength : cells.length = (parts.map TruthFunction.arity).sum) :
    ∃ path, InParts ReadsAs parts cells path := by
  induction parts generalizing cells with
  | nil =>
    obtain rfl : cells = [] := List.length_eq_zero_iff.1 (by simpa using hlength)
    exact ⟨[], .nil⟩
  | cons part parts ih =>
    rw [List.map_cons, List.sum_cons] at hlength
    have hfront : (cells.take part.arity).length = part.arity := by
      rw [List.length_take]
      omega
    have hback : (cells.drop part.arity).length = (parts.map TruthFunction.arity).sum := by
      rw [List.length_drop]
      omega
    obtain ⟨cell, hcell⟩ := part.exists_readsAs hfront
    obtain ⟨path, hpath⟩ := ih hback
    refine ⟨cell :: path, ?_⟩
    rw [← List.take_append_drop part.arity cells]
    exact .cons hcell hpath

/-- A row reads as one path only. -/
theorem InParts.unique {other : Path} (h : InParts ReadsAs parts cells path)
    (hother : InParts ReadsAs parts cells other) : path = other := by
  induction h generalizing other with
  | nil =>
    cases hother
    rfl
  | @cons part parts front back cell path head tail ih =>
    generalize hcells : front ++ back = cells at hother
    cases hother with
    | @cons _ _ front' back' cell' path' head' tail' =>
      obtain ⟨rfl, rfl⟩ := List.append_inj hcells (by rw [head.1, head'.1])
      rw [head.unique head', ih tail']

/-- A row leaves to the entries the values that its path allows. -/
theorem InParts.admits_iff (h : InParts ReadsAs parts cells path) {values : List Bool} :
    Admits path values
      ↔ ∃ assignment, Admits cells assignment
          ∧ TruthFunction.values parts assignment = values := by
  induction h generalizing values with
  | nil => simp [TruthFunction.values, eq_comm]
  | @cons part parts front back cell path head tail ih =>
    constructor
    · intro hadmits
      cases values with
      | nil => simp [Admits] at hadmits
      | cons value values =>
        rw [admits_cons_cons] at hadmits
        obtain ⟨here, hhere, hvalue⟩ := (head.2 value).1 hadmits.1
        obtain ⟨there, hthere, hvalues⟩ := ih.1 hadmits.2
        have hlength : part.arity = here.length := by rw [← head.1, hhere.length_eq]
        refine ⟨here ++ there, ?_, ?_⟩
        · exact List.rel_append hhere hthere
        · rw [TruthFunction.values, hlength, List.take_left, List.drop_left, hvalue, hvalues]
    · intro h
      obtain ⟨assignment, hadmits, rfl⟩ := h
      rw [admits_append_iff, head.1] at hadmits
      rw [TruthFunction.values, admits_cons_cons]
      exact ⟨(head.2 _).2 ⟨_, hadmits.1, rfl⟩, ih.2 ⟨_, hadmits.2, rfl⟩⟩

/-- A row forces what its path forces. -/
theorem InParts.forces_iff (h : InParts ReadsAs parts cells path) (value : List Bool → Bool) :
    Forces (fun assignment => value (TruthFunction.values parts assignment)) cells outcome
      ↔ Forces value path outcome := by
  constructor
  · intro hforces values hadmits
    obtain ⟨assignment, hassignment, rfl⟩ := h.admits_iff.1 hadmits
    exact hforces assignment hassignment
  · intro hforces assignment hadmits
    exact hforces _ (h.admits_iff.2 ⟨assignment, hadmits, rfl⟩)

/-- A row that reads as a path, and does not with a cell freed, is tight
over it. -/
theorem InParts.tight_of_minimal (h : InParts ReadsAs parts cells path)
    (hminimal : ∀ looser, Loosens cells looser → ¬ InParts ReadsAs parts looser path) :
    InParts Tight parts cells path := by
  induction h with
  | nil => exact .nil
  | cons head tail ih =>
    refine .cons ⟨head, fun looser hloosens hlooser => ?_⟩ (ih fun looser hloosens hlooser => ?_)
    · exact hminimal _ (hloosens.append_right _) (.cons hlooser tail)
    · exact hminimal _ (hloosens.append_left _) (.cons head hlooser)

theorem InParts.reads (h : InParts Tight parts cells path) : InParts ReadsAs parts cells path :=
  h.imp (List.forall₂_same.2 fun _ _ _ _ htight => htight.reads)

/-- To free a cell of a tight row is to free one of its path. -/
theorem InParts.loosens_path (h : InParts Tight parts cells path)
    (hloosens : Loosens cells looser) :
    ∃ looserPath, Loosens path looserPath ∧ InParts ReadsAs parts looser looserPath := by
  induction h generalizing looser with
  | nil => cases hloosens
  | cons head tail ih =>
    rcases loosens_append hloosens with ⟨front, hfront, rfl⟩ | ⟨back, hback, rfl⟩
    · obtain ⟨constrained, hfree⟩ := head.readsAs_free hfront
      exact ⟨_, .here constrained, .cons hfree tail.reads⟩
    · obtain ⟨looserPath, hpath, hread⟩ := ih hback
      exact ⟨_, .there hpath, .cons head.reads hread⟩

/-- To free a cell of a path some cell of the row may be freed, and what
the row then reads as allows no more. -/
theorem InParts.exists_loosens (h : InParts ReadsAs parts cells path)
    (hvaries : ∀ part ∈ parts, part.Varies) {looserPath : Path}
    (hloosens : Loosens path looserPath) :
    ∃ looser read, Loosens cells looser ∧ InParts ReadsAs parts looser read
      ∧ ∀ values, Admits read values → Admits looserPath values := by
  induction h generalizing looserPath with
  | nil => cases hloosens
  | @cons part parts front back cell path head tail ih =>
    rcases hloosens with constrained | hloosens
    · obtain ⟨looser, hlooser⟩ :=
        (hvaries part List.mem_cons_self).exists_loosens head constrained
      have hlength : looser.length = part.arity := by rw [hlooser.length_eq, head.1]
      obtain ⟨left, hleft⟩ := part.exists_readsAs hlength
      refine ⟨looser ++ back, left :: path, hlooser.append_right _, .cons hleft tail, ?_⟩
      intro values hadmits
      cases values with
      | nil => simp [Admits] at hadmits
      | cons value values =>
        rw [admits_cons_cons] at hadmits ⊢
        exact ⟨rfl, hadmits.2⟩
    · obtain ⟨looser, read, hlooser, hread, hadmits⟩ :=
        ih (fun part hpart => hvaries part (List.mem_cons_of_mem _ hpart)) hloosens
      refine ⟨front ++ looser, cell :: read, hlooser.append_left _, .cons head hread, ?_⟩
      intro values h
      cases values with
      | nil => simp [Admits] at h
      | cons value values =>
        rw [admits_cons_cons] at h ⊢
        exact ⟨h.1, hadmits _ h.2⟩

/-- A row is prime for a level exactly if it is tight over a prime
path. -/
theorem prime_ofParts_iff (hvaries : ∀ part ∈ parts, part.Varies) (value : List Bool → Bool) :
    TruthFunction.Prime ⟨(parts.map TruthFunction.arity).sum, fun assignment =>
        value (TruthFunction.values parts assignment)⟩ cells outcome
      ↔ ∃ path, TruthFunction.Prime ⟨parts.length, value⟩ path outcome
          ∧ InParts Tight parts cells path := by
  constructor
  · intro hprime
    obtain ⟨path, hreads⟩ := exists_reads hprime.length
    have hforces := (hreads.forces_iff value).1 hprime.forces
    refine ⟨path, ⟨hreads.length_path, hforces, fun looserPath hloosens hlooser => ?_⟩,
      hreads.tight_of_minimal fun looser hloosens hlooser => ?_⟩
    · obtain ⟨looser, read, hfreed, hread, hadmits⟩ := hreads.exists_loosens hvaries hloosens
      refine hprime.minimal looser hfreed ((hread.forces_iff value).2 fun values h => ?_)
      exact hlooser values (hadmits values h)
    · exact hprime.minimal looser hloosens ((hlooser.forces_iff value).2 hforces)
  · intro h
    obtain ⟨path, hprime, htight⟩ := h
    refine ⟨htight.reads.length_cells, (htight.reads.forces_iff value).2 hprime.forces,
      fun looser hloosens hlooser => ?_⟩
    obtain ⟨looserPath, hpath, hread⟩ := htight.loosens_path hloosens
    exact hprime.minimal looserPath hpath ((hread.forces_iff value).1 hlooser)

end ConditionTable
