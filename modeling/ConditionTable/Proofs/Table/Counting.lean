/-
Counting rows without making them. A path grows into as many rows as the
product of what is supplied for its cells (`length_combinations`), and
the rows of several paths add up. The count multiplies and adds the same
numbers, but gives up at the first result that is too great. So a count
that is there is exact (`Counted.eq_of_some`).

# What a missing count says

A product that has grown too great may still be brought back to zero by a
factor further on, and the count does not look at that factor any more.
Only a group without rows for an outcome is such a factor. Hence the
condition in `Counted.tooMany`: where all groups below are fertile, no
partial product is greater than what it ends in, and a missing count
means that there are too many rows. One factor keeps the invariant
(`counted_multiply`), and so do a path and a level;
`Entry.tells_tally` puts them together along the tree.
-/
import ConditionTable.Analyzer
import ConditionTable.Proofs.Table.Soundness
import ConditionTable.Proofs.Tree.Levels

namespace ConditionTable

variable {fertile : Prop}

-- =============================================================== lengths

/-- A combination is chosen for each cell on its own. -/
theorem length_combinations (supply : Supply) (supplies : List Supply) (cell : Cell)
    (path : Path) :
    (combinations (supply :: supplies) (cell :: path)).length
      = (supply.rows cell).length * (combinations supplies path).length := by
  rw [combinations, List.length_flatMap]
  simp only [List.length_map, List.map_const', List.sum_replicate_nat]
  exact Nat.mul_comm _ _

/-- There is a combination if something is supplied for each cell. -/
theorem length_combinations_pos {supplies : List Supply} {path : Path}
    (hsupplies : ∀ supply ∈ supplies, ∀ cell, supply.rows cell ≠ [])
    (hlength : path.length = supplies.length) : 0 < (combinations supplies path).length := by
  induction supplies generalizing path with
  | nil =>
    obtain rfl : path = [] := List.length_eq_zero_iff.1 hlength
    exact Nat.one_pos
  | cons supply supplies ih =>
    rw [List.forall_mem_cons] at hsupplies
    cases path with
    | nil => simp at hlength
    | cons cell path =>
      rw [length_combinations]
      exact Nat.mul_pos (List.length_pos_iff.2 (hsupplies.1 cell))
        (ih hsupplies.2 (by simpa using hlength))

-- ================================================================ counts

/-- What a count says about the number it stands for. A count that is
there is this number; one that is missing says that the number is too
great, as long as the groups below are fertile. -/
inductive Counted (fertile : Prop) (exact : Nat) : Option Nat → Prop
  | exactly : Counted fertile exact (some exact)
  | tooMany (tooMany : fertile → maxCount < exact) : Counted fertile exact none

theorem checked_of_le {n : Nat} (h : n ≤ maxCount) : checked n = some n :=
  if_pos h

theorem checked_of_lt {n : Nat} (h : maxCount < n) : checked n = none :=
  if_neg (Nat.not_le_of_gt h)

theorem counted_checked (fertile : Prop) (n : Nat) : Counted fertile n (checked n) := by
  rcases Nat.lt_or_ge maxCount n with h | h
  · rw [checked_of_lt h]
    exact .tooMany fun _ => h
  · rw [checked_of_le h]
    exact .exactly

/-- A count that is there is the number. -/
theorem Counted.eq_of_some {n count : Nat} {count? : Option Nat} (h : Counted fertile n count?)
    (hsome : count? = some count) : count = n := by
  cases h with
  | exactly => exact (Option.some.inj hsome).symm
  | tooMany => cases hsome

/-- A next step that keeps the number, or makes it no smaller. -/
theorem Counted.bind {n total : Nat} {count? : Option Nat} {next : Nat → Option Nat}
    (h : Counted fertile n count?) (hle : fertile → n ≤ total)
    (hnext : Counted fertile total (next n)) : Counted fertile total (count?.bind next) := by
  cases h with
  | exactly => exact hnext
  | tooMany htooMany =>
    exact .tooMany fun hfertile => Nat.lt_of_lt_of_le (htooMany hfertile) (hle hfertile)

-- ================================================================= paths

/-- The tally of an entry tells what the entry supplies. -/
structure Tells (fertile : Prop) (tally? : Option Tally) (supply : Supply) : Prop where
  counted : ∀ cell, Counted fertile (supply.rows cell).length ((factor? tally? cell).getD (some 1))
  ne_nil : fertile → ∀ cell, supply.rows cell ≠ []

/-- Multiplies by the factor for one cell. -/
def multiply (product : Nat) (place : Option Tally × Cell) : Option Nat :=
  match factor? place.1 place.2 with
  | none => some product
  | some factor? => factor?.bind fun factor => checked (product * factor)

/-- Adds the number of rows of one path. -/
def addPath (tallies : List (Option Tally)) (total : Nat) (path : Path) : Option Nat :=
  (countPath tallies path).bind fun count => checked (total + count)

variable {tallies : List (Option Tally)} {supplies : List Supply}

theorem counted_multiply {tally? : Option Tally} {supply : Supply}
    (htells : Tells fertile tally? supply) (cell : Cell) {product : Nat}
    (hpos : fertile → 0 < product) :
    Counted fertile (product * (supply.rows cell).length) (multiply product (tally?, cell)) := by
  have hcounted := htells.counted cell
  unfold multiply
  cases hfactor : factor? tally? cell with
  | none =>
    rw [hfactor] at hcounted
    generalize (supply.rows cell).length = n at hcounted ⊢
    cases hcounted
    rw [Nat.mul_one]
    exact .exactly
  | some factor? =>
    rw [hfactor] at hcounted
    exact hcounted.bind (fun hfertile => Nat.le_mul_of_pos_left _ (hpos hfertile))
      (counted_checked fertile _)

theorem ne_nil_of_tells (htells : List.Forall₂ (Tells fertile) tallies supplies)
    (hfertile : fertile) : ∀ supply ∈ supplies, ∀ cell, supply.rows cell ≠ [] := by
  induction htells with
  | nil => simp
  | cons hhead _ ih => exact List.forall_mem_cons.2 ⟨hhead.ne_nil hfertile, ih⟩

/-- The product along a path, begun at any number. -/
theorem counted_foldlM_multiply (htells : List.Forall₂ (Tells fertile) tallies supplies)
    {path : Path} (hlength : path.length = supplies.length) {product : Nat}
    (hpos : fertile → 0 < product) :
    Counted fertile (product * (combinations supplies path).length)
      ((tallies.zip path).foldlM multiply product) := by
  induction htells generalizing path product with
  | nil =>
    obtain rfl : path = [] := List.length_eq_zero_iff.1 hlength
    show Counted fertile (product * 1) (some product)
    rw [Nat.mul_one]
    exact .exactly
  | @cons tally? supply tallies supplies hhead htail ih =>
    cases path with
    | nil => simp at hlength
    | cons cell path =>
      have hlength : path.length = supplies.length := by simpa using hlength
      have hproduct : fertile → 0 < product * (supply.rows cell).length := fun hfertile =>
        Nat.mul_pos (hpos hfertile) (List.length_pos_iff.2 (hhead.ne_nil hfertile cell))
      have hle : fertile → product * (supply.rows cell).length
          ≤ product * (supply.rows cell).length * (combinations supplies path).length :=
        fun hfertile => Nat.le_mul_of_pos_right _
          (length_combinations_pos (ne_nil_of_tells htail hfertile) hlength)
      rw [length_combinations, ← Nat.mul_assoc, List.zip_cons_cons, List.foldlM_cons]
      exact (counted_multiply hhead cell hpos).bind hle (ih hlength hproduct)

theorem counted_countPath (htells : List.Forall₂ (Tells fertile) tallies supplies)
    {path : Path} (hlength : path.length = supplies.length) :
    Counted fertile (combinations supplies path).length (countPath tallies path) := by
  rw [← Nat.one_mul (combinations supplies path).length]
  exact counted_foldlM_multiply htells hlength fun _ => Nat.one_pos

/-- The sum over paths, begun at any number. -/
theorem counted_foldlM_addPath {paths : List Path}
    (hpaths : ∀ path ∈ paths,
      Counted fertile (combinations supplies path).length (countPath tallies path))
    (total : Nat) :
    Counted fertile (total + (paths.flatMap (combinations supplies)).length)
      (paths.foldlM (addPath tallies) total) := by
  induction paths generalizing total with
  | nil => exact .exactly
  | cons path paths ih =>
    rw [List.forall_mem_cons] at hpaths
    have hadd : Counted fertile (total + (combinations supplies path).length)
        (addPath tallies total path) :=
      hpaths.1.bind (fun _ => Nat.le_add_left _ _) (counted_checked fertile _)
    rw [List.flatMap_cons, List.length_append, ← Nat.add_assoc, List.foldlM_cons]
    exact hadd.bind (fun _ => Nat.le_add_right _ _) (ih hpaths.2 _)

/-- Whatever paths are counted, it is their rows that the count is
about. -/
theorem counted_countPaths (htells : List.Forall₂ (Tells fertile) tallies supplies)
    (paths : List Path) :
    Counted fertile (growRows supplies paths).length (countPaths tallies paths) := by
  rw [growRows_eq, ← Nat.zero_add (List.length _)]
  unfold countPaths
  rw [htells.length_eq]
  refine counted_foldlM_addPath (fun path hpath => counted_countPath htells ?_) 0
  simpa using (List.mem_filter.1 hpath).2

-- ================================================================== trees

namespace Entry

mutual

/-- An entry's tally tells what it supplies, where groups without rows
for some outcome keep it from being fertile. -/
theorem tells_tally : (entry : Entry) →
    (∀ level ∈ entry.levels, ∀ outcome, fertile → level.rows outcome ≠ []) →
      Tells fertile entry.tally entry.supply
  | leaf condition, _ => by
      constructor
      · intro cell
        rw [rows_supply_leaf]
        exact .exactly
      · intro _ cell
        rw [rows_supply_leaf]
        exact List.cons_ne_nil _ _
  | group connectives entries, hlevels => by
      rw [levels, List.forall_mem_cons] at hlevels
      have htells := tells_tallyAll entries hlevels.2
      have hlength : (tallyAll entries).length = (supplyAll entries).length := htells.length_eq
      constructor
      · intro cell
        rcases cell.eq_free_or_ofBool with rfl | ⟨outcome, rfl⟩
        · exact .exactly
        · have hcounted := counted_countPaths htells
            (levelPaths connectives (supplyAll entries).length outcome)
          rw [rows_supply_group]
          rw [← hlength] at hcounted ⊢
          cases outcome <;> exact hcounted
      · intro hfertile cell
        rcases cell.eq_free_or_ofBool with rfl | ⟨outcome, rfl⟩
        · exact List.cons_ne_nil _ _
        · have hrows := hlevels.1 outcome hfertile
          rw [Expression.rows_eq] at hrows
          rw [rows_supply_group]
          exact hrows

theorem tells_tallyAll : (entries : List Entry) →
    (∀ level ∈ levelsAll entries, ∀ outcome, fertile → level.rows outcome ≠ []) →
      List.Forall₂ (Tells fertile) (tallyAll entries) (supplyAll entries)
  | [], _ => .nil
  | entry :: entries, hlevels => by
      rw [levelsAll, List.forall_mem_append] at hlevels
      exact .cons (tells_tally entry hlevels.1) (tells_tallyAll entries hlevels.2)

end

end Entry

namespace Expression

variable {expression : Expression}

/-- Each group below has rows for both outcomes. -/
def Fertile (expression : Expression) : Prop :=
  ∀ level ∈ Entry.levelsAll expression.entries, ∀ outcome, level.rows outcome ≠ []

instance (expression : Expression) : Decidable expression.Fertile :=
  inferInstanceAs
    (Decidable (∀ level ∈ Entry.levelsAll expression.entries, ∀ outcome, level.rows outcome ≠ []))

/-- The count of the rows that given paths grow into. -/
theorem counted_countRows (expression : Expression) (paths : List Path) :
    Counted expression.Fertile (expression.expand paths).length (expression.countRows paths) :=
  counted_countPaths
    (Entry.tells_tallyAll expression.entries fun level hlevel outcome hfertile =>
      hfertile level hlevel outcome)
    paths

/-- The number of rows of both outcomes. -/
def rowTotal (expression : Expression) : Nat :=
  (expression.rows true).length + (expression.rows false).length

/-- What is counted of both outcomes is their number of rows, as far as
there are counts. Only where a count is missing and a group below has no
rows for some outcome, the greatest count may stand for fewer. -/
theorem totalRows_cases (expression : Expression) :
    Analyzer.totalRows expression = min expression.rowTotal maxCount
      ∨ Analyzer.totalRows expression = maxCount ∧ ¬ expression.Fertile
        ∧ ∃ outcome, expression.rowCount outcome = none := by
  have hcounted : ∀ outcome, Counted expression.Fertile (expression.rows outcome).length
      (expression.rowCount outcome) := fun outcome =>
    expression.counted_countRows (expression.paths outcome)
  have hmissing : ∀ outcome, expression.rowCount outcome = none →
      (expression.rows outcome).length ≤ expression.rowTotal →
        maxCount = min expression.rowTotal maxCount
          ∨ maxCount = maxCount ∧ ¬ expression.Fertile
            ∧ ∃ outcome, expression.rowCount outcome = none := by
    intro outcome hnone hle
    by_cases hfertile : expression.Fertile
    · have htooMany : maxCount < (expression.rows outcome).length := by
        have h := hcounted outcome
        rw [hnone] at h
        cases h with
        | tooMany htooMany => exact htooMany hfertile
      exact .inl (Nat.min_eq_right (by omega)).symm
    · exact .inr ⟨rfl, hfertile, outcome, hnone⟩
  unfold Analyzer.totalRows
  cases htrue : expression.rowCount true with
  | none => exact hmissing true htrue (Nat.le_add_right _ _)
  | some whenTrue =>
    cases hfalse : expression.rowCount false with
    | none => exact hmissing false hfalse (Nat.le_add_left _ _)
    | some whenFalse =>
      have hsum : whenTrue + whenFalse = expression.rowTotal := by
        rw [(hcounted true).eq_of_some htrue, (hcounted false).eq_of_some hfalse]
        rfl
      left
      show (checked (whenTrue + whenFalse)).getD maxCount = _
      rw [hsum]
      rcases Nat.lt_or_ge maxCount expression.rowTotal with h | h
      · rw [checked_of_lt h, Nat.min_eq_right (Nat.le_of_lt h)]
        rfl
      · rw [checked_of_le h, Nat.min_eq_left h]
        rfl

end Expression

end ConditionTable
