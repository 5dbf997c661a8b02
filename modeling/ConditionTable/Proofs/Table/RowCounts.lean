/-
Counts against expansions. Every count comes out of a check, so a count
that is there fits into a word (`countPaths_le`); it is also the exact
number of rows. Hence, where all groups below are fertile, a count is
missing for one reason only: the rows are too many for a word.

The condition is needed for that direction alone. Beside a group without
rows for an outcome, a count may be missing although there are no rows at
all, as the product has overflowed before the factor zero is reached.
-/
import ConditionTable.Proofs.Table.Counting

namespace ConditionTable

theorem le_of_checked {n count : Nat} (h : checked n = some count) : count ≤ maxCount := by
  rcases Nat.lt_or_ge maxCount n with hlarge | hsmall
  · rw [checked_of_lt hlarge] at h
    cases h
  · rw [checked_of_le hsmall] at h
    cases h
    exact hsmall

/-- A total that is there fits into a word, however many paths are
added. -/
theorem foldlM_addPath_le {tallies : List (Option Tally)} {paths : List Path} {total count : Nat}
    (htotal : total ≤ maxCount) (h : paths.foldlM (addPath tallies) total = some count) :
    count ≤ maxCount := by
  induction paths generalizing total with
  | nil =>
    obtain rfl : total = count := Option.some.inj h
    exact htotal
  | cons path paths ih =>
    rw [List.foldlM_cons] at h
    obtain ⟨next, hnext, hrest⟩ := Option.bind_eq_some_iff.1 h
    obtain ⟨rows, -, hchecked⟩ := Option.bind_eq_some_iff.1 hnext
    exact ih (le_of_checked hchecked) hrest

theorem countPaths_le {tallies : List (Option Tally)} {paths : List Path} {count : Nat}
    (h : countPaths tallies paths = some count) : count ≤ maxCount :=
  foldlM_addPath_le (Nat.zero_le maxCount) h

namespace Expression

/-- Whatever paths are counted, a count that is there is the number of
rows that they expand to. If each group below, at any depth, has rows for
both outcomes, the count is missing exactly if the number of rows does
not fit into a word of 64 bits. -/
theorem countRows_exact (expression : Expression) (paths : List Path) :
    (∀ count, expression.countRows paths = some count
        → count = (expression.expand paths).length)
      ∧ (expression.Fertile → (expression.countRows paths = none
        ↔ 2 ^ 64 ≤ (expression.expand paths).length)) := by
  have hcounted := expression.counted_countRows paths
  have hexact : ∀ count, expression.countRows paths = some count
      → count = (expression.expand paths).length := fun _ => hcounted.eq_of_some
  refine ⟨hexact, fun hfertile => ⟨fun hnone => ?_, fun hmany => ?_⟩⟩
  · rw [hnone] at hcounted
    cases hcounted with
    | tooMany htooMany => exact htooMany hfertile
  · cases hcount : expression.countRows paths with
    | none => rfl
    | some count =>
      have hle : count ≤ maxCount := countPaths_le hcount
      have hmost : maxCount < 2 ^ 64 := by decide
      rw [hexact count hcount] at hle
      omega

/-- A conjunction of 13 parities of six conditions each. -/
def manyParities : Expression :=
  ⟨List.replicate 12 .and,
    List.replicate 13 (.group (List.replicate 5 .xor)
      (List.replicate 6 (.leaf ⟨['k'], by decide, by decide⟩)))⟩

/-- Each parity holds in 32 ways. There are 416 ways for one of them to
fail, and more than a word can count for all of them to hold. -/
theorem countRows_exact_manyParities :
    (manyParities.expand (manyParities.paths false)).length = 416
      ∧ manyParities.Fertile
      ∧ 2 ^ 64 ≤ (manyParities.expand (manyParities.paths true)).length := by
  have hfertile : manyParities.Fertile := by decide +kernel
  have hfails : manyParities.countRows (manyParities.paths false) = some 416 := by decide +kernel
  have hholds : manyParities.countRows (manyParities.paths true) = none := by decide +kernel
  exact ⟨((countRows_exact manyParities _).1 416 hfails).symm, hfertile,
    ((countRows_exact manyParities _).2 hfertile).1 hholds⟩

end Expression

end ConditionTable
