/-
How rows grow. The cells of a path are replaced from right to left, all
paths together; put plainly, each path with a cell for every entry grows
into all combinations of rows for its cells, path after path
(`growRows_eq`). The combinations of one path vary fastest at the left.

A combination is a row in parts, each supplied for its cell
(`mem_combinations_iff`). When the rows supplied for a cell are as long
as each other, the parts of a combination are known from it, and none is
made twice (`nodup_combinations`).
-/
import ConditionTable.Proofs.Table.Parts
import Mathlib.Data.List.Nodup

namespace ConditionTable

-- ======================================================== combinations

/-- All ways of joining a row for each cell of a path. -/
def combinations : List Supply → Path → List Row
  | [], [] => [[]]
  | supply :: supplies, cell :: path =>
      (combinations supplies path).flatMap fun back => (supply.rows cell).map (· ++ back)
  | _, _ => []

/-- A row that has been supplied for a cell. -/
def Supply.Offers (supply : Supply) (row : Row) (cell : Cell) : Prop :=
  row ∈ supply.rows cell

/-- All rows supplied are as long as the free one. -/
def Supply.Aligned (supply : Supply) : Prop :=
  ∀ cell, ∀ row ∈ supply.rows cell, row.length = supply.free.length

/-- The sprouts that grow from several are those that grow from each. -/
theorem foldr_extend_flatMap {α : Type} (supplies : List Supply) (sprouts : List α)
    (sprout : α → List Sprout) :
    supplies.foldr (fun supply sprouts => sprouts.flatMap supply.extend) (sprouts.flatMap sprout)
      = sprouts.flatMap fun a =>
          supplies.foldr (fun supply sprouts => sprouts.flatMap supply.extend) (sprout a) := by
  induction supplies with
  | nil => rfl
  | cons supply supplies ih => simp only [List.foldr_cons, ih, List.flatMap_assoc]

/-- What one sprout grows into while the cells of a path are replaced. -/
theorem foldr_extend_sprout (supplies : List Supply) (path cells : Path) (row : Row)
    (hlength : path.length = supplies.length) :
    supplies.foldr (fun supply sprouts => sprouts.flatMap supply.extend)
        [⟨path.reverse ++ cells, row⟩]
      = (combinations supplies path).map fun grown => ⟨cells, grown ++ row⟩ := by
  induction supplies generalizing path cells with
  | nil =>
    obtain rfl : path = [] := List.length_eq_zero_iff.1 hlength
    simp [combinations]
  | cons supply supplies ih =>
    cases path with
    | nil => simp at hlength
    | cons cell path =>
      have hrest := ih path (cell :: cells) (by simpa using hlength)
      rw [List.foldr_cons, List.reverse_cons, List.append_assoc, List.singleton_append, hrest]
      simp [combinations, Supply.extend, List.flatMap_map, List.map_flatMap, Function.comp_def]

/-- Each path grows into its combinations, path after path. -/
theorem growRows_eq (supplies : List Supply) (paths : List Path) :
    growRows supplies paths
      = (paths.filter fun path => path.length == supplies.length).flatMap
          (combinations supplies) := by
  have hsprouts : ∀ aligned : List Path,
      (aligned.map fun path => Sprout.mk path.reverse [])
        = aligned.flatMap fun path => [⟨path.reverse ++ [], []⟩] := by
    intro aligned
    simp [List.map_eq_flatMap]
  simp only [growRows, hsprouts, foldr_extend_flatMap, List.map_flatMap]
  refine List.flatMap_congr fun path hpath => ?_
  have hlength : path.length = supplies.length := by simpa using (List.mem_filter.1 hpath).2
  rw [foldr_extend_sprout supplies path [] [] hlength, List.map_map]
  simp only [Function.comp_def, List.append_nil, List.map_id']

/-- A combination is a row in parts, each supplied for its cell. -/
theorem mem_combinations_iff {supplies : List Supply} {path : Path} {row : Row} :
    row ∈ combinations supplies path ↔ InParts Supply.Offers supplies row path := by
  constructor
  · intro hrow
    induction supplies generalizing path row with
    | nil =>
      cases path with
      | nil =>
        obtain rfl : row = [] := by simpa [combinations] using hrow
        exact .nil
      | cons cell path => simp [combinations] at hrow
    | cons supply supplies ih =>
      cases path with
      | nil => simp [combinations] at hrow
      | cons cell path =>
        simp only [combinations, List.mem_flatMap, List.mem_map] at hrow
        obtain ⟨back, hback, front, hfront, rfl⟩ := hrow
        exact .cons hfront (ih hback)
  · intro hparts
    induction hparts with
    | nil => simp [combinations]
    | cons head _ ih =>
      simp only [combinations, List.mem_flatMap, List.mem_map]
      exact ⟨_, ih, _, head, rfl⟩

/-- The rows grown from paths that fit the level. -/
theorem mem_growRows_iff {supplies : List Supply} {paths : List Path} {row : Row} :
    row ∈ growRows supplies paths
      ↔ ∃ path ∈ paths, InParts Supply.Offers supplies row path := by
  simp only [growRows_eq, List.mem_flatMap, List.mem_filter, mem_combinations_iff, beq_iff_eq]
  constructor
  · intro h
    obtain ⟨path, ⟨hpath, -⟩, hparts⟩ := h
    exact ⟨path, hpath, hparts⟩
  · intro h
    obtain ⟨path, hpath, hparts⟩ := h
    exact ⟨path, ⟨hpath, hparts.length_path⟩, hparts⟩

/-- Of rows of known lengths no combination is made twice. -/
theorem nodup_combinations {supplies : List Supply} {path : Path}
    (hnodup : ∀ supply ∈ supplies, ∀ cell, (supply.rows cell).Nodup)
    (haligned : ∀ supply ∈ supplies, supply.Aligned) :
    (combinations supplies path).Nodup := by
  induction supplies generalizing path with
  | nil => cases path <;> simp [combinations]
  | cons supply supplies ih =>
    cases path with
    | nil => simp [combinations]
    | cons cell path =>
      have hrest : (combinations supplies path).Nodup :=
        ih (fun s hs => hnodup s (List.mem_cons_of_mem _ hs))
          (fun s hs => haligned s (List.mem_cons_of_mem _ hs))
      rw [combinations, List.nodup_flatMap]
      refine ⟨fun back _ => ?_, hrest.imp fun {back other} hne => ?_⟩
      · exact (hnodup supply List.mem_cons_self cell).map (List.append_left_injective back)
      · show List.Disjoint _ _
        intro row hrow hother
        obtain ⟨front, hfront, rfl⟩ := List.mem_map.1 hrow
        obtain ⟨front', hfront', heq⟩ := List.mem_map.1 hother
        have hsame : front'.length = front.length := by
          rw [haligned supply List.mem_cons_self cell front' hfront',
            haligned supply List.mem_cons_self cell front hfront]
        exact hne (List.append_inj heq hsame).2.symm

end ConditionTable
