/-
Expansion put plainly. What may stand in a row for an entry is listed by
recursion on the tree (`Entry.choices`): the condition with its cell; all
conditions of a group with free cells, once, when nothing is asked of the
group; or else the rows that the paths of the group for that outcome are
replaced by. A path is replaced by all ways of joining what may stand for
its cells (`Entry.joined`), and the rows of a level are those of its
fitting paths, path after path.

# Order

In `Entry.joined` the outer loop goes over what is joined of the entries
further right, and the inner one over the first entry. So the first entry
varies fastest: the `i`-th choice for it before the `j`-th way of joining
the rest stands at place `i + j * n`, where `n` counts the choices
(`Entry.getElem?_joined`).

# Rows and their conditions

Rows of an expression are cells alone. They are as long as the list of
conditions, so to put conditions and cells together loses nothing, and
the rows of a front and a back part are put together with the conditions
of each (`Entry.choices_eq`, `Entry.joined_eq`).
-/
import ConditionTable.Proofs.Analysis.Columns

namespace ConditionTable

/-- The cells of a row, each with the condition that it asks about. -/
abbrev LabelledRow := List (Condition × Cell)

namespace Entry

-- ============================================== the plain definition

mutual

/-- What may stand in a row for an entry of which a cell asks
something. -/
def choices : Entry → Cell → List LabelledRow
  | leaf condition, cell => [[(condition, cell)]]
  | group connectives entries, cell =>
      match cell.outcome? with
      | none => [(leavesAll entries).map (·, .free)]
      | some outcome =>
          ((levelPaths connectives entries.length outcome).filter fun path =>
            path.length == entries.length).flatMap fun path => joined entries path

/-- All ways of joining what may stand for the cells of a path. -/
def joined : List Entry → Path → List LabelledRow
  | [], [] => [[]]
  | entry :: entries, cell :: path =>
      (joined entries path).flatMap fun back => (entry.choices cell).map (· ++ back)
  | _, _ => []

end

-- ============================================================== order

/-- Blocks of one size: the place of an element counts whole blocks and
its place within the last one. -/
theorem getElem?_flatMap_of_length {α β : Type} {list : List α} {block : α → List β} {size : Nat}
    (hsize : ∀ a, (block a).length = size) {i j : Nat} {a : α} {b : β}
    (hlist : list[j]? = some a) (hblock : (block a)[i]? = some b) :
    (list.flatMap block)[i + j * size]? = some b := by
  induction list generalizing j with
  | nil => simp at hlist
  | cons head list ih =>
    rw [List.flatMap_cons]
    cases j with
    | zero =>
      obtain rfl : head = a := by simpa using hlist
      have hi : i < (block head).length := (List.getElem?_eq_some_iff.1 hblock).1
      rw [Nat.zero_mul, Nat.add_zero, List.getElem?_append_left hi, hblock]
    | succ j =>
      have hplace : i + (j + 1) * size = size + (i + j * size) := by
        rw [Nat.succ_mul]
        omega
      have hpast : (block head).length ≤ size + (i + j * size) := by
        rw [hsize]
        omega
      rw [hplace, List.getElem?_append_right hpast, hsize, Nat.add_sub_cancel_left]
      exact ih (by simpa using hlist)

/-- The first entry of a level varies fastest. -/
theorem getElem?_joined {entry : Entry} {entries : List Entry} {cell : Cell} {path : Path}
    {i j : Nat} {front back : LabelledRow} (hfront : (entry.choices cell)[i]? = some front)
    (hback : (joined entries path)[j]? = some back) :
    (joined (entry :: entries) (cell :: path))[i + j * (entry.choices cell).length]?
      = some (front ++ back) := by
  rw [joined]
  refine getElem?_flatMap_of_length (fun _ => List.length_map _) hback ?_
  rw [List.getElem?_map, hfront]
  rfl

-- ==================================================== rows of a tree

/-- The free row of a group has a free cell for each condition. -/
theorem zip_free_supply (connectives : List Connective) (entries : List Entry) :
    (leavesAll entries).zip (group connectives entries).supply.free
      = (leavesAll entries).map (·, .free) := by
  have hzip : ∀ conditions : List Condition,
      conditions.zip (List.replicate conditions.length Cell.free)
        = conditions.map (·, .free) := by
    intro conditions
    induction conditions with
    | nil => rfl
    | cons condition conditions ih =>
      rw [List.length_cons, List.replicate_succ, List.zip_cons_cons, ih, List.map_cons]
  have hcount : ((group connectives entries).truth (fun _ _ => false) []).arity
      = (leavesAll entries).length := by
    rw [arity_truth, length_leavesAll, leafCount]
  rw [free_supply (fun _ _ => false) [], hcount, hzip]

/-- The length of a row that an entry supplies. -/
theorem length_of_mem_rows_supply {entry : Entry} {cell : Cell} {row : Row}
    (h : row ∈ entry.supply.rows cell) : row.length = entry.leaves.length := by
  rw [entry.aligned_supply cell row h, free_supply (fun _ _ => false) [], List.length_replicate,
    arity_truth, length_leaves]

mutual

/-- The rows that an entry supplies, with their conditions, are what may
stand for it. -/
theorem choices_eq : (entry : Entry) → (cell : Cell) →
    entry.choices cell = (entry.supply.rows cell).map (entry.leaves.zip ·)
  | leaf condition, cell => by
      rw [rows_supply_leaf]
      rfl
  | group connectives entries, cell => by
      rcases cell.eq_free_or_ofBool with rfl | ⟨outcome, rfl⟩
      · exact congrArg (fun row => [row]) (zip_free_supply connectives entries).symm
      · have houtcome : (Cell.ofBool outcome).outcome? = some outcome := by cases outcome <;> rfl
        rw [choices, houtcome, rows_supply_group, growRows_eq, length_supplyAll, List.map_flatMap]
        exact List.flatMap_congr fun path _ => joined_eq entries path

/-- The combinations for a path, with their conditions, are all ways of
joining. -/
theorem joined_eq : (entries : List Entry) → (path : Path) →
    joined entries path
      = (combinations (supplyAll entries) path).map ((leavesAll entries).zip ·)
  | [], [] => rfl
  | [], _ :: _ => rfl
  | _ :: _, [] => rfl
  | entry :: entries, cell :: path => by
      rw [joined, joined_eq entries path, choices_eq entry cell, supplyAll, combinations,
        leavesAll, List.flatMap_map, List.map_flatMap]
      refine List.flatMap_congr fun back _ => ?_
      rw [List.map_map, List.map_map]
      refine List.map_congr_left fun front hfront => ?_
      exact (List.zip_append (length_of_mem_rows_supply hfront).symm).symm

end

end Entry

-- ========================================================= expressions

namespace Expression

/-- Whatever paths are expanded, the rows with their conditions are those
of the plain definition, in its order: for each path that has one cell
for each entry, all ways of joining what may stand for its cells, where
the first entry varies fastest and the last one slowest. -/
theorem expand_eq_joined (expression : Expression) (paths : List Path) :
    (expression.expand paths).map (expression.leaves.zip ·)
        = (paths.filter fun path => path.length == expression.entries.length).flatMap
            (Entry.joined expression.entries)
      ∧ (∀ row ∈ expression.expand paths, row.length = expression.leaves.length)
      ∧ ∀ (entry : Entry) (entries : List Entry) (cell : Cell) (path : Path) (i j : Nat)
          (front back : LabelledRow), (entry.choices cell)[i]? = some front →
          (Entry.joined entries path)[j]? = some back →
          (Entry.joined (entry :: entries) (cell :: path))[i + j * (entry.choices cell).length]?
            = some (front ++ back) := by
  refine ⟨?_, fun row hrow => ?_, fun _ _ _ _ _ _ _ _ => Entry.getElem?_joined⟩
  · rw [expand, growRows_eq, Entry.length_supplyAll, List.map_flatMap]
    exact List.flatMap_congr fun path _ => (Entry.joined_eq expression.entries path).symm
  · rw [length_of_mem_expand hrow]
    exact (Entry.length_leavesAll expression.entries).symm

/-- The expression `(s ^ t) && (u ^ v)`. -/
def twoParities : Expression :=
  ⟨[.and],
    [.group [.xor] [.leaf ⟨['s'], by decide, by decide⟩, .leaf ⟨['t'], by decide, by decide⟩],
      .group [.xor] [.leaf ⟨['u'], by decide, by decide⟩, .leaf ⟨['v'], by decide, by decide⟩]]⟩

/-- Both groups hold in two ways each. The left one varies fastest, so
the second way of both is the last row; a path of the wrong length counts
for nothing. -/
theorem expand_eq_joined_twoParities :
    twoParities.expand [[.holds], [.holds, .holds]]
        = [[.holds, .fails, .holds, .fails], [.fails, .holds, .holds, .fails],
          [.holds, .fails, .fails, .holds], [.fails, .holds, .fails, .holds]]
      ∧ (∀ row ∈ twoParities.expand [[.holds], [.holds, .holds]], row.length = 4)
      ∧ (Entry.joined twoParities.entries [.holds, .holds])[1 + 1 * 2]?.map (List.map Prod.snd)
        = some [.fails, .holds, .fails, .holds] := by
  obtain ⟨-, hlength, horder⟩ := expand_eq_joined twoParities [[.holds], [.holds, .holds]]
  refine ⟨by decide +kernel, hlength, ?_⟩
  have hplace := horder twoParities.entries[0] [twoParities.entries[1]] .holds [.holds] 1 1
    _ _ rfl rfl
  exact congrArg (Option.map (List.map Prod.snd)) hplace

end Expression

end ConditionTable
