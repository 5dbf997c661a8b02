/-
Every row is sound: whatever values the conditions take, if they agree
with the constrained cells of a row for an outcome then the expression
has that outcome. This asks nothing of the expression. A level that mixes
connectives, or has no entries, or several and no connective, may mean
anything: a row that needs an outcome of it does not exist, and a row
that leaves it free does not depend on it.

# The climb

What an entry supplies for a cell is sound when it is as long as the
entry has conditions and its values are values that the cell allows
(`Supply.Sound`). Sound parts make a row whose entries' values agree with
the path (`InParts.admits_of_sound`), and the path forces the outcome of
the level, so a level of sound entries is sound (`sound_supply`).
-/
import ConditionTable.Proofs.Table.Growth
import ConditionTable.Proofs.Table.Levels

namespace ConditionTable

-- ========================================================= sound supply

/-- The part is as long as the function needs and keeps its values to
what the cell allows. -/
def TruthFunction.Keeps (function : TruthFunction) (cells : List Cell) (cell : Cell) : Prop :=
  cells.length = function.arity
    ∧ ∀ values, Admits cells values → cell.allows (function.value values) = true

/-- All that is supplied for a cell keeps to it. -/
def Supply.Sound (function : TruthFunction) (supply : Supply) : Prop :=
  ∀ cell, ∀ row ∈ supply.rows cell, function.Keeps row cell

theorem TruthFunction.keeps_ofBool_iff {function : TruthFunction} {cells : List Cell}
    {outcome : Bool} :
    function.Keeps cells (.ofBool outcome)
      ↔ cells.length = function.arity ∧ Forces function.value cells outcome :=
  and_congr_right fun _ => forall_congr' fun _ => by rw [Cell.allows_ofBool]

theorem InParts.length_of_keeps {parts : List TruthFunction} {cells : List Cell} {path : Path}
    (h : InParts TruthFunction.Keeps parts cells path) :
    cells.length = (parts.map TruthFunction.arity).sum := by
  induction h with
  | nil => rfl
  | cons head _ ih => rw [List.length_append, head.1, ih, List.map_cons, List.sum_cons]

/-- Where every part keeps to its cell, the values of the entries agree
with the path. -/
theorem InParts.admits_of_keeps {parts : List TruthFunction} {cells : List Cell} {path : Path}
    (h : InParts TruthFunction.Keeps parts cells path) {assignment : List Bool}
    (hadmits : Admits cells assignment) :
    Admits path (TruthFunction.values parts assignment) := by
  induction h generalizing assignment with
  | nil => simp [TruthFunction.values]
  | cons head _ ih =>
    rw [admits_append_iff, head.1] at hadmits
    rw [TruthFunction.values, admits_cons_cons]
    exact ⟨head.2 _ hadmits.1, ih hadmits.2⟩

/-- What sound supplies offer keeps to its cell. -/
theorem InParts.keeps_of_sound {parts : List TruthFunction} {supplies : List Supply}
    (hsound : List.Forall₂ Supply.Sound parts supplies) {row : Row} {path : Path}
    (h : InParts Supply.Offers supplies row path) : InParts TruthFunction.Keeps parts row path :=
  h.imp (hsound.flip.imp fun _ _ hsupply row cell hrow => hsupply cell row hrow)

variable {parts : List TruthFunction} {supplies : List Supply}

/-- The rows of a level of sound entries force the outcome for which its
paths were taken. -/
theorem forces_of_mem_growRows (hsound : List.Forall₂ Supply.Sound parts supplies)
    (undefined : List Bool → Bool) {connectives : List Connective} {outcome : Bool} {row : Row}
    (hrow : row ∈ growRows supplies (levelPaths connectives supplies.length outcome)) :
    (TruthFunction.ofLevel undefined connectives parts).Keeps row (.ofBool outcome) := by
  obtain ⟨path, hpath, hoffers⟩ := mem_growRows_iff.1 hrow
  have hparts := hoffers.keeps_of_sound hsound
  obtain ⟨-, hforces⟩ := forces_of_mem_levelPaths undefined hpath
  refine TruthFunction.keeps_ofBool_iff.2 ⟨hparts.length_of_keeps, fun assignment hadmits => ?_⟩
  exact hforces _ (hparts.admits_of_keeps hadmits)

/-- What sound supplies leave free is a free cell for each condition. -/
theorem flatMap_free_eq
    (hfree : List.Forall₂ (fun part supply => supply.free = List.replicate part.arity .free)
      parts supplies) :
    supplies.flatMap Supply.free
      = List.replicate (parts.map TruthFunction.arity).sum .free := by
  induction hfree with
  | nil => rfl
  | cons head _ ih =>
    rw [List.flatMap_cons, head, ih, List.replicate_append_replicate, List.map_cons,
      List.sum_cons]

namespace Entry

mutual

/-- A free cell for each condition below the entry. -/
theorem free_supply (convention : Convention) (address : List Nat) : (entry : Entry) →
    entry.supply.free = List.replicate (entry.truth convention address).arity .free
  | leaf _ => rfl
  | group _ entries => by
      rw [supply, truth]
      exact flatMap_free_eq (free_supplyAll convention address 0 entries)

theorem free_supplyAll (convention : Convention) (address : List Nat) (place : Nat) :
    (entries : List Entry) →
      List.Forall₂ (fun part supply => supply.free = List.replicate part.arity .free)
        (truthAll convention address place entries) (supplyAll entries)
  | [] => .nil
  | entry :: entries =>
      .cons (free_supply convention _ entry) (free_supplyAll convention address (place + 1) entries)

end

/-- The one row of a condition for a cell is that cell. -/
theorem rows_supply_leaf (condition : Condition) (cell : Cell) :
    (leaf condition).supply.rows cell = [[cell]] := by
  cases cell <;> rfl

/-- The rows of a group for an outcome. -/
theorem rows_supply_group (connectives : List Connective) (entries : List Entry)
    (outcome : Bool) :
    (group connectives entries).supply.rows (.ofBool outcome)
      = growRows (supplyAll entries)
          (levelPaths connectives (supplyAll entries).length outcome) := by
  cases outcome <;> rfl

mutual

/-- What an entry supplies is sound, whatever its levels without a
reading are taken to mean. -/
theorem sound_supply (convention : Convention) (address : List Nat) : (entry : Entry) →
    Supply.Sound (entry.truth convention address) entry.supply
  | leaf condition => by
      intro cell row hrow
      rw [rows_supply_leaf, List.mem_singleton] at hrow
      subst hrow
      refine ⟨rfl, fun values hadmits => ?_⟩
      cases values with
      | nil => simp [Admits] at hadmits
      | cons value values => exact ((admits_cons_cons ..).1 hadmits).1
  | group connectives entries => by
      intro cell row hrow
      rcases cell.eq_free_or_ofBool with rfl | ⟨outcome, rfl⟩
      · obtain rfl : row = (group connectives entries).supply.free := by
          simpa [Supply.rows] using hrow
        refine ⟨?_, fun _ _ => rfl⟩
        rw [free_supply convention address, List.length_replicate]
      · rw [rows_supply_group] at hrow
        exact forces_of_mem_growRows (sound_supplyAll convention address 0 entries) _ hrow

theorem sound_supplyAll (convention : Convention) (address : List Nat) (place : Nat) :
    (entries : List Entry) →
      List.Forall₂ Supply.Sound (truthAll convention address place entries) (supplyAll entries)
  | [] => .nil
  | entry :: entries =>
      .cons (sound_supply convention _ entry)
        (sound_supplyAll convention address (place + 1) entries)

end

/-- All that an entry supplies has a cell for each condition. -/
theorem aligned_supply (entry : Entry) : entry.supply.Aligned := by
  intro cell row hrow
  rw [(sound_supply (fun _ _ => false) [] entry cell row hrow).1,
    free_supply (fun _ _ => false) [], List.length_replicate]

theorem aligned_of_mem_supplyAll {entries : List Entry} {supply : Supply}
    (h : supply ∈ supplyAll entries) : supply.Aligned := by
  induction entries with
  | nil => simp [supplyAll] at h
  | cons entry entries ih =>
    rcases List.mem_cons.1 h with rfl | h
    · exact entry.aligned_supply
    · exact ih h

theorem length_supplyAll (entries : List Entry) : (supplyAll entries).length = entries.length := by
  induction entries with
  | nil => rfl
  | cons entry entries ih => rw [supplyAll, List.length_cons, List.length_cons, ih]

end Entry

-- ========================================================== expressions

namespace Expression

/-- The rows of an expression by what its entries supply. -/
theorem rows_eq (expression : Expression) (outcome : Bool) :
    expression.rows outcome
      = growRows (Entry.supplyAll expression.entries)
          (levelPaths expression.connectives (Entry.supplyAll expression.entries).length
            outcome) := by
  rw [rows, paths, expand, Entry.length_supplyAll]

/-- A row has a cell for each condition and forces its outcome. -/
theorem keeps_of_mem_rows (convention : Convention) {expression : Expression} {outcome : Bool}
    {row : Row} (hrow : row ∈ expression.rows outcome) :
    (expression.truth convention).Keeps row (.ofBool outcome) := by
  rw [rows_eq] at hrow
  exact forces_of_mem_growRows (Entry.sound_supplyAll convention [] 0 expression.entries) _ hrow

/-- Every row of any expression is sound under every convention, and no
values agree both with a row that makes the expression true and with one
that makes it false. -/
theorem rows_sound (expression : Expression) :
    (∀ outcome, ∀ row ∈ expression.rows outcome, row.length = expression.leafCount
      ∧ ∀ convention values, Admits row values → expression.value convention values = outcome)
    ∧ ∀ values, ∀ whenTrue ∈ expression.rows true, ∀ whenFalse ∈ expression.rows false,
        ¬ (Admits whenTrue values ∧ Admits whenFalse values) := by
  have hsound : ∀ outcome, ∀ row ∈ expression.rows outcome, row.length = expression.leafCount
      ∧ ∀ convention values, Admits row values
        → expression.value convention values = outcome := by
    intro outcome row hrow
    constructor
    · rw [(keeps_of_mem_rows (fun _ _ => false) hrow).1, arity_truth]
    · intro convention values hadmits
      exact (TruthFunction.keeps_ofBool_iff.1 (keeps_of_mem_rows convention hrow)).2 values hadmits
  refine ⟨hsound, fun values whenTrue htrue whenFalse hfalse ⟨hadmits, hadmits'⟩ => ?_⟩
  have hone := (hsound true whenTrue htrue).2 (fun _ _ => false) values hadmits
  have hother := (hsound false whenFalse hfalse).2 (fun _ _ => false) values hadmits'
  rw [hone] at hother
  exact Bool.noConfusion hother

/-- The expression `a || (b c)`, whose group has no connective. -/
def besideUndefined : Expression :=
  ⟨[.or], [.leaf ⟨['a'], by decide, by decide⟩,
    .group [] [.leaf ⟨['b'], by decide, by decide⟩, .leaf ⟨['c'], by decide, by decide⟩]]⟩

/-- A row that leaves a group without a reading free, when that group is
taken to fail. -/
theorem rows_sound_besideUndefined :
    [.holds, .free, .free] ∈ besideUndefined.rows true
      ∧ Admits [.holds, .free, .free] [true, true, false]
      ∧ besideUndefined.value (fun _ _ => false) [true, true, false] = true := by
  have hrow : [.holds, .free, .free] ∈ besideUndefined.rows true := by decide
  have hadmits : Admits [.holds, .free, .free] [true, true, false] := by simp [Cell.allows]
  exact ⟨hrow, hadmits, ((rows_sound besideUndefined).1 true _ hrow).2 _ _ hadmits⟩

end Expression

end ConditionTable
