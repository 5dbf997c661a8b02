/-
Closed forms for the number of rows. A path grows into as many rows as the
product of what its cells are supplied with, where a free cell counts as
one. So a level needs only the sum of such products over its paths:

- the one path on which all entries agree gives the product over the
  entries,
- the paths that ask something of one entry each give the sum,
- the assignments of one parity give neither, but their numbers can be told
  from each other by two products. One more entry, with `t` rows for true
  and `f` for false, takes the odd number `p` and the even number `q` to
  `t * q + f * p` and `t * p + f * q` (`parityNumber_cons`), which
  multiplies `q + p` by `t + f` and `q - p` by `f - t`
  (`parityNumber_signed`).

The laws speak of one level and of what its entries have, so they hold of
each level of a tree alike, however its groups are nested.
-/
import ConditionTable.Proofs.Table.Counting
import ConditionTable.Proofs.Table.Exactness
import Mathlib.Algebra.BigOperators.Ring.List
import Mathlib.Tactic.LinearCombination
import Mathlib.Tactic.Ring

namespace ConditionTable

/-- The number of rows that give an expression an outcome. -/
def Expression.rowNumber (outcome : Bool) (expression : Expression) : Nat :=
  (expression.rows outcome).length

namespace Entry

/-- The number of rows of an entry for an outcome. A condition has one. -/
def rowNumber (outcome : Bool) : Entry → Nat
  | leaf _ => 1
  | group connectives entries => Expression.rowNumber outcome ⟨connectives, entries⟩

theorem length_rows_supply (entry : Entry) (outcome : Bool) :
    (entry.supply.rows (.ofBool outcome)).length = entry.rowNumber outcome := by
  cases entry with
  | leaf condition =>
    rw [rows_supply_leaf]
    rfl
  | group connectives entries =>
    rw [rows_supply_group, rowNumber, Expression.rowNumber, Expression.rows_eq]

-- ================================================================= paths

/-- The number of rows that paths of a level grow into. -/
def pathsNumber (entries : List Entry) (paths : List Path) : Nat :=
  (paths.map fun path => (combinations (supplyAll entries) path).length).sum

theorem pathsNumber_append (entries : List Entry) (front back : List Path) :
    pathsNumber entries (front ++ back) = pathsNumber entries front + pathsNumber entries back := by
  rw [pathsNumber, List.map_append, List.sum_append]
  rfl

/-- Paths that ask the same of the first entry. -/
theorem pathsNumber_cons (entry : Entry) (entries : List Entry) (cell : Cell) (paths : List Path) :
    pathsNumber (entry :: entries) (paths.map (cell :: ·))
      = (entry.supply.rows cell).length * pathsNumber entries paths := by
  unfold pathsNumber
  rw [List.map_map, ← List.sum_map_mul_left]
  simp only [Function.comp_def, supplyAll, length_combinations]

/-- A path without a cell for each entry grows into nothing. -/
theorem combinations_eq_nil {supplies : List Supply} {path : Path}
    (h : path.length ≠ supplies.length) : combinations supplies path = [] := by
  induction supplies generalizing path with
  | nil =>
    cases path with
    | nil => exact absurd rfl h
    | cons cell path => rfl
  | cons supply supplies ih =>
    cases path with
    | nil => rfl
    | cons cell path =>
      rw [combinations, ih (by simpa using h)]
      rfl

theorem length_growRows (entries : List Entry) (paths : List Path) :
    (growRows (supplyAll entries) paths).length = pathsNumber entries paths := by
  rw [growRows_eq, List.length_flatMap, pathsNumber]
  induction paths with
  | nil => rfl
  | cons path paths ih =>
    rw [List.filter_cons, List.map_cons, List.sum_cons, ← ih]
    split
    · rw [List.map_cons, List.sum_cons]
    · next hlength =>
      rw [combinations_eq_nil (by simpa using hlength), List.length_nil, Nat.zero_add]

/-- All entries agree. -/
theorem pathsNumber_uniform (entries : List Entry) (outcome : Bool) :
    pathsNumber entries [Path.uniform entries.length (.ofBool outcome)]
      = (entries.map (rowNumber outcome)).prod := by
  induction entries with
  | nil => rfl
  | cons entry entries ih =>
    have hcons := pathsNumber_cons entry entries (.ofBool outcome)
      [Path.uniform entries.length (.ofBool outcome)]
    rw [ih, length_rows_supply] at hcons
    exact hcons

/-- Nothing is asked of any entry. -/
theorem pathsNumber_free (entries : List Entry) :
    pathsNumber entries [Path.uniform entries.length .free] = 1 := by
  induction entries with
  | nil => rfl
  | cons entry entries ih =>
    have hcons := pathsNumber_cons entry entries .free [Path.uniform entries.length .free]
    rw [ih] at hcons
    exact hcons

/-- One entry is asked at a time. -/
theorem pathsNumber_singles (entries : List Entry) (outcome : Bool) :
    pathsNumber entries (Path.singles entries.length (.ofBool outcome))
      = (entries.map (rowNumber outcome)).sum := by
  induction entries with
  | nil => rfl
  | cons entry entries ih =>
    have hsplit : Path.singles (entry :: entries).length (.ofBool outcome)
        = [Path.uniform entries.length .free].map (.ofBool outcome :: ·)
          ++ (Path.singles entries.length (.ofBool outcome)).map (.free :: ·) :=
      singles_succ _ _
    rw [hsplit, pathsNumber_append, pathsNumber_cons, pathsNumber_cons, pathsNumber_free, ih,
      length_rows_supply, Nat.mul_one, List.map_cons, List.sum_cons]
    exact congrArg _ (Nat.one_mul _)

-- ================================================================ parity

/-- The number of rows that the assignments of one parity grow into. -/
def parityNumber (entries : List Entry) (outcome : Bool) : Nat :=
  pathsNumber entries ((Path.assignments entries.length).filter fun path => path.odd == outcome)

/-- One more entry keeps the parity where it fails and changes it where it
holds. -/
theorem parityNumber_cons (entry : Entry) (entries : List Entry) (outcome : Bool) :
    parityNumber (entry :: entries) outcome
      = entry.rowNumber true * parityNumber entries (!outcome)
        + entry.rowNumber false * parityNumber entries outcome := by
  rw [parityNumber, List.length_cons, filter_odd_assignments_succ, pathsNumber_append,
    pathsNumber_cons, pathsNumber_cons]
  show _ * parityNumber entries (!outcome) + _ * parityNumber entries outcome = _
  rw [← length_rows_supply entry true, ← length_rows_supply entry false]
  rfl

/-- Both parities, the odd one with a sign. Two signs cancel, as two
changes of parity do, so one more entry is one more factor. -/
theorem parityNumber_signed (sign : Int) (hsign : sign * sign = 1) (entries : List Entry) :
    (parityNumber entries false + sign * parityNumber entries true : Int)
      = (entries.map fun entry =>
          (entry.rowNumber false + sign * entry.rowNumber true : Int)).prod := by
  induction entries with
  | nil =>
    show (1 : Int) + sign * 0 = 1
    rw [mul_zero, add_zero]
  | cons entry entries ih =>
    rw [parityNumber_cons, parityNumber_cons, List.map_cons, List.prod_cons, ← ih,
      Bool.not_false, Bool.not_true]
    push_cast
    linear_combination (-(entry.rowNumber true * parityNumber entries true : Int)) * hsign

/-- Both parities together. -/
theorem parityNumber_add (entries : List Entry) :
    (parityNumber entries false + parityNumber entries true : Int)
      = (entries.map fun entry => (entry.rowNumber true + entry.rowNumber false : Int)).prod := by
  have hsigned := parityNumber_signed 1 (mul_one 1) entries
  simpa only [one_mul, add_comm] using hsigned

/-- The even parity before the odd one. -/
theorem parityNumber_sub (entries : List Entry) :
    (parityNumber entries false - parityNumber entries true : Int)
      = (entries.map fun entry => (entry.rowNumber false - entry.rowNumber true : Int)).prod := by
  have hsigned := parityNumber_signed (-1) (neg_one_mul _) entries
  simpa only [neg_one_mul, ← sub_eq_add_neg] using hsigned

end Entry

-- ================================================================ levels

namespace Expression

variable {level : Expression} {outcome : Bool}

theorem rowNumber_eq (level : Expression) (outcome : Bool) :
    level.rowNumber outcome
      = Entry.pathsNumber level.entries
          (levelPaths level.connectives level.entries.length outcome) := by
  rw [rowNumber, rows_eq, Entry.length_growRows, Entry.length_supplyAll]

theorem exists_entries_eq (hentries : level.entries ≠ []) (hlength : ¬ 2 ≤ level.entries.length) :
    ∃ entry, level.entries = [entry] := by
  have hpos := List.length_pos_iff.2 hentries
  exact List.length_eq_one_iff.1 (by omega)

/-- A level with a single entry has its rows. -/
theorem rowNumber_single (hmixed : level.mixed = false) {entry : Entry}
    (hentries : level.entries = [entry]) (outcome : Bool) :
    level.rowNumber outcome = entry.rowNumber outcome := by
  have huniform := Entry.pathsNumber_uniform [entry] outcome
  rw [List.map_singleton, List.prod_singleton] at huniform
  rw [rowNumber_eq, hentries, List.length_singleton, levelPaths_single hmixed]
  exact huniform

/-- One entry decides, or all agree on the other value. -/
theorem rowNumber_decisive (hmixed : level.mixed = false) {connective : Connective}
    (hhead : level.connectives.head? = some connective) {decisive : Bool}
    (hdecisive : connective.decisive? = some decisive) (hentries : level.entries ≠ []) :
    level.rowNumber decisive = (level.entries.map (Entry.rowNumber decisive)).sum
      ∧ level.rowNumber (!decisive) = (level.entries.map (Entry.rowNumber !decisive)).prod := by
  by_cases hlength : 2 ≤ level.entries.length
  · have hne : (!decisive) ≠ decisive := by cases decisive <;> decide
    rw [rowNumber_eq, rowNumber_eq, levelPaths_decisive hmixed hhead hdecisive hlength,
      levelPaths_decisive hmixed hhead hdecisive hlength, if_pos rfl, if_neg hne]
    exact ⟨Entry.pathsNumber_singles _ _, Entry.pathsNumber_uniform _ _⟩
  · obtain ⟨entry, hsingle⟩ := exists_entries_eq hentries hlength
    rw [rowNumber_single hmixed hsingle, rowNumber_single hmixed hsingle, hsingle]
    simp

theorem rowNumber_xor (hmixed : level.mixed = false) (hhead : level.connectives.head? = some .xor)
    (hentries : level.entries ≠ []) (hlimit : level.entries.length < Path.assignmentLimit)
    (outcome : Bool) : level.rowNumber outcome = Entry.parityNumber level.entries outcome := by
  by_cases hlength : 2 ≤ level.entries.length
  · rw [rowNumber_eq, levelPaths_xor hmixed hhead hlength, Path.allAssignments, if_pos hlimit]
    rfl
  · obtain ⟨entry, hsingle⟩ := exists_entries_eq hentries hlength
    have heven : Entry.parityNumber [] false = 1 := rfl
    have hodd : Entry.parityNumber [] true = 0 := rfl
    rw [rowNumber_single hmixed hsingle, hsingle, Entry.parityNumber_cons]
    cases outcome <;> simp [heven, hodd]

/-- Twice the number of rows of a level joined by exclusive or. -/
theorem rowNumber_parity (hmixed : level.mixed = false)
    (hhead : level.connectives.head? = some .xor) (hentries : level.entries ≠ [])
    (hlimit : level.entries.length < Path.assignmentLimit) :
    (2 * level.rowNumber true : Int)
        = (level.entries.map fun entry => (entry.rowNumber true + entry.rowNumber false : Int)).prod
          - (level.entries.map fun entry => (entry.rowNumber false - entry.rowNumber true : Int)).prod
      ∧ (2 * level.rowNumber false : Int)
        = (level.entries.map fun entry => (entry.rowNumber true + entry.rowNumber false : Int)).prod
          + (level.entries.map fun entry => (entry.rowNumber false - entry.rowNumber true : Int)).prod := by
  rw [rowNumber_xor hmixed hhead hentries hlimit, rowNumber_xor hmixed hhead hentries hlimit,
    ← Entry.parityNumber_add, ← Entry.parityNumber_sub]
  constructor <;> ring

/-- Every entry of the level is a condition. -/
def Flat (level : Expression) : Prop :=
  ∀ entry ∈ level.entries, ∃ condition, entry = .leaf condition

/-- All entries of a flat level count alike. -/
theorem Flat.map_eq_replicate {α : Type} (hflat : level.Flat) (count : (Bool → Nat) → α) :
    (level.entries.map fun entry => count fun outcome => entry.rowNumber outcome)
      = List.replicate level.entries.length (count fun _ => 1) := by
  refine List.map_eq_replicate_iff.2 fun entry h => congrArg count (funext fun outcome => ?_)
  obtain ⟨condition, rfl⟩ := hflat entry h
  rfl

theorem Flat.rowNumber_decisive (hflat : level.Flat) (hmixed : level.mixed = false)
    {connective : Connective} (hhead : level.connectives.head? = some connective) {decisive : Bool}
    (hdecisive : connective.decisive? = some decisive) (hentries : level.entries ≠ []) :
    level.rowNumber decisive = level.entries.length ∧ level.rowNumber (!decisive) = 1 := by
  obtain ⟨hsum, hprod⟩ := Expression.rowNumber_decisive hmixed hhead hdecisive hentries
  have hsame : ∀ outcome, level.entries.map (Entry.rowNumber outcome)
      = List.replicate level.entries.length 1 := fun outcome =>
    hflat.map_eq_replicate fun count => count outcome
  rw [hsum, hprod, hsame, hsame]
  simp

theorem Flat.rowNumber_xor (hflat : level.Flat) (hmixed : level.mixed = false)
    (hhead : level.connectives.head? = some .xor) (hentries : level.entries ≠ [])
    (hlimit : level.entries.length < Path.assignmentLimit) (outcome : Bool) :
    level.rowNumber outcome = 2 ^ (level.entries.length - 1) := by
  have hpos : level.entries.length ≠ 0 := fun h => hentries (List.length_eq_zero_iff.1 h)
  have hsum : (level.entries.map fun entry => (entry.rowNumber true + entry.rowNumber false : Int))
      = List.replicate level.entries.length 2 :=
    hflat.map_eq_replicate fun count => (count true + count false : Int)
  have hdifference : (level.entries.map fun entry => (entry.rowNumber false - entry.rowNumber true : Int))
      = List.replicate level.entries.length 0 :=
    hflat.map_eq_replicate fun count => (count false - count true : Int)
  obtain ⟨htrue, hfalse⟩ := rowNumber_parity hmixed hhead hentries hlimit
  rw [hsum, hdifference, List.prod_replicate, List.prod_replicate, zero_pow hpos] at htrue hfalse
  have hpower : (2 : Int) ^ level.entries.length = 2 * 2 ^ (level.entries.length - 1) :=
    (mul_pow_sub_one hpos 2).symm
  have htwice : (2 * level.rowNumber outcome : Int) = 2 * 2 ^ (level.entries.length - 1) := by
    cases outcome with
    | true => rw [htrue, sub_zero, hpower]
    | false => rw [hfalse, add_zero, hpower]
  exact_mod_cast Int.eq_of_mul_eq_mul_left two_ne_zero htwice

/-- The laws for the number of rows of a level: by its connective, for a
single entry without one, and where all entries are conditions. -/
structure RowLaws (level : Expression) : Prop where
  conjunction : level.connective? = some .and →
    level.rowNumber true = (level.entries.map (Entry.rowNumber true)).prod
      ∧ level.rowNumber false = (level.entries.map (Entry.rowNumber false)).sum
  disjunction : level.connective? = some .or →
    level.rowNumber true = (level.entries.map (Entry.rowNumber true)).sum
      ∧ level.rowNumber false = (level.entries.map (Entry.rowNumber false)).prod
  parity : level.connective? = some .xor →
    (2 * level.rowNumber true : Int)
        = (level.entries.map fun entry => (entry.rowNumber true + entry.rowNumber false : Int)).prod
          - (level.entries.map fun entry => (entry.rowNumber false - entry.rowNumber true : Int)).prod
      ∧ (2 * level.rowNumber false : Int)
        = (level.entries.map fun entry => (entry.rowNumber true + entry.rowNumber false : Int)).prod
          + (level.entries.map fun entry => (entry.rowNumber false - entry.rowNumber true : Int)).prod
  single : level.connective? = none →
    ∃ entry, level.entries = [entry] ∧ ∀ outcome, level.rowNumber outcome = entry.rowNumber outcome
  flatConjunction : level.Flat → level.connective? = some .and →
    level.rowNumber true = 1 ∧ level.rowNumber false = level.entries.length
  flatDisjunction : level.Flat → level.connective? = some .or →
    level.rowNumber true = level.entries.length ∧ level.rowNumber false = 1
  flatParity : level.Flat → level.connective? = some .xor →
    ∀ outcome, level.rowNumber outcome = 2 ^ (level.entries.length - 1)

/-- The laws hold of a level that has paths, whatever its entries are. -/
theorem rowLaws_of_levelTabular (hmixed : level.mixed = false)
    (htabular : levelTabular level.connectives level.entries.length = true) : level.RowLaws := by
  have hconnective : level.connective? = level.connectives.head? := by
    rw [connective?, hmixed]
    rfl
  simp only [levelTabular, Bool.and_eq_true, Bool.or_eq_true, bne_iff_ne, beq_iff_eq,
    Bool.not_eq_true', List.isEmpty_eq_false_iff, decide_eq_true_eq] at htabular
  obtain ⟨⟨hlength, hfew⟩, hlimit⟩ := htabular
  have hentries : level.entries ≠ [] := fun h => hlength (List.length_eq_zero_iff.2 h)
  have hand : Connective.decisive? .and = some false := rfl
  have hor : Connective.decisive? .or = some true := rfl
  constructor <;> rw [hconnective]
  case conjunction => exact fun hhead => (rowNumber_decisive hmixed hhead hand hentries).symm
  case disjunction => exact fun hhead => rowNumber_decisive hmixed hhead hor hentries
  case parity =>
    exact fun hhead => rowNumber_parity hmixed hhead hentries (hlimit.resolve_left (absurd hhead))
  case single =>
    intro hhead
    have hone : level.entries.length = 1 :=
      hfew.resolve_right fun hne => hne (List.head?_eq_none_iff.1 hhead)
    obtain ⟨entry, hentry⟩ := List.length_eq_one_iff.1 hone
    exact ⟨entry, hentry, rowNumber_single hmixed hentry⟩
  case flatConjunction =>
    exact fun hflat hhead => (hflat.rowNumber_decisive hmixed hhead hand hentries).symm
  case flatDisjunction =>
    exact fun hflat hhead => hflat.rowNumber_decisive hmixed hhead hor hentries
  case flatParity =>
    exact fun hflat hhead =>
      hflat.rowNumber_xor hmixed hhead hentries (hlimit.resolve_left (absurd hhead))

end Expression

-- ================================================================= trees

namespace Entry

mutual

/-- The levels below a tabular entry without mixed connectives. -/
theorem rowLaws_of_mem_levels : (entry : Entry) → entry.tabular = true → entry.anyMixed = false →
    ∀ level ∈ entry.levels, level.RowLaws
  | leaf _, _, _ => nofun
  | group connectives entries, htabular, hmixed => by
      rw [tabular, Bool.and_eq_true] at htabular
      rw [anyMixed, Bool.or_eq_false_iff] at hmixed
      rw [levels, List.forall_mem_cons]
      exact ⟨Expression.rowLaws_of_levelTabular hmixed.1 htabular.1,
        rowLaws_of_mem_levelsAll entries htabular.2 hmixed.2⟩

theorem rowLaws_of_mem_levelsAll : (entries : List Entry) → allTabular entries = true →
    anyMixedAll entries = false → ∀ level ∈ levelsAll entries, level.RowLaws
  | [], _, _ => nofun
  | entry :: entries, htabular, hmixed => by
      rw [allTabular, Bool.and_eq_true] at htabular
      rw [anyMixedAll, Bool.or_eq_false_iff] at hmixed
      rw [levelsAll, List.forall_mem_append]
      exact ⟨rowLaws_of_mem_levels entry htabular.1 hmixed.1,
        rowLaws_of_mem_levelsAll entries htabular.2 hmixed.2⟩

end

end Entry

namespace Expression

/-- The laws hold of every level of a tabular expression. -/
theorem rowLaws_of_tabular {expression : Expression} (htabular : expression.tabular = true)
    (hmixed : expression.anyMixed = false) : ∀ level ∈ expression.levels, level.RowLaws :=
  Entry.rowLaws_of_mem_levels expression.toEntry htabular hmixed

/-- The expression `(d && e) ^ (f || g || h)`. -/
def parityOfGroups : Expression :=
  ⟨[.xor],
    [.group [.and] [.leaf ⟨['d'], by decide, by decide⟩, .leaf ⟨['e'], by decide, by decide⟩],
      .group [.or, .or] [.leaf ⟨['f'], by decide, by decide⟩, .leaf ⟨['g'], by decide, by decide⟩,
        .leaf ⟨['h'], by decide, by decide⟩]]⟩

/-- It has `3 * 4` rows, 2 more for true than for false. -/
theorem rowLaws_of_tabular_parityOfGroups :
    parityOfGroups.tabular = true ∧ parityOfGroups.anyMixed = false
      ∧ parityOfGroups.rowNumber true = 7 ∧ parityOfGroups.rowNumber false = 5 := by
  have htabular : parityOfGroups.tabular = true := by decide
  have hmixed : parityOfGroups.anyMixed = false := by decide
  have hlaws := rowLaws_of_tabular htabular hmixed parityOfGroups List.mem_cons_self
  obtain ⟨htrue, hfalse⟩ := hlaws.parity rfl
  have hboth : (parityOfGroups.entries.map fun entry =>
      (entry.rowNumber true + entry.rowNumber false : Int)).prod = 12 := by decide
  have hfurther : (parityOfGroups.entries.map fun entry =>
      (entry.rowNumber false - entry.rowNumber true : Int)).prod = -2 := by decide
  rw [hboth, hfurther] at htrue hfalse
  exact ⟨htabular, hmixed, by omega, by omega⟩

end Expression

end ConditionTable
