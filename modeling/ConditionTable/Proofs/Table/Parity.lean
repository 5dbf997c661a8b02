/-
The paths of a parity level, one by one. Under exclusive or the paths of
an outcome are the assignments of one parity, which is half of all of
them. They come in order: at the first entry where two paths differ, the
earlier one holds (`Path.Before`).

# Counting in a word

The assignments are listed by recursion on the entries. A counter lists
them in the same order if the first entry reads its highest bit and a
zero stands for holding (`Path.counted`). A word of 64 bits is wide enough
for such a counter as long as there are fewer than 64 entries, and no
more are ever listed.
-/
import ConditionTable.Proofs.Table.Levels
import Mathlib.Algebra.Ring.Parity

namespace ConditionTable

-- ================================================================ order

/-- Holding comes before failing. -/
def Cell.Before (cell other : Cell) : Prop :=
  cell = .holds ∧ other = .fails

/-- At the first entry where the two paths differ, the earlier one holds. -/
def Path.Before : Path → Path → Prop :=
  List.Lex Cell.Before

theorem pairwise_assignments (length : Nat) :
    (Path.assignments length).Pairwise Path.Before := by
  induction length with
  | zero => exact List.pairwise_singleton _ _
  | succ length ih =>
    have hcons : ∀ cell : Cell, ((Path.assignments length).map (cell :: ·)).Pairwise Path.Before :=
      fun cell => ih.map _ fun _ _ hbefore => .cons hbefore
    rw [Path.assignments, List.pairwise_append]
    refine ⟨hcons .holds, hcons .fails, ?_⟩
    intro holding hholding failing hfailing
    obtain ⟨path, -, rfl⟩ := List.mem_map.1 hholding
    obtain ⟨other, -, rfl⟩ := List.mem_map.1 hfailing
    exact .rel ⟨rfl, rfl⟩

-- =============================================================== number

/-- Either parity has half of the assignments. -/
theorem length_filter_odd_assignments (length : Nat) (outcome : Bool) :
    ((Path.assignments (length + 1)).filter fun path => path.odd == outcome).length
      = 2 ^ length := by
  induction length generalizing outcome with
  | zero => cases outcome <;> rfl
  | succ length ih =>
    rw [filter_odd_assignments_succ, List.length_append, List.length_map, List.length_map, ih, ih,
      Nat.pow_succ, Nat.mul_two]

-- ============================================================= counters

namespace Path

/-- The path that a counter stands for: the entry at `index` reads the bit
at `length - 1 - index`, and a zero is for holding. -/
def ofWord (length : Nat) (count : UInt64) : Path :=
  (List.range length).map fun index =>
    .ofBool (count >>> UInt64.ofNat (length - 1 - index) &&& 1 == 0)

/-- The paths of a counter that runs from zero through all numbers of
`length` bits. -/
def counted (length : Nat) : List Path :=
  (List.range ((1 : UInt64) <<< UInt64.ofNat length).toNat).map fun count =>
    ofWord length (UInt64.ofNat count)

/-- The path that a number of any size stands for. -/
def ofBits (length count : Nat) : Path :=
  (List.range length).map fun index => .ofBool !count.testBit (length - 1 - index)

variable {length count place : Nat}

/-- The first entry reads the highest bit. -/
theorem ofBits_succ (length count : Nat) :
    ofBits (length + 1) count = .ofBool (!count.testBit length) :: ofBits length count := by
  unfold ofBits
  rw [List.range_succ_eq_map, List.map_cons, List.map_map]
  refine congrArg₂ List.cons rfl (List.map_congr_left fun index _ => ?_)
  have hplace : length + 1 - 1 - (index + 1) = length - 1 - index := by omega
  show Cell.ofBool (!count.testBit (length + 1 - 1 - (index + 1))) = _
  rw [hplace]

/-- Higher bits are not read. -/
theorem ofBits_two_pow_add (length count : Nat) :
    ofBits length (2 ^ length + count) = ofBits length count := by
  refine List.map_congr_left fun index hindex => ?_
  have hlt : length - 1 - index < length := by
    have := List.mem_range.1 hindex
    omega
  rw [Nat.testBit_two_pow_add_gt hlt]

/-- The numbers below `2 ^ length` list the assignments in order. -/
theorem assignments_eq_map_ofBits (length : Nat) :
    assignments length = (List.range (2 ^ length)).map (ofBits length) := by
  induction length with
  | zero => rfl
  | succ length ih =>
    have hlow : (List.range (2 ^ length)).map (ofBits (length + 1))
        = (assignments length).map (.holds :: ·) := by
      rw [ih, List.map_map]
      refine List.map_congr_left fun count hcount => ?_
      rw [ofBits_succ, Nat.testBit_lt_two_pow (List.mem_range.1 hcount)]
      rfl
    have hhigh : (List.range (2 ^ length)).map (fun count => ofBits (length + 1) (2 ^ length + count))
        = (assignments length).map (.fails :: ·) := by
      rw [ih, List.map_map]
      refine List.map_congr_left fun count hcount => ?_
      rw [ofBits_succ, ofBits_two_pow_add, Nat.testBit_two_pow_add_eq,
        Nat.testBit_lt_two_pow (List.mem_range.1 hcount)]
      rfl
    rw [assignments, Nat.pow_succ, Nat.mul_two, List.range_add, List.map_append, List.map_map, hlow]
    exact congrArg _ hhigh.symm

/-- Shifting and masking a word reads the bit at a place. -/
theorem shiftRight_and_one_beq (hcount : count < 2 ^ 64) (hplace : place < 64) :
    (UInt64.ofNat count >>> UInt64.ofNat place &&& 1 == 0) = !count.testBit place := by
  have hword : (UInt64.ofNat count >>> UInt64.ofNat place &&& 1).toNat = count >>> place % 2 := by
    rw [UInt64.toNat_and, UInt64.toNat_shiftRight, UInt64.toNat_ofNat', UInt64.toNat_ofNat',
      Nat.mod_eq_of_lt hcount, Nat.mod_eq_of_lt (Nat.lt_trans hplace (by decide)),
      Nat.mod_eq_of_lt hplace]
    exact Nat.and_one_is_mod _
  rw [Bool.eq_iff_iff, beq_iff_eq, ← UInt64.toNat_inj, hword, Nat.testBit, Nat.one_and_eq_mod_two,
    Bool.not_eq_true', bne_eq_false_iff_eq]
  rfl

/-- A counter of one word is wide enough. -/
theorem counted_eq_assignments (hlength : length < 64) : counted length = assignments length := by
  have hpower : 2 ^ length < 2 ^ 64 := Nat.pow_lt_pow_right Nat.one_lt_two hlength
  have hend : ((1 : UInt64) <<< UInt64.ofNat length).toNat = 2 ^ length := by
    rw [UInt64.toNat_shiftLeft, UInt64.toNat_ofNat', Nat.mod_eq_of_lt (a := length) (by omega),
      Nat.mod_eq_of_lt hlength]
    show 1 <<< length % 2 ^ 64 = _
    rw [Nat.one_shiftLeft, Nat.mod_eq_of_lt hpower]
  rw [counted, hend, assignments_eq_map_ofBits]
  refine List.map_congr_left fun count hcount => List.map_congr_left fun index hindex => ?_
  have hfits : count < 2 ^ 64 := Nat.lt_trans (List.mem_range.1 hcount) hpower
  rw [shiftRight_and_one_beq hfits (by omega)]

end Path

-- ========================================================= parity levels

/-- Connectives of one kind are not mixed. -/
theorem Connective.mixed_eq_false {connective : Connective} {connectives : List Connective}
    (hsame : ∀ other ∈ connectives, other = connective) : mixed connectives = false := by
  induction connectives with
  | nil => rfl
  | cons first connectives ih =>
    have hfirst : first = connective := hsame first List.mem_cons_self
    have hrest : ∀ other ∈ connectives, other = connective := fun other hother =>
      hsame other (List.mem_cons_of_mem _ hother)
    rw [mixed, ih hrest, Bool.or_false]
    cases connectives with
    | nil => rfl
    | cons second connectives =>
      rw [hfirst, hrest second List.mem_cons_self]
      simp

theorem Path.odd_eq_iff {path : Path} {outcome : Bool} :
    path.odd = outcome ↔ (Odd (path.count .holds) ↔ outcome = true) := by
  rw [Nat.odd_iff, Bool.eq_iff_iff, Path.odd, beq_iff_eq]

/-- The paths of one outcome under exclusive or: all ways to hold or fail
with a number of holding entries that is odd for true and even for false,
each listed once and in order. They are half of all assignments, and
those of a counter that have the parity. -/
structure Path.ListParity (length : Nat) (outcome : Bool) (paths : List Path) : Prop where
  mem_iff : ∀ path, path ∈ paths
    ↔ path.length = length ∧ .free ∉ path ∧ (Odd (path.count .holds) ↔ outcome = true)
  nodup : paths.Nodup
  ordered : paths.Pairwise Path.Before
  number : paths.length = 2 ^ (length - 1)
  eq_counted : paths = (Path.counted length).filter fun path => path.odd == outcome

theorem Path.listParity_filter {length : Nat} (hpos : 0 < length) (hlimit : length < assignmentLimit)
    (outcome : Bool) :
    ListParity length outcome ((assignments length).filter fun path => path.odd == outcome) where
  mem_iff path := by
    rw [List.mem_filter, mem_assignments_iff, beq_iff_eq, odd_eq_iff, and_assoc]
  nodup := (nodup_assignments length).filter _
  ordered := (pairwise_assignments length).filter _
  number := by
    obtain ⟨length, rfl⟩ := Nat.exists_eq_succ_of_ne_zero (Nat.ne_of_gt hpos)
    exact length_filter_odd_assignments length outcome
  eq_counted := by rw [counted_eq_assignments hlimit]

namespace Expression

/-- The paths that an exclusive-or level has from the start are those made
for one outcome alone. Up to 63 entries they are the assignments of the
parity that the outcome asks for, and from 64 on there are none. -/
theorem paths_of_parity (expression : Expression)
    (hhead : expression.connectives.head? = some .xor)
    (hsame : ∀ connective ∈ expression.connectives, connective = .xor) (outcome : Bool) :
    expression.paths outcome = expression.generatePaths outcome
      ∧ (2 ≤ expression.entries.length → expression.entries.length ≤ 63 →
          Path.ListParity expression.entries.length outcome (expression.paths outcome))
      ∧ (64 ≤ expression.entries.length → expression.paths outcome = []) := by
  have hmixed : Connective.mixed expression.connectives = false := Connective.mixed_eq_false hsame
  have heager : expression.paths outcome = expression.generatePaths outcome := by
    rw [generatePaths, mixed, hmixed]
    exact levelPaths_eq hmixed
  have hpaths : 2 ≤ expression.entries.length → expression.paths outcome
      = (Path.allAssignments expression.entries.length).filter fun path => path.odd == outcome :=
    levelPaths_xor hmixed hhead
  refine ⟨heager, fun htwo hfew => ?_, fun hmany => ?_⟩
  · have hlimit : expression.entries.length < Path.assignmentLimit := Nat.lt_succ_of_le hfew
    rw [hpaths htwo, Path.allAssignments, if_pos hlimit]
    exact Path.listParity_filter (by omega) hlimit outcome
  · have hlimit : ¬ expression.entries.length < Path.assignmentLimit := Nat.not_lt.2 hmany
    rw [hpaths (by omega), Path.allAssignments, if_neg hlimit]
    rfl

/-- An expression that joins so many conditions by exclusive or. -/
def parityOf (length : Nat) : Expression :=
  ⟨List.replicate (length - 1) .xor, List.replicate length (.leaf ⟨['i'], by decide, by decide⟩)⟩

/-- With 63 entries there are `2 ^ 62` paths for either outcome, and with
64 there is none. -/
theorem paths_of_parity_atTheLimit :
    (parityOf 63).connectives.head? = some .xor
      ∧ (∀ connective ∈ (parityOf 63).connectives, connective = .xor)
      ∧ (parityOf 63).paths true = (parityOf 63).generatePaths true
      ∧ ((parityOf 63).paths true).length = 2 ^ 62
      ∧ ((parityOf 63).paths false).length = 2 ^ 62
      ∧ .holds :: List.replicate 62 .fails ∈ (parityOf 63).paths true
      ∧ (parityOf 64).paths true = [] := by
  have hsame : ∀ length, ∀ connective ∈ (parityOf length).connectives, connective = .xor :=
    fun _ _ hmem => List.eq_of_mem_replicate hmem
  obtain ⟨heager, htrue, -⟩ := paths_of_parity (parityOf 63) rfl (hsame 63) true
  obtain ⟨-, hfalse, -⟩ := paths_of_parity (parityOf 63) rfl (hsame 63) false
  obtain ⟨-, -, hnone⟩ := paths_of_parity (parityOf 64) rfl (hsame 64) true
  have hodd := htrue (by decide) (by decide)
  have heven := hfalse (by decide) (by decide)
  refine ⟨rfl, hsame 63, heager, hodd.number, heven.number, ?_, hnone (by decide)⟩
  exact (hodd.mem_iff _).2 ⟨rfl, by decide, by decide⟩

end Expression

end ConditionTable
