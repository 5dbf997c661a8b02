/-
The paths of a level are its prime ones: they force the outcome, no cell
of theirs can be freed, and there are no others. A level has paths at all
only if it is tabular, which asks for an entry, for a connective where
there are several, and for few enough entries where these are joined by
exclusive or; and a level that mixes connectives has none.

# The two kinds of connective

Conjunction and disjunction have a decisive value, which a single entry
is enough to give to the level. A path for it constrains one entry, and
the path for the other value constrains all of them. Under exclusive or
every entry matters whatever the others are, so paths leave nothing
free.
-/
import ConditionTable.Proofs.Table.Truth
import Mathlib.Data.List.Nodup

namespace ConditionTable

-- ================================================= the shapes of levels

/-- Whether a level has paths, mixed connectives apart: it has an entry,
a connective if it has several, and fewer than the limit if these are
joined by exclusive or. -/
def levelTabular (connectives : List Connective) (length : Nat) : Bool :=
  length != 0 && (length == 1 || !connectives.isEmpty)
    && (connectives.head? != some .xor || length < Path.assignmentLimit)

/-- The value that one entry is enough to give to a level. -/
def Connective.decisive? : Connective → Option Bool
  | and => some false
  | or => some true
  | xor => none

variable {connectives : List Connective} {length : Nat} {outcome : Bool}

/-- Enumerating both outcomes at once gives what enumerating each alone
does. -/
theorem levelPaths_eq (hmixed : Connective.mixed connectives = false) :
    levelPaths connectives length outcome = Path.forOutcome connectives length outcome := by
  have hboth : levelPaths connectives length outcome
      = if outcome then (Path.forBoth connectives length).1
        else (Path.forBoth connectives length).2 := by
    simp [levelPaths, hmixed]
  rw [hboth]
  by_cases hxor : connectives.head? = some .xor ∧ 1 < length
  · obtain ⟨hhead, hlength⟩ := hxor
    obtain ⟨length, rfl⟩ : ∃ n, length = n + 2 := ⟨length - 2, by omega⟩
    cases outcome <;>
      simp [Path.forBoth, Path.forOutcome, hhead, List.partition_eq_filter_filter,
        Function.comp_def]
  · have halone : Path.forBoth connectives length
        = (Path.forOutcome connectives length true, Path.forOutcome connectives length false) := by
      rw [Path.forBoth, if_neg (by simpa using hxor)]
    rw [halone]
    cases outcome <;> rfl

theorem levelPaths_single (hmixed : Connective.mixed connectives = false) :
    levelPaths connectives 1 outcome = [[.ofBool outcome]] := by
  rw [levelPaths_eq hmixed]
  rfl

/-- One entry decides, or all of them agree on the other value. -/
theorem levelPaths_decisive (hmixed : Connective.mixed connectives = false)
    {connective : Connective} (hhead : connectives.head? = some connective) {decisive : Bool}
    (hdecisive : connective.decisive? = some decisive) (hlength : 2 ≤ length) :
    levelPaths connectives length outcome
      = if outcome = decisive then Path.singles length (.ofBool decisive)
        else [Path.uniform length (.ofBool (!decisive))] := by
  obtain ⟨length, rfl⟩ : ∃ n, length = n + 2 := ⟨length - 2, by omega⟩
  rw [levelPaths_eq hmixed]
  cases connective with
  | and =>
    obtain rfl : false = decisive := by simpa [Connective.decisive?] using hdecisive
    cases outcome <;> simp [Path.forOutcome, hhead, Cell.ofBool]
  | or =>
    obtain rfl : true = decisive := by simpa [Connective.decisive?] using hdecisive
    cases outcome <;> simp [Path.forOutcome, hhead, Cell.ofBool]
  | xor => simp [Connective.decisive?] at hdecisive

theorem levelPaths_xor (hmixed : Connective.mixed connectives = false)
    (hhead : connectives.head? = some .xor) (hlength : 2 ≤ length) :
    levelPaths connectives length outcome
      = (Path.allAssignments length).filter fun path => path.odd == outcome := by
  obtain ⟨length, rfl⟩ : ∃ n, length = n + 2 := ⟨length - 2, by omega⟩
  rw [levelPaths_eq hmixed]
  cases outcome <;> simp [Path.forOutcome, hhead]

/-- A level that mixes connectives or is not tabular has no paths. -/
theorem levelPaths_eq_nil
    (h : ¬ (Connective.mixed connectives = false ∧ levelTabular connectives length = true)) :
    levelPaths connectives length outcome = [] := by
  by_cases hmixed : Connective.mixed connectives = true
  · simp [levelPaths, hmixed]
  rw [Bool.not_eq_true] at hmixed
  have htabular : levelTabular connectives length = false := by simpa [hmixed] using h
  rw [levelPaths_eq hmixed]
  match length, htabular with
  | 0, _ => rfl
  | 1, htabular => simp [levelTabular, Path.assignmentLimit] at htabular
  | length + 2, htabular =>
    cases hhead : connectives.head? with
    | none => simp [Path.forOutcome, hhead]
    | some connective =>
      have hne : connectives ≠ [] := by
        intro heq
        obtain rfl := heq
        simp at hhead
      simp only [levelTabular, hhead, List.isEmpty_eq_false_iff.2 hne] at htabular
      have hxor : connective = .xor ∧ ¬ length + 2 < Path.assignmentLimit := by simpa using htabular
      simp [Path.forOutcome, hhead, hxor.1, Path.allAssignments, hxor.2]

/-- The three shapes of a level that has paths. -/
theorem levelTabular_cases (h : levelTabular connectives length = true) :
    length = 1
      ∨ 2 ≤ length ∧ (∃ connective decisive, connectives.head? = some connective
          ∧ connective.decisive? = some decisive)
      ∨ 2 ≤ length ∧ connectives.head? = some .xor ∧ length < Path.assignmentLimit := by
  simp only [levelTabular, Bool.and_eq_true, Bool.or_eq_true, bne_iff_ne, beq_iff_eq,
    Bool.not_eq_true', List.isEmpty_eq_false_iff, decide_eq_true_eq] at h
  obtain ⟨⟨hpos, hfew⟩, hlimit⟩ := h
  by_cases hone : length = 1
  · exact .inl hone
  have htwo : 2 ≤ length := by omega
  obtain ⟨connective, rest, rfl⟩ := List.exists_cons_of_ne_nil (hfew.resolve_left hone)
  cases connective with
  | and => exact .inr (.inl ⟨htwo, .and, false, rfl, rfl⟩)
  | or => exact .inr (.inl ⟨htwo, .or, true, rfl, rfl⟩)
  | xor => exact .inr (.inr ⟨htwo, rfl, hlimit.resolve_left (by simp)⟩)

theorem levelValue_single (undefined : List Bool → Bool)
    (hmixed : Connective.mixed connectives = false) (value : Bool) :
    levelValue undefined connectives [value] = value := by
  simp [levelValue, hmixed]

theorem levelValue_several (undefined : List Bool → Bool)
    (hmixed : Connective.mixed connectives = false) {connective : Connective}
    (hhead : connectives.head? = some connective) {values : List Bool}
    (hlength : 2 ≤ values.length) :
    levelValue undefined connectives values = connective.combine values := by
  match values, hlength with
  | first :: second :: rest, _ => simp [levelValue, hmixed, hhead]

-- ==================================================== a decisive value

theorem combine_eq_decisive_iff {connective : Connective} {decisive : Bool}
    (h : connective.decisive? = some decisive) (values : List Bool) :
    connective.combine values = decisive ↔ decisive ∈ values := by
  cases connective with
  | and =>
    obtain rfl : false = decisive := by simpa [Connective.decisive?] using h
    simp [Connective.combine]
  | or =>
    obtain rfl : true = decisive := by simpa [Connective.decisive?] using h
    simp [Connective.combine]
  | xor => simp [Connective.decisive?] at h

/-- The paths that constrain one entry, by the place of that entry. -/
theorem singles_succ (length : Nat) (cell : Cell) :
    Path.singles (length + 1) cell
      = (cell :: List.replicate length .free) :: (Path.singles length cell).map (.free :: ·) := by
  have hnext : ∀ index, Path.single? (length + 1) (index + 1) cell
      = (Path.single? length index cell).map (.free :: ·) := by
    intro index
    by_cases h : index < length
    · simp [Path.single?, h, Path.uniform, List.replicate_succ]
    · simp [Path.single?, h]
  rw [Path.singles, List.range_succ_eq_map, List.filterMap_cons, List.filterMap_map]
  simp only [Function.comp_def, hnext]
  rw [← List.map_filterMap]
  rfl

theorem nodup_singles (length : Nat) {cell : Cell} (hcell : cell ≠ .free) :
    (Path.singles length cell).Nodup := by
  induction length with
  | zero => simp [Path.singles]
  | succ length ih =>
    rw [singles_succ, List.nodup_cons]
    constructor
    · simp [Ne.symm hcell]
    · exact List.Nodup.map List.cons_injective ih

/-- Cells without the value `outcome` allow values without it. -/
theorem exists_admits_not_mem {cells : List Cell} (h : .ofBool outcome ∉ cells) :
    ∃ values, Admits cells values ∧ outcome ∉ values := by
  induction cells with
  | nil => exact ⟨[], by simp⟩
  | cons cell cells ih =>
    rw [List.mem_cons, not_or] at h
    obtain ⟨values, hadmits, hnot⟩ := ih h.2
    have hcell : cell.allows (!outcome) = true := by
      rcases cell.eq_free_or_ofBool with rfl | ⟨asked, rfl⟩
      · rfl
      · have hne : asked ≠ outcome := fun heq => h.1 (by rw [heq])
        rw [Cell.allows_ofBool]
        exact (Bool.eq_not.2 hne).symm
    refine ⟨(!outcome) :: values, by simp [hcell, hadmits], ?_⟩
    simp [hnot]

/-- A cell that asks for a value finds it among the values. -/
theorem Admits.mem_of_mem {cells : List Cell} {values : List Bool} (h : Admits cells values)
    (hmem : .ofBool outcome ∈ cells) : outcome ∈ values := by
  induction h with
  | nil => simp at hmem
  | @cons cell value cells values hallows _ ih =>
    rcases List.mem_cons.1 hmem with rfl | hmem
    · have hvalue : value = outcome := by simpa using hallows
      simp [hvalue]
    · exact List.mem_cons_of_mem _ (ih hmem)

theorem forces_decisive_iff {connective : Connective} {decisive : Bool}
    (h : connective.decisive? = some decisive) (cells : List Cell) :
    Forces connective.combine cells decisive ↔ .ofBool decisive ∈ cells := by
  constructor
  · intro hforces
    by_contra hnot
    obtain ⟨values, hadmits, hmem⟩ := exists_admits_not_mem hnot
    exact hmem ((combine_eq_decisive_iff h values).1 (hforces values hadmits))
  · intro hmem values hadmits
    exact (combine_eq_decisive_iff h values).2 (hadmits.mem_of_mem hmem)

/-- What a cell allows may be among the values. -/
theorem exists_admits_mem {cells : List Cell} {cell : Cell} (hmem : cell ∈ cells)
    (hallows : cell.allows outcome = true) : ∃ values, Admits cells values ∧ outcome ∈ values := by
  induction cells with
  | nil => simp at hmem
  | cons first cells ih =>
    rcases List.mem_cons.1 hmem with rfl | hmem
    · obtain ⟨values, hadmits⟩ := exists_admits cells
      exact ⟨outcome :: values, by simp [hallows, hadmits], by simp⟩
    · obtain ⟨values, hadmits, hvalues⟩ := ih hmem
      obtain ⟨value, hvalue⟩ := first.exists_allows
      exact ⟨value :: values, by simp [hvalue, hadmits], by simp [hvalues]⟩

theorem forces_indecisive_iff {connective : Connective} {decisive : Bool}
    (h : connective.decisive? = some decisive) (cells : List Cell) :
    Forces connective.combine cells (!decisive) ↔ ∀ cell ∈ cells, cell = .ofBool (!decisive) := by
  have hcombine : ∀ values, connective.combine values = (!decisive) ↔ decisive ∉ values := by
    intro values
    rw [← combine_eq_decisive_iff h values, Bool.eq_not]
  constructor
  · intro hforces cell hcell
    by_contra hne
    have hallows : cell.allows decisive = true := by
      rcases cell.eq_free_or_ofBool with rfl | ⟨asked, rfl⟩
      · rfl
      · have hasked : asked ≠ !decisive := fun heq => hne (by rw [heq])
        rw [Cell.allows_ofBool]
        simpa using hasked.symm
    obtain ⟨values, hadmits, hmem⟩ := exists_admits_mem hcell hallows
    exact (hcombine values).1 (hforces values hadmits) hmem
  · intro hcells values hadmits
    rw [hcombine]
    induction hadmits with
    | nil => simp
    | @cons cell value cells values hallows _ ih =>
      have hcell : cell = .ofBool (!decisive) := hcells cell (by simp)
      have hvalue : value = !decisive := by simpa [hcell] using hallows
      have hrest := ih fun cell hmem => hcells cell (List.mem_cons_of_mem _ hmem)
      simp [hvalue, hrest]

/-- A path for the decisive value asks for it once and for nothing
else. -/
theorem mem_singles_iff (path : Path) :
    path ∈ Path.singles length (.ofBool outcome)
      ↔ path.length = length ∧ .ofBool outcome ∈ path
        ∧ ∀ looser, Loosens path looser → .ofBool outcome ∉ looser := by
  induction path generalizing length with
  | nil =>
    cases length with
    | zero => simp [Path.singles]
    | succ length => simp [singles_succ]
  | cons cell path ih =>
    cases length with
    | zero => simp [Path.singles]
    | succ length =>
      have hmem : cell :: path ∈ Path.singles (length + 1) (.ofBool outcome)
          ↔ cell = .ofBool outcome ∧ path = List.replicate length .free
            ∨ cell = .free ∧ path ∈ Path.singles length (.ofBool outcome) := by
        simp [singles_succ, and_comm, eq_comm]
      rw [hmem]
      constructor
      · rintro (⟨rfl, rfl⟩ | ⟨rfl, hpath⟩)
        · refine ⟨by simp, by simp, fun looser hloosens => ?_⟩
          rcases hloosens with _ | hloosens
          · simp [Ne.symm]
          · exact absurd hloosens not_loosens_replicate_free
        · obtain ⟨hlength, hasks, hminimal⟩ := ih.1 hpath
          refine ⟨by simp [hlength], by simp [hasks], fun looser hloosens => ?_⟩
          rcases hloosens with constrained | hloosens
          · exact absurd rfl constrained
          · have hlooser := hminimal _ hloosens
            simp [hlooser]
      · intro h
        obtain ⟨hlength, hasks, hminimal⟩ := h
        have hpath : path.length = length := by simpa using hlength
        by_cases hcell : cell = .ofBool outcome
        · left
          refine ⟨hcell, ?_⟩
          rcases eq_replicate_free_or_loosens path with hfree | ⟨looser, hloosens⟩
          · rw [hfree, hpath]
          · exact absurd (by simp [hcell]) (hminimal _ (.there hloosens))
        · right
          have hrest : .ofBool outcome ∈ path := by
            rcases List.mem_cons.1 hasks with heq | hrest
            · exact absurd heq.symm hcell
            · exact hrest
          have hfree : cell = .free := by
            by_contra constrained
            exact hminimal _ (.here constrained) (List.mem_cons_of_mem _ hrest)
          refine ⟨hfree, ih.2 ⟨hpath, hrest, fun looser hloosens hmem => ?_⟩⟩
          exact hminimal _ (.there hloosens) (List.mem_cons_of_mem _ hmem)

/-- A path for the other value asks all entries for it. -/
theorem eq_uniform_iff {path : Path} {cell : Cell} :
    path = Path.uniform length cell ↔ path.length = length ∧ ∀ c ∈ path, c = cell :=
  List.eq_replicate_iff

-- =============================================================== parity

/-- One more changes the parity. -/
theorem odd_succ (count : Nat) : ((count + 1) % 2 == 1) = !(count % 2 == 1) := by
  rcases Nat.mod_two_eq_zero_or_one count with h | h
  · simp [Nat.add_mod, h]
  · simp [Nat.add_mod, h]

theorem combine_xor_cons (value : Bool) (values : List Bool) :
    Connective.combine .xor (value :: values) = (value ^^ Connective.combine .xor values) := by
  cases value with
  | false => simp [Connective.combine]
  | true => simp [Connective.combine, odd_succ]

theorem odd_cons (cell : Cell) (path : Path) :
    Path.odd (cell :: path) = (decide (cell = .holds) ^^ path.odd) := by
  cases cell with
  | holds => simp [Path.odd, odd_succ]
  | fails => simp [Path.odd]
  | free => simp [Path.odd]

/-- Without a free cell the parity of a path is that of the values, and
with one it is not forced. -/
theorem forces_xor_iff (cells : List Cell) :
    Forces (Connective.combine .xor) cells outcome
      ↔ .free ∉ cells ∧ Path.odd cells = outcome := by
  induction cells generalizing outcome with
  | nil => simp [Forces, Connective.combine, Path.odd]
  | cons cell cells ih =>
    have hcons : Forces (Connective.combine .xor) (cell :: cells) outcome
        ↔ ∀ value, cell.allows value = true
            → Forces (Connective.combine .xor) cells (value ^^ outcome) := by
      constructor
      · intro h value hvalue values hadmits
        have := h (value :: values) (by simp [hvalue, hadmits])
        rw [combine_xor_cons] at this
        simp [← this]
      · intro h values hadmits
        cases values with
        | nil => simp [Admits] at hadmits
        | cons value values =>
          rw [admits_cons_cons] at hadmits
          rw [combine_xor_cons, h value hadmits.1 values hadmits.2]
          simp
    rw [hcons]
    cases cell with
    | holds => simp [Cell.allows, ih, odd_cons]
    | fails => simp [Cell.allows, ih, odd_cons]
    | free =>
      have hboth : ¬ ∀ value, Forces (Connective.combine .xor) cells (value ^^ outcome) := by
        intro h
        have htrue := (ih.1 (h true)).2
        have hfalse := (ih.1 (h false)).2
        rw [htrue] at hfalse
        simp at hfalse
      simpa using hboth

theorem mem_assignments_iff (path : Path) :
    path ∈ Path.assignments length ↔ path.length = length ∧ .free ∉ path := by
  induction path generalizing length with
  | nil => cases length <;> simp [Path.assignments]
  | cons cell path ih =>
    cases length with
    | zero => simp [Path.assignments]
    | succ length => cases cell <;> simp [Path.assignments, ih]

theorem nodup_assignments (length : Nat) : (Path.assignments length).Nodup := by
  induction length with
  | zero => simp [Path.assignments]
  | succ length ih =>
    rw [Path.assignments, List.nodup_append]
    refine ⟨ih.map List.cons_injective, ih.map List.cons_injective, ?_⟩
    intro holding hholding failing hfailing
    obtain ⟨path, -, rfl⟩ := List.mem_map.1 hholding
    obtain ⟨other, -, rfl⟩ := List.mem_map.1 hfailing
    simp

/-- One more entry changes the parity where it holds and keeps it where it
fails. -/
theorem filter_odd_assignments_succ (length : Nat) (outcome : Bool) :
    (Path.assignments (length + 1)).filter (fun path => path.odd == outcome)
      = ((Path.assignments length).filter fun path => path.odd == !outcome).map (.holds :: ·)
        ++ ((Path.assignments length).filter fun path => path.odd == outcome).map (.fails :: ·) := by
  have hholds : (fun path : Path => path.odd == outcome) ∘ (.holds :: ·)
      = fun path : Path => path.odd == !outcome := by
    funext path
    show (Path.odd (.holds :: path) == outcome) = _
    rw [odd_cons]
    cases Path.odd path <;> cases outcome <;> rfl
  have hfails : (fun path : Path => path.odd == outcome) ∘ (.fails :: ·)
      = fun path : Path => path.odd == outcome := by
    funext path
    show (Path.odd (.fails :: path) == outcome) = _
    rw [odd_cons]
    cases Path.odd path <;> rfl
  rw [Path.assignments, List.filter_append, List.filter_map, List.filter_map, hholds, hfails]

-- ========================================================= prime paths

/-- Only values of the right number matter. -/
theorem TruthFunction.prime_congr {value other : List Bool → Bool}
    (h : ∀ values, values.length = length → value values = other values) {cells : List Cell} :
    Prime ⟨length, value⟩ cells outcome ↔ Prime ⟨length, other⟩ cells outcome := by
  have hforces : ∀ cells : List Cell, cells.length = length
      → (Forces value cells outcome ↔ Forces other cells outcome) := by
    intro cells hlength
    refine forall_congr' fun values => forall_congr' fun hadmits => ?_
    rw [h values (by rw [← hadmits.length_eq, hlength])]
  constructor
  · intro hprime
    refine ⟨hprime.length, (hforces _ hprime.length).1 hprime.forces, fun looser hloosens => ?_⟩
    rw [← hforces _ (by rw [hloosens.length_eq, hprime.length])]
    exact hprime.minimal looser hloosens
  · intro hprime
    refine ⟨hprime.length, (hforces _ hprime.length).2 hprime.forces, fun looser hloosens => ?_⟩
    rw [hforces _ (by rw [hloosens.length_eq, hprime.length])]
    exact hprime.minimal looser hloosens

/-- The one path of a single entry asks it for the outcome. -/
theorem prime_single_iff {cells : List Cell} :
    TruthFunction.Prime ⟨1, fun values => values.headD false⟩ cells outcome
      ↔ cells = [.ofBool outcome] := by
  constructor
  · intro hprime
    obtain ⟨cell, rfl⟩ := List.length_eq_one_iff.1 hprime.length
    have hvalue : ∀ value, cell.allows value = true → value = outcome := fun value hvalue =>
      hprime.forces [value] (by simp [hvalue])
    rcases cell.eq_free_or_ofBool with rfl | ⟨asked, rfl⟩
    · exact absurd (hvalue (!outcome) rfl) (by simp)
    · rw [hvalue asked (by simp)]
  · intro heq
    obtain rfl := heq
    refine ⟨rfl, fun values hadmits => ?_, fun looser hloosens hforces => ?_⟩
    · cases values with
      | nil => simp [Admits] at hadmits
      | cons value values =>
        rw [admits_cons_cons, Cell.allows_ofBool] at hadmits
        exact hadmits.1
    · rcases hloosens with _ | ⟨⟨⟩⟩
      have := hforces [!outcome] (by simp)
      simp at this

theorem prime_decisive_iff {connective : Connective} {decisive : Bool}
    (h : connective.decisive? = some decisive) {cells : List Cell} :
    TruthFunction.Prime ⟨length, connective.combine⟩ cells decisive
      ↔ cells ∈ Path.singles length (.ofBool decisive) := by
  rw [mem_singles_iff]
  simp only [← forces_decisive_iff h]
  exact ⟨fun hprime => ⟨hprime.length, hprime.forces, hprime.minimal⟩,
    fun ⟨hlength, hforces, hminimal⟩ => ⟨hlength, hforces, hminimal⟩⟩

theorem prime_indecisive_iff {connective : Connective} {decisive : Bool}
    (h : connective.decisive? = some decisive) {cells : List Cell} :
    TruthFunction.Prime ⟨length, connective.combine⟩ cells (!decisive)
      ↔ cells = Path.uniform length (.ofBool (!decisive)) := by
  rw [eq_uniform_iff]
  constructor
  · intro hprime
    exact ⟨hprime.length, (forces_indecisive_iff h cells).1 hprime.forces⟩
  · intro h
    obtain ⟨hlength, hcells⟩ := h
    refine ⟨hlength, (forces_indecisive_iff h cells).2 hcells, fun looser hloosens hforces => ?_⟩
    have hlooser := (forces_indecisive_iff h looser).1 hforces .free hloosens.free_mem
    exact Cell.ofBool_ne_free _ hlooser.symm

theorem prime_xor_iff {cells : List Cell} :
    TruthFunction.Prime ⟨length, Connective.combine .xor⟩ cells outcome
      ↔ cells.length = length ∧ .free ∉ cells ∧ Path.odd cells = outcome := by
  constructor
  · intro hprime
    exact ⟨hprime.length, (forces_xor_iff cells).1 hprime.forces⟩
  · intro h
    obtain ⟨hlength, hcells⟩ := h
    refine ⟨hlength, (forces_xor_iff cells).2 hcells, fun looser hloosens hforces => ?_⟩
    exact ((forces_xor_iff looser).1 hforces).1 hloosens.free_mem

/-- The paths of a tabular level that does not mix connectives are its
prime ones. -/
theorem mem_levelPaths_iff (undefined : List Bool → Bool)
    (hmixed : Connective.mixed connectives = false)
    (htabular : levelTabular connectives length = true) {path : Path} :
    path ∈ levelPaths connectives length outcome
      ↔ TruthFunction.Prime ⟨length, levelValue undefined connectives⟩ path outcome := by
  rcases levelTabular_cases htabular with
    rfl | ⟨hlength, connective, decisive, hhead, hdecisive⟩ | ⟨hlength, hhead, hlimit⟩
  · have hvalue : ∀ values : List Bool, values.length = 1
        → levelValue undefined connectives values = values.headD false := by
      intro values hone
      obtain ⟨value, rfl⟩ := List.length_eq_one_iff.1 hone
      exact levelValue_single undefined hmixed value
    rw [levelPaths_single hmixed, List.mem_singleton, TruthFunction.prime_congr hvalue,
      prime_single_iff]
  · rw [levelPaths_decisive hmixed hhead hdecisive hlength,
      TruthFunction.prime_congr fun values heq =>
        levelValue_several undefined hmixed hhead (by rw [heq]; exact hlength)]
    by_cases houtcome : outcome = decisive
    · subst houtcome
      rw [if_pos rfl, prime_decisive_iff hdecisive]
    · obtain rfl : outcome = !decisive := Bool.eq_not.2 houtcome
      rw [if_neg houtcome, List.mem_singleton, prime_indecisive_iff hdecisive]
  · rw [levelPaths_xor hmixed hhead hlength,
      TruthFunction.prime_congr fun values heq =>
        levelValue_several undefined hmixed hhead (by rw [heq]; exact hlength),
      prime_xor_iff, Path.allAssignments, if_pos hlimit, List.mem_filter, mem_assignments_iff,
      beq_iff_eq, and_assoc]

/-- No path is listed twice. -/
theorem nodup_levelPaths (connectives : List Connective) (length : Nat) (outcome : Bool) :
    (levelPaths connectives length outcome).Nodup := by
  by_cases h : Connective.mixed connectives = false ∧ levelTabular connectives length = true
  · obtain ⟨hmixed, htabular⟩ := h
    rcases levelTabular_cases htabular with
      rfl | ⟨hlength, connective, decisive, hhead, hdecisive⟩ | ⟨hlength, hhead, hlimit⟩
    · simp [levelPaths_single hmixed]
    · rw [levelPaths_decisive hmixed hhead hdecisive hlength]
      split
      · exact nodup_singles length (Cell.ofBool_ne_free decisive)
      · exact List.nodup_singleton _
    · rw [levelPaths_xor hmixed hhead hlength, Path.allAssignments, if_pos hlimit]
      exact (nodup_assignments length).filter _
  · rw [levelPaths_eq_nil h]
    exact List.nodup_nil

/-- The paths of any level have a cell for each entry and force the
outcome. -/
theorem forces_of_mem_levelPaths (undefined : List Bool → Bool) {path : Path}
    (hpath : path ∈ levelPaths connectives length outcome) :
    path.length = length ∧ Forces (levelValue undefined connectives) path outcome := by
  by_cases h : Connective.mixed connectives = false ∧ levelTabular connectives length = true
  · have hprime := (mem_levelPaths_iff undefined h.1 h.2).1 hpath
    exact ⟨hprime.length, hprime.forces⟩
  · rw [levelPaths_eq_nil h] at hpath
    simp at hpath

end ConditionTable
