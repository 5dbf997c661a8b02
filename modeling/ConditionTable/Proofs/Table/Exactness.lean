/-
The rows of a tabular expression are its prime ones, each listed once.
So a table neither leaves out a smallest set of outcomes that decides the
expression nor repeats one, and no cell of a row asks for more than it
must. Conditions with the same text count as different, since a row goes
by places.

# Why every entry must be able to take both values

The prime rows of a level are built from prime rows of its entries only
if no entry is constant: a constant entry would be decided by a part that
is free throughout, where a path still asks for its outcome. Tabular
levels keep this up from the conditions to the top
(`TruthFunction.varies_ofLevel`): under a path for one outcome the other
cannot be forced, and every tabular level has paths for both.
-/
import ConditionTable.Proofs.Table.Soundness

namespace ConditionTable

-- ============================================================= varying

variable {connectives : List Connective} {length : Nat} {outcome : Bool}

/-- A tabular level can have either outcome. -/
theorem levelPaths_ne_nil (hmixed : Connective.mixed connectives = false)
    (htabular : levelTabular connectives length = true) :
    levelPaths connectives length outcome ≠ [] := by
  rcases levelTabular_cases htabular with
    rfl | ⟨hlength, connective, decisive, hhead, hdecisive⟩ | ⟨hlength, hhead, hlimit⟩
  · rw [levelPaths_single hmixed]
    exact List.cons_ne_nil _ _
  · rw [levelPaths_decisive hmixed hhead hdecisive hlength]
    obtain ⟨length, rfl⟩ : ∃ n, length = n + 1 := ⟨length - 1, by omega⟩
    split
    · rw [singles_succ]
      exact List.cons_ne_nil _ _
    · exact List.cons_ne_nil _ _
  · obtain ⟨length, rfl⟩ : ∃ n, length = n + 1 := ⟨length - 1, by omega⟩
    apply List.ne_nil_of_mem (a := .ofBool outcome :: List.replicate length .fails)
    rw [levelPaths_xor hmixed hhead hlength, Path.allAssignments, if_pos hlimit, List.mem_filter,
      mem_assignments_iff]
    cases outcome <;> simp [Cell.ofBool, Path.odd, List.mem_replicate, List.count_replicate]

/-- A tabular level is not decided before any of its entries is. -/
theorem not_forces_free (undefined : List Bool → Bool)
    (hmixed : Connective.mixed connectives = false)
    (htabular : levelTabular connectives length = true) :
    ¬ Forces (levelValue undefined connectives) (List.replicate length .free) outcome := by
  intro hforces
  have hne : levelPaths connectives length (!outcome) ≠ [] := levelPaths_ne_nil hmixed htabular
  obtain ⟨path, hpath⟩ := List.exists_mem_of_ne_nil _ hne
  obtain ⟨hlength, hother⟩ := forces_of_mem_levelPaths undefined hpath
  obtain ⟨values, hadmits⟩ := exists_admits path
  have hvalue := hforces values (admits_replicate_free.2 (by rw [← hadmits.length_eq, hlength]))
  rw [hother values hadmits] at hvalue
  simp at hvalue

/-- Entries that vary make a tabular level that varies. -/
theorem TruthFunction.varies_ofLevel (undefined : List Bool → Bool)
    (hmixed : Connective.mixed connectives = false) {parts : List TruthFunction}
    (htabular : levelTabular connectives parts.length = true)
    (hvaries : ∀ part ∈ parts, part.Varies) : (ofLevel undefined connectives parts).Varies := by
  have hfree : InParts ReadsAs parts (List.replicate (parts.map arity).sum .free)
      (List.replicate parts.length .free) := by
    clear htabular
    induction parts with
    | nil => exact .nil
    | cons part parts ih =>
      rw [List.map_cons, List.sum_cons, ← List.replicate_append_replicate, List.length_cons,
        List.replicate_succ]
      exact .cons (hvaries part List.mem_cons_self)
        (ih fun part hpart => hvaries part (List.mem_cons_of_mem _ hpart))
  have hlength : (List.replicate (parts.map arity).sum Cell.free).length
      = (ofLevel undefined connectives parts).arity := List.length_replicate
  obtain ⟨cell, hcell⟩ := exists_readsAs _ hlength
  rcases cell.eq_free_or_ofBool with rfl | ⟨outcome, rfl⟩
  · exact hcell
  · exact absurd ((hfree.forces_iff _).1 (readsAs_ofBool_iff.1 hcell).2)
      (not_forces_free undefined hmixed htabular)

-- ======================================================== exact supply

/-- What is supplied for a cell is what is tight for it, listed once, and
the entry can take both values. -/
structure Supply.Exact (function : TruthFunction) (supply : Supply) : Prop where
  varies : function.Varies
  mem_iff : ∀ row cell, row ∈ supply.rows cell ↔ function.Tight row cell
  nodup : ∀ cell, (supply.rows cell).Nodup
  length_free : supply.free.length = function.arity

variable {parts : List TruthFunction} {supplies : List Supply}

theorem exact_of_mem_left (hexact : List.Forall₂ Supply.Exact parts supplies)
    {part : TruthFunction} (hpart : part ∈ parts) :
    ∃ supply ∈ supplies, Supply.Exact part supply := by
  induction hexact with
  | nil => simp at hpart
  | @cons part' supply parts supplies head _ ih =>
    rcases List.mem_cons.1 hpart with rfl | hpart
    · exact ⟨supply, List.mem_cons_self, head⟩
    · obtain ⟨supply', hmem, hsupply⟩ := ih hpart
      exact ⟨supply', List.mem_cons_of_mem _ hmem, hsupply⟩

theorem exact_of_mem_right (hexact : List.Forall₂ Supply.Exact parts supplies)
    {supply : Supply} (hsupply : supply ∈ supplies) :
    ∃ part ∈ parts, Supply.Exact part supply := by
  induction hexact with
  | nil => simp at hsupply
  | @cons part supply' parts supplies head _ ih =>
    rcases List.mem_cons.1 hsupply with rfl | hsupply
    · exact ⟨part, List.mem_cons_self, head⟩
    · obtain ⟨part', hmem, hpart⟩ := ih hsupply
      exact ⟨part', List.mem_cons_of_mem _ hmem, hpart⟩

/-- What exact supplies offer is tight. -/
theorem inParts_offers_iff (hexact : List.Forall₂ Supply.Exact parts supplies) {row : Row}
    {path : Path} :
    InParts Supply.Offers supplies row path ↔ InParts TruthFunction.Tight parts row path :=
  InParts.congr (hexact.flip.imp fun _ _ h row cell => h.mem_iff row cell)

/-- The rows of a tabular level of exact entries are its prime ones. -/
theorem mem_growRows_iff_prime (hexact : List.Forall₂ Supply.Exact parts supplies)
    (undefined : List Bool → Bool) (hmixed : Connective.mixed connectives = false)
    (htabular : levelTabular connectives supplies.length = true) {row : Row} :
    row ∈ growRows supplies (levelPaths connectives supplies.length outcome)
      ↔ (TruthFunction.ofLevel undefined connectives parts).Prime row outcome := by
  have hvaries : ∀ part ∈ parts, part.Varies := by
    intro part hpart
    obtain ⟨supply, -, hsupply⟩ := exact_of_mem_left hexact hpart
    exact hsupply.varies
  simp only [mem_growRows_iff, inParts_offers_iff hexact,
    mem_levelPaths_iff undefined hmixed htabular]
  rw [← hexact.length_eq]
  exact (prime_ofParts_iff hvaries _).symm

/-- No row of a level of exact entries is listed twice. -/
theorem nodup_growRows (hexact : List.Forall₂ Supply.Exact parts supplies) :
    (growRows supplies (levelPaths connectives supplies.length outcome)).Nodup := by
  rw [growRows_eq, List.nodup_flatMap]
  constructor
  · intro path _
    refine nodup_combinations (fun supply hsupply cell => ?_)
      (fun supply hsupply cell row hrow => ?_)
    · obtain ⟨part, -, hpart⟩ := exact_of_mem_right hexact hsupply
      exact hpart.nodup cell
    · obtain ⟨part, -, hpart⟩ := exact_of_mem_right hexact hsupply
      rw [hpart.length_free, ((hpart.mem_iff row cell).1 hrow).reads.1]
  · refine ((nodup_levelPaths connectives _ outcome).filter _).imp fun {path other} hne => ?_
    show List.Disjoint _ _
    intro row hrow hother
    have htight := (inParts_offers_iff hexact).1 (mem_combinations_iff.1 hrow)
    have htight' := (inParts_offers_iff hexact).1 (mem_combinations_iff.1 hother)
    exact hne (htight.reads.unique htight'.reads)

-- ================================================= tabular expressions

namespace Entry

mutual

/-- Whether all levels below an entry are tabular. -/
def tabular : Entry → Bool
  | leaf _ => true
  | group connectives entries => levelTabular connectives entries.length && allTabular entries

/-- Whether all levels below a list of entries are tabular. -/
def allTabular : List Entry → Bool
  | [] => true
  | entry :: entries => entry.tabular && allTabular entries

end

/-- A condition varies, and is decided by the one cell that asks for its
outcome. -/
theorem tight_truth_leaf (convention : Convention) (address : List Nat) (condition : Condition)
    {cells : List Cell} {cell : Cell} :
    ((leaf condition).truth convention address).Tight cells cell ↔ cells = [cell] := by
  have hvaries : ((leaf condition).truth convention address).Varies :=
    ⟨rfl, fun value => ⟨fun _ => ⟨[value], by simp [truth], rfl⟩, fun _ => rfl⟩⟩
  rcases cell.eq_free_or_ofBool with rfl | ⟨outcome, rfl⟩
  · exact hvaries.tight_free_iff
  · exact TruthFunction.tight_ofBool_iff.trans prime_single_iff

/-- A group is exact when its level is tabular and its entries are
exact. -/
theorem exact_supply_group (convention : Convention) (address : List Nat)
    {connectives : List Connective} {entries : List Entry}
    (htabular : levelTabular connectives entries.length = true)
    (hmixed : Connective.mixed connectives = false)
    (hentries : List.Forall₂ Supply.Exact (truthAll convention address 0 entries)
      (supplyAll entries)) :
    Supply.Exact ((group connectives entries).truth convention address)
      (group connectives entries).supply := by
  have hlength : (supplyAll entries).length = entries.length := length_supplyAll entries
  have hvaries : ((group connectives entries).truth convention address).Varies := by
    rw [truth]
    refine TruthFunction.varies_ofLevel _ hmixed (by rwa [length_truthAll]) fun part hpart => ?_
    obtain ⟨supply, -, hsupply⟩ := exact_of_mem_left hentries hpart
    exact hsupply.varies
  have hfree := free_supply convention address (group connectives entries)
  refine ⟨hvaries, fun row cell => ?_, fun cell => ?_, by rw [hfree, List.length_replicate]⟩
  · rcases cell.eq_free_or_ofBool with rfl | ⟨outcome, rfl⟩
    · rw [hvaries.tight_free_iff, ← hfree]
      exact List.mem_singleton
    · rw [TruthFunction.tight_ofBool_iff, rows_supply_group, truth]
      exact mem_growRows_iff_prime hentries _ hmixed (by rwa [hlength])
  · rcases cell.eq_free_or_ofBool with rfl | ⟨outcome, rfl⟩
    · exact List.nodup_singleton _
    · rw [rows_supply_group]
      exact nodup_growRows hentries

mutual

/-- What a tabular entry supplies is exact. -/
theorem exact_supply (convention : Convention) (address : List Nat) : (entry : Entry) →
    entry.tabular = true → entry.anyMixed = false →
      Supply.Exact (entry.truth convention address) entry.supply
  | leaf condition, _, _ => by
      have htight : ((leaf condition).truth convention address).Tight [.free] .free :=
        (tight_truth_leaf convention address condition).2 rfl
      refine ⟨htight.reads, fun row cell => ?_, fun cell => ?_, rfl⟩
      · rw [rows_supply_leaf, List.mem_singleton, tight_truth_leaf]
      · rw [rows_supply_leaf]
        exact List.nodup_singleton _
  | group connectives entries, htabular, hmixed => by
      rw [tabular, Bool.and_eq_true] at htabular
      rw [anyMixed, Bool.or_eq_false_iff] at hmixed
      exact exact_supply_group convention address htabular.1 hmixed.1
        (exact_supplyAll convention address 0 entries htabular.2 hmixed.2)

theorem exact_supplyAll (convention : Convention) (address : List Nat) (place : Nat) :
    (entries : List Entry) → allTabular entries = true → anyMixedAll entries = false →
      List.Forall₂ Supply.Exact (truthAll convention address place entries) (supplyAll entries)
  | [], _, _ => .nil
  | entry :: entries, htabular, hmixed => by
      rw [allTabular, Bool.and_eq_true] at htabular
      rw [anyMixedAll, Bool.or_eq_false_iff] at hmixed
      exact .cons (exact_supply convention _ entry htabular.1 hmixed.1)
        (exact_supplyAll convention address (place + 1) entries htabular.2 hmixed.2)

end

end Entry

namespace Expression

/-- Whether all levels of an expression are tabular. -/
def tabular (expression : Expression) : Bool :=
  levelTabular expression.connectives expression.entries.length
    && Entry.allTabular expression.entries

/-- What the entries of a tabular expression supply is exact. -/
theorem exact_entries {expression : Expression} (htabular : expression.tabular = true)
    (hmixed : expression.anyMixed = false) (convention : Convention) :
    List.Forall₂ Supply.Exact (Entry.truthAll convention [] 0 expression.entries)
      (Entry.supplyAll expression.entries) := by
  rw [tabular, Bool.and_eq_true] at htabular
  rw [anyMixed, Bool.or_eq_false_iff] at hmixed
  exact Entry.exact_supplyAll convention [] 0 expression.entries htabular.2 hmixed.2

/-- The rows of a tabular expression are its prime ones. -/
theorem mem_rows_iff_prime {expression : Expression} (htabular : expression.tabular = true)
    (hmixed : expression.anyMixed = false) (convention : Convention) {outcome : Bool}
    {row : Row} :
    row ∈ expression.rows outcome ↔ (expression.truth convention).Prime row outcome := by
  have hentries := exact_entries htabular hmixed convention
  rw [tabular, Bool.and_eq_true] at htabular
  rw [anyMixed, Bool.or_eq_false_iff] at hmixed
  rw [rows_eq]
  exact mem_growRows_iff_prime hentries _ hmixed.1
    (by rw [Entry.length_supplyAll]; exact htabular.1)

/-- The rows of a tabular expression for an outcome are the smallest
partial assignments that force it, each listed once. -/
theorem mem_rows_iff_smallest {expression : Expression} (htabular : expression.tabular = true)
    (hmixed : expression.anyMixed = false) (convention : Convention) (outcome : Bool) :
    (∀ row, row ∈ expression.rows outcome
      ↔ row.length = expression.leafCount
        ∧ Forces (expression.value convention) row outcome
        ∧ ∀ looser, Loosens row looser → ¬ Forces (expression.value convention) looser outcome)
    ∧ (expression.rows outcome).Nodup := by
  constructor
  · intro row
    rw [mem_rows_iff_prime htabular hmixed convention, ← arity_truth convention]
    exact ⟨fun h => ⟨h.length, h.forces, h.minimal⟩, fun ⟨h, h', h''⟩ => ⟨h, h', h''⟩⟩
  · rw [rows_eq]
    exact nodup_growRows (exact_entries htabular hmixed convention)

/-- The expression `p && (q ^ r)`. -/
def conjunctionOfParity : Expression :=
  ⟨[.and], [.leaf ⟨['p'], by decide, by decide⟩,
    .group [.xor] [.leaf ⟨['q'], by decide, by decide⟩, .leaf ⟨['r'], by decide, by decide⟩]]⟩

/-- It fails already when the parity is even, whatever `p` is. -/
theorem mem_rows_iff_smallest_conjunctionOfParity :
    conjunctionOfParity.tabular = true ∧ conjunctionOfParity.anyMixed = false
      ∧ Forces (conjunctionOfParity.value fun _ _ => false) [.free, .holds, .holds] false
      ∧ ¬ Forces (conjunctionOfParity.value fun _ _ => false) [.free, .holds, .free] false
      ∧ (conjunctionOfParity.rows false).Nodup := by
  have htabular : conjunctionOfParity.tabular = true := by decide
  have hmixed : conjunctionOfParity.anyMixed = false := by decide
  obtain ⟨hmem, hnodup⟩ := mem_rows_iff_smallest htabular hmixed (fun _ _ => false) false
  obtain ⟨-, hforces, hminimal⟩ := (hmem [.free, .holds, .holds]).1 (by decide)
  exact ⟨htabular, hmixed, hforces, hminimal _ (.there (.there (.here (by decide)))), hnodup⟩

end Expression

end ConditionTable
