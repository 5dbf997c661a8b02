/-
When a table is complete: every way of giving values to the conditions
agrees with a row. This holds exactly if no level mixes connectives and
all levels are tabular (`complete_iff`), so one group without conditions,
or one with several and no connective, anywhere below the top is enough
to leave some values without a row.

# Why one level without a table leaves a gap

No entry has rows for one outcome at all values (`Supply.Open`): the
level function takes the other value somewhere, and entries can be given
values at which they refuse to have it otherwise. So the neighbours of an
entry with a gap can be held at values where the level depends on that
entry (`exists_pivot`). A row there would have to leave the entry free
and yet fix the level, which no path does.
-/
import ConditionTable.Proofs.Table.Exactness

namespace ConditionTable

-- ================================================== rows at given values

/-- Some row supplied for the cell agrees with the values. -/
def Supply.Covers (supply : Supply) (cell : Cell) (values : List Bool) : Prop :=
  ∃ row ∈ supply.rows cell, Admits row values

/-- Neither outcome is covered at all values. -/
def Supply.Open (supply : Supply) : Prop :=
  ∀ outcome, ∃ values, values.length = supply.free.length
    ∧ ¬ supply.Covers (.ofBool outcome) values

/-- Some outcome is covered at any values. -/
def Supply.Complete (supply : Supply) : Prop :=
  ∀ values, values.length = supply.free.length → ∃ outcome, supply.Covers (.ofBool outcome) values

/-- A supply with its share of the values. -/
abbrev Share := Supply × List Bool

/-- The share has a value for each cell, and all rows do. -/
def Share.Fits (share : Share) : Prop :=
  share.1.Aligned ∧ share.2.length = share.1.free.length

/-- A row of a level agrees with the values exactly if each part agrees
with its share. -/
theorem exists_inParts_admits_iff {shares : List Share} (hfits : ∀ share ∈ shares, share.Fits)
    {path : Path} :
    (∃ row, InParts Supply.Offers (shares.map Prod.fst) row path
        ∧ Admits row (shares.flatMap Prod.snd))
      ↔ List.Forall₂ (fun share cell => share.1.Covers cell share.2) shares path := by
  constructor
  · intro h
    obtain ⟨row, hparts, hadmits⟩ := h
    induction shares generalizing row path with
    | nil =>
      cases hparts
      exact .nil
    | cons share shares ih =>
      obtain ⟨haligned, hlength⟩ := hfits share List.mem_cons_self
      rw [List.map_cons] at hparts
      cases hparts with
      | @cons _ _ front back cell path head tail =>
        have hfront : front.length = share.2.length := by rw [haligned cell front head, hlength]
        rw [List.flatMap_cons, admits_append_iff, hfront, List.take_left, List.drop_left] at hadmits
        exact .cons ⟨front, head, hadmits.1⟩
          (ih (fun share h => hfits share (List.mem_cons_of_mem _ h)) back tail hadmits.2)
  · intro hcovers
    induction hcovers with
    | nil => exact ⟨[], .nil, by simp⟩
    | cons head _ ih =>
      obtain ⟨front, hfront, hadmits⟩ := head
      obtain ⟨back, hback, hrest⟩ := ih fun share h => hfits share (List.mem_cons_of_mem _ h)
      exact ⟨front ++ back, .cons hfront hback, List.rel_append hadmits hrest⟩

/-- A level has a row at the values exactly if a path of it is covered
throughout. -/
theorem covers_growRows_iff {shares : List Share} (hfits : ∀ share ∈ shares, share.Fits)
    {paths : List Path} :
    (∃ row ∈ growRows (shares.map Prod.fst) paths, Admits row (shares.flatMap Prod.snd))
      ↔ ∃ path ∈ paths,
          List.Forall₂ (fun share cell => share.1.Covers cell share.2) shares path := by
  simp only [mem_growRows_iff, ← exists_inParts_admits_iff hfits]
  constructor
  · intro h
    obtain ⟨row, ⟨path, hpath, hparts⟩, hadmits⟩ := h
    exact ⟨path, hpath, row, hparts, hadmits⟩
  · intro h
    obtain ⟨path, hpath, row, hparts, hadmits⟩ := h
    exact ⟨row, ⟨path, hpath, hparts⟩, hadmits⟩

/-- The shares cover no outcome but the given ones. -/
def Refuses (shares : List Share) (values : List Bool) : Prop :=
  List.Forall₂ (fun share value => ¬ share.1.Covers (.ofBool (!value)) share.2) shares values

/-- Open supplies can be held to any values. -/
theorem exists_refuses {supplies : List Supply} (hopen : ∀ supply ∈ supplies, supply.Open)
    (haligned : ∀ supply ∈ supplies, supply.Aligned) {values : List Bool}
    (hlength : values.length = supplies.length) :
    ∃ shares : List Share, shares.map Prod.fst = supplies ∧ (∀ share ∈ shares, share.Fits)
      ∧ Refuses shares values := by
  induction supplies generalizing values with
  | nil =>
    obtain rfl : values = [] := List.length_eq_zero_iff.1 hlength
    exact ⟨[], rfl, by simp, .nil⟩
  | cons supply supplies ih =>
    cases values with
    | nil => simp at hlength
    | cons value values =>
      obtain ⟨share, hshare, hnot⟩ := hopen supply List.mem_cons_self (!value)
      obtain ⟨shares, rfl, hfits, hrefuses⟩ :=
        ih (fun s hs => hopen s (List.mem_cons_of_mem _ hs))
          (fun s hs => haligned s (List.mem_cons_of_mem _ hs)) (by simpa using hlength)
      refine ⟨(supply, share) :: shares, rfl, ?_, .cons hnot hrefuses⟩
      intro s hs
      rcases List.mem_cons.1 hs with rfl | hs
      · exact ⟨haligned supply List.mem_cons_self, hshare⟩
      · exact hfits s hs

/-- What shares held to some values cover agrees with these. -/
theorem Refuses.admits {shares : List Share} {values : List Bool} (h : Refuses shares values)
    {path : Path}
    (hcovers : List.Forall₂ (fun share cell => share.1.Covers cell share.2) shares path) :
    Admits path values := by
  induction h generalizing path with
  | nil =>
    cases hcovers
    simp
  | @cons share value shares values hnot _ ih =>
    cases hcovers with
    | @cons _ cell _ path head tail =>
      rw [admits_cons_cons]
      refine ⟨?_, ih tail⟩
      rcases cell.eq_free_or_ofBool with rfl | ⟨outcome, rfl⟩
      · rfl
      · by_contra hne
        have houtcome : outcome = !value := by
          rw [Cell.allows_ofBool] at hne
          exact Bool.eq_not.2 (Ne.symm hne)
        exact hnot (houtcome ▸ head)

-- ======================================================= levels with gaps

variable {connectives : List Connective} {supplies : List Supply}

theorem length_flatMap_snd {shares : List Share} (hfits : ∀ share ∈ shares, share.Fits) :
    (shares.flatMap Prod.snd).length
      = ((shares.map Prod.fst).flatMap Supply.free).length := by
  induction shares with
  | nil => rfl
  | cons share shares ih =>
    have hrest := ih fun share h => hfits share (List.mem_cons_of_mem _ h)
    rw [List.flatMap_cons, List.length_append, (hfits share List.mem_cons_self).2, hrest,
      List.map_cons, List.flatMap_cons, List.length_append]

/-- A level of open entries is open. -/
theorem exists_not_covers_growRows (connectives : List Connective)
    (hopen : ∀ supply ∈ supplies, supply.Open)
    (haligned : ∀ supply ∈ supplies, supply.Aligned) (outcome : Bool) :
    ∃ values, values.length = (supplies.flatMap Supply.free).length
      ∧ ¬ ∃ row ∈ growRows supplies (levelPaths connectives supplies.length outcome),
          Admits row values := by
  by_cases h : Connective.mixed connectives = false
      ∧ levelTabular connectives supplies.length = true
  · -- hold the entries at values where the level has the other outcome
    have hforces : ¬ Forces (levelValue (fun _ => false) connectives)
        (List.replicate supplies.length .free) outcome := not_forces_free _ h.1 h.2
    obtain ⟨values, hadmits, hvalue⟩ : ∃ values,
        Admits (List.replicate supplies.length .free) values
          ∧ levelValue (fun _ => false) connectives values ≠ outcome := by
      simpa [Forces] using hforces
    obtain ⟨shares, rfl, hfits, hrefuses⟩ :=
      exists_refuses hopen haligned (admits_replicate_free.1 hadmits)
    refine ⟨shares.flatMap Prod.snd, length_flatMap_snd hfits, fun hcovers => hvalue ?_⟩
    obtain ⟨path, hpath, hcovers⟩ := (covers_growRows_iff hfits).1 hcovers
    exact (forces_of_mem_levelPaths _ hpath).2 values (hrefuses.admits hcovers)
  · refine ⟨List.replicate (supplies.flatMap Supply.free).length false, by simp, ?_⟩
    rw [levelPaths_eq_nil h]
    simp [growRows_eq]

/-- A tabular level depends on each of its entries at some values of the
others. -/
theorem exists_pivot (hmixed : Connective.mixed connectives = false) {before after : Nat}
    (htabular : levelTabular connectives (before + (after + 1)) = true) :
    ∃ front back : List Bool, front.length = before ∧ back.length = after
      ∧ levelValue (fun _ => false) connectives (front ++ true :: back)
          ≠ levelValue (fun _ => false) connectives (front ++ false :: back) := by
  rcases levelTabular_cases htabular with
    hone | ⟨hlength, connective, decisive, hhead, hdecisive⟩ | ⟨hlength, hhead, -⟩
  · obtain ⟨rfl, rfl⟩ : before = 0 ∧ after = 0 := by omega
    refine ⟨[], [], rfl, rfl, ?_⟩
    rw [List.nil_append, List.nil_append, levelValue_single _ hmixed, levelValue_single _ hmixed]
    simp
  · refine ⟨List.replicate before (!decisive), List.replicate after (!decisive), by simp, by simp,
      ?_⟩
    rw [levelValue_several _ hmixed hhead (by simp; omega),
      levelValue_several _ hmixed hhead (by simp; omega)]
    intro heq
    have htrue := combine_eq_decisive_iff hdecisive
      (List.replicate before (!decisive) ++ true :: List.replicate after (!decisive))
    have hfalse := combine_eq_decisive_iff hdecisive
      (List.replicate before (!decisive) ++ false :: List.replicate after (!decisive))
    rw [heq, hfalse] at htrue
    cases decisive <;> simp [List.mem_replicate] at htrue
  · refine ⟨List.replicate before false, List.replicate after false, by simp, by simp, ?_⟩
    rw [levelValue_several _ hmixed hhead (by simp; omega),
      levelValue_several _ hmixed hhead (by simp; omega)]
    simp [Connective.combine, List.count_replicate]

/-- A level with a row at all values has entries with a row at all of
theirs. -/
theorem complete_of_complete_level (hopen : ∀ supply ∈ supplies, supply.Open)
    (haligned : ∀ supply ∈ supplies, supply.Aligned)
    (hmixed : Connective.mixed connectives = false)
    (htabular : levelTabular connectives supplies.length = true)
    (hcomplete : ∀ values, values.length = (supplies.flatMap Supply.free).length
      → ∃ outcome, ∃ row ∈ growRows supplies (levelPaths connectives supplies.length outcome),
          Admits row values) :
    ∀ supply ∈ supplies, supply.Complete := by
  intro supply hsupply
  obtain ⟨front, back, rfl⟩ := List.append_of_mem hsupply
  by_contra hgap
  obtain ⟨values, hlength, hnot⟩ : ∃ values, values.length = supply.free.length
      ∧ ∀ outcome, ¬ supply.Covers (.ofBool outcome) values := by
    simpa [Supply.Complete] using hgap
  rw [List.length_append, List.length_cons] at htabular
  obtain ⟨before, after, hbefore, hafter, hpivot⟩ := exists_pivot hmixed htabular
  obtain ⟨left, rfl, hleft, hleftRefuses⟩ := exists_refuses
    (fun s hs => hopen s (List.mem_append_left _ hs))
    (fun s hs => haligned s (List.mem_append_left _ hs)) hbefore
  obtain ⟨right, rfl, hright, hrightRefuses⟩ := exists_refuses
    (fun s hs => hopen s (List.mem_append_right _ (List.mem_cons_of_mem _ hs)))
    (fun s hs => haligned s (List.mem_append_right _ (List.mem_cons_of_mem _ hs))) hafter
  -- the neighbours are held, and the entry itself covers nothing
  let shares : List Share := left ++ (supply, values) :: right
  have hfst : shares.map Prod.fst = left.map Prod.fst ++ supply :: right.map Prod.fst := by
    simp [shares]
  have hfits : ∀ share ∈ shares, share.Fits := by
    intro share hshare
    rcases List.mem_append.1 hshare with h | h
    · exact hleft share h
    · rcases List.mem_cons.1 h with rfl | h
      · exact ⟨haligned supply hsupply, hlength⟩
      · exact hright share h
  have hrefuses : ∀ value, Refuses shares (before ++ value :: after) := fun value =>
    List.rel_append hleftRefuses (.cons (hnot _) hrightRefuses)
  obtain ⟨outcome, hcovers⟩ := hcomplete (shares.flatMap Prod.snd)
    (by rw [length_flatMap_snd hfits, hfst])
  rw [← hfst] at hcovers
  obtain ⟨path, hpath, hcovers⟩ := (covers_growRows_iff hfits).1 hcovers
  have hforces := (forces_of_mem_levelPaths (fun _ => false) hpath).2
  apply hpivot
  rw [hforces _ ((hrefuses true).admits hcovers), hforces _ ((hrefuses false).admits hcovers)]

-- ================================================= entries with gaps

/-- A level with a row at all values is one that has paths. -/
theorem tabular_of_complete_level
    (hcomplete : ∀ values, values.length = (supplies.flatMap Supply.free).length
      → ∃ outcome, ∃ row ∈ growRows supplies (levelPaths connectives supplies.length outcome),
          Admits row values) :
    Connective.mixed connectives = false
      ∧ levelTabular connectives supplies.length = true := by
  by_contra h
  obtain ⟨outcome, row, hrow, -⟩ :=
    hcomplete (List.replicate (supplies.flatMap Supply.free).length false) (by simp)
  rw [levelPaths_eq_nil h] at hrow
  simp [growRows_eq] at hrow

namespace Entry

mutual

/-- No entry has a row for one outcome at all values. -/
theorem open_supply : (entry : Entry) → entry.supply.Open
  | leaf condition => by
      intro outcome
      refine ⟨[!outcome], rfl, ?_⟩
      intro h
      obtain ⟨row, hrow, hadmits⟩ := h
      rw [rows_supply_leaf, List.mem_singleton] at hrow
      subst hrow
      simp at hadmits
  | group connectives entries => by
      intro outcome
      obtain ⟨values, hlength, hnot⟩ := exists_not_covers_growRows connectives
        (open_supplyAll entries) (fun _ => aligned_of_mem_supplyAll) outcome
      refine ⟨values, hlength, ?_⟩
      unfold Supply.Covers
      rwa [rows_supply_group]

theorem open_supplyAll : (entries : List Entry) → ∀ supply ∈ supplyAll entries, supply.Open
  | [], supply, hsupply => by simp [supplyAll] at hsupply
  | entry :: entries, supply, hsupply => by
      rcases List.mem_cons.1 hsupply with rfl | hsupply
      · exact open_supply entry
      · exact open_supplyAll entries supply hsupply

end

mutual

/-- An entry with a row at all values is tabular throughout. -/
theorem tabular_of_complete : (entry : Entry) → entry.supply.Complete →
    entry.tabular = true ∧ entry.anyMixed = false
  | leaf _, _ => ⟨rfl, rfl⟩
  | group connectives entries, hcomplete => by
      unfold Supply.Complete Supply.Covers at hcomplete
      simp only [rows_supply_group] at hcomplete
      obtain ⟨hmixed, htabular⟩ := tabular_of_complete_level hcomplete
      obtain ⟨hentries, hunmixed⟩ := allTabular_of_complete entries
        (complete_of_complete_level (open_supplyAll entries) (fun _ => aligned_of_mem_supplyAll)
          hmixed htabular hcomplete)
      rw [length_supplyAll] at htabular
      rw [tabular, anyMixed, htabular, hmixed, hentries, hunmixed]
      exact ⟨rfl, rfl⟩

theorem allTabular_of_complete : (entries : List Entry) →
    (∀ supply ∈ supplyAll entries, supply.Complete) →
      allTabular entries = true ∧ anyMixedAll entries = false
  | [], _ => ⟨rfl, rfl⟩
  | entry :: entries, hcomplete => by
      obtain ⟨hentry, hmixed⟩ := tabular_of_complete entry (hcomplete _ List.mem_cons_self)
      obtain ⟨hentries, hunmixed⟩ := allTabular_of_complete entries fun supply hsupply =>
        hcomplete supply (List.mem_cons_of_mem _ hsupply)
      rw [allTabular, anyMixedAll, hentry, hmixed, hentries, hunmixed]
      exact ⟨rfl, rfl⟩

end

end Entry

-- ===================================================== prime implicants

/-- Freeing a cell leaves one constrained cell fewer. -/
theorem Loosens.countP_eq {cells looser : List Cell} (h : Loosens cells looser) :
    cells.countP (· ≠ .free) = looser.countP (· ≠ .free) + 1 := by
  induction h with
  | here constrained => simp [constrained]
  | there _ ih =>
    rw [List.countP_cons, List.countP_cons, ih]
    omega

/-- Cells that force an outcome can be freed until they are prime for
it. -/
theorem TruthFunction.exists_prime {function : TruthFunction} {cells : List Cell}
    {outcome : Bool} (hlength : cells.length = function.arity)
    (hforces : Forces function.value cells outcome) :
    ∃ row, function.Prime row outcome ∧ ∀ values, Admits cells values → Admits row values := by
  -- induction on the number of constrained cells
  induction hcount : cells.countP (· ≠ .free) generalizing cells with
  | zero =>
    refine ⟨cells, ⟨hlength, hforces, fun looser hloosens => ?_⟩, fun _ => id⟩
    have := hloosens.countP_eq
    omega
  | succ count ih =>
    by_cases hminimal : ∃ looser, Loosens cells looser ∧ Forces function.value looser outcome
    · obtain ⟨looser, hloosens, hforces⟩ := hminimal
      obtain ⟨row, hprime, hadmits⟩ := ih (by rw [hloosens.length_eq, hlength]) hforces
        (by have := hloosens.countP_eq; omega)
      exact ⟨row, hprime, fun values h => hadmits values (hloosens.admits h)⟩
    · exact ⟨cells, ⟨hlength, hforces, fun looser h hforces => hminimal ⟨looser, h, hforces⟩⟩,
        fun _ => id⟩

/-- Cells that ask for the values one by one allow nothing else. -/
theorem admits_map_ofBool {values others : List Bool} :
    Admits (values.map Cell.ofBool) others ↔ others = values := by
  induction values generalizing others with
  | nil => simp
  | cons value values ih =>
    cases others with
    | nil => simp [Admits]
    | cons other others => simp [ih]

/-- At any values there is a prime row for the outcome of the function. -/
theorem TruthFunction.exists_prime_admits (function : TruthFunction) {values : List Bool}
    (hlength : values.length = function.arity) :
    ∃ row, function.Prime row (function.value values) ∧ Admits row values := by
  have hforces : Forces function.value (values.map Cell.ofBool) (function.value values) := by
    intro others hadmits
    rw [admits_map_ofBool.1 hadmits]
  obtain ⟨row, hprime, hadmits⟩ := exists_prime (by rw [List.length_map, hlength]) hforces
  exact ⟨row, hprime, hadmits values (admits_map_ofBool.2 rfl)⟩

-- ========================================================== expressions

namespace Expression

/-- Whatever the values of the conditions, a row agrees with them. -/
def Complete (expression : Expression) : Prop :=
  ∀ values, values.length = expression.leafCount
    → ∃ outcome, ∃ row ∈ expression.rows outcome, Admits row values

/-- The free cells of all entries are as many as the conditions. -/
theorem length_flatMap_free (entries : List Entry) :
    ((Entry.supplyAll entries).flatMap Supply.free).length = Entry.leafCountAll entries := by
  rw [flatMap_free_eq (Entry.free_supplyAll (fun _ _ => false) [] 0 entries),
    List.length_replicate, Entry.sum_arity_truthAll]

/-- A table is complete exactly if all levels have one. -/
theorem complete_iff (expression : Expression) :
    expression.Complete ↔ expression.tabular = true ∧ expression.anyMixed = false := by
  constructor
  · intro hcomplete
    unfold Complete leafCount at hcomplete
    simp only [rows_eq, ← length_flatMap_free] at hcomplete
    obtain ⟨hmixed, htabular⟩ := tabular_of_complete_level hcomplete
    obtain ⟨hentries, hunmixed⟩ := Entry.allTabular_of_complete expression.entries
      (complete_of_complete_level (Entry.open_supplyAll _)
        (fun _ => Entry.aligned_of_mem_supplyAll) hmixed htabular hcomplete)
    rw [Entry.length_supplyAll] at htabular
    rw [tabular, anyMixed, mixed, htabular, hmixed, hentries, hunmixed]
    exact ⟨rfl, rfl⟩
  · intro h values hlength
    obtain ⟨htabular, hmixed⟩ := h
    let convention : Convention := fun _ _ => false
    have harity : values.length = (expression.truth convention).arity := by
      rw [arity_truth, hlength]
    obtain ⟨row, hprime, hadmits⟩ := (expression.truth convention).exists_prime_admits harity
    exact ⟨_, row, (mem_rows_iff_prime htabular hmixed convention).2 hprime, hadmits⟩

end Expression

end ConditionTable
