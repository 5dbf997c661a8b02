/-
The normal form of a pattern expression keeps its meaning. Sequences
(`leads_ofItems`), choices (`leads_ofBranches`), tables (`leads_ofTable`)
and repetitions (`leads_ofTurns`) that are put together into that form
lead where their parts lead one after the other, in one of them, or so
many times.

Choices between tables become one table, and then a table with a single
code point would become a literal. The proof therefore asks for tables in
order that are not such a point already, wherever a choice could come upon
them (`Expr.Proper`), and what is put together is of that kind again.
-/
import ConditionTable.Pattern.Expr
import ConditionTable.Proofs.Except
import ConditionTable.Proofs.Pattern.Turns
import ConditionTable.Proofs.Text.Tables

namespace ConditionTable

variable {place next between : Place}

namespace Pattern.Expr

open Node (LeadsAll leadsAll_append leadsAll_singleton)

variable {expr : Expr} {items branches front back : List Expr} {table : RangeTable}

-- ============================================================== meaning

/-- Where an expression leads. -/
def Leads (expr : Expr) : Place → Place → Prop :=
  expr.node.Leads

theorem nodes_eq_map (items : List Expr) : nodes items = items.map node := by
  induction items with
  | nil => rfl
  | cons item items ih => rw [nodes, ih, List.map_cons]

/-- Where expressions lead one after the other. -/
def LeadsEach (items : List Expr) : Place → Place → Prop :=
  LeadsAll (items.map node)

theorem leadsEach_cons {item : Expr} : LeadsEach (item :: items) place next
    ↔ ∃ between, item.Leads place between ∧ LeadsEach items between next :=
  Iff.rfl

theorem leadsEach_singleton : LeadsEach [expr] place next ↔ expr.Leads place next :=
  leadsAll_singleton

theorem leadsEach_append : LeadsEach (front ++ back) place next
    ↔ ∃ between, LeadsEach front place between ∧ LeadsEach back between next := by
  rw [LeadsEach, List.map_append]
  exact leadsAll_append

theorem leads_seq : (seq items).Leads place next ↔ LeadsEach items place next := by
  rw [Leads, node, nodes_eq_map]
  exact Node.leads_seq _

theorem leads_choice (hne : items ≠ []) :
    (choice items).Leads place next ↔ ∃ item ∈ items, item.Leads place next := by
  rw [Leads, node, nodes_eq_map, Node.leads_choice (by simpa using hne)]
  simp [Leads]

theorem leads_literal_append (front back : Text) :
    (literal (front ++ back)).Leads place next
      ↔ ∃ between, (literal front).Leads place between ∧ (literal back).Leads between next := by
  simp only [Leads, node, Node.leads_seq, List.map_append]
  exact leadsAll_append

theorem leads_literal_singleton (c : Char) :
    (literal [c]).Leads place next ↔ (anyOf [(c.toNat, c.toNat)]).Leads place next :=
  Iff.rfl

theorem leads_anyOf {ascii : Bool} : (anyOf table ascii).Leads place next
    ↔ ∃ c, place.rest = c :: next.rest ∧ next.before = some c ∧ table.holds c.toNat = true :=
  Iff.rfl

-- ============================================================= sequences

/-- Joining literals changes nothing. -/
theorem leadsEach_joinLiterals (items : List Expr) :
    LeadsEach (joinLiterals items) place next ↔ LeadsEach items place next := by
  induction items generalizing place with
  | nil => exact Iff.rfl
  | cons item items ih =>
    unfold joinLiterals
    split
    · next front back more heq =>
      rw [leadsEach_cons, leadsEach_cons]
      simp only [← ih, heq, leadsEach_cons, leads_literal_append]
      constructor
      · rintro ⟨last, ⟨between, hfront, hback⟩, hmore⟩
        exact ⟨between, hfront, last, hback, hmore⟩
      · rintro ⟨between, hfront, last, hback, hmore⟩
        exact ⟨last, ⟨between, hfront, hback⟩, hmore⟩
    · rw [leadsEach_cons, leadsEach_cons]
      simp only [ih]

/-- What an expression adds to a sequence. -/
def flatItems : Expr → List Expr
  | empty => []
  | seq items => items
  | item => [item]

theorem leadsEach_flatItems (expr : Expr) :
    LeadsEach expr.flatItems place next ↔ expr.Leads place next := by
  cases expr with
  | empty => exact Iff.rfl
  | seq items => exact leads_seq.symm
  | _ => exact leadsEach_singleton

theorem leadsEach_flatMap (items : List Expr) :
    LeadsEach (items.flatMap flatItems) place next ↔ LeadsEach items place next := by
  induction items generalizing place with
  | nil => exact Iff.rfl
  | cons item items ih =>
    rw [List.flatMap_cons, leadsEach_append, leadsEach_cons]
    simp only [leadsEach_flatItems, ih]

theorem ofItems_eq (items : List Expr) : ofItems items =
    match joinLiterals (items.flatMap flatItems) with
    | [] => empty
    | [item] => item
    | items => seq items := by
  have hflat : flatItems = fun item => match item with
      | empty => []
      | seq items => items
      | item => [item] := by
    funext item
    cases item <;> rfl
  rw [hflat]
  rfl

/-- Expressions one after the other. -/
theorem leads_ofItems (items : List Expr) :
    (ofItems items).Leads place next ↔ LeadsEach items place next := by
  rw [← leadsEach_flatMap, ← leadsEach_joinLiterals, ofItems_eq]
  split
  · next heq => rw [heq]; exact Iff.rfl
  · next item heq => rw [heq]; exact leadsEach_singleton.symm
  · exact leads_seq

-- =============================================================== tables

mutual

/-- Wherever a choice can come upon a table it is in order and not a
single point, and no choice is empty. -/
def Proper : Expr → Prop
  | anyOf table _ => table.Ordered ∧ ∀ n, table ≠ [(n, n)]
  | seq items => ProperAll items
  | choice items => items ≠ [] ∧ ProperAll items
  | _ => True

/-- All of the expressions are proper. -/
def ProperAll : List Expr → Prop
  | [] => True
  | item :: rest => item.Proper ∧ ProperAll rest

end

theorem properAll_iff : ProperAll items ↔ ∀ item ∈ items, item.Proper := by
  induction items with
  | nil => simp [ProperAll]
  | cons item items ih => rw [ProperAll, ih, List.forall_mem_cons]

theorem proper_ofTable (h : table.Ordered) (ascii : Bool) : (ofTable table ascii).Proper := by
  unfold ofTable
  split
  · exact ⟨h, nofun⟩
  · next low high =>
    split
    · trivial
    · next hne =>
      refine ⟨h, fun n heq => hne ?_⟩
      obtain ⟨rfl, rfl⟩ := Prod.mk.inj (List.cons.inj heq).1
      exact beq_self_eq_true _
  · next hne => exact ⟨h, fun n heq => hne n n heq⟩

/-- A table is a table, even as a literal. -/
theorem leads_ofTable (h : ∀ n, table = [(n, n)] → n.isValidChar) (ascii : Bool) :
    (ofTable table ascii).Leads place next ↔ (anyOf table).Leads place next := by
  unfold ofTable
  split
  · exact Iff.rfl
  · next low high =>
    split
    · next heq =>
      obtain rfl := beq_iff_eq.1 heq
      rw [leads_literal_singleton, Char.ofNat, dif_pos (h _ rfl)]
      rfl
    · exact Iff.rfl
  · exact Iff.rfl

/-- The union of several tables. -/
theorem holds_foldl_union {tables : List RangeTable} (htables : ∀ table ∈ tables, table.Ordered)
    (h : table.Ordered) :
    RangeTable.Ordered (tables.foldl RangeTable.union table)
      ∧ ∀ n, RangeTable.holds (tables.foldl RangeTable.union table) n = true
        ↔ table.holds n = true ∨ ∃ member ∈ tables, member.holds n = true := by
  induction tables generalizing table with
  | nil => exact ⟨h, by simp⟩
  | cons member tables ih =>
    rw [List.forall_mem_cons] at htables
    obtain ⟨hordered, hholds⟩ := ih htables.2 (h.union htables.1)
    refine ⟨hordered, fun n => ?_⟩
    rw [List.foldl_cons, hholds, RangeTable.holds_union h htables.1, List.exists_mem_cons_iff,
      or_assoc]

/-- Branches that stand for tables are the union of these. -/
theorem leads_union {tables : List RangeTable} (StandsFor : Expr → RangeTable → Prop)
    (hstands : ∀ branch table, StandsFor branch table → RangeTable.Ordered table
      ∧ ∀ place next, branch.Leads place next ↔ (anyOf table).Leads place next)
    (hto : ∀ branch ∈ branches, ∃ table ∈ tables, StandsFor branch table)
    (hfrom : ∀ table ∈ tables, ∃ branch ∈ branches, StandsFor branch table)
    (hvalid : ∀ n, tables.foldl RangeTable.union [] = [(n, n)] → n.isValidChar) :
    (ofTable (tables.foldl RangeTable.union [])).Proper
      ∧ ∀ place next, (ofTable (tables.foldl RangeTable.union [])).Leads place next
        ↔ ∃ branch ∈ branches, branch.Leads place next := by
  have htables : ∀ table ∈ tables, RangeTable.Ordered table := fun table htable => by
    obtain ⟨branch, -, hbranch⟩ := hfrom table htable
    exact (hstands branch table hbranch).1
  obtain ⟨hordered, hholds⟩ := holds_foldl_union htables RangeTable.ordered_nil
  refine ⟨proper_ofTable hordered false, fun place next => ?_⟩
  rw [leads_ofTable hvalid, leads_anyOf]
  constructor
  · rintro ⟨c, hrest, hbefore, hc⟩
    obtain ⟨table, htable, hc⟩ := ((hholds _).1 hc).resolve_left Bool.false_ne_true
    obtain ⟨branch, hbranch, hmeans⟩ := hfrom table htable
    exact ⟨branch, hbranch, ((hstands branch table hmeans).2 _ _).2 ⟨c, hrest, hbefore, hc⟩⟩
  · rintro ⟨branch, hbranch, h⟩
    obtain ⟨table, htable, hmeans⟩ := hto branch hbranch
    obtain ⟨c, hrest, hbefore, hc⟩ := ((hstands branch table hmeans).2 _ _).1 h
    exact ⟨c, hrest, hbefore, (hholds _).2 (.inr ⟨table, htable, hc⟩)⟩

/-- A union that is a single point has that point from one of its tables. -/
theorem exists_of_foldl_union_eq {tables : List RangeTable} {n : Nat}
    (hordered : ∀ table ∈ tables, RangeTable.Ordered table)
    (heq : tables.foldl RangeTable.union [] = [(n, n)]) :
    ∃ table ∈ tables, RangeTable.holds table n = true
      ∧ ∀ m, RangeTable.holds table m = true → m = n := by
  have hholds := (holds_foldl_union hordered RangeTable.ordered_nil).2
  have hpoint : ∀ m, RangeTable.holds [(n, n)] m = true ↔ m = n := fun m => by
    rw [RangeTable.holds_cons]
    simp only [RangeTable.holds, Bool.false_eq_true, or_false]
    omega
  rw [heq] at hholds
  obtain ⟨table, htable, hn⟩ := ((hholds n).1 ((hpoint n).2 rfl)).resolve_left Bool.false_ne_true
  exact ⟨table, htable, hn, fun m hm => (hpoint m).1 ((hholds m).2 (.inr ⟨table, htable, hm⟩))⟩

/-- The table of a branch that is one character. -/
def charTable? : Expr → Option RangeTable
  | literal [c] => some [(c.toNat, c.toNat)]
  | _ => none

/-- The table of a branch that is a table. -/
def setTable? : Expr → Option RangeTable
  | anyOf table _ => some table
  | _ => none

theorem tableOf?_eq (branches : List Expr) : tableOf? branches =
    ((branches.mapM charTable?).or (branches.mapM setTable?)).map
      fun tables => tables.foldl RangeTable.union [] :=
  rfl

theorem eq_of_charTable? (h : expr.charTable? = some table) :
    ∃ c : Char, expr = literal [c] ∧ table = [(c.toNat, c.toNat)] := by
  unfold charTable? at h
  split at h
  · next c => exact ⟨c, rfl, (Option.some.inj h).symm⟩
  · cases h

theorem eq_of_setTable? (h : expr.setTable? = some table) : ∃ ascii, expr = anyOf table ascii := by
  unfold setTable? at h
  split at h
  · next ascii => exact ⟨ascii, congrArg (anyOf · ascii) (Option.some.inj h)⟩
  · cases h

/-- A choice between characters. -/
theorem leads_chars {tables : List RangeTable} (h : branches.mapM charTable? = some tables) :
    (ofTable (tables.foldl RangeTable.union [])).Proper
      ∧ ∀ place next, (ofTable (tables.foldl RangeTable.union [])).Leads place next
        ↔ ∃ branch ∈ branches, branch.Leads place next := by
  obtain ⟨hto, hfrom⟩ := mem_of_mapM h
  refine leads_union _ (fun branch table heq => ?_) hto hfrom fun n heq => ?_
  · obtain ⟨c, rfl, rfl⟩ := eq_of_charTable? heq
    exact ⟨RangeTable.ordered_singleton (Nat.le_refl _), fun _ _ => leads_literal_singleton c⟩
  · have hordered : ∀ table ∈ tables, RangeTable.Ordered table := by
      intro table htable
      obtain ⟨branch, -, hbranch⟩ := hfrom table htable
      obtain ⟨c, -, rfl⟩ := eq_of_charTable? hbranch
      exact RangeTable.ordered_singleton (Nat.le_refl _)
    obtain ⟨table, htable, -, hn⟩ := exists_of_foldl_union_eq hordered heq
    obtain ⟨branch, -, hbranch⟩ := hfrom table htable
    obtain ⟨c, -, rfl⟩ := eq_of_charTable? hbranch
    have hc := hn c.toNat (RangeTable.holds_cons.2 ⟨Nat.le_refl _, .inl (Nat.le_refl _)⟩)
    exact hc ▸ c.valid

/-- A choice between tables. None of them is a single point, so neither is
their union. -/
theorem leads_sets {tables : List RangeTable} (hproper : ∀ branch ∈ branches, branch.Proper)
    (h : branches.mapM setTable? = some tables) :
    (ofTable (tables.foldl RangeTable.union [])).Proper
      ∧ ∀ place next, (ofTable (tables.foldl RangeTable.union [])).Leads place next
        ↔ ∃ branch ∈ branches, branch.Leads place next := by
  obtain ⟨hto, hfrom⟩ := mem_of_mapM h
  have hmembers : ∀ table ∈ tables, RangeTable.Ordered table ∧ ∀ n, table ≠ [(n, n)] := by
    intro table htable
    obtain ⟨branch, hbranch, heq⟩ := hfrom table htable
    obtain ⟨ascii, rfl⟩ := eq_of_setTable? heq
    exact hproper _ hbranch
  refine leads_union (fun branch table => table ∈ tables ∧ ∃ ascii, branch = anyOf table ascii)
    (fun branch table heq => ?_) (fun branch hbranch => ?_) (fun table htable => ?_) fun n heq => ?_
  · obtain ⟨htable, ascii, rfl⟩ := heq
    exact ⟨(hmembers table htable).1, fun _ _ => Iff.rfl⟩
  · exact (hto branch hbranch).imp fun table h => ⟨h.1, h.1, eq_of_setTable? h.2⟩
  · exact (hfrom table htable).imp fun branch h => ⟨h.1, htable, eq_of_setTable? h.2⟩
  · obtain ⟨table, htable, hn, hall⟩ :=
      exists_of_foldl_union_eq (fun table htable => (hmembers table htable).1) heq
    refine absurd ((hmembers table htable).1.eq_singleton ?_ hall) ((hmembers table htable).2 n)
    rintro rfl
    cases hn

/-- A choice between characters, or between tables, is one table. -/
theorem leads_tableOf? (hproper : ∀ branch ∈ branches, branch.Proper)
    (h : tableOf? branches = some table) :
    (ofTable table).Proper
      ∧ ∀ place next, (ofTable table).Leads place next
        ↔ ∃ branch ∈ branches, branch.Leads place next := by
  rw [tableOf?_eq, Option.map_eq_some_iff] at h
  obtain ⟨tables, htables, rfl⟩ := h
  rcases Option.or_eq_some_iff.1 htables with hchars | ⟨-, hsets⟩
  · exact leads_chars hchars
  · exact leads_sets hproper hsets

-- ============================================================== choices

mutual

/-- Expressions that are found the same are equal. -/
theorem eq_of_same : (a b : Expr) → a.same b = true → a = b
  | empty, b, h => by cases b <;> simp [same] at h ⊢
  | literal text, b, h => by cases b <;> simp [same] at h ⊢; exact h
  | anyOf table ascii, b, h => by cases b <;> simp [same] at h ⊢; exact h
  | look condition, b, h => by cases b <;> simp [same] at h ⊢; exact h
  | seq items, b, h => by
      cases b <;> simp [same] at h ⊢
      exact eq_of_sameAll _ _ h
  | choice items, b, h => by
      cases b <;> simp [same] at h ⊢
      exact eq_of_sameAll _ _ h
  | turns greedy least most body, b, h => by
      cases b <;> simp [same] at h ⊢
      exact ⟨h.1.1.1, h.1.1.2, h.1.2, eq_of_same _ _ h.2⟩
  | group index body, b, h => by
      cases b <;> simp [same] at h ⊢
      exact ⟨h.1, eq_of_same _ _ h.2⟩

theorem eq_of_sameAll : (as bs : List Expr) → sameAll as bs = true → as = bs
  | [], [], _ => rfl
  | [], _ :: _, h => by simp [sameAll] at h
  | _ :: _, [], h => by simp [sameAll] at h
  | a :: as, b :: bs, h => by
      rw [sameAll, Bool.and_eq_true] at h
      rw [eq_of_same a b h.1, eq_of_sameAll as bs h.2]

end

theorem commonFront_prefix (as bs : List Expr) :
    commonFront as bs <+: as ∧ commonFront as bs <+: bs := by
  induction as generalizing bs with
  | nil => exact ⟨List.nil_prefix, List.nil_prefix⟩
  | cons a as ih =>
    cases bs with
    | nil => exact ⟨List.nil_prefix, List.nil_prefix⟩
    | cons b bs =>
      rw [commonFront]
      split
      · next hsame =>
        obtain rfl := eq_of_same a b hsame
        exact ⟨(List.prefix_cons_inj a).2 (ih bs).1, (List.prefix_cons_inj a).2 (ih bs).2⟩
      · exact ⟨List.nil_prefix, List.nil_prefix⟩

theorem foldl_commonFront_prefix (first : List Expr) (rest : List (List Expr)) :
    ∀ items ∈ first :: rest, rest.foldl commonFront first <+: items := by
  induction rest generalizing first with
  | nil => simp
  | cons next rest ih =>
    rw [List.foldl_cons]
    have hfirst := ih (commonFront first next) _ List.mem_cons_self
    have hlater := fun items hitems =>
      ih (commonFront first next) items (List.mem_cons_of_mem _ hitems)
    obtain ⟨hleft, hright⟩ := commonFront_prefix first next
    rw [List.forall_mem_cons, List.forall_mem_cons]
    exact ⟨hfirst.trans hleft, hfirst.trans hright, hlater⟩

/-- All branches begin with what they have in common. -/
theorem exists_of_commonItems (hne : commonItems branches ≠ []) :
    ∀ branch ∈ branches, ∃ rest, branch = seq (commonItems branches ++ rest) := by
  rw [commonItems] at hne ⊢
  split at hne
  · next first rest hlists =>
    intro branch hbranch
    obtain ⟨items, hitems, heq⟩ := (mem_of_mapM hlists).1 branch hbranch
    split at heq
    · next own =>
      obtain rfl := Option.some.inj heq
      obtain ⟨back, hback⟩ := foldl_commonFront_prefix first rest _ hitems
      exact ⟨back, congrArg seq hback.symm⟩
    · cases heq
  · exact absurd rfl hne

theorem proper_joinLiterals (h : ∀ item ∈ items, item.Proper) :
    ∀ item ∈ joinLiterals items, item.Proper := by
  induction items with
  | nil => simp [joinLiterals]
  | cons item items ih =>
    rw [List.forall_mem_cons] at h
    have hrest := ih h.2
    unfold joinLiterals
    split
    · next heq =>
      rw [heq, List.forall_mem_cons] at hrest
      exact List.forall_mem_cons.2 ⟨trivial, hrest.2⟩
    · exact List.forall_mem_cons.2 ⟨h.1, hrest⟩

theorem Proper.flatItems (h : expr.Proper) : ∀ item ∈ expr.flatItems, item.Proper := by
  cases expr with
  | empty => simp [Expr.flatItems]
  | seq items => exact properAll_iff.1 h
  | _ => exact List.forall_mem_singleton.2 h

theorem proper_ofItems (h : ∀ item ∈ items, item.Proper) : (ofItems items).Proper := by
  have hflat : ∀ item ∈ joinLiterals (items.flatMap Expr.flatItems), item.Proper :=
    proper_joinLiterals fun item hitem => by
      obtain ⟨origin, horigin, hmem⟩ := List.mem_flatMap.1 hitem
      exact (h origin horigin).flatItems item hmem
  rw [ofItems_eq]
  split
  · trivial
  · next heq => exact List.forall_mem_singleton.1 (heq ▸ hflat)
  · exact properAll_iff.2 hflat

/-- The branches that an expression adds to a choice. -/
def flatBranches : Expr → List Expr
  | choice items => items
  | branch => [branch]

theorem Proper.flatBranches (h : expr.Proper) :
    (∀ branch ∈ expr.flatBranches, branch.Proper)
      ∧ ∀ place next,
        (∃ branch ∈ expr.flatBranches, branch.Leads place next) ↔ expr.Leads place next := by
  cases expr with
  | choice items => exact ⟨properAll_iff.1 h.2, fun _ _ => (leads_choice h.1).symm⟩
  | _ => exact ⟨List.forall_mem_singleton.2 h, fun _ _ => by simp [Expr.flatBranches]⟩

theorem ofBranchesWithin_eq (fuel : Nat) (branches : List Expr) : ofBranchesWithin fuel branches =
    match branches.flatMap Expr.flatBranches with
    | [branch] => branch
    | flat =>
        match tableOf? flat, commonItems flat, fuel with
        | some table, _, _ => ofTable table
        | none, [], _ => choice flat
        | none, _, 0 => choice flat
        | none, common, fuel + 1 =>
            ofItems (common ++ [ofBranchesWithin fuel (flat.map (dropItems common.length))]) := by
  have hflat : Expr.flatBranches = fun branch => match branch with
      | choice items => items
      | branch => [branch] := by
    funext branch
    cases branch <;> rfl
  rw [hflat]
  exact ofBranchesWithin.eq_def fuel branches

/-- A choice that is not a table is what it is. -/
theorem leads_choice_of_tableOf? (hproper : ∀ branch ∈ branches, branch.Proper)
    (hnone : tableOf? branches = none) :
    (choice branches).Proper
      ∧ ∀ place next, (choice branches).Leads place next
        ↔ ∃ branch ∈ branches, branch.Leads place next := by
  have hne : branches ≠ [] := by
    rintro rfl
    cases hnone
  exact ⟨⟨hne, properAll_iff.2 hproper⟩, fun _ _ => leads_choice hne⟩

/-- What the branches have in common may stand in front of the choice. -/
theorem leads_common (hproper : ∀ branch ∈ branches, branch.Proper)
    (hne : commonItems branches ≠ []) {rest : Expr}
    (hrest : (∀ branch ∈ branches.map (dropItems (commonItems branches).length), branch.Proper) →
      rest.Proper ∧ ∀ place next, rest.Leads place next
        ↔ ∃ branch ∈ branches.map (dropItems (commonItems branches).length), branch.Leads place next)
    (hsome : branches ≠ []) :
    (ofItems (commonItems branches ++ [rest])).Proper
      ∧ ∀ place next, (ofItems (commonItems branches ++ [rest])).Leads place next
        ↔ ∃ branch ∈ branches, branch.Leads place next := by
  obtain ⟨common, hcommon⟩ : ∃ common, common = commonItems branches := ⟨_, rfl⟩
  have hbranches := exists_of_commonItems hne
  rw [← hcommon] at hbranches hrest ⊢
  have hparts : ∀ branch ∈ branches, (∀ item ∈ common, item.Proper)
      ∧ (dropItems common.length branch).Proper
      ∧ ∀ place next, branch.Leads place next ↔ ∃ between, LeadsEach common place between
        ∧ (dropItems common.length branch).Leads between next := by
    intro branch hbranch
    obtain ⟨back, rfl⟩ := hbranches branch hbranch
    have hitems := properAll_iff.1 (hproper _ hbranch)
    have hdrop : dropItems common.length (seq (common ++ back)) = ofItems back := by
      rw [dropItems, List.drop_left]
    rw [hdrop]
    refine ⟨fun item hitem => hitems item (List.mem_append_left _ hitem),
      proper_ofItems fun item hitem => hitems item (List.mem_append_right _ hitem), fun place next => ?_⟩
    rw [leads_seq, leadsEach_append]
    simp only [leads_ofItems]
  obtain ⟨hrestProper, hrestLeads⟩ := hrest fun branch hbranch => by
    obtain ⟨origin, horigin, rfl⟩ := List.mem_map.1 hbranch
    exact (hparts origin horigin).2.1
  obtain ⟨first, hfirst⟩ := List.exists_mem_of_ne_nil _ hsome
  refine ⟨proper_ofItems fun item hitem => ?_, fun place next => ?_⟩
  · rcases List.mem_append.1 hitem with hitem | hitem
    · exact (hparts first hfirst).1 item hitem
    · exact (List.mem_singleton.1 hitem).symm ▸ hrestProper
  · rw [leads_ofItems, leadsEach_append]
    simp only [leadsEach_singleton, hrestLeads]
    constructor
    · rintro ⟨between, hfront, branch, hbranch, hback⟩
      obtain ⟨origin, horigin, rfl⟩ := List.mem_map.1 hbranch
      exact ⟨origin, horigin, ((hparts origin horigin).2.2 _ _).2 ⟨between, hfront, hback⟩⟩
    · rintro ⟨origin, horigin, h⟩
      obtain ⟨between, hfront, hback⟩ := ((hparts origin horigin).2.2 _ _).1 h
      exact ⟨between, hfront, _, List.mem_map.2 ⟨origin, horigin, rfl⟩, hback⟩

theorem leads_ofBranchesWithin (fuel : Nat) (hproper : ∀ branch ∈ branches, branch.Proper) :
    (ofBranchesWithin fuel branches).Proper
      ∧ ∀ place next, (ofBranchesWithin fuel branches).Leads place next
        ↔ ∃ branch ∈ branches, branch.Leads place next := by
  induction fuel using Nat.strong_induction_on generalizing branches with
  | _ fuel ih =>
    have hflat : ∀ branch ∈ branches.flatMap Expr.flatBranches, branch.Proper := fun branch hbranch => by
      obtain ⟨origin, horigin, hmem⟩ := List.mem_flatMap.1 hbranch
      exact (hproper origin horigin).flatBranches.1 branch hmem
    have hmeaning : ∀ place next, (∃ branch ∈ branches.flatMap Expr.flatBranches,
        branch.Leads place next) ↔ ∃ branch ∈ branches, branch.Leads place next := by
      intro place next
      constructor
      · rintro ⟨branch, hbranch, h⟩
        obtain ⟨origin, horigin, hmem⟩ := List.mem_flatMap.1 hbranch
        exact ⟨origin, horigin, ((hproper origin horigin).flatBranches.2 _ _).1 ⟨branch, hmem, h⟩⟩
      · rintro ⟨origin, horigin, h⟩
        obtain ⟨branch, hmem, h⟩ := ((hproper origin horigin).flatBranches.2 _ _).2 h
        exact ⟨branch, List.mem_flatMap.2 ⟨origin, horigin, hmem⟩, h⟩
    simp only [← hmeaning]
    rw [ofBranchesWithin_eq]
    split
    · next branch heq =>
      rw [heq] at hflat ⊢
      exact ⟨List.forall_mem_singleton.1 hflat, fun _ _ => by simp⟩
    · split
      · next table htable => exact leads_tableOf? hflat htable
      · next hnone _ => exact leads_choice_of_tableOf? hflat hnone
      · next hnone _ => exact leads_choice_of_tableOf? hflat hnone
      · next fuel hnone hne =>
        refine leads_common hflat hne (fun h => ih fuel (Nat.lt_succ_self fuel) h) ?_
        rintro heq
        rw [heq] at hnone
        cases hnone

/-- Expressions to choose from. -/
theorem leads_ofBranches (hproper : ∀ branch ∈ branches, branch.Proper) :
    (ofBranches branches).Leads place next ↔ ∃ branch ∈ branches, branch.Leads place next :=
  (leads_ofBranchesWithin _ hproper).2 place next

theorem proper_ofBranches (hproper : ∀ branch ∈ branches, branch.Proper) :
    (ofBranches branches).Proper :=
  (leads_ofBranchesWithin _ hproper).1

-- ========================================================== repetitions

mutual

/-- What never consumes a character stays where it is. -/
theorem eq_of_idle : (expr : Expr) → expr.idle = true → ∀ {place next : Place},
    expr.Leads place next → place = next
  | empty, _, _, _, h => h
  | literal _, hidle, _, _, _ => by simp [idle] at hidle
  | anyOf _ _, hidle, _, _, _ => by simp [idle] at hidle
  | look _, _, _, _, h => h.1
  | seq items, hidle, _, _, h => eq_of_allIdle items hidle (leads_seq.1 h)
  | choice items, hidle, place, next, h => by
      by_cases hne : items = []
      · subst hne
        exact h
      · exact eq_of_someIdle items hidle ((leads_choice hne).1 h)
  | turns greedy least most body, hidle, place, next, h => by
      obtain ⟨k, -, -, hturns⟩ := (Node.leads_repeated least most).1 h
      exact ((times_of_stays (fun _ _ => eq_of_idle body hidle) k).1 hturns).1
  | group _ body, hidle, _, _, h => eq_of_idle body hidle h

theorem eq_of_allIdle : (items : List Expr) → allIdle items = true → ∀ {place next : Place},
    LeadsEach items place next → place = next
  | [], _, _, _, h => h
  | item :: items, hidle, place, next, h => by
      rw [allIdle, Bool.and_eq_true] at hidle
      obtain ⟨between, hfirst, hmore⟩ := h
      exact (eq_of_idle item hidle.1 hfirst).trans (eq_of_allIdle items hidle.2 hmore)

theorem eq_of_someIdle : (items : List Expr) → allIdle items = true → ∀ {place next : Place},
    (∃ item ∈ items, item.Leads place next) → place = next
  | [], _, _, _, h => by simp at h
  | item :: items, hidle, place, next, h => by
      rw [allIdle, Bool.and_eq_true] at hidle
      rcases (List.exists_mem_cons_iff _ _ _).1 h with h | h
      · exact eq_of_idle item hidle.1 h
      · exact eq_of_someIdle items hidle.2 h

end

/-- An expression repeated, within bounds that need not be changed. -/
def boundedTurns (greedy : Bool) (least : Nat) (most : Option Nat) (body : Expr) : Expr :=
  if most = some 0 then empty
  else if least = 1 ∧ most = some 1 then body
  else turns greedy least most body

theorem ofTurns_eq (greedy : Bool) (least : Nat) (most : Option Nat) (body : Expr) :
    ofTurns greedy least most body =
      if body.idle then boundedTurns greedy (min least 1) (some (min (most.getD 1) 1)) body
      else boundedTurns greedy least most body := by
  rw [ofTurns]
  cases body.idle <;> simp [boundedTurns]

theorem proper_ofTurns (greedy : Bool) (least : Nat) (most : Option Nat) (h : body.Proper) :
    (ofTurns greedy least most body).Proper := by
  have hbounded : ∀ (least : Nat) (most : Option Nat),
      (boundedTurns greedy least most body).Proper := by
    intro least most
    unfold boundedTurns
    split
    · trivial
    · split
      · exact h
      · trivial
  rw [ofTurns_eq]
  split
  · exact hbounded _ _
  · exact hbounded _ _

theorem leads_boundedTurns (greedy : Bool) {least : Nat} {most : Option Nat}
    (hle : ∀ m ∈ most, least ≤ m) :
    (boundedTurns greedy least most body).Leads place next
      ↔ ∃ k, least ≤ k ∧ (∀ m ∈ most, k ≤ m) ∧ Times body.Leads k place next := by
  unfold boundedTurns
  split
  · next hmost =>
    subst hmost
    constructor
    · exact fun h => ⟨0, hle 0 rfl, fun m hm => Nat.zero_le m, h⟩
    · rintro ⟨k, -, hk, h⟩
      obtain rfl : k = 0 := Nat.le_zero.1 (hk 0 rfl)
      exact h
  · split
    · next hone =>
      obtain ⟨rfl, rfl⟩ := hone
      constructor
      · exact fun h => ⟨1, Nat.le_refl 1, fun m hm => hle m hm, times_one.2 h⟩
      · rintro ⟨k, hleast, hk, h⟩
        obtain rfl : k = 1 := Nat.le_antisymm (hk 1 rfl) hleast
        exact times_one.1 h
    · refine (Node.leads_repeated least most).trans ?_
      refine exists_congr fun k => and_congr_right fun _ => ?_
      refine and_congr_left fun _ => forall₂_congr fun m hm => ?_
      rw [Nat.max_eq_right (hle m hm)]

/-- An expression repeated. -/
theorem leads_ofTurns (greedy : Bool) {least : Nat} {most : Option Nat}
    (hle : ∀ m ∈ most, least ≤ m) :
    (ofTurns greedy least most body).Leads place next
      ↔ ∃ k, least ≤ k ∧ (∀ m ∈ most, k ≤ m) ∧ Times body.Leads k place next := by
  rw [ofTurns_eq]
  split
  · next hidle =>
    have hle' : ∀ m ∈ some (min (most.getD 1) 1), min least 1 ≤ m := by
      intro m hm
      obtain rfl := Option.some.inj hm
      cases most with
      | none => exact Nat.min_le_right _ _
      | some most =>
        have hmost : least ≤ most := hle most rfl
        show min least 1 ≤ min most 1
        omega
    rw [leads_boundedTurns greedy hle']
    simp only [times_of_stays fun _ _ => eq_of_idle body hidle]
    -- of what stays where it is, one turn is as good as several
    constructor
    · rintro ⟨k, hleast, hmost, rfl, h⟩
      rcases h with rfl | h
      · exact ⟨0, by omega, fun m _ => Nat.zero_le m, rfl, .inl rfl⟩
      · by_cases hzero : least = 0 ∧ k = 0
        · exact ⟨0, by omega, fun m _ => Nat.zero_le m, rfl, .inl rfl⟩
        · refine ⟨max least 1, Nat.le_max_left _ _, fun m hm => ?_, rfl, .inr h⟩
          have hk := hmost _ rfl
          obtain rfl := Option.mem_def.1 hm
          have hm := hle m rfl
          rw [Option.getD_some] at hk
          omega
    · rintro ⟨k, hleast, hmost, rfl, h⟩
      refine ⟨min k 1, by omega, fun m hm => ?_, rfl, h.imp_left fun hk => by omega⟩
      obtain rfl := Option.some.inj hm
      cases most with
      | none => exact Nat.min_le_right _ _
      | some most =>
        have hk : k ≤ most := hmost most rfl
        show min k 1 ≤ min most 1
        omega
  · exact leads_boundedTurns greedy hle

end Pattern.Expr

end ConditionTable
