/-
Rows, conditions and headings line up. A row is a list of cells that does
not say which condition a cell asks about, and its cells have moved while
the row was growing. Here each cell carries the site of the condition for
which it was made (`Mark`), and the same growth is gone through with
marked cells (`growMarked`).

# Three walks through one tree

Growth replaces the cells of a path from right to left, and leaves all
conditions below a free cell in another walk than below one that asks for
an outcome. Whichever way a marked row has grown, its sites are those of
the tree from left to right (`map_site_growMarked`), and without its
marks it is a row (`map_cell_growMarked`). The conditions at these sites
are the conditions of the tree, and those among the headings; a heading
is as deep as its site has groups around it (`conditions_headings`).
-/
import ConditionTable.Proofs.Analysis.Gates

namespace ConditionTable

-- ================================================================ sites

/-- Where a condition stands: the places of the groups around it, from
the outermost one to the innermost, and its own place in the level. -/
structure Site where
  groups : List Nat
  place : Nat
  condition : Condition
deriving DecidableEq

/-- The way down to a site: the places of the groups and its own. -/
def Site.address (site : Site) : List Nat :=
  site.groups ++ [site.place]

/-- The heading of the condition at a site. -/
def Site.heading (site : Site) : Heading :=
  ⟨site.condition.text, .condition, site.groups.length⟩

namespace Entry

mutual

/-- The sites below an entry that stands at a place of a level, from left
to right. -/
def sites (groups : List Nat) (place : Nat) : Entry → List Site
  | leaf condition => [⟨groups, place, condition⟩]
  | group _ entries => sitesAll (groups ++ [place]) 0 entries

/-- The sites below the entries of a level, the first of them at
`place`. -/
def sitesAll (groups : List Nat) (place : Nat) : List Entry → List Site
  | [] => []
  | entry :: entries => entry.sites groups place ++ sitesAll groups (place + 1) entries

end

/-- The condition at a place of a level or, if groups are given, at a
place within these. -/
def conditionAt? (entries : List Entry) : (groups : List Nat) → (place : Nat) → Option Condition
  | [], place =>
      match entries[place]? with
      | some (leaf condition) => some condition
      | _ => none
  | outer :: groups, place =>
      match entries[outer]? with
      | some (group _ inner) => conditionAt? inner groups place
      | _ => none

end Entry

/-- The sites of all conditions, from left to right. -/
def Expression.sites (expression : Expression) : List Site :=
  Entry.sitesAll [] 0 expression.entries

-- ========================================================= marked growth

/-- A cell and the site of the condition that it asks about. -/
structure Mark where
  site : Site
  cell : Cell
deriving DecidableEq

/-- The rows of marks that an entry offers in place of a cell. -/
abbrev MarkedSupply := Cell → List (List Mark)

/-- All ways of replacing the next cell of a path, of which the cells
still to be replaced come first and the row grown so far second. -/
def MarkedSupply.extend (supply : MarkedSupply) : Path × List Mark → List (Path × List Mark)
  | ([], _) => []
  | (cell :: cells, row) => (supply cell).map fun front => (cells, front ++ row)

/-- The rows of marks that paths grow into. -/
def growMarked (supplies : List MarkedSupply) (paths : List Path) : List (List Mark) :=
  let aligned := paths.filter fun path => path.length == supplies.length
  let sprouts := aligned.map fun path => (path.reverse, [])
  (supplies.foldr (fun supply sprouts => sprouts.flatMap supply.extend) sprouts).map Prod.snd

namespace Entry

mutual

/-- What an entry offers in place of a cell, with marks. -/
def marked (groups : List Nat) (place : Nat) : Entry → MarkedSupply
  | leaf condition => fun cell => [[⟨⟨groups, place, condition⟩, cell⟩]]
  | group connectives entries => fun cell =>
      match cell.outcome? with
      | none => [(sitesAll (groups ++ [place]) 0 entries).map (⟨·, .free⟩)]
      | some outcome =>
          growMarked (markedAll (groups ++ [place]) 0 entries)
            (levelPaths connectives entries.length outcome)

/-- What each entry of a level offers, with marks. -/
def markedAll (groups : List Nat) (place : Nat) : List Entry → List MarkedSupply
  | [] => []
  | entry :: entries => entry.marked groups place :: markedAll groups (place + 1) entries

end

end Entry

/-- The rows that the given paths grow into, with marks. -/
def Expression.expandMarked (expression : Expression) (paths : List Path) : List (List Mark) :=
  growMarked (Entry.markedAll [] 0 expression.entries) paths

-- ============================================================= one level

/-- Without its marks a row of marks is a row. -/
def Unmarks (marked : MarkedSupply) (supply : Supply) : Prop :=
  ∀ cell, (marked cell).map (List.map Mark.cell) = supply.rows cell

/-- Every row of marks goes through the given sites. -/
def Visits (marked : MarkedSupply) (sites : List Site) : Prop :=
  ∀ cell, ∀ row ∈ marked cell, row.map Mark.site = sites

/-- A sprout without its marks. -/
def unmarkedSprout (sprout : Path × List Mark) : Sprout :=
  ⟨sprout.1, sprout.2.map Mark.cell⟩

variable {supplies : List Supply} {marks : List MarkedSupply} {supply : Supply}
  {marked : MarkedSupply}

theorem Unmarks.extend (h : Unmarks marked supply) (sprout : Path × List Mark) :
    (marked.extend sprout).map unmarkedSprout = supply.extend (unmarkedSprout sprout) := by
  obtain ⟨cells, row⟩ := sprout
  cases cells with
  | nil => rfl
  | cons cell cells =>
    show ((marked cell).map fun front => (cells, front ++ row)).map unmarkedSprout
      = (supply.rows cell).map fun front => ⟨cells, front ++ row.map Mark.cell⟩
    rw [← h cell, List.map_map, List.map_map]
    refine List.map_congr_left fun front _ => ?_
    simp [unmarkedSprout]

/-- Growth does not look at marks. -/
theorem map_cell_growMarked (h : List.Forall₂ Unmarks marks supplies) (paths : List Path) :
    (growMarked marks paths).map (List.map Mark.cell) = growRows supplies paths := by
  have hgrow : ∀ sprouts : List (Path × List Mark),
      (marks.foldr (fun marked sprouts => sprouts.flatMap marked.extend) sprouts).map unmarkedSprout
        = supplies.foldr (fun supply sprouts => sprouts.flatMap supply.extend)
            (sprouts.map unmarkedSprout) := by
    intro sprouts
    induction h with
    | nil => rfl
    | cons head _ ih =>
      rw [List.foldr_cons, List.foldr_cons, ← ih, List.map_flatMap, List.flatMap_map]
      exact List.flatMap_congr fun sprout _ => head.extend sprout
  have hcell : (List.map Mark.cell ∘ Prod.snd : Path × List Mark → Row)
      = Sprout.row ∘ unmarkedSprout := rfl
  rw [growMarked, growRows, List.map_map, hcell, ← List.map_map, hgrow, List.map_map, h.length_eq]
  rfl

/-- A row that has grown goes through the sites of all entries, one entry
after the other. -/
theorem map_site_growMarked {sites : List (List Site)} (h : List.Forall₂ Visits marks sites)
    (paths : List Path) : ∀ row ∈ growMarked marks paths, row.map Mark.site = sites.flatten := by
  -- the entries to the right of the cells still to be replaced have been gone through
  have hgrow : ∀ sprouts : List (Path × List Mark), (∀ sprout ∈ sprouts, sprout.2 = []) →
      ∀ sprout ∈ marks.foldr (fun marked sprouts => sprouts.flatMap marked.extend) sprouts,
        sprout.2.map Mark.site = sites.flatten := by
    intro sprouts hsprouts
    induction h with
    | nil =>
      intro sprout hsprout
      rw [hsprouts sprout hsprout]
      rfl
    | @cons marked _ _ _ head _ ih =>
      intro sprout hsprout
      rw [List.foldr_cons, List.mem_flatMap] at hsprout
      obtain ⟨⟨cells, row⟩, hmem, hextend⟩ := hsprout
      cases cells with
      | nil => simp [MarkedSupply.extend] at hextend
      | cons cell cells =>
        obtain ⟨front, hfront, rfl⟩ := List.mem_map.1 hextend
        rw [List.map_append, head cell front hfront, ih _ hmem, List.flatten_cons]
  intro row hrow
  obtain ⟨sprout, hsprout, rfl⟩ := List.mem_map.1 hrow
  refine hgrow _ (fun start hstart => ?_) sprout hsprout
  obtain ⟨path, -, rfl⟩ := List.mem_map.1 hstart
  rfl

-- ========================================================== whole trees

namespace Entry

variable {site : Site} {groups : List Nat} {place : Nat}

mutual

/-- A free cell stands for each site below an entry. -/
theorem free_supply_eq (groups : List Nat) (place : Nat) : (entry : Entry) →
    entry.supply.free = (entry.sites groups place).map fun _ => .free
  | leaf _ => rfl
  | group _ entries => by
      rw [supply, sites]
      exact flatMap_free_supplyAll (groups ++ [place]) 0 entries

theorem flatMap_free_supplyAll (groups : List Nat) (place : Nat) : (entries : List Entry) →
    (supplyAll entries).flatMap Supply.free = (sitesAll groups place entries).map fun _ => .free
  | [] => rfl
  | entry :: entries => by
      rw [supplyAll, sitesAll, List.flatMap_cons, List.map_append,
        free_supply_eq groups place entry, flatMap_free_supplyAll groups (place + 1) entries]

end

mutual

/-- What an entry offers with marks is what it offers. -/
theorem unmarks_marked (groups : List Nat) (place : Nat) : (entry : Entry) →
    Unmarks (entry.marked groups place) entry.supply
  | leaf condition => by
      intro cell
      rw [rows_supply_leaf]
      rfl
  | group connectives entries => by
      intro cell
      rcases cell.eq_free_or_ofBool with rfl | ⟨outcome, rfl⟩
      · show [((sitesAll (groups ++ [place]) 0 entries).map (⟨·, .free⟩)).map Mark.cell]
          = [(group connectives entries).supply.free]
        rw [free_supply_eq groups place, List.map_map]
        rfl
      · rw [rows_supply_group, length_supplyAll,
          ← map_cell_growMarked (unmarks_markedAll (groups ++ [place]) 0 entries)]
        cases outcome <;> rfl

theorem unmarks_markedAll (groups : List Nat) (place : Nat) : (entries : List Entry) →
    List.Forall₂ Unmarks (markedAll groups place entries) (supplyAll entries)
  | [] => .nil
  | entry :: entries =>
      .cons (unmarks_marked groups place entry) (unmarks_markedAll groups (place + 1) entries)

end

/-- The sites below each entry of a level. -/
def sitesEach (groups : List Nat) (place : Nat) : List Entry → List (List Site)
  | [] => []
  | entry :: entries => entry.sites groups place :: sitesEach groups (place + 1) entries

theorem flatten_sitesEach (groups : List Nat) (place : Nat) (entries : List Entry) :
    (sitesEach groups place entries).flatten = sitesAll groups place entries := by
  induction entries generalizing place with
  | nil => rfl
  | cons entry entries ih => rw [sitesEach, List.flatten_cons, ih, sitesAll]

mutual

/-- Whatever an entry offers goes through the sites below it. -/
theorem visits_marked (groups : List Nat) (place : Nat) : (entry : Entry) →
    Visits (entry.marked groups place) (entry.sites groups place)
  | leaf condition => by
      intro cell row hrow
      rw [List.mem_singleton.1 hrow]
      rfl
  | group connectives entries => by
      have hgrown := fun outcome => map_site_growMarked
        (visits_markedAll (groups ++ [place]) 0 entries)
        (levelPaths connectives entries.length outcome)
      rw [flatten_sitesEach] at hgrown
      intro cell row hrow
      rcases cell.eq_free_or_ofBool with rfl | ⟨outcome, rfl⟩
      · rw [List.mem_singleton.1 hrow, List.map_map]
        exact List.map_id _
      · refine hgrown outcome row ?_
        cases outcome <;> exact hrow

theorem visits_markedAll (groups : List Nat) (place : Nat) : (entries : List Entry) →
    List.Forall₂ Visits (markedAll groups place entries) (sitesEach groups place entries)
  | [] => .nil
  | entry :: entries =>
      .cons (visits_marked groups place entry) (visits_markedAll groups (place + 1) entries)

end

mutual

/-- The conditions at the sites are those of the tree. -/
theorem conditions_sites (groups : List Nat) (place : Nat) : (entry : Entry) →
    (entry.sites groups place).map Site.condition = entry.leaves
  | leaf _ => rfl
  | group _ entries => conditions_sitesAll (groups ++ [place]) 0 entries

theorem conditions_sitesAll (groups : List Nat) (place : Nat) : (entries : List Entry) →
    (sitesAll groups place entries).map Site.condition = leavesAll entries
  | [] => rfl
  | entry :: entries => by
      rw [sitesAll, List.map_append, conditions_sites, conditions_sitesAll, leavesAll]

end

mutual

/-- The conditions among the headings of an entry, with the number of
groups around each. -/
theorem conditions_headings (groups : List Nat) (place : Nat) : (entry : Entry) →
    (entry.headings groups.length).filter (fun heading => heading.kind == .condition)
      = (entry.sites groups place).map Site.heading
  | leaf _ => rfl
  | group connectives entries => by
      have hdepth : groups.length + 1 = (groups ++ [place]).length := by simp
      rw [headings, sites, hdepth]
      exact conditions_headingsLevel (groups ++ [place]) connectives entries

theorem conditions_headingsLevel (groups : List Nat) (connectives : List Connective) :
    (entries : List Entry) →
    (headingsLevel groups.length connectives entries).filter
        (fun heading => heading.kind == .condition)
      = (sitesAll groups 0 entries).map Site.heading
  | [] => rfl
  | entry :: entries => by
      rw [headingsLevel, sitesAll, List.filter_append, List.map_append,
        conditions_headings groups 0 entry, conditions_headingsRest groups 1 connectives entries]

theorem conditions_headingsRest (groups : List Nat) (place : Nat) (connectives : List Connective) :
    (entries : List Entry) →
    (headingsRest groups.length connectives entries).filter
        (fun heading => heading.kind == .condition)
      = (sitesAll groups place entries).map Site.heading
  | [] => rfl
  | entry :: entries => by
      have hconnective : (Heading.ofConnective? groups.length connectives.head?).filter
          (fun heading => heading.kind == .condition) = [] := by
        cases connectives <;> rfl
      rw [headingsRest, sitesAll, List.filter_append, List.filter_append, hconnective,
        List.nil_append, List.map_append, conditions_headings groups place entry,
        conditions_headingsRest groups (place + 1) connectives.tail entries]

end

-- ======================================================= all the places

theorem mem_sitesAll_iff {entries : List Entry} :
    site ∈ sitesAll groups place entries
      ↔ ∃ index, ∃ entry : Entry,
          entries[index]? = some entry ∧ site ∈ entry.sites groups (place + index) := by
  induction entries generalizing place with
  | nil => simp [sitesAll]
  | cons head entries ih =>
    rw [sitesAll, List.mem_append, ih]
    constructor
    · rintro (hhead | ⟨index, entry, hentry, hsite⟩)
      · exact ⟨0, head, rfl, hhead⟩
      · exact ⟨index + 1, entry, hentry, by rwa [Nat.add_comm index, ← Nat.add_assoc]⟩
    · rintro ⟨index, entry, hentry, hsite⟩
      cases index with
      | zero =>
        obtain rfl : head = entry := by simpa using hentry
        exact .inl hsite
      | succ index =>
        exact .inr ⟨index, entry, hentry, by rwa [Nat.add_right_comm]⟩

/-- A condition that is found in a level has its site there. -/
theorem mem_sitesAll_of_conditionAt? {condition : Condition} (groups inner : List Nat)
    {entries : List Entry} (h : conditionAt? entries inner place = some condition) :
    ⟨groups ++ inner, place, condition⟩ ∈ sitesAll groups 0 entries := by
  induction inner generalizing groups entries with
  | nil =>
    rw [conditionAt?] at h
    split at h
    · next found hfound =>
      obtain rfl : found = condition := by simpa using h
      exact mem_sitesAll_iff.2 ⟨place, leaf found, hfound, by simp [sites]⟩
    · simp at h
  | cons outer inner ih =>
    rw [conditionAt?] at h
    split at h
    · next connectives within hfound =>
      refine mem_sitesAll_iff.2 ⟨outer, group connectives within, hfound, ?_⟩
      rw [sites, Nat.zero_add]
      have hwithin := ih (groups ++ [outer]) h
      rwa [List.append_assoc, List.singleton_append] at hwithin
    · simp at h

mutual

/-- Below an entry of a level, a condition is found from that level. -/
theorem conditionAt?_of_mem_sites (level : List Entry) (groups : List Nat) (place : Nat) :
    (entry : Entry) → level[place]? = some entry → site ∈ entry.sites groups place →
    ∃ inner, site.groups = groups ++ inner
      ∧ conditionAt? level inner site.place = some site.condition
  | leaf condition, hentry, hsite => by
      obtain rfl : site = ⟨groups, place, condition⟩ := by simpa [sites] using hsite
      exact ⟨[], (List.append_nil groups).symm, by simp [conditionAt?, hentry]⟩
  | group _ entries, hentry, hsite => by
      obtain ⟨inner, hgroups, hfound⟩ := conditionAt?_of_mem_sitesAll entries (groups ++ [place]) 0
        entries rfl hsite
      refine ⟨place :: inner, by rw [hgroups, List.append_assoc, List.singleton_append], ?_⟩
      simpa [conditionAt?, hentry] using hfound

theorem conditionAt?_of_mem_sitesAll (level : List Entry) (groups : List Nat) (place : Nat) :
    (entries : List Entry) → level.drop place = entries → site ∈ sitesAll groups place entries →
    ∃ inner, site.groups = groups ++ inner
      ∧ conditionAt? level inner site.place = some site.condition
  | [], _, hsite => by simp [sitesAll] at hsite
  | entry :: entries, hdrop, hsite => by
      have hentry : level[place]? = some entry := by
        rw [← List.head?_drop, hdrop, List.head?_cons]
      have htail : level.drop (place + 1) = entries := by
        rw [← List.tail_drop, hdrop, List.tail_cons]
      rcases List.mem_append.1 hsite with hhead | hlater
      · exact conditionAt?_of_mem_sites level groups place entry hentry hhead
      · exact conditionAt?_of_mem_sitesAll level groups (place + 1) entries htail hlater

end

-- ============================================================== in order

/-- Addresses that go on from a smaller place come first. -/
theorem lt_of_go_on {earlier later : List Nat} {before after : Nat} (h : before < after)
    (hearlier : groups ++ [before] <+: earlier) (hlater : groups ++ [after] <+: later) :
    earlier < later := by
  obtain ⟨rest, rfl⟩ := hearlier
  obtain ⟨rest', rfl⟩ := hlater
  rw [List.append_assoc, List.append_assoc]
  exact List.append_left_lt (List.Lex.rel h)

mutual

/-- All addresses below an entry go on from its own, and they are in
order. -/
theorem addresses_sites (groups : List Nat) (place : Nat) : (entry : Entry) →
    (∀ site ∈ entry.sites groups place, groups ++ [place] <+: site.address)
      ∧ ((entry.sites groups place).map Site.address).Pairwise (· < ·)
  | leaf condition => by simp [sites, Site.address]
  | group _ entries => by
      obtain ⟨hplaces, hordered⟩ := addresses_sitesAll (groups ++ [place]) 0 entries
      refine ⟨fun site hsite => ?_, hordered⟩
      obtain ⟨index, -, hprefix⟩ := hplaces site hsite
      exact (List.prefix_append _ _).trans hprefix

theorem addresses_sitesAll (groups : List Nat) (place : Nat) : (entries : List Entry) →
    (∀ site ∈ sitesAll groups place entries, ∃ index, place ≤ index
        ∧ groups ++ [index] <+: site.address)
      ∧ ((sitesAll groups place entries).map Site.address).Pairwise (· < ·)
  | [] => by simp [sitesAll]
  | entry :: entries => by
      obtain ⟨hhead, hheadOrdered⟩ := addresses_sites groups place entry
      obtain ⟨hlater, hlaterOrdered⟩ := addresses_sitesAll groups (place + 1) entries
      rw [sitesAll, List.map_append, List.pairwise_append]
      refine ⟨fun site hsite => ?_, hheadOrdered, hlaterOrdered, ?_⟩
      · rcases List.mem_append.1 hsite with hsite | hsite
        · exact ⟨place, Nat.le_refl place, hhead site hsite⟩
        · obtain ⟨index, hindex, hprefix⟩ := hlater site hsite
          exact ⟨index, Nat.le_of_succ_le hindex, hprefix⟩
      · intro earlier hearlier later hmem
        obtain ⟨site, hsite, rfl⟩ := List.mem_map.1 hearlier
        obtain ⟨other, hother, rfl⟩ := List.mem_map.1 hmem
        obtain ⟨index, hindex, hprefix⟩ := hlater other hother
        exact lt_of_go_on hindex (hhead site hsite) hprefix

end

end Entry

-- ============================================================ the columns

namespace Expression

variable {expression : Expression} {site : Site}

/-- The sites of an expression are the places where a condition is
found. -/
theorem mem_sites_iff : site ∈ expression.sites
    ↔ Entry.conditionAt? expression.entries site.groups site.place = some site.condition := by
  constructor
  · intro h
    obtain ⟨inner, hgroups, hfound⟩ := Entry.conditionAt?_of_mem_sitesAll
      expression.entries [] 0 expression.entries rfl h
    rwa [hgroups]
  · exact Entry.mem_sitesAll_of_conditionAt? [] site.groups

/-- The sites are gone through in their order, each of them once. -/
theorem pairwise_sites : (expression.sites.map Site.address).Pairwise (· < ·) :=
  (Entry.addresses_sitesAll [] 0 expression.entries).2

theorem conditions_sites : expression.sites.map Site.condition = expression.leaves :=
  Entry.conditions_sitesAll [] 0 expression.entries

theorem length_sites : expression.sites.length = expression.leafCount := by
  rw [← List.length_map Site.condition, conditions_sites]
  exact Entry.length_leavesAll expression.entries

/-- Rows are what is left of marked rows. -/
theorem expand_eq_map_expandMarked (paths : List Path) :
    expression.expand paths = (expression.expandMarked paths).map (List.map Mark.cell) :=
  (map_cell_growMarked (Entry.unmarks_markedAll [] 0 expression.entries) paths).symm

/-- Every marked row goes through all sites. -/
theorem map_site_expandMarked (paths : List Path) :
    ∀ row ∈ expression.expandMarked paths, row.map Mark.site = expression.sites := by
  have hgrown := map_site_growMarked (Entry.visits_markedAll [] 0 expression.entries) paths
  rwa [Entry.flatten_sitesEach] at hgrown

theorem conditions_headings :
    expression.headings.filter (fun heading => heading.kind == .condition)
      = expression.sites.map Site.heading :=
  Entry.conditions_headingsLevel [] expression.connectives expression.entries

/-- A row that has grown has a cell for each condition. -/
theorem length_of_mem_expand {paths : List Path} {row : Row} (h : row ∈ expression.expand paths) :
    row.length = expression.leafCount := by
  rw [expand_eq_map_expandMarked] at h
  obtain ⟨marks, hmarks, rfl⟩ := List.mem_map.1 h
  rw [← length_sites, ← map_site_expandMarked paths marks hmarks, List.length_map, List.length_map]

end Expression

namespace Analysis

/-- The rows and headings of an analysis are those of its expression. -/
theorem rows_eq_of_analyze {analyzer : Analyzer} {raw : Text} {analysis : Analysis}
    (h : (analyzer.analyze raw).1 = .ok analysis) (outcome : Bool) :
    analysis.rows outcome = analysis.expression.rows outcome := by
  obtain ⟨-, shared, -, -, rfl⟩ := Analyzer.analyze_eq_ok_iff.1 h
  cases outcome <;> rfl

/-- The texts of the columns are those of the conditions. -/
theorem leafTexts_eq (analysis : Analysis) :
    analysis.leafTexts = analysis.expression.sites.map fun site => site.condition.text := by
  rw [leafTexts, headings, Expression.conditions_headings, List.map_map]
  rfl

/-- Whatever paths are expanded, each cell of a row asks about the
condition at its place; the sites are those of all conditions, from left
to right, and the headings of the conditions are theirs. So the columns
of an analysis belong to its conditions. -/
theorem columns_line_up (expression : Expression) (analyzer : Analyzer) (raw : Text) :
    (∀ paths, expression.expand paths = (expression.expandMarked paths).map (List.map Mark.cell)
      ∧ (∀ marks ∈ expression.expandMarked paths, marks.map Mark.site = expression.sites)
      ∧ ∀ row ∈ expression.expand paths, row.length = expression.leafCount)
    ∧ expression.sites.map Site.condition = expression.leaves
    ∧ (expression.sites.map Site.address).Pairwise (· < ·)
    ∧ (∀ site, site ∈ expression.sites
      ↔ Entry.conditionAt? expression.entries site.groups site.place = some site.condition)
    ∧ expression.headings.filter (fun heading => heading.kind == .condition)
      = expression.sites.map Site.heading
    ∧ ∀ analysis, (analyzer.analyze raw).1 = .ok analysis →
      analysis.leafTexts = analysis.expression.leaves.map Condition.text
      ∧ ∀ outcome, ∀ row ∈ analysis.rows outcome, row.length = analysis.leafCount
        ∧ ∃ marks ∈ analysis.expression.expandMarked (analysis.expression.paths outcome),
          row = marks.map Mark.cell
          ∧ analysis.leafTexts = marks.map fun mark => mark.site.condition.text := by
  refine ⟨fun paths => ⟨Expression.expand_eq_map_expandMarked paths,
      Expression.map_site_expandMarked paths, fun _ => Expression.length_of_mem_expand⟩,
    Expression.conditions_sites, Expression.pairwise_sites, fun _ => Expression.mem_sites_iff,
    Expression.conditions_headings, fun analysis h => ⟨?_, fun outcome row hrow => ?_⟩⟩
  · rw [leafTexts_eq, ← Expression.conditions_sites, List.map_map]
    rfl
  · rw [rows_eq_of_analyze h] at hrow
    refine ⟨Expression.length_of_mem_expand hrow, ?_⟩
    rw [Expression.rows, Expression.expand_eq_map_expandMarked] at hrow
    obtain ⟨marks, hmarks, rfl⟩ := List.mem_map.1 hrow
    refine ⟨marks, hmarks, rfl, ?_⟩
    rw [leafTexts_eq, ← Expression.map_site_expandMarked _ marks hmarks, List.map_map]
    rfl

/-- A group in the middle, and paths of which only one fits. -/
theorem columns_line_up_around_group :
    ∃ analyzer analysis, Analyzer.ofSettings .standard = .ok analyzer
      ∧ (analyzer.analyze "if a && (b ^ c) && d \x7b".toList).1 = .ok analysis
      ∧ analysis.leafTexts = ["a".toList, "b".toList, "c".toList, "d".toList]
      ∧ (∀ outcome, ∀ row ∈ analysis.rows outcome, row.length = 4)
      ∧ analysis.expression.expand [[.holds], [.free, .fails, .holds]]
        = [[.free, .holds, .holds, .holds], [.free, .fails, .fails, .holds]] := by
  obtain ⟨analyzer, hanalyzer, hany⟩ := exists_ok_of_any (Analyzer.ofSettings .standard)
    (fun analyzer => (analyzer.analyze "if a && (b ^ c) && d \x7b".toList).1.toOption.any
      fun analysis => analysis.expression.leaves.map Condition.text
          == ["a".toList, "b".toList, "c".toList, "d".toList]
        && analysis.leafCount == 4
        && analysis.expression.expand [[.holds], [.free, .fails, .holds]]
          == [[.free, .holds, .holds, .holds], [.free, .fails, .fails, .holds]])
    (by decide +kernel)
  obtain ⟨analysis, hanalysis, hcheck⟩ := exists_ok_of_any _ _ hany
  simp only [Bool.and_eq_true, beq_iff_eq] at hcheck
  obtain ⟨⟨htexts, hcount⟩, hexpand⟩ := hcheck
  obtain ⟨-, -, -, -, -, hcolumns⟩ := columns_line_up analysis.expression analyzer
    "if a && (b ^ c) && d \x7b".toList
  obtain ⟨hleafTexts, hrows⟩ := hcolumns analysis hanalysis
  refine ⟨analyzer, analysis, hanalyzer, hanalysis, hleafTexts.trans htexts, ?_, hexpand⟩
  intro outcome row hrow
  exact (hrows outcome row hrow).1.trans hcount

end Analysis

end ConditionTable
