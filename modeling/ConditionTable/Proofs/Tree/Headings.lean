/-
The headings determine the expression. They are a flat list, in which a
group leaves no mark of its own except that what is below it lies deeper.
Still there is one way only to read the list, provided that every level
has an entry and each two neighbouring entries have one connective between
them (`Expression.Joined`). Without a connective in between, two groups
would look like one.

# Where an entry ends

All headings of an entry lie at least as deep as the entry, and those of a
group lie deeper, so the first of them tells a group from a condition. What
follows the entry begins with a connective, of its own level or of one
around it, which lies no deeper than the entry. Below a group this is less
deep than every heading of the group (`Heading.Closes`), so the list is cut
behind the last of these. A list that begins with the headings of an entry
or of a level therefore has only one such beginning (`headings_append_inj`,
`headingsLevel_append_inj`).
-/
import ConditionTable.Proofs.Tree.Levels
import ConditionTable.Tree.Heading
import ConditionTable.Tree.OfText

namespace ConditionTable

-- ================================================================ levels

/-- Every level has an entry, and one connective between each two
neighbouring ones. -/
def Expression.Joined (expression : Expression) : Prop :=
  ∀ level ∈ expression.levels, level.entries.length = level.connectives.length + 1

instance : DecidablePred Expression.Joined :=
  fun expression => inferInstanceAs (Decidable (∀ level ∈ expression.levels, _))

namespace Entry

/-- Every level below the entry is joined like this. -/
def Joined (entry : Entry) : Prop :=
  ∀ level ∈ entry.levels, level.entries.length = level.connectives.length + 1

/-- Every level below the entries is joined like this. -/
def AllJoined (entries : List Entry) : Prop :=
  ∀ level ∈ levelsAll entries, level.entries.length = level.connectives.length + 1

/-- The level and all levels below it are joined. -/
def LevelJoined (connectives : List Connective) (entries : List Entry) : Prop :=
  entries.length = connectives.length + 1 ∧ AllJoined entries

/-- Each entry follows one connective, and all levels below are joined. -/
def RestJoined (connectives : List Connective) (entries : List Entry) : Prop :=
  entries.length = connectives.length ∧ AllJoined entries

variable {connective : Connective} {connectives connectives' : List Connective} {entry : Entry}
  {entries : List Entry}

theorem allJoined_cons : AllJoined (entry :: entries) ↔ entry.Joined ∧ AllJoined entries :=
  List.forall_mem_append

theorem joined_group : (group connectives entries).Joined ↔ LevelJoined connectives entries :=
  List.forall_mem_cons

theorem levelJoined_cons :
    LevelJoined connectives (entry :: entries) ↔ entry.Joined ∧ RestJoined connectives entries := by
  unfold LevelJoined RestJoined
  rw [List.length_cons, Nat.add_right_cancel_iff, allJoined_cons, and_left_comm]

/-- After its connective the rest of a level is a level itself. -/
theorem restJoined_cons :
    RestJoined (connective :: connectives) entries ↔ LevelJoined connectives entries :=
  Iff.rfl

theorem RestJoined.exists_cons (h : RestJoined connectives (entry :: entries)) :
    ∃ connective others, connectives = connective :: others :=
  List.exists_cons_of_length_eq_add_one h.1.symm

theorem RestJoined.eq_nil (h : RestJoined connectives []) : connectives = [] :=
  List.length_eq_zero_iff.1 h.1.symm

end Entry

-- ================================================================ closing

/-- What is written for connectives tells them apart. -/
theorem Connective.symbol_injective : Function.Injective symbol := by
  intro connective other h
  revert h
  cases connective <;> cases other <;> decide

namespace Heading

/-- The list goes on with something less deep, or not at all. -/
def Closes (depth : Nat) (rest : List Heading) : Prop :=
  ∀ heading ∈ rest.head?, heading.depth < depth

variable {depth : Nat} {heading : Heading} {rest : List Heading}

theorem closes_nil (depth : Nat) : Closes depth [] := nofun

theorem closes_cons : Closes depth (heading :: rest) ↔ heading.depth < depth := by
  simp [Closes]

theorem Closes.succ (h : Closes depth rest) : Closes (depth + 1) rest :=
  fun heading hheading => Nat.lt_succ_of_lt (h heading hheading)

end Heading

namespace Entry

variable {connective : Connective} {connectives connectives' : List Connective} {condition : Condition}
  {entry : Entry} {entries : List Entry} {depth : Nat} {rest rest' : List Heading}

/-- While there are more entries, a connective follows, and then they do. -/
theorem headingsRest_cons_append :
    headingsRest depth (connective :: connectives) (entry :: entries) ++ rest
      = ⟨connective.symbol, .connective, depth⟩
        :: (headingsLevel depth connectives (entry :: entries) ++ rest) := by
  rw [headingsRest, headingsLevel, List.append_assoc, List.append_assoc, List.append_assoc]
  rfl

/-- Behind an entry the list goes on with a connective of the level, or
with what comes behind the level. -/
theorem closes_headingsRest (hjoined : RestJoined connectives entries)
    (hrest : Heading.Closes depth rest) :
    Heading.Closes (depth + 1) (headingsRest depth connectives entries ++ rest) := by
  cases entries with
  | nil => exact hrest.succ
  | cons entry entries =>
    obtain ⟨connective, connectives, rfl⟩ := hjoined.exists_cons
    rw [headingsRest_cons_append, Heading.closes_cons]
    exact Nat.lt_succ_self depth

/-- Behind the last entry the list goes on less deep, and behind any other
it does not. -/
theorem not_closes_headingsRest (hjoined : RestJoined connectives (entry :: entries)) :
    ¬ Heading.Closes depth (headingsRest depth connectives (entry :: entries) ++ rest) := by
  obtain ⟨connective, connectives, rfl⟩ := hjoined.exists_cons
  rw [headingsRest_cons_append, Heading.closes_cons]
  exact Nat.lt_irrefl depth

mutual

/-- The first heading of an entry is at least as deep as the entry. -/
theorem exists_headings_eq_cons : (entry : Entry) → entry.Joined → (depth : Nat) →
    ∃ heading rest, entry.headings depth = heading :: rest ∧ depth ≤ heading.depth
  | leaf condition, _, depth => ⟨⟨condition.text, .condition, depth⟩, [], rfl, Nat.le_refl depth⟩
  | group _ entries, hjoined, depth => by
      obtain ⟨heading, rest, heq, hdepth⟩ :=
        exists_headingsLevel_eq_cons entries (joined_group.1 hjoined) (depth + 1)
      exact ⟨heading, rest, heq, Nat.le_of_succ_le hdepth⟩

/-- The first heading of a level is at least as deep as the level. -/
theorem exists_headingsLevel_eq_cons : (entries : List Entry) → {connectives : List Connective} →
    LevelJoined connectives entries → (depth : Nat) →
    ∃ heading rest, headingsLevel depth connectives entries = heading :: rest
      ∧ depth ≤ heading.depth
  | [], _, hjoined, _ => by cases hjoined.1
  | entry :: entries, connectives, hjoined, depth => by
      obtain ⟨hentry, -⟩ := allJoined_cons.1 hjoined.2
      obtain ⟨heading, rest, heq, hdepth⟩ := exists_headings_eq_cons entry hentry depth
      refine ⟨heading, rest ++ headingsRest depth connectives entries, ?_, hdepth⟩
      rw [headingsLevel, heq, List.cons_append]

end

/-- A condition and a group do not begin alike. -/
theorem headings_leaf_append_ne (hjoined : (group connectives entries).Joined) :
    (leaf condition).headings depth ++ rest ≠ (group connectives entries).headings depth ++ rest' := by
  intro h
  obtain ⟨heading, more, heq, hdepth⟩ :=
    exists_headingsLevel_eq_cons entries (joined_group.1 hjoined) (depth + 1)
  rw [headings, headings, heq] at h
  obtain ⟨rfl, -⟩ := List.cons.inj h
  exact Nat.not_succ_le_self depth hdepth

-- ================================================================ reading

mutual

/-- A list that begins with the headings of an entry, and closes behind
them, does so in one way only. -/
theorem headings_append_inj (entry other : Entry) (hentry : entry.Joined) (hother : other.Joined)
    {depth : Nat} {rest rest' : List Heading} (hrest : Heading.Closes (depth + 1) rest)
    (hrest' : Heading.Closes (depth + 1) rest')
    (h : entry.headings depth ++ rest = other.headings depth ++ rest') :
    entry = other ∧ rest = rest' := by
  cases entry with
  | leaf condition =>
    cases other with
    | leaf condition' =>
      obtain ⟨hheading, htail⟩ := List.cons.inj h
      have htext : condition.text = condition'.text := congrArg Heading.text hheading
      have hcondition : condition = condition' := by
        cases condition
        cases condition'
        simpa using htext
      exact ⟨congrArg leaf hcondition, htail⟩
    | group connectives' others => exact absurd h (headings_leaf_append_ne hother)
  | group connectives entries =>
    cases other with
    | leaf condition' => exact absurd h.symm (headings_leaf_append_ne hentry)
    | group connectives' others =>
      obtain ⟨rfl, rfl, htail⟩ := headingsLevel_append_inj entries others (joined_group.1 hentry)
        (joined_group.1 hother) hrest hrest' h
      exact ⟨rfl, htail⟩

/-- The same for the headings of a level. -/
theorem headingsLevel_append_inj (entries others : List Entry)
    {connectives connectives' : List Connective} (hentries : LevelJoined connectives entries)
    (hothers : LevelJoined connectives' others) {depth : Nat} {rest rest' : List Heading}
    (hrest : Heading.Closes depth rest) (hrest' : Heading.Closes depth rest')
    (h : headingsLevel depth connectives entries ++ rest
      = headingsLevel depth connectives' others ++ rest') :
    connectives = connectives' ∧ entries = others ∧ rest = rest' := by
  cases entries with
  | nil => cases hentries.1
  | cons entry entries =>
    obtain ⟨other, others, rfl⟩ := List.exists_cons_of_length_eq_add_one hothers.1
    obtain ⟨hentry, hentries⟩ := levelJoined_cons.1 hentries
    obtain ⟨hother, hothers⟩ := levelJoined_cons.1 hothers
    rw [headingsLevel, headingsLevel, List.append_assoc, List.append_assoc] at h
    obtain ⟨hfirst, htail⟩ := headings_append_inj entry other hentry hother
      (closes_headingsRest hentries hrest) (closes_headingsRest hothers hrest') h
    -- the two levels end together, since what is behind a level is less deep
    cases entries with
    | nil =>
      obtain rfl := hentries.eq_nil
      cases others with
      | nil =>
        obtain rfl := hothers.eq_nil
        exact ⟨rfl, congrArg (fun entry => [entry]) hfirst, htail⟩
      | cons second others =>
        obtain rfl : rest = _ := htail
        exact absurd hrest (not_closes_headingsRest hothers)
    | cons second entries =>
      cases others with
      | nil =>
        obtain rfl : _ = rest' := htail
        exact absurd hrest' (not_closes_headingsRest hentries)
      | cons second' others =>
        obtain ⟨connective, connectives, rfl⟩ := hentries.exists_cons
        obtain ⟨connective', connectives', rfl⟩ := hothers.exists_cons
        rw [headingsRest_cons_append, headingsRest_cons_append] at htail
        obtain ⟨hheading, hmore⟩ := List.cons.inj htail
        have hsymbol : connective.symbol = connective'.symbol := congrArg Heading.text hheading
        obtain ⟨hconnectives, hsecond, hbehind⟩ := headingsLevel_append_inj (second :: entries)
          (second' :: others) (restJoined_cons.1 hentries) (restJoined_cons.1 hothers) hrest hrest' hmore
        exact ⟨List.cons_eq_cons.2 ⟨Connective.symbol_injective hsymbol, hconnectives⟩,
          List.cons_eq_cons.2 ⟨hfirst, hsecond⟩, hbehind⟩

end

end Entry

namespace Expression

/-- Expressions with the same headings are the same, in their groups, their
connectives and the texts of their conditions. -/
theorem eq_of_headings_eq {expression other : Expression} (hexpression : expression.Joined)
    (hother : other.Joined) (h : expression.headings = other.headings) : expression = other := by
  obtain ⟨connectives, entries⟩ := expression
  obtain ⟨connectives', others⟩ := other
  have happend : headings ⟨connectives, entries⟩ ++ [] = headings ⟨connectives', others⟩ ++ [] := by
    rw [h]
  obtain ⟨rfl, rfl, -⟩ := Entry.headingsLevel_append_inj entries others
    (Entry.joined_group.1 hexpression) (Entry.joined_group.1 hother) (Heading.closes_nil 0)
    (Heading.closes_nil 0) happend
  rfl

/-- The expression `m && (m) || (n ^ (m))`, which has a mixed level and
groups of a single entry. -/
def mixedOfGroups : Expression :=
  let m : Entry := .leaf ⟨['m'], by decide, by decide⟩
  let n : Entry := .leaf ⟨['n'], by decide, by decide⟩
  ⟨[.and, .or], [m, .group [] [m], .group [.xor] [n, .group [] [m]]]⟩

/-- It is told from its headings when it is read from a text. -/
theorem eq_of_headings_eq_mixedOfGroups :
    mixedOfGroups.Joined
      ∧ (ofText .standard "m && (m) || (n ^ (m))".toList).Joined
      ∧ mixedOfGroups.headings = (ofText .standard "m && (m) || (n ^ (m))".toList).headings
      ∧ mixedOfGroups = ofText .standard "m && (m) || (n ^ (m))".toList := by
  have hjoined : mixedOfGroups.Joined := by decide
  have hread : (ofText .standard "m && (m) || (n ^ (m))".toList).Joined
      ∧ mixedOfGroups.headings = (ofText .standard "m && (m) || (n ^ (m))".toList).headings := by
    decide +kernel
  obtain ⟨hother, hheadings⟩ := hread
  exact ⟨hjoined, hother, hheadings, eq_of_headings_eq hjoined hother hheadings⟩

end Expression

end ConditionTable
