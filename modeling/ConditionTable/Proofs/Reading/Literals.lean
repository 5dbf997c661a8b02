/-
Literals are opaque. Whatever a closed literal holds, as long as it is
neither its quote nor a backslash, the expression that is read has the
same levels with the same connectives, and the literal stands in one
condition, where it is kept as it is. So nothing that a literal holds can
change what a text means (`Expression.ofText_literal`).

# Two readings

The literal must begin at a settled place; otherwise it would not be a
literal. Then the two texts are scanned alike (`Swapped.stripParens`,
`Swapped.divide`, `Swapped.segments`), and masking hides the one span in
which they differ, so only the condition with that span tells them apart
(`Swapped.ofChunk`). What is read differs in one leaf of one entry
(`Entry.Swapped`), and an induction over levels carries this to the top.
-/
import ConditionTable.Proofs.Reading.Spans
import ConditionTable.Proofs.Source.Literals

namespace ConditionTable

variable {old new : Text}

-- ============================================================ one leaf

/-- Two entries that are alike but for one leaf, in which the literal is
replaced. -/
inductive Entry.Swapped (old new : Text) : Entry → Entry → Prop
  | leaf {condition condition' : Condition}
      (hcondition : Replaced old new condition.text condition'.text) :
      Swapped old new (leaf condition) (leaf condition')
  | group {connectives : List Connective} {front back : List Entry} {entry entry' : Entry}
      (hentry : Swapped old new entry entry') :
      Swapped old new (group connectives (front ++ entry :: back))
        (group connectives (front ++ entry' :: back))

/-- Two levels that are alike but for one leaf. -/
def Expression.Swapped (old new : Text) (level level' : Expression) : Prop :=
  ∃ connectives front entry entry' back, level = ⟨connectives, front ++ entry :: back⟩
    ∧ level' = ⟨connectives, front ++ entry' :: back⟩ ∧ Entry.Swapped old new entry entry'

namespace Expression.Swapped

variable {level level' : Expression}

theorem append_right (h : Swapped old new level level') (other : Expression) :
    Swapped old new (level ++ other) (level' ++ other) := by
  obtain ⟨connectives, front, entry, entry', back, rfl, rfl, hentry⟩ := h
  refine ⟨connectives ++ other.connectives, front, entry, entry', back ++ other.entries, ?_, ?_,
    hentry⟩ <;> simp [append_eq]

theorem append_left (h : Swapped old new level level') (other : Expression) :
    Swapped old new (other ++ level) (other ++ level') := by
  obtain ⟨connectives, front, entry, entry', back, rfl, rfl, hentry⟩ := h
  refine ⟨other.connectives ++ connectives, other.entries ++ front, entry, entry', back, ?_, ?_,
    hentry⟩ <;> simp [append_eq]

theorem group (h : Swapped old new level level') :
    Swapped old new ⟨[], [level.toEntry]⟩ ⟨[], [level'.toEntry]⟩ := by
  obtain ⟨connectives, front, entry, entry', back, rfl, rfl, hentry⟩ := h
  exact ⟨[], [], _, _, [], rfl, rfl, .group hentry⟩

end Expression.Swapped

-- =============================================================== chunks

variable {vocabulary : Vocabulary}

/-- A text that holds a literal holds a condition with it. -/
theorem Replaced.exists_conditions (hliterals : TwinLiterals old new) {text text' : Text}
    (h : Replaced old new text text') :
    ∃ condition condition', Condition.of? text = some condition
      ∧ Condition.of? text' = some condition'
      ∧ Replaced old new condition.text condition'.text := by
  obtain ⟨front, back, rfl, rfl⟩ := h
  obtain ⟨condition, hcondition, htext⟩ :=
    Condition.exists_of?_eq hliterals.firmStart hliterals.firmEnd front back
  obtain ⟨condition', hcondition', htext'⟩ :=
    Condition.exists_of?_eq hliterals.symm.firmStart hliterals.symm.firmEnd front back
  exact ⟨condition, condition', hcondition, hcondition', _, _, htext, htext'⟩

/-- A chunk gives the same with either literal, but for one condition. -/
theorem Swapped.ofChunk (hvocabulary : vocabulary.KnowsTokens) (hliterals : TwinLiterals old new)
    {chunk chunk' : Text} (h : Swapped old new chunk chunk') :
    Expression.Swapped old new (.ofChunk vocabulary chunk) (.ofChunk vocabulary chunk') := by
  obtain ⟨front, span, span', back, hsegs, hsegs', hspan⟩ := h.segments hvocabulary hliterals
  have hplain := no_brace_segments vocabulary chunk
  rw [hsegs, List.mem_append, List.mem_cons, not_or, not_or] at hplain
  obtain ⟨hfront, -, hback⟩ := hplain
  obtain ⟨pieces, connective?, before, after, pieces', -, -, hchunk⟩ :=
    exists_ofChunk_span hvocabulary hfront hback
  obtain ⟨condition, condition', hcondition, hcondition', hreplaced⟩ :=
    ((hspan.append_right after).append_left before).exists_conditions hliterals
  rw [hchunk chunk span hsegs, hchunk chunk' span' hsegs', hcondition, hcondition',
    Expression.ofPieces_append, Expression.ofPieces_append]
  apply Expression.Swapped.append_left
  rw [Expression.ofPieces_cons, Expression.ofPieces_cons]
  exact ⟨_, [], .leaf condition, .leaf condition', (Expression.ofPieces pieces').entries, rfl, rfl,
    .leaf hreplaced⟩

-- =============================================================== levels

/-- A level gives the same with either literal, but for one leaf, if its
groups do. -/
theorem Division.Swapped.ofLevel (hvocabulary : vocabulary.KnowsTokens)
    (hliterals : TwinLiterals old new) {read : Text → Expression} {division division' : Division}
    (h : Division.Swapped old new division division')
    (hgroups : ∀ piece ∈ division.pieces, ∀ group', ConditionTable.Swapped old new piece.2 group' →
      Expression.Swapped old new (read piece.2) (read group')) :
    Expression.Swapped old new
      (.ofLevel vocabulary (division.pieces.map fun piece => (piece.1, read piece.2))
        division.tail)
      (.ofLevel vocabulary (division'.pieces.map fun piece => (piece.1, read piece.2))
        division'.tail) := by
  induction h with
  | gap hgap => exact (hgap.ofChunk hvocabulary hliterals).append_right _
  | group hgroup =>
    have hread := (hgroups _ List.mem_cons_self _ hgroup).group
    exact (hread.append_right _).append_left _
  | @tail tail tail' htail =>
    have hchunk := htail.ofChunk hvocabulary hliterals
    obtain ⟨front, back, -, rfl, rfl⟩ := htail
    have hne : ∀ {old new}, TwinLiterals old new → (front ++ (old ++ back)).isEmpty = false := by
      intro old new hliterals
      obtain ⟨c, rest, rfl, -⟩ := hliterals.firmStart
      cases front <;> rfl
    unfold Expression.ofLevel
    rw [hne hliterals, hne hliterals.symm]
    exact hchunk
  | later _ ih =>
    have hlater := ih fun piece hpiece => hgroups piece (List.mem_cons_of_mem _ hpiece)
    exact (hlater.append_left _).append_left _

/-- Reading gives the same with either literal, but for one leaf. -/
theorem Swapped.ofText (hvocabulary : vocabulary.KnowsTokens) (hliterals : TwinLiterals old new)
    {text text' : Text} (h : Swapped old new text text') :
    Expression.Swapped old new (.ofText vocabulary text) (.ofText vocabulary text') := by
  induction text using level_induction vocabulary generalizing text' with
  | level text ih =>
    rw [Expression.ofText_eq, Expression.ofText_eq]
    have hdivision := (h.stripParens hliterals).divide hvocabulary hliterals
    exact hdivision.ofLevel hvocabulary hliterals fun piece hpiece group' hgroup =>
      ih piece hpiece hgroup

-- =============================================================== shapes

/-- What an expression is apart from the texts of its conditions: at each
level the connectives, whether they are mixed, and the paths for either
outcome. -/
inductive Shape
  | leaf
  | level (connectives : List Connective) (mixed : Bool) (truePaths falsePaths : List Path)
      (entries : List Shape)

namespace Entry

mutual

/-- The shape of an entry. -/
def shape : Entry → Shape
  | leaf _ => .leaf
  | group connectives entries =>
      .level connectives (Connective.mixed connectives)
        (levelPaths connectives entries.length true)
        (levelPaths connectives entries.length false) (shapeAll entries)

/-- The shapes of a list of entries. -/
def shapeAll : List Entry → List Shape
  | [] => []
  | entry :: entries => entry.shape :: shapeAll entries

end

theorem shapeAll_append (front back : List Entry) :
    shapeAll (front ++ back) = shapeAll front ++ shapeAll back := by
  induction front with
  | nil => rfl
  | cons entry front ih => rw [List.cons_append, shapeAll, ih, shapeAll, List.cons_append]

variable {entry entry' : Entry}

theorem Swapped.shape_eq (h : Swapped old new entry entry') : entry.shape = entry'.shape := by
  induction h with
  | leaf hcondition => rfl
  | @group connectives front back entry entry' hentry ih =>
    have hlength : (front ++ entry :: back).length = (front ++ entry' :: back).length := by simp
    rw [shape, shape, hlength, shapeAll_append, shapeAll_append, shapeAll, shapeAll, ih]

theorem Swapped.exists_leaves (h : Swapped old new entry entry') :
    ∃ front condition condition' back, entry.leaves = front ++ condition :: back
      ∧ entry'.leaves = front ++ condition' :: back
      ∧ Replaced old new condition.text condition'.text := by
  induction h with
  | @leaf condition condition' hcondition =>
    exact ⟨[], condition, condition', [], rfl, rfl, hcondition⟩
  | @group connectives front back entry entry' hentry ih =>
    obtain ⟨before, condition, condition', after, hold, hnew, hcondition⟩ := ih
    refine ⟨leavesAll front ++ before, condition, condition', after ++ leavesAll back, ?_, ?_,
      hcondition⟩
    · rw [leaves, leavesAll_append, leavesAll, hold]
      simp
    · rw [leaves, leavesAll_append, leavesAll, hnew]
      simp

end Entry

namespace Expression

/-- The shape of an expression. -/
def shape (expression : Expression) : Shape :=
  expression.toEntry.shape

/-- What a literal holds is kept in one condition and means nothing else:
with other contents the expression has the same shape, and the same
leaves but for that condition, in which the literal is replaced. -/
theorem ofText_literal {quote : Char} {content content' pre post : Text}
    (hquote : isQuote quote = true) (hcontent : Inert quote content)
    (hcontent' : Inert quote content') (hpre : Settled pre) :
    (ofText .standard (pre ++ (quote :: content ++ [quote]) ++ post)).shape
        = (ofText .standard (pre ++ (quote :: content' ++ [quote]) ++ post)).shape
      ∧ ∃ front condition condition' back,
          (ofText .standard (pre ++ (quote :: content ++ [quote]) ++ post)).leaves
              = front ++ condition :: back
            ∧ (ofText .standard (pre ++ (quote :: content' ++ [quote]) ++ post)).leaves
              = front ++ condition' :: back
            ∧ Replaced (quote :: content ++ [quote]) (quote :: content' ++ [quote])
                condition.text condition'.text := by
  have hliterals : TwinLiterals (quote :: content ++ [quote]) (quote :: content' ++ [quote]) :=
    .mk hquote hcontent hcontent'
  have htexts : ConditionTable.Swapped (quote :: content ++ [quote]) (quote :: content' ++ [quote])
      (pre ++ (quote :: content ++ [quote]) ++ post)
      (pre ++ (quote :: content' ++ [quote]) ++ post) :=
    ⟨pre, post, hpre, List.append_assoc .., List.append_assoc ..⟩
  obtain ⟨connectives, front, entry, entry', back, hold, hnew, hentry⟩ :=
    ConditionTable.Swapped.ofText Vocabulary.knowsTokens_standard hliterals htexts
  rw [hold, hnew]
  have hgroup : Entry.Swapped _ _ (.group connectives (front ++ entry :: back))
      (.group connectives (front ++ entry' :: back)) := .group hentry
  exact ⟨hgroup.shape_eq, hgroup.exists_leaves⟩

/-- A literal in a call in a group, after an escaped quote and amid
brackets that are never closed. -/
theorem ofText_literal_in_open_group :
    ∃ front condition condition' back,
      (ofText .standard ("a\\' \x7bx\x7d || (b && f(".toList
          ++ ('"' :: ") || (".toList ++ ['"']) ++ " (c) ^ \x7b".toList)).leaves
        = front ++ condition :: back
      ∧ (ofText .standard ("a\\' \x7bx\x7d || (b && f(".toList
          ++ ('"' :: "' and \x7d".toList ++ ['"']) ++ " (c) ^ \x7b".toList)).leaves
        = front ++ condition' :: back
      ∧ Replaced ('"' :: ") || (".toList ++ ['"']) ('"' :: "' and \x7d".toList ++ ['"'])
          condition.text condition'.text :=
  (ofText_literal (by decide) (by decide) (by decide) (by decide)).2

end Expression

end ConditionTable
