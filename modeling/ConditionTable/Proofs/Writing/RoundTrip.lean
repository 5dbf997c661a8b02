/-
Reading gives back what was written (`ofText_of_knowsTokens`). The route goes
through the layout of a level (`Layout`), the same text seen as the
reader sees it: gaps, which are chunks, and between them groups, each of
which is read as an expression of its own.

# The two inductions

By induction over a layout, dividing finds its gaps and groups, and what
is read of them makes up the level (`Layout.exists_readings`). By
induction over the entries, a written level has a layout, and a written
group is read as the entry it writes. The induction hypothesis for the
rest of a level speaks of any stretch in front of it (`Continues`), since
the gap that comes next may have begun with a condition, or with the
blanks behind a token, before the rest is reached.

Whether a parenthesis opens a group depends on what stands before it, so
a layout carries along the text before it. A group begins after a token
and blanks or at the front of its level, and both times it is opened.
-/
import ConditionTable.Proofs.Writing.Chunks
import ConditionTable.Proofs.Writing.Levels

namespace ConditionTable

variable {vocabulary : Vocabulary}

-- ============================================================== layouts

/-- The text is read as the expression wherever it lies, if there is fuel
for its length. -/
def Reads (vocabulary : Vocabulary) (text : Text) (expression : Expression) : Prop :=
  ∀ fuel depth, text.length ≤ fuel →
    Expression.readLevel vocabulary none fuel depth text = .ok expression

/-- The text, which has `before` before it, is the rest of a level: gaps
and groups by turns, and a last gap. -/
inductive Layout (vocabulary : Vocabulary) : (before text : Text) → Expression → Prop
  | tail {before text : Text} {connectives : List Connective} {conditions : List Condition}
      (hchunk : Chunk text connectives conditions) :
      Layout vocabulary before text ⟨connectives, conditions.map .leaf⟩
  | group {before gap inner rest : Text} {connectives : List Connective}
      {conditions : List Condition} {group level : Expression}
      (hgap : Chunk gap connectives conditions)
      (hopens : vocabulary.opensGroup (gap.reverse ++ before) = true)
      (hinner : Balanced inner) (hgroup : Reads vocabulary ('(' :: inner ++ [')']) group)
      (hrest : Layout vocabulary (('(' :: inner ++ [')']).reverse ++ (gap.reverse ++ before))
        rest level) :
      Layout vocabulary before (gap ++ (('(' :: inner ++ [')']) ++ rest))
        (⟨connectives, conditions.map .leaf⟩ ++ (⟨[], [group.toEntry]⟩ ++ level))

namespace Expression

theorem append_assoc (a b c : Expression) : a ++ b ++ c = a ++ (b ++ c) :=
  congrArg₂ Expression.mk (List.append_assoc ..) (List.append_assoc ..)

theorem append_map_leaf (connectives connectives' : List Connective)
    (conditions conditions' : List Condition) :
    (⟨connectives, conditions.map .leaf⟩ ++ ⟨connectives', conditions'.map .leaf⟩ : Expression)
      = ⟨connectives ++ connectives', (conditions ++ conditions').map .leaf⟩ :=
  congrArg (Expression.mk (connectives ++ connectives')) List.map_append.symm

end Expression

variable {before text front token : Text} {connective : Connective}
  {condition? : Option Condition} {level : Expression}

/-- A stretch and a token may be put in front of a layout. -/
theorem Layout.cons (hstretch : Stretch front condition?) (htoken : Token connective token)
    (h : Layout vocabulary ((front ++ token).reverse ++ before) text level) :
    Layout vocabulary before (front ++ token ++ text)
      (⟨[connective], condition?.toList.map .leaf⟩ ++ level) := by
  cases h with
  | tail hchunk =>
    rw [Expression.append_map_leaf]
    exact .tail (.more hstretch htoken hchunk)
  | @group _ gap inner rest connectives conditions group level hgap hopens hinner hgroup hrest =>
    have hreverse : gap.reverse ++ ((front ++ token).reverse ++ before)
        = (front ++ token ++ gap).reverse ++ before := by simp
    rw [hreverse] at hopens hrest
    rw [← Expression.append_assoc, Expression.append_map_leaf,
      ← List.append_assoc (front ++ token)]
    exact .group (.more hstretch htoken hgap) hopens hinner hgroup hrest

-- ============================================================== reading

/-- Nothing is read of an empty tail, as `ofLevel` has it. -/
theorem Chunk.ite_ofChunk_eq (hvocabulary : vocabulary.KnowsTokens)
    {connectives : List Connective} {conditions : List Condition}
    (h : Chunk text connectives conditions) :
    (if text.isEmpty then Expression.empty else Expression.ofChunk vocabulary text)
      = ⟨connectives, conditions.map .leaf⟩ := by
  rw [← h.ofChunk_eq hvocabulary]
  by_cases htext : text.isEmpty = true
  · obtain rfl := List.isEmpty_iff.1 htext
    have hempty := (Chunk.last (.blanks Text.isBlank_nil)).ofChunk_eq hvocabulary
    rw [if_pos htext, hempty]
    rfl
  · rw [if_neg htext]

/-- Dividing finds the gaps and groups of a layout, and what is read of
them makes up its expression. -/
theorem Layout.exists_readings (hvocabulary : vocabulary.KnowsTokens)
    (h : Layout vocabulary before text level) :
    ∃ pieces tail readings, divideFrom vocabulary {} before [] none text = ⟨pieces, tail⟩
      ∧ (∀ fuel depth, text.length ≤ fuel →
          (pieces.mapM fun (gap, inner) => do
            checkDepth none (depth + 1)
            return (gap, ← Expression.readLevel vocabulary none fuel (depth + 1) inner))
              = .ok readings)
      ∧ Expression.ofLevel vocabulary readings tail = level := by
  induction h with
  | @tail before text connectives conditions hchunk =>
    have hdivide := divideFrom_gap (hchunk.quiet hvocabulary before) [] []
    rw [List.append_nil, List.append_nil, divideFrom] at hdivide
    refine ⟨[], text, [], ?_, fun _ _ _ => rfl, hchunk.ite_ofChunk_eq hvocabulary⟩
    simpa using hdivide
  | @group before gap inner rest connectives conditions group level hgap hopens hinner hgroup _
      ih =>
    obtain ⟨pieces, tail, readings, hdivide, hmap, hlevel⟩ := ih
    refine ⟨(gap, '(' :: inner ++ [')']) :: pieces, tail, (gap, group) :: readings, ?_,
      fun fuel depth hfuel => ?_, ?_⟩
    · rw [divideFrom_gap (hgap.quiet hvocabulary before), divideFrom_group hinner hopens, hdivide]
      simp [Division.cons]
    · rw [List.length_append, List.length_append] at hfuel
      rw [List.mapM_cons, hmap fuel depth (by omega)]
      simp only [hgroup fuel (depth + 1) (by omega)]
      rfl
    · rw [← hlevel, ← hgap.ofChunk_eq hvocabulary]
      rfl

/-- A level is read as the expression of its layout. -/
theorem Layout.readLevel_eq (hvocabulary : vocabulary.KnowsTokens) {inner : Text}
    (h : Layout vocabulary [] inner level) (hstrip : stripParens text = inner) {fuel : Nat}
    (hfuel : inner.length ≤ fuel) (depth : Nat) :
    Expression.readLevel vocabulary none (fuel + 1) depth text = .ok level := by
  obtain ⟨pieces, tail, readings, hdivide, hmap, rfl⟩ := h.exists_readings hvocabulary
  have hdivision : divide vocabulary (stripParens text) = ⟨pieces, tail⟩ := by
    rw [hstrip]
    exact hdivide
  rw [Expression.readLevel]
  simp only [hdivision, hmap fuel depth hfuel]
  rfl

-- ======================================================= written levels

theorem Wrapped.length_le {inner : Text} {pairs : Nat} (h : Wrapped inner pairs text) :
    inner.length + 2 * pairs ≤ text.length := by
  induction pairs generalizing text with
  | zero =>
    obtain rfl : text = inner := h
    omega
  | succ pairs ih =>
    obtain ⟨front, left, back, -, hleft, -, rfl⟩ := h
    have hlength := ih hleft
    simp only [List.length_append, List.length_cons, List.length_nil]
    omega

variable {connectives : List Connective} {entries : List Entry} {rest : Text}

/-- A written level is read as what it writes, whatever is around it. -/
theorem readLevel_of_levelWritten (hvocabulary : vocabulary.KnowsTokens) {inner : Text}
    (hwritten : Entry.LevelWritten connectives entries inner)
    (hlayout : Layout vocabulary [] inner ⟨connectives, entries⟩) {pairs : Nat}
    (hwrapped : Wrapped inner pairs text) {front back : Text}
    (hfront : Text.isBlank front = true) (hback : Text.isBlank back = true) {fuel : Nat}
    (hfuel : inner.length ≤ fuel) (depth : Nat) :
    Expression.readLevel vocabulary none (fuel + 1) depth (front ++ text ++ back)
      = .ok ⟨connectives, entries⟩ :=
  hlayout.readLevel_eq hvocabulary
    (stripParens_wrapped (Entry.solid_of_levelWritten entries hwritten)
      (Entry.insideParens?_of_levelWritten hwritten) hwrapped hfront hback) hfuel depth

/-- A group is read as its level. Its parentheses leave fuel for what they
hold. -/
theorem reads_of_levelWritten (hvocabulary : vocabulary.KnowsTokens) {inner : Text}
    (hwritten : Entry.LevelWritten connectives entries inner)
    (hlayout : Layout vocabulary [] inner ⟨connectives, entries⟩) {pairs : Nat}
    (hwrapped : Wrapped inner (pairs + 1) text) :
    Reads vocabulary text ⟨connectives, entries⟩ := by
  intro fuel depth hfuel
  have hlength := hwrapped.length_le
  obtain ⟨fuel, rfl⟩ : ∃ n, fuel = n + 1 := ⟨fuel - 1, by omega⟩
  have hinner : inner.length ≤ fuel := by omega
  have hread := readLevel_of_levelWritten hvocabulary hwritten hlayout hwrapped
    Text.isBlank_nil Text.isBlank_nil hinner depth
  rw [List.nil_append, List.append_nil] at hread
  exact hread

/-- Whatever stretch stands in front of it, the rest of a level has a
layout with these connectives and entries. -/
def Continues (vocabulary : Vocabulary) (rest : Text) (connectives : List Connective)
    (entries : List Entry) : Prop :=
  ∀ front condition? before, Stretch front condition? →
    Layout vocabulary before (front ++ rest)
      ⟨connectives, condition?.toList.map .leaf ++ entries⟩

theorem Stretch.append_blanks (h : Stretch front condition?) {blanks : Text}
    (hblanks : Text.isBlank blanks = true) : Stretch (front ++ blanks) condition? := by
  cases h with
  | blanks hfront =>
    refine .blanks ?_
    rw [Text.isBlank_append, hfront, hblanks]
    rfl
  | condition hbefore hcondition hafter =>
    rw [List.append_assoc]
    refine .condition hbefore hcondition ?_
    rw [Text.isBlank_append, hafter, hblanks]
    rfl

theorem continues_nil : Continues vocabulary [] [] [] := by
  intro front condition? before hstretch
  rw [List.append_nil, List.append_nil]
  exact .tail (.last hstretch)

/-- A condition between blanks becomes part of the gap. -/
theorem Continues.leaf (hrest : Continues vocabulary rest connectives entries)
    {condition : Condition} (hcondition : condition.Writable) {blanks : Text}
    (hblanks : Text.isBlank blanks = true) (before : Text) :
    Layout vocabulary before (blanks ++ (condition.text ++ rest))
      ⟨connectives, .leaf condition :: entries⟩ := by
  have hstretch := Stretch.condition hblanks hcondition Text.isBlank_nil
  have hlayout := hrest _ _ before hstretch
  rw [List.append_nil, List.append_assoc] at hlayout
  exact hlayout

/-- A group behind blanks ends the gap. -/
theorem Continues.group (hrest : Continues vocabulary rest connectives entries)
    {inner : Text} (hinner : Balanced inner) {expression : Expression}
    (hreads : Reads vocabulary ('(' :: inner ++ [')']) expression) {blanks : Text}
    (hblanks : Text.isBlank blanks = true)
    (hopens : vocabulary.opensGroup (blanks.reverse ++ before) = true) :
    Layout vocabulary before (blanks ++ (('(' :: inner ++ [')']) ++ rest))
      ⟨connectives, expression.toEntry :: entries⟩ :=
  .group (.last (.blanks hblanks)) hopens hinner hreads
    (hrest [] none _ (.blanks Text.isBlank_nil))

namespace Entry

mutual

/-- A written entry has a layout with whatever may come after it. -/
theorem layout_of_written (hvocabulary : vocabulary.KnowsTokens) : (entry : Entry) →
    {written : Text} → entry.Written written →
    ∀ {rest connectives entries}, Continues vocabulary rest connectives entries →
      ∀ {blanks before}, Text.isBlank blanks = true →
        vocabulary.opensGroup (blanks.reverse ++ before) = true →
          Layout vocabulary before (blanks ++ (written ++ rest)) ⟨connectives, entry :: entries⟩
  | leaf condition, written, h, rest, connectives, entries, hrest, blanks, before, hblanks, _ => by
      rw [Written] at h
      obtain ⟨hcondition, rfl⟩ := h
      exact hrest.leaf hcondition hblanks before
  | group connectives' entries', written, h, rest, connectives, entries, hrest, blanks, before,
      hblanks, hopens => by
      obtain ⟨inner, rfl, hinner⟩ := exists_inner_of_written h
      rw [Written] at h
      obtain ⟨level, pairs, hlevel, hwrapped⟩ := h
      have hlayout := layout_of_levelWritten hvocabulary entries' hlevel
      have hreads := reads_of_levelWritten hvocabulary hlevel hlayout hwrapped
      exact hrest.group hinner hreads hblanks hopens

/-- A written level has a layout with its connectives and entries. -/
theorem layout_of_levelWritten (hvocabulary : vocabulary.KnowsTokens) :
    (entries : List Entry) → {connectives : List Connective} → {text : Text} →
    LevelWritten connectives entries text →
      Layout vocabulary [] text ⟨connectives, entries⟩
  | [], _, _, h => by
      rw [LevelWritten] at h
      exact h.elim
  | entry :: entries, _, _, h => by
      rw [LevelWritten] at h
      obtain ⟨-, first, rest, hfirst, hrest, rfl⟩ := h
      exact layout_of_written hvocabulary entry hfirst
        (continues_of_restWritten hvocabulary entries hrest) Text.isBlank_nil rfl

theorem continues_of_restWritten (hvocabulary : vocabulary.KnowsTokens) :
    (entries : List Entry) → {connectives : List Connective} → {text : Text} →
    RestWritten connectives entries text →
      Continues vocabulary text connectives entries
  | [], _, _, h => by
      rw [RestWritten] at h
      obtain ⟨rfl, rfl⟩ := h
      exact continues_nil
  | entry :: entries, _, _, h => by
      rw [RestWritten] at h
      obtain ⟨connective, others, joint, written, rest, rfl, hjoint, hwritten, hrest, rfl⟩ := h
      obtain ⟨blanks, token, blanks', hblanks, htoken, hblanks', rfl⟩ := hjoint
      intro front condition? before hstretch
      have hopens := opensGroup_of_token hvocabulary htoken hblanks'
        ((front ++ blanks).reverse ++ before)
      have hreverse : blanks'.reverse ++ ((front ++ blanks ++ token).reverse ++ before)
          = blanks'.reverse ++ token.reverse ++ ((front ++ blanks).reverse ++ before) := by simp
      rw [← hreverse] at hopens
      have hlayout := layout_of_written hvocabulary entry hwritten
        (continues_of_restWritten hvocabulary entries hrest) hblanks' hopens
      have happend : front ++ (blanks ++ token ++ blanks' ++ written ++ rest)
          = front ++ blanks ++ token ++ (blanks' ++ (written ++ rest)) := by simp
      rw [happend]
      exact hlayout.cons (hstretch.append_blanks hblanks) htoken

end

end Entry

-- =========================================================== expressions

namespace Expression

/-- It does not depend on the rest of a vocabulary what is read. -/
theorem ofText_of_knowsTokens (hvocabulary : vocabulary.KnowsTokens) {expression : Expression}
    (h : expression.Written text) : ofText vocabulary text = expression := by
  obtain ⟨level, pairs, front, inner, back, hlevel, hwrapped, hfront, hback, rfl⟩ := h
  have hlength := hwrapped.length_le
  have hfuel : level.length ≤ (front ++ inner ++ back).length := by
    rw [List.length_append, List.length_append]
    omega
  unfold ofText
  rw [readLevel_of_levelWritten hvocabulary hlevel
    (Entry.layout_of_levelWritten hvocabulary expression.entries hlevel) hwrapped hfront hback
    hfuel 0]

/-- An expression is read from every text that writes it. -/
theorem ofText_of_written {expression : Expression} {text : Text}
    (h : expression.Written text) : ofText .standard text = expression :=
  ofText_of_knowsTokens Vocabulary.knowsTokens_standard h

/-- An expression with connectives and parentheses in a call and in a
literal. -/
def opaqueParts : Expression :=
  ⟨[.xor, .or], [.group [.and] [.leaf ⟨"f(d && \")\")".toList, by decide, by decide⟩,
      .group [.or] [.leaf ⟨"x".toList, by decide, by decide⟩,
        .leaf ⟨"y".toList, by decide, by decide⟩]],
    .leaf ⟨"'m || n'".toList, by decide, by decide⟩, .leaf ⟨"z".toList, by decide, by decide⟩]⟩

/-- Signs and words, with and without blanks, and two pairs of parentheses
around a group. -/
theorem ofText_of_written_opaqueParts :
    opaqueParts.Written " (f(d && \")\") &&( (x Or y) ))^'m || n' oR z".toList
      ∧ ofText .standard " (f(d && \")\") &&( (x Or y) ))^'m || n' oR z".toList
        = opaqueParts := by
  have hliteral : Balanced "\")\"".toList :=
    .literal rfl (show Inert '"' [')'] by decide) .nil
  have hcall : (Entry.leaf ⟨"f(d && \")\")".toList, by decide, by decide⟩).Written
      "f(d && \")\")".toList :=
    Entry.written_leaf ⟨['f', outlineMark], .sign rfl (.call
      (.sign rfl (.sign rfl (.sign rfl (.sign rfl (.sign rfl hliteral))))) .nil), by decide⟩
  have hquoted : (Entry.leaf ⟨"'m || n'".toList, by decide, by decide⟩).Written
      "'m || n'".toList :=
    Entry.written_leaf
      ⟨[outlineMark], .literal rfl (show Inert '\'' "m || n".toList by decide) .nil, by decide⟩
  have hx : (Entry.leaf ⟨"x".toList, by decide, by decide⟩).Written "x".toList :=
    Entry.written_leaf ⟨"x".toList, .sign rfl .nil, by decide⟩
  have hy : (Entry.leaf ⟨"y".toList, by decide, by decide⟩).Written "y".toList :=
    Entry.written_leaf ⟨"y".toList, .sign rfl .nil, by decide⟩
  have hz : (Entry.leaf ⟨"z".toList, by decide, by decide⟩).Written "z".toList :=
    Entry.written_leaf ⟨"z".toList, .sign rfl .nil, by decide⟩
  have hor : Joins .or " Or ".toList :=
    ⟨[], _, [], rfl, .word rfl (show Connective.IsWord .or "Or".toList by decide) rfl, rfl, rfl⟩
  have hor' : Joins .or " oR ".toList :=
    ⟨[], _, [], rfl, .word rfl (show Connective.IsWord .or "oR".toList by decide) rfl, rfl, rfl⟩
  have hblank : Text.isBlank " ".toList = true := rfl
  have hand : Joins .and " &&".toList := ⟨" ".toList, _, [], hblank, .sign, rfl, rfl⟩
  have hxor : Joins .xor "^".toList := ⟨[], _, [], rfl, .sign, rfl, rfl⟩
  have hinner := Entry.written_group
    (Entry.levelWritten_cons hx (Entry.restWritten_cons hor hy Entry.restWritten_nil))
    (((Wrapped.zero _).succ Text.isBlank_nil Text.isBlank_nil).succ hblank hblank)
  have houter := Entry.written_group
    (Entry.levelWritten_cons hcall (Entry.restWritten_cons hand hinner Entry.restWritten_nil))
    ((Wrapped.zero _).succ Text.isBlank_nil Text.isBlank_nil)
  have hlevel := Entry.levelWritten_cons houter (Entry.restWritten_cons hxor hquoted
    (Entry.restWritten_cons hor' hz Entry.restWritten_nil))
  have hwritten : opaqueParts.Written " (f(d && \")\") &&( (x Or y) ))^'m || n' oR z".toList :=
    ⟨_, 0, " ".toList, _, [], hlevel, Wrapped.zero _, hblank, rfl, by decide⟩
  exact ⟨hwritten, ofText_of_written hwritten⟩

end Expression

end ConditionTable
