/-
Reading, byte by byte: the whole way from a text to its expression, as a
program that slices texts at byte offsets and refuses when it cannot. The
parts of it that find parentheses, spans and groups have modules of their
own; here chunks are cut at their connectives, and levels at their groups.

# Why reading never refuses

A chunk is cut at its beginning, where matches begin and at its end. The
matches are in order and on boundaries, and so are the cuts
(`exists_readChunk?_eq`). The pairs of a level lie one behind the other,
with boundaries before and behind each, so the gaps and the groups are
slices (`exists_readPairs?_eq`). A group is read like a text of its own, at
whatever depth (`exists_readLevel?_eq`).

# What is read

With the patterns of a vocabulary, it is the expression that is read
character by character (`readLevel?_eq`).
-/
import ConditionTable.Proofs.Bytes.Groups
import ConditionTable.Proofs.Bytes.Masking

namespace ConditionTable.Bytes

open Text

-- ============================================================== chunks

/-- Where a text is cut: at its beginning, where matches further on begin,
and at its end. -/
def bounds (matcher : Matcher) (text : Text) : List Nat :=
  0 :: (((matcher.connectives text).map Prod.fst).filter (0 < ·) ++ [text.byteSize])

/-- Each bound with the next. -/
def windows : List Nat → List (Nat × Nat)
  | start :: stop :: rest => (start, stop) :: windows (stop :: rest)
  | _ => []

/-- Reads one piece of a masked chunk. Refused if the piece cannot be
sliced behind its connective. -/
def readPiece? (matcher : Matcher) (masked : Masked) (piece : Text) : Option Piece :=
  match matcher.leading? piece with
  | some (connective, stop) => do
      let rest ← piece.slice? stop piece.byteSize
      return ⟨some connective, Condition.of? (masked.restore rest)⟩
  | none => some ⟨none, Condition.of? (masked.restore piece)⟩

/-- Reads the piece between two bounds. -/
def readRange? (matcher : Matcher) (masked : Masked) (range : Nat × Nat) : Option Piece := do
  let piece ← masked.text.slice? range.1 range.2
  readPiece? matcher masked piece

/-- The connectives and conditions of the text between two groups. -/
def readChunk? (matcher : Matcher) (chunk : Text) : Option Expression := do
  let masked ← mask? matcher chunk
  let pieces ← (windows (bounds matcher masked.text)).mapM (readRange? matcher masked)
  return .ofPieces pieces

-- ============================================================== levels

/-- The gaps from `last` on and the groups behind them, read, and where
the last group ends. -/
def readPairs? (limits : Option Limits) (depth : Nat)
    (read : Text → Option (Except Fault Expression)) (text : Text) :
    (last : Nat) → List (Nat × Nat) → Option (Except Fault (List (Text × Expression) × Nat))
  | last, [] => some (.ok ([], last))
  | last, (start, stop) :: pairs =>
      match checkDepth limits (depth + 1) with
      | .error fault => some (.error fault)
      | .ok () => do
          let gap ← text.slice? last start
          let group ← text.slice? start (stop + 1)
          match ← read group with
          | .error fault => return .error fault
          | .ok expression =>
              match ← readPairs? limits depth read text (stop + 1) pairs with
              | .error fault => return .error fault
              | .ok (pieces, stop) => return .ok ((gap, expression) :: pieces, stop)

/-- What is left of a text behind the last group. -/
def tail? (text : Text) (last : Nat) : Option Text :=
  if last < text.byteSize then text.slice? last text.byteSize else some []

/-- A level from its gaps, each with the group after it, and its tail. -/
def ofLevel? (matcher : Matcher) : List (Text × Expression) → (tail : Text) → Option Expression
  | [], tail => if tail.isEmpty then some .empty else readChunk? matcher tail
  | (gap, group) :: pieces, tail => do
      let front ← readChunk? matcher gap
      let level ← ofLevel? matcher pieces tail
      return front ++ (⟨[], [group.toEntry]⟩ ++ level)

/-- Reads a level that lies inside `depth` groups. -/
def readLevel? (matcher : Matcher) (limits : Option Limits) :
    (fuel depth : Nat) → Text → Option (Except Fault Expression)
  | 0, _, _ => some (.ok .empty)
  | fuel + 1, depth, text => do
      let text ← stripParens? text
      let pairs ← findPairs? matcher text
      match ← readPairs? limits depth (readLevel? matcher limits fuel (depth + 1)) text 0 pairs with
      | .error fault => return .error fault
      | .ok (pieces, last) =>
          let tail ← tail? text last
          let level ← ofLevel? matcher pieces tail
          match checkWidth limits level with
          | .error fault => return .error fault
          | .ok () => return .ok level

-- =============================================================== safety

theorem exists_mapM_eq {α β : Type} {f : α → Option β} {list : List α}
    (h : ∀ x ∈ list, ∃ y, f x = some y) : ∃ results, list.mapM f = some results := by
  induction list with
  | nil => exact ⟨[], rfl⟩
  | cons x list ih =>
    obtain ⟨y, hy⟩ := h x List.mem_cons_self
    obtain ⟨results, hresults⟩ := ih fun z hz => h z (List.mem_cons_of_mem x hz)
    refine ⟨y :: results, ?_⟩
    rw [List.mapM_cons, hy, hresults]
    rfl

variable {matcher : Matcher} {text : Text}

theorem mem_windows {offsets : List Nat} (h : offsets.Pairwise (· ≤ ·)) :
    ∀ range ∈ windows offsets, range.1 ∈ offsets ∧ range.2 ∈ offsets ∧ range.1 ≤ range.2 := by
  fun_induction windows offsets with
  | case1 start stop rest ih =>
    rw [List.pairwise_cons] at h
    intro range hrange
    rcases List.mem_cons.1 hrange with rfl | hlater
    · exact ⟨List.mem_cons_self, List.mem_cons_of_mem _ List.mem_cons_self,
        h.1 stop List.mem_cons_self⟩
    · obtain ⟨hstart, hstop, hle⟩ := ih h.2 range hlater
      exact ⟨List.mem_cons_of_mem _ hstart, List.mem_cons_of_mem _ hstop, hle⟩
  | case2 => exact nofun

namespace Matcher.Lawful

theorem boundary_of_mem_bounds (h : matcher.Lawful) : ∀ offset ∈ bounds matcher text,
    Boundary text offset := by
  intro offset hmem
  unfold bounds at hmem
  rw [List.mem_cons, List.mem_append, List.mem_singleton] at hmem
  rcases hmem with rfl | hmatch | rfl
  · exact boundary_zero text
  · obtain ⟨range, hrange, rfl⟩ := List.mem_map.1 (List.mem_filter.1 hmatch).1
    exact (h.connectives text range hrange).start
  · exact boundary_byteSize text

theorem pairwise_bounds (h : matcher.Lawful) (text : Text) :
    (bounds matcher text).Pairwise (· ≤ ·) := by
  have hstarts : ((matcher.connectives text).map Prod.fst).Pairwise (· ≤ ·) := by
    rw [List.pairwise_map]
    refine (h.ordered text).imp_of_mem fun {earlier _} hearlier _ hle => ?_
    exact Nat.le_trans (h.connectives text earlier hearlier).ordered hle
  unfold bounds
  rw [List.pairwise_cons, List.pairwise_append]
  refine ⟨fun _ _ => Nat.zero_le _, hstarts.filter _, List.pairwise_singleton _ _, ?_⟩
  intro start hstart stop hstop
  rw [List.mem_singleton.1 hstop]
  obtain ⟨range, hrange, rfl⟩ := List.mem_map.1 (List.mem_filter.1 hstart).1
  exact (h.connectives text range hrange).start.le

theorem exists_readPiece?_eq (h : matcher.Lawful) (masked : Masked) (piece : Text) :
    ∃ result, readPiece? matcher masked piece = some result := by
  unfold readPiece?
  split
  · next connective stop hleading =>
    have hstop := h.boundary_of_leading? hleading
    obtain ⟨rest, hrest⟩ := exists_slice?_eq hstop (boundary_byteSize piece) hstop.le
    rw [hrest]
    exact ⟨_, rfl⟩
  · exact ⟨_, rfl⟩

theorem exists_readRange?_eq (h : matcher.Lawful) (masked : Masked) :
    ∀ range ∈ windows (bounds matcher masked.text),
      ∃ piece, readRange? matcher masked range = some piece := by
  intro range hrange
  obtain ⟨hstart, hstop, hle⟩ := mem_windows (h.pairwise_bounds masked.text) range hrange
  obtain ⟨piece, hpiece⟩ :=
    exists_slice?_eq (h.boundary_of_mem_bounds _ hstart) (h.boundary_of_mem_bounds _ hstop) hle
  obtain ⟨result, hresult⟩ := h.exists_readPiece?_eq masked piece
  refine ⟨result, ?_⟩
  rw [readRange?, hpiece]
  exact hresult

/-- A chunk is read without refusal. -/
theorem exists_readChunk?_eq (h : matcher.Lawful) (chunk : Text) :
    ∃ expression, readChunk? matcher chunk = some expression := by
  obtain ⟨masked, hmasked⟩ := exists_mask?_eq matcher chunk
  obtain ⟨pieces, hpieces⟩ := exists_mapM_eq (h.exists_readRange?_eq masked)
  refine ⟨.ofPieces pieces, ?_⟩
  simp only [readChunk?, hmasked, hpieces, Option.bind_eq_bind, Option.bind_some]
  rfl

theorem exists_ofLevel?_eq (h : matcher.Lawful) (pieces : List (Text × Expression)) (tail : Text) :
    ∃ level, ofLevel? matcher pieces tail = some level := by
  induction pieces with
  | nil =>
    unfold ofLevel?
    split
    · exact ⟨_, rfl⟩
    · exact h.exists_readChunk?_eq tail
  | cons piece pieces ih =>
    obtain ⟨gap, group⟩ := piece
    obtain ⟨front, hfront⟩ := h.exists_readChunk?_eq gap
    obtain ⟨level, hlevel⟩ := ih
    rw [ofLevel?, hfront, hlevel]
    exact ⟨_, rfl⟩

end Matcher.Lawful

/-- The gaps and groups of a level are slices. What is left of the level
begins at a boundary. -/
theorem exists_readPairs?_eq (limits : Option Limits) (depth : Nat)
    {read : Text → Option (Except Fault Expression)} (hread : ∀ group, ∃ result, read group = some result)
    {last : Nat} {pairs : List (Nat × Nat)} (hlast : Boundary text last)
    (hpairs : Chained text last pairs) :
    ∃ result, readPairs? limits depth read text last pairs = some result
      ∧ ∀ pieces stop, result = .ok (pieces, stop) → Boundary text stop := by
  induction pairs generalizing last with
  | nil =>
    refine ⟨_, rfl, ?_⟩
    rintro _ _ ⟨⟩
    exact hlast
  | cons pair pairs ih =>
    obtain ⟨start, stop⟩ := pair
    obtain ⟨hlow, hle, hstart, hstop, hlater⟩ := hpairs
    rw [readPairs?]
    cases checkDepth limits (depth + 1) with
    | error fault => exact ⟨_, rfl, nofun⟩
    | ok _ =>
      obtain ⟨gap, hgap⟩ := exists_slice?_eq hlast hstart hlow
      obtain ⟨group, hgroup⟩ := exists_slice?_eq hstart hstop (Nat.le_succ_of_le hle)
      obtain ⟨result, hresult⟩ := hread group
      simp only [hgap, hgroup, hresult, Option.bind_eq_bind, Option.bind_some]
      cases result with
      | error fault => exact ⟨_, rfl, nofun⟩
      | ok expression =>
        obtain ⟨rest, hrest, hboundary⟩ := ih hstop hlater
        simp only [hrest, Option.bind_some]
        cases rest with
        | error fault => exact ⟨_, rfl, nofun⟩
        | ok rest =>
          refine ⟨_, rfl, ?_⟩
          rintro _ _ ⟨⟩
          exact hboundary _ _ rfl

theorem exists_tail?_eq {last : Nat} (hlast : Boundary text last) :
    ∃ tail, tail? text last = some tail := by
  unfold tail?
  split
  · exact exists_slice?_eq hlast (boundary_byteSize text) hlast.le
  · exact ⟨[], rfl⟩

/-- A level is read without refusal, whatever its depth. -/
theorem Matcher.Lawful.exists_readLevel?_eq (h : matcher.Lawful) (limits : Option Limits)
    (fuel depth : Nat) (text : Text) :
    ∃ result, readLevel? matcher limits fuel depth text = some result := by
  induction fuel generalizing depth text with
  | zero => exact ⟨_, rfl⟩
  | succ fuel ih =>
    obtain ⟨pairs, hpairs, hchained⟩ := exists_findPairs?_eq matcher (stripParens text)
    obtain ⟨result, hresult, hboundary⟩ :=
      exists_readPairs?_eq limits depth (ih (depth + 1)) (boundary_zero _) hchained
    rw [readLevel?, stripParens?_eq, Option.bind_eq_bind, Option.bind_some, hpairs,
      Option.bind_eq_bind, Option.bind_some, hresult, Option.bind_eq_bind, Option.bind_some]
    cases result with
    | error fault => exact ⟨_, rfl⟩
    | ok result =>
      obtain ⟨pieces, last⟩ := result
      obtain ⟨tail, htail⟩ := exists_tail?_eq (hboundary pieces last rfl)
      obtain ⟨level, hlevel⟩ := h.exists_ofLevel?_eq pieces tail
      simp only [htail, hlevel, Option.bind_eq_bind, Option.bind_some]
      cases checkWidth limits level <;> exact ⟨_, rfl⟩

-- =========================================================== characters

variable {vocabulary : Vocabulary}

/-- The connective of a piece takes its front. -/
theorem leading?_ofVocabulary (vocabulary : Vocabulary) (piece : Text) :
    (Matcher.ofVocabulary vocabulary).leading? piece
      = (vocabulary.leading? piece).map fun (connective, rest) =>
          (connective, piece.byteSize - byteSize rest) := by
  unfold Matcher.leading? Vocabulary.leading?
  rw [List.map_findSome?]
  refine congrArg (List.findSome? · _) (funext fun connective => ?_)
  simp only [Matcher.ofVocabulary, Function.comp, Option.map_map]
  rfl

theorem suffix_of_leading? {connective : Connective} {piece rest : Text}
    (h : vocabulary.leading? piece = some (connective, rest)) : rest <:+ piece := by
  obtain ⟨other, -, hsome⟩ := List.exists_of_findSome?_eq_some h
  obtain ⟨⟨found, attempt⟩, hfind, heq⟩ := Option.map_eq_some_iff.1 hsome
  obtain ⟨-, rfl⟩ := Prod.mk.inj heq
  exact suffix_of_leading hfind

theorem readPiece?_eq (vocabulary : Vocabulary) (masked : Masked) (piece : Text) :
    readPiece? (.ofVocabulary vocabulary) masked piece
      = some (Piece.ofText vocabulary masked piece) := by
  rw [readPiece?, Piece.ofText, leading?_ofVocabulary]
  cases h : vocabulary.leading? piece with
  | none => rfl
  | some found =>
    obtain ⟨connective, rest⟩ := found
    obtain ⟨front, rfl⟩ := suffix_of_leading? h
    have hslice : slice? (front ++ rest) (byteSize (front ++ rest) - byteSize rest)
        (byteSize (front ++ rest)) = some rest :=
      slice?_eq_some (List.append_nil _).symm (by simp) (by simp)
    simp only [Option.map_some, hslice]
    rfl

/-- The pieces between the bounds at a head, at each match behind it and
at the end. -/
theorem mapM_readRange?_eq (vocabulary : Vocabulary) (masked : Masked) (front head : Text)
    (pieces : List (Text × Text)) (tail : Text)
    (htext : masked.text = front ++ (head ++ (Pattern.Occurrences.mk pieces tail).text)) :
    (windows (front.byteSize
        :: ((matchRanges (byteSize (front ++ head)) pieces).map Prod.fst ++ [masked.text.byteSize]))).mapM
        (readRange? (.ofVocabulary vocabulary) masked)
      = some ((Pattern.cutPieces head pieces tail).map (Piece.ofText vocabulary masked)) := by
  induction pieces generalizing front head with
  | nil =>
    have hslice : slice? masked.text front.byteSize masked.text.byteSize = some (head ++ tail) :=
      slice?_eq_some (by rw [htext, List.append_nil]; rfl) rfl (by rw [htext, byteSize_append]; rfl)
    simp [windows, matchRanges, readRange?, hslice, readPiece?_eq, Pattern.cutPieces]
  | cons piece pieces ih =>
    obtain ⟨gap, matched⟩ := piece
    rw [Pattern.Occurrences.text_mk_cons] at htext
    have hslice : slice? masked.text front.byteSize (byteSize (front ++ head) + byteSize gap)
        = some (head ++ gap) := by
      refine slice?_eq_some (?_ : _ = _ ++ _ ++ (matched ++ (Pattern.Occurrences.mk pieces tail).text))
        rfl (by simp [Nat.add_assoc])
      rw [htext]
      simp
    have hrest := ih (front ++ head ++ gap) matched (by rw [htext]; simp)
    simp only [byteSize_append] at hrest hslice
    simp only [matchRanges, List.map_cons, List.cons_append, windows, List.mapM_cons, readRange?,
      byteSize_append, hslice, readPiece?_eq, hrest, Pattern.cutPieces]
    rfl

/-- A gap that has begun is not empty. -/
theorem gap_ne_nil_of_scan {pattern : Pattern} {before : Option Char} {skip : Nat} {touching : Bool}
    {gap text first matched : Text} {pieces : List (Text × Text)} (hgap : gap ≠ [])
    (h : (pattern.scan before skip touching gap text).pieces = (first, matched) :: pieces) :
    first ≠ [] := by
  fun_induction pattern.scan before skip touching gap text with
  | case1 before skip touching gap hmatch =>
    obtain ⟨rfl, -⟩ := Prod.mk.inj (List.cons.inj h).1
    exact fun hnil => hgap (List.reverse_eq_nil_iff.1 hnil)
  | case2 => cases h
  | case3 before skip touching gap c rest ih => exact ih hgap h
  | case4 before touching gap c rest hmatch ih => exact ih (List.cons_ne_nil _ _) h
  | case5 before gap c rest hmatch ih => exact ih (List.cons_ne_nil _ _) h
  | case6 before gap c rest hmatch htouching ih =>
    obtain ⟨rfl, -⟩ := Prod.mk.inj (List.cons.inj h).1
    exact fun hnil => hgap (List.reverse_eq_nil_iff.1 hnil)
  | case7 before touching gap c rest more hmatch ih =>
    obtain ⟨rfl, -⟩ := Prod.mk.inj (List.cons.inj h).1
    exact fun hnil => hgap (List.reverse_eq_nil_iff.1 hnil)

/-- After a match of nothing at the start, the next match is further
on. -/
theorem gap_ne_nil_of_occurrences {pattern : Pattern} {text gap matched tail : Text}
    {pieces : List (Text × Text)}
    (h : pattern.occurrences text = ⟨([], []) :: (gap, matched) :: pieces, tail⟩) : gap ≠ [] := by
  have hpieces := congrArg Pattern.Occurrences.pieces h
  unfold Pattern.occurrences at hpieces
  cases text with
  | nil =>
    rw [Pattern.scan] at hpieces
    split at hpieces <;> simp at hpieces
  | cons c rest =>
    rw [Pattern.scan] at hpieces
    split at hpieces
    · exact absurd rfl (gap_ne_nil_of_scan (List.cons_ne_nil _ _) hpieces)
    · rw [if_neg Bool.false_ne_true] at hpieces
      exact gap_ne_nil_of_scan (List.cons_ne_nil _ _) (List.cons.inj hpieces).2
    · have hmatched := (Prod.mk.inj (List.cons.inj hpieces).1).2
      cases hmatched

theorem pos_of_mem_matchRanges {offset : Nat} {gap matched : Text} {pieces : List (Text × Text)}
    (hpos : 0 < offset ∨ gap ≠ []) :
    ∀ range ∈ matchRanges offset ((gap, matched) :: pieces), 0 < range.1 := by
  have hstart : 0 < offset + gap.byteSize := by
    rcases hpos with hpos | hne
    · omega
    · have hsize := mt byteSize_eq_zero_iff.1 hne
      omega
  intro range hmem
  rw [matchRanges, List.mem_cons] at hmem
  rcases hmem with rfl | hmem
  · exact hstart
  · have hle := le_of_mem_matchRanges hmem
    omega

/-- Matches further on than the start are all kept as bounds. -/
theorem filter_starts {ranges : List (Nat × Nat)} (h : ∀ range ∈ ranges, 0 < range.1) :
    (ranges.map Prod.fst).filter (0 < ·) = ranges.map Prod.fst := by
  refine List.filter_eq_self.2 fun start hstart => ?_
  obtain ⟨range, hrange, rfl⟩ := List.mem_map.1 hstart
  exact decide_eq_true (h range hrange)

/-- The text is cut where it is cut character by character. -/
theorem readRanges_eq (vocabulary : Vocabulary) (masked : Masked) :
    (windows (bounds (.ofVocabulary vocabulary) masked.text)).mapM
        (readRange? (.ofVocabulary vocabulary) masked)
      = some ((vocabulary.connective.cutBefore masked.text).map (Piece.ofText vocabulary masked)) := by
  have htext := Pattern.text_occurrences vocabulary.connective masked.text
  have hbounds : bounds (.ofVocabulary vocabulary) masked.text
      = 0 :: (((matchRanges 0 (vocabulary.connective.occurrences masked.text).pieces).map Prod.fst).filter
          (0 < ·) ++ [masked.text.byteSize]) := rfl
  rw [hbounds, Pattern.cutBefore]
  split
  · next matched pieces tail heq =>
    rw [heq] at htext ⊢
    have hpos : ∀ range ∈ matchRanges matched.byteSize pieces, 0 < range.1 := by
      cases pieces with
      | nil => exact fun range hrange => absurd hrange List.not_mem_nil
      | cons piece pieces =>
        refine pos_of_mem_matchRanges ?_
        by_cases hempty : matched = []
        · subst hempty
          exact .inr (gap_ne_nil_of_occurrences heq)
        · exact .inl (Nat.pos_of_ne_zero (mt byteSize_eq_zero_iff.1 hempty))
    have hfirst : matchRanges 0 (([], matched) :: pieces)
        = (0, matched.byteSize) :: matchRanges matched.byteSize pieces := by
      simp [matchRanges]
    rw [hfirst, List.map_cons, List.filter_cons_of_neg (by simp), filter_starts hpos]
    refine mapM_readRange?_eq vocabulary masked [] matched pieces tail ?_
    rw [← htext, Pattern.Occurrences.text_mk_cons]
    rfl
  · next pieces tail hother heq =>
    rw [heq] at htext ⊢
    have hpos : ∀ range ∈ matchRanges 0 pieces, 0 < range.1 := by
      cases pieces with
      | nil => exact fun range hrange => absurd hrange List.not_mem_nil
      | cons piece pieces =>
        obtain ⟨gap, matched⟩ := piece
        refine pos_of_mem_matchRanges (.inr ?_)
        rintro rfl
        exact hother matched pieces rfl
    rw [filter_starts hpos]
    exact mapM_readRange?_eq vocabulary masked [] [] pieces tail htext.symm

/-- A chunk has the connectives and conditions that are read character by
character. -/
theorem readChunk?_eq (vocabulary : Vocabulary) (chunk : Text) :
    readChunk? (.ofVocabulary vocabulary) chunk = some (.ofChunk vocabulary chunk) := by
  simp only [readChunk?, mask?_eq, readRanges_eq, Option.bind_eq_bind, Option.bind_some]
  rfl

theorem ofLevel?_eq (vocabulary : Vocabulary) (pieces : List (Text × Expression)) (tail : Text) :
    ofLevel? (.ofVocabulary vocabulary) pieces tail = some (.ofLevel vocabulary pieces tail) := by
  induction pieces with
  | nil =>
    unfold ofLevel? Expression.ofLevel
    rw [List.foldr_nil, readChunk?_eq]
    split <;> rfl
  | cons piece pieces ih =>
    obtain ⟨gap, group⟩ := piece
    rw [ofLevel?, readChunk?_eq, ih]
    rfl

/-- The gaps and groups that are sliced out are those of the division. -/
theorem readPairs?_eq (vocabulary : Vocabulary) (limits : Option Limits) (fuel depth : Nat)
    {read : Text → Option (Except Fault Expression)}
    (hread : ∀ group, read group = some (Expression.readLevel vocabulary limits fuel (depth + 1) group))
    (front : Text) {tail : Text} {pieces : List (Text × Text)} (hpieces : ∀ piece ∈ pieces, piece.2 ≠ [])
    (htext : text = front ++ (Division.mk pieces tail).text) :
    readPairs? limits depth read text front.byteSize
        ((groupsFrom front.byteSize pieces).map fun group => (group.start, group.stop))
      = some ((pieces.mapM (Expression.readPiece vocabulary limits fuel depth)).map fun readings =>
          (readings, text.byteSize - tail.byteSize)) := by
  induction pieces generalizing front with
  | nil =>
    have hlast : text.byteSize - tail.byteSize = front.byteSize := by
      rw [htext, byteSize_append, Division.text_mk_nil, Nat.add_sub_cancel]
    rw [hlast]
    rfl
  | cons piece pieces ih =>
    obtain ⟨gap, group⟩ := piece
    rw [Division.text_mk_cons] at htext
    have hgroup : byteSize group ≠ 0 := mt byteSize_eq_zero_iff.1 (hpieces _ List.mem_cons_self)
    have hoffset : front.byteSize + gap.byteSize + group.byteSize = byteSize (front ++ gap ++ group) := by
      simp only [byteSize_append]
    have hnext : byteSize (front ++ gap ++ group) - 1 + 1 = byteSize (front ++ gap ++ group) := by
      omega
    have hwhole : text = front ++ gap ++ (group ++ (Division.mk pieces tail).text) := by
      rw [htext]
      simp
    have hlater : text = front ++ gap ++ group ++ (Division.mk pieces tail).text := by
      rw [htext]
      simp
    have hgap : slice? text front.byteSize (front.byteSize + gap.byteSize) = some gap :=
      slice?_eq_some hwhole rfl rfl
    have htaken : slice? text (front.byteSize + gap.byteSize) (byteSize (front ++ gap ++ group))
        = some group :=
      slice?_eq_some hlater (byteSize_append _ _).symm (by simp [Nat.add_assoc])
    have hrest := ih (front ++ gap ++ group)
      (fun piece hpiece => hpieces piece (List.mem_cons_of_mem _ hpiece)) hlater
    rw [groupsFrom, List.map_cons, readPairs?, List.mapM_cons, Expression.readPiece]
    cases checkDepth limits (depth + 1) with
    | error fault => rfl
    | ok _ =>
      simp only [hoffset, hnext, hgap, htaken, hread, Option.bind_eq_bind, Option.bind_some]
      cases Expression.readLevel vocabulary limits fuel (depth + 1) group with
      | error fault => rfl
      | ok expression =>
        simp only [hrest, Option.bind_some]
        cases pieces.mapM (Expression.readPiece vocabulary limits fuel depth) <;> rfl

theorem tail?_eq (front tail : Text) (htext : text = front ++ tail) :
    tail? text (text.byteSize - tail.byteSize) = some tail := by
  have hstart : text.byteSize - tail.byteSize = front.byteSize := by
    rw [htext, byteSize_append, Nat.add_sub_cancel]
  rw [tail?, hstart]
  split
  · exact slice?_eq_some (by rw [htext, List.append_nil]) rfl (by rw [htext, byteSize_append])
  · next hend =>
    have hempty : tail = [] := by
      rw [htext, byteSize_append] at hend
      exact byteSize_eq_zero_iff.1 (by omega)
    rw [hempty]

/-- A level is read as it is read character by character. -/
theorem readLevel?_eq (vocabulary : Vocabulary) (limits : Option Limits) (fuel depth : Nat)
    (text : Text) :
    readLevel? (.ofVocabulary vocabulary) limits fuel depth text
      = some (Expression.readLevel vocabulary limits fuel depth text) := by
  induction fuel generalizing depth text with
  | zero => rfl
  | succ fuel ih =>
    have htext : stripParens text = [] ++ (Division.mk (divide vocabulary (stripParens text)).pieces
        (divide vocabulary (stripParens text)).tail).text :=
      (text_divide vocabulary (stripParens text)).symm
    have hgroups : ∀ piece ∈ (divide vocabulary (stripParens text)).pieces, piece.2 ≠ [] := by
      intro piece hpiece hempty
      obtain ⟨inner, hinner⟩ := exists_insideParens? (stripParens text) piece hpiece
      rw [hempty] at hinner
      cases hinner
    have hpairs := readPairs?_eq vocabulary limits fuel depth (ih (depth + 1)) [] hgroups htext
    have htail := tail?_eq _ (divide vocabulary (stripParens text)).tail htext
    rw [byteSize_nil, ← groups] at hpairs
    simp only [readLevel?, stripParens?_eq, findPairs?_eq, Option.bind_eq_bind, Option.bind_some,
      hpairs, Expression.readLevel_succ]
    cases (divide vocabulary (stripParens text)).pieces.mapM
        (Expression.readPiece vocabulary limits fuel depth) with
    | error fault => rfl
    | ok readings =>
      simp only [Except.map, htail, ofLevel?_eq, Option.bind_some]
      cases hwidth : checkWidth limits
          (Expression.ofLevel vocabulary readings (divide vocabulary (stripParens text)).tail) with
      | error fault => simp [bind, Except.bind, hwidth]
      | ok _ =>
        simp [bind, Except.bind, hwidth]
        rfl

-- =============================================================== bounds

/-- Every program that slices, indexes or counts down goes through, on
every text and at every offset at which it may begin. -/
structure Matcher.InBounds (matcher : Matcher) : Prop where
  spans : ∀ text start, start < byteSize text → (spanEnd? (utf8 text) start).isSome
  closes : ∀ text start, (matchingClose? text start).isSome
  strips : ∀ text, (stripParens? text).isSome
  pairs : ∀ text, (findPairs? matcher text).isSome
  masks : ∀ text, (mask? matcher text).isSome
  chunks : ∀ text, (readChunk? matcher text).isSome
  levels : ∀ limits fuel depth text, (readLevel? matcher limits fuel depth text).isSome

theorem Matcher.Lawful.inBounds (h : matcher.Lawful) : matcher.InBounds where
  spans := by
    intro text start hstart
    obtain ⟨stop, closed, hspan, -⟩ := exists_spanEnd?_eq hstart
    exact Option.isSome_of_eq_some hspan
  closes := fun text start => Option.isSome_iff_exists.2 (exists_matchingClose?_eq text start)
  strips := fun text => Option.isSome_of_eq_some (stripParens?_eq text)
  pairs := by
    intro text
    obtain ⟨pairs, hpairs, -⟩ := exists_findPairs?_eq matcher text
    exact Option.isSome_of_eq_some hpairs
  masks := fun text => Option.isSome_iff_exists.2 (exists_mask?_eq matcher text)
  chunks := fun text => Option.isSome_iff_exists.2 (h.exists_readChunk?_eq text)
  levels := fun limits fuel depth text =>
    Option.isSome_iff_exists.2 (h.exists_readLevel?_eq limits fuel depth text)

/-- Reading a text byte by byte never slices it out of bounds, inside a
character or backwards, and no count falls below zero, whatever patterns
answer, if only their matches are in order and on boundaries. With the
patterns of a vocabulary the programs give what stripping, dividing,
masking and reading give. -/
theorem never_refuses :
    (∀ matcher : Matcher, matcher.Lawful → matcher.InBounds)
      ∧ ∀ vocabulary, (Matcher.ofVocabulary vocabulary).Lawful
        ∧ (∀ text, stripParens? text = some (stripParens text)
          ∧ findPairs? (.ofVocabulary vocabulary) text
            = some ((groups vocabulary text).map fun group => (group.start, group.stop))
          ∧ mask? (.ofVocabulary vocabulary) text = some (mask vocabulary text)
          ∧ readChunk? (.ofVocabulary vocabulary) text = some (.ofChunk vocabulary text))
        ∧ ∀ limits fuel depth text, readLevel? (.ofVocabulary vocabulary) limits fuel depth text
          = some (Expression.readLevel vocabulary limits fuel depth text) := by
  refine ⟨fun matcher hmatcher => hmatcher.inBounds, fun vocabulary => ⟨?_, fun text => ?_, ?_⟩⟩
  · exact lawful_ofVocabulary vocabulary
  · exact ⟨stripParens?_eq text, findPairs?_eq vocabulary text, mask?_eq vocabulary text,
      readChunk?_eq vocabulary text⟩
  · exact readLevel?_eq vocabulary

/-- A matcher that takes whole texts for connectives. -/
def greedy : Matcher where
  opening _ := true
  connectives text := [(0, text.byteSize)]
  leading _ piece := some (0, piece.byteSize)

theorem lawful_greedy : greedy.Lawful where
  connectives := by
    intro text range hrange
    obtain rfl := List.mem_singleton.1 hrange
    exact ⟨boundary_zero text, boundary_byteSize text, Nat.zero_le _⟩
  ordered := fun _ => List.pairwise_singleton _ _
  leading := by
    rintro connective piece _ ⟨⟩
    exact ⟨boundary_zero piece, boundary_byteSize piece, Nat.zero_le _⟩

/-- Letters of two bytes, a parenthesis too many and an open literal. -/
theorem never_refuses_greedy :
    greedy.Lawful
      ∧ findPairs? greedy "é(ü)) (ö '".toList = some [(2, 5)]
      ∧ (readLevel? greedy none 9 0 "é(ü)) (ö '".toList).isSome :=
  ⟨lawful_greedy, by decide +kernel, (never_refuses.1 greedy lawful_greedy).levels none 9 0 _⟩

end ConditionTable.Bytes
