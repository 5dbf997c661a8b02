/-
Reading the text between two groups. Such a chunk consists of tokens and
of the stretches between them, each of which holds blanks and at most one
condition. The search for tokens finds just these, because stretches are
calm when masked, and each piece that is cut off then gives up its token
and leaves its stretch, which is restored to the text of the condition.

# The induction

`Chunk.exists_segments` goes from the end of a chunk to its front. Its
statement is about the pieces that follow a given head, nothing or a
token, since the token found last belongs to the piece that comes next.
It speaks of any number from which placeholders may be counted and of
any list of texts taken out that has those of the chunk at that place.
-/
import ConditionTable.Proofs.Writing.Calm
import ConditionTable.Tree.OfText

namespace ConditionTable

variable {vocabulary : Vocabulary} {text : Text} {connective : Connective} {token : Text}

-- ============================================================ searching

/-- The search passes over a calm text. -/
theorem scan_calm (hvocabulary : vocabulary.KnowsTokens) {next : Text} (htext : Calm text next)
    (before : Option Char) (touching : Bool) (gap : Text) :
    ∃ before' touching', vocabulary.connective.scan before 0 touching gap (text ++ next)
      = vocabulary.connective.scan before' 0 touching' (text.reverse ++ gap) next := by
  induction text generalizing before touching gap with
  | nil => exact ⟨before, touching, rfl⟩
  | cons c text ih =>
    have hnone := matchAt?_connective_eq_none hvocabulary
      (htext [] (c :: text) rfl (List.cons_ne_nil _ _)) before
    obtain ⟨before', touching', hscan⟩ := ih htext.tail (some c) false (c :: gap)
    refine ⟨before', touching', ?_⟩
    rw [List.cons_append] at hnone ⊢
    rw [Pattern.scan, hnone, List.reverse_cons, List.append_assoc]
    exact hscan

/-- The search skips the rest of a match. -/
theorem scan_skip (pattern : Pattern) (skipped rest : Text) (before : Option Char)
    (touching : Bool) (gap : Text) :
    ∃ before', pattern.scan before skipped.length touching gap (skipped ++ rest)
      = pattern.scan before' 0 touching gap rest := by
  induction skipped generalizing before with
  | nil => exact ⟨before, rfl⟩
  | cons c skipped ih =>
    obtain ⟨before', hscan⟩ := ih (some c)
    exact ⟨before', by rw [List.length_cons, List.cons_append, Pattern.scan, hscan]⟩

/-- The search finds the token that comes next. -/
theorem scan_token (hvocabulary : vocabulary.KnowsTokens) (htoken : Token connective token)
    (before : Option Char) (touching : Bool) (gap rest : Text) :
    ∃ before', vocabulary.connective.scan before 0 touching gap (token ++ rest)
      = (vocabulary.connective.scan before' 0 true [] rest).cons gap.reverse token := by
  have hmatch : (vocabulary.connective.matchAt? before (token ++ rest)).map Attempt.offset
      = some token.length := matchAt?_connective hvocabulary htoken before
  obtain ⟨c, left, rfl⟩ := htoken.exists_cons
  obtain ⟨before', hskip⟩ := scan_skip vocabulary.connective left rest (some c) true []
  refine ⟨before', ?_⟩
  rw [List.cons_append] at hmatch ⊢
  rw [Pattern.scan, hmatch, List.length_cons]
  simp only [hskip, List.take_succ_cons, List.take_left]

/-- At the end of the text no token is found. -/
theorem scan_nil (hvocabulary : vocabulary.KnowsTokens) (before : Option Char) (touching : Bool)
    (gap : Text) : vocabulary.connective.scan before 0 touching gap [] = ⟨[], gap.reverse⟩ := by
  rw [Pattern.scan, matchAt?_connective_eq_none hvocabulary noToken_nil]
  simp

-- ============================================================= segments

/-- The text has these segments wherever it stands, and none of them is a
brace. -/
structure Segmented (vocabulary : Vocabulary) (text : Text) (segs : List Segment) : Prop where
  text_eq : segs.flatMap Segment.text = text
  no_brace : .plain '\x7b' ∉ segs
  segmentsFrom_eq : ∀ before rest, segmentsFrom vocabulary (.between false) before (text ++ rest)
    = segs ++ segmentsFrom vocabulary (.between false) (text.reverse ++ before) rest

/-- A text of which each character is a segment. -/
def plains (text : Text) : List Segment :=
  text.map .plain

@[simp] theorem spans_plains (text : Text) : spans (plains text) = [] := by
  induction text with
  | nil => rfl
  | cons c text ih => exact ih

theorem veil_plains (number : Nat) (text : Text) (segs : List Segment) :
    veil number (plains text ++ segs) = text ++ veil number segs := by
  induction text with
  | nil => rfl
  | cons c text ih => exact congrArg (c :: ·) ih

theorem text_plains (text : Text) : (plains text).flatMap Segment.text = text := by
  induction text with
  | nil => rfl
  | cons c text ih => exact congrArg (c :: ·) ih

theorem map_outline_plains (text : Text) : (plains text).map Segment.outline = text := by
  induction text with
  | nil => rfl
  | cons c text ih => exact congrArg (c :: ·) ih

theorem Segmented.append {front back : Text} {segs segs' : List Segment}
    (hfront : Segmented vocabulary front segs) (hback : Segmented vocabulary back segs') :
    Segmented vocabulary (front ++ back) (segs ++ segs') := by
  refine ⟨?_, ?_, fun before rest => ?_⟩
  · rw [List.flatMap_append, hfront.text_eq, hback.text_eq]
  · rw [List.mem_append, not_or]
    exact ⟨hfront.no_brace, hback.no_brace⟩
  · rw [List.append_assoc, hfront.segmentsFrom_eq, hback.segmentsFrom_eq, List.reverse_append,
      List.append_assoc, List.append_assoc]

theorem segmented_plains (htext : ∀ c ∈ text, isNeutral c = true ∧ c ≠ '\x7b') :
    Segmented vocabulary text (plains text) := by
  refine ⟨text_plains text, ?_, fun before rest => ?_⟩
  · intro hmem
    obtain ⟨c, hc, heq⟩ := List.mem_map.1 hmem
    exact (htext c hc).2 (Segment.plain.inj heq)
  · induction text generalizing before with
    | nil => rfl
    | cons c text ih =>
      obtain ⟨hneutral, hbrace⟩ := htext c List.mem_cons_self
      rw [List.cons_append, segmentsFrom_plain hneutral hbrace,
        ih fun d hd => htext d (List.mem_cons_of_mem _ hd)]
      simp [plains]

-- ============================================================ stretches

/-- A text without tokens of its own: blanks, perhaps around a
condition. -/
inductive Stretch : Text → Option Condition → Prop
  | blanks {text : Text} (htext : Text.isBlank text = true) : Stretch text none
  | condition {before after : Text} {condition : Condition} (hbefore : Text.isBlank before = true)
      (hcondition : condition.Writable) (hafter : Text.isBlank after = true) :
      Stretch (before ++ condition.text ++ after) (some condition)

variable {condition? : Option Condition}

/-- A stretch holds its condition. -/
theorem Stretch.of?_eq (h : Stretch text condition?) : Condition.of? text = condition? := by
  cases h with
  | blanks htext =>
    unfold Condition.of?
    rw [dif_neg]
    rw [Text.trim_of_isBlank htext]
    simp
  | @condition before after condition hbefore _ hafter =>
    have hstart := Text.firmStart_of_trim_eq condition.trimmed condition.nonempty
    have hend := Text.firmEnd_of_trim_eq condition.trimmed condition.nonempty
    have htrim := Text.trim_surround hbefore hstart hend hafter
    unfold Condition.of?
    simp only [htrim]
    rw [dif_pos condition.nonempty]

/-- Stretches are calm when masked. -/
theorem Stretch.exists_segments (hvocabulary : vocabulary.KnowsTokens)
    (h : Stretch text condition?) :
    ∃ segs, Segmented vocabulary text segs
      ∧ ∀ number next, Break next → Calm (veil number segs) next := by
  cases h with
  | blanks htext =>
    refine ⟨plains text, segmented_plains (neutral_of_blanks htext), fun number next hnext => ?_⟩
    have hveil := veil_plains number text []
    rw [List.append_nil, veil_nil, List.append_nil] at hveil
    rw [hveil]
    exact calm_blanks htext hnext
  | @condition before after condition hbefore hcondition hafter =>
    obtain ⟨outline, houtline, hwords⟩ := hcondition
    obtain ⟨segs, htext, rfl, hplain, hsegments⟩ := houtline.exists_shown hvocabulary
    have hbody : Segmented vocabulary condition.text segs := by
      refine ⟨htext, fun hmem => (isPlain_iff.1 (hplain _ hmem)).2.1 rfl, fun b r => ?_⟩
      refine hsegments b r fun hglued => ?_
      cases hglued
    refine ⟨plains before ++ segs ++ plains after,
      ((segmented_plains (neutral_of_blanks hbefore)).append hbody).append
        (segmented_plains (neutral_of_blanks hafter)), fun number next hnext => ?_⟩
    have hveil : ∀ number, veil number (plains after) = after := fun number => by
      simpa using veil_plains number after []
    rw [veil_append, hveil]
    refine calm_append (calm_veil ?_ ?_ (break_append hafter hnext)) (calm_blanks hafter hnext)
    · intro c hc
      rcases List.mem_append.1 hc with hc | hc
      · obtain ⟨d, hd, heq⟩ := List.mem_map.1 hc
        obtain rfl := Segment.plain.inj heq
        exact (of_isBlank (Text.isBlank_of_mem hbefore hd)).2.2
      · exact (isPlain_iff.1 (hplain c hc)).2.2.2
    · intro front c back heq hc
      have hall := hwords.append_left hbefore
      rw [← map_outline_plains before, ← List.map_append, heq, List.map_append,
        List.map_cons] at hall
      exact hall.not_startsWord hc

-- =============================================================== chunks

/-- The text has these tokens, and between them stretches with these
conditions. -/
inductive Chunk : Text → List Connective → List Condition → Prop
  | last {text : Text} {condition? : Option Condition} (hstretch : Stretch text condition?) :
      Chunk text [] condition?.toList
  | more {text token rest : Text} {condition? : Option Condition} {connective : Connective}
      {connectives : List Connective} {conditions : List Condition}
      (hstretch : Stretch text condition?) (htoken : Token connective token)
      (hrest : Chunk rest connectives conditions) :
      Chunk (text ++ token ++ rest) (connective :: connectives)
        (condition?.toList ++ conditions)

namespace Expression

/-- The connectives and conditions of pieces. -/
def ofPieces (pieces : List Piece) : Expression :=
  ⟨pieces.filterMap Piece.connective, pieces.filterMap fun piece => piece.condition.map .leaf⟩

theorem ofPieces_cons (piece : Piece) (pieces : List Piece) :
    ofPieces (piece :: pieces)
      = ⟨piece.connective.toList ++ (ofPieces pieces).connectives,
          (piece.condition.map .leaf).toList ++ (ofPieces pieces).entries⟩ := by
  obtain ⟨connective, condition⟩ := piece
  cases connective <;> cases condition <;> rfl

end Expression

/-- What begins a piece: nothing, or a token that gives its connective. -/
inductive Head : Text → Option Connective → Prop
  | nothing : Head [] none
  | token {connective : Connective} {token : Text} (htoken : Token connective token) :
      Head token (some connective)

/-- A piece gives up its head, and its stretch is restored. -/
theorem Head.ofText_eq (hvocabulary : vocabulary.KnowsTokens) {head : Text}
    {connective? : Option Connective} (hhead : Head head connective?) {segs : List Segment}
    (hsegs : Segmented vocabulary text segs) {number : Nat} (hcalm : Calm (veil number segs) [])
    {masked : Masked} (hremoved : spans segs <+: masked.removed.drop number) :
    Piece.ofText vocabulary masked (head ++ veil number segs)
      = ⟨connective?, Condition.of? text⟩ := by
  have hrestore : masked.restore (veil number segs) = text := by
    rw [Masked.restore, restore_veil hsegs.no_brace hremoved, hsegs.text_eq]
  cases hhead with
  | nothing =>
    rw [List.nil_append, Piece.ofText, leading?_eq_none hvocabulary hcalm.noToken, hrestore]
  | token htoken =>
    rw [Piece.ofText, leading?_token hvocabulary htoken]
    simp only [hrestore]

theorem prefix_drop_of_append {α : Type} {front back list : List α} {number : Nat}
    (h : front ++ back <+: list.drop number) :
    front <+: list.drop number ∧ back <+: list.drop (number + front.length) := by
  obtain ⟨after, hafter⟩ := h
  refine ⟨⟨back ++ after, by rw [← hafter, List.append_assoc]⟩, ⟨after, ?_⟩⟩
  rw [← List.drop_drop, ← hafter, List.append_assoc, List.drop_left]

/-- The search finds the tokens of a chunk, and the pieces that begin with
them have its connectives and conditions. -/
theorem Chunk.exists_segments (hvocabulary : vocabulary.KnowsTokens)
    {connectives : List Connective} {conditions : List Condition}
    (h : Chunk text connectives conditions) :
    ∃ segs, Segmented vocabulary text segs
      ∧ ∀ number (masked : Masked), spans segs <+: masked.removed.drop number →
        ∀ before touching, ∃ pieces tail,
          vocabulary.connective.scan before 0 touching [] (veil number segs) = ⟨pieces, tail⟩
          ∧ ∀ head connective?, Head head connective? →
            Expression.ofPieces ((Pattern.cutPieces head pieces tail).map
                (Piece.ofText vocabulary masked))
              = ⟨connective?.toList ++ connectives, conditions.map .leaf⟩ := by
  induction h with
  | @last text condition? hstretch =>
    obtain ⟨segs, hsegs, hcalm⟩ := hstretch.exists_segments hvocabulary
    refine ⟨segs, hsegs, fun number masked hremoved before touching => ?_⟩
    have hquiet := hcalm number [] break_nil
    obtain ⟨before', touching', hscan⟩ := scan_calm hvocabulary hquiet before touching []
    rw [List.append_nil, List.append_nil, scan_nil hvocabulary, List.reverse_reverse] at hscan
    refine ⟨[], _, hscan, fun head connective? hhead => ?_⟩
    rw [Pattern.cutPieces, List.map_singleton, Expression.ofPieces_cons,
      hhead.ofText_eq hvocabulary hsegs hquiet hremoved, hstretch.of?_eq]
    cases condition? <;> simp [Expression.ofPieces]
  | @more text token rest condition? connective connectives conditions hstretch htoken _ ih =>
    obtain ⟨segs, hsegs, hcalm⟩ := hstretch.exists_segments hvocabulary
    obtain ⟨others, hothers, hrest⟩ := ih
    refine ⟨segs ++ plains token ++ others,
      (hsegs.append (segmented_plains htoken.neutral)).append hothers,
      fun number masked hremoved before touching => ?_⟩
    rw [List.append_assoc, spans_append, spans_append, spans_plains, List.nil_append] at hremoved
    obtain ⟨hfront, hback⟩ := prefix_drop_of_append hremoved
    -- the stretch is passed over, then the token is found
    obtain ⟨before₁, touching₁, hscan⟩ := scan_calm hvocabulary
      (hcalm number _ (htoken.break (veil (number + (spans segs).length) others)))
      before touching []
    obtain ⟨before₂, htokenScan⟩ := scan_token hvocabulary htoken before₁ touching₁
      ((veil number segs).reverse ++ []) (veil (number + (spans segs).length) others)
    obtain ⟨pieces, tail, hpieces, hread⟩ := hrest _ masked hback before₂ true
    rw [htokenScan, hpieces, List.append_nil, List.reverse_reverse] at hscan
    refine ⟨(veil number segs, token) :: pieces, tail, ?_, fun head connective? hhead => ?_⟩
    · rw [List.append_assoc, veil_append, veil_plains, hscan]
      rfl
    · rw [Pattern.cutPieces, List.map_cons, Expression.ofPieces_cons,
        hhead.ofText_eq hvocabulary hsegs (hcalm number [] break_nil) hfront,
        hread token (some connective) (.token htoken), hstretch.of?_eq]
      cases condition? <;> simp

/-- An empty first piece brings nothing, so it does not matter that none
is cut off in front of a match at the very start. -/
theorem ofPieces_cutBefore (hvocabulary : vocabulary.KnowsTokens) (masked : Masked)
    {pieces : List (Text × Text)} {tail : Text}
    (hfound : vocabulary.connective.occurrences text = ⟨pieces, tail⟩) :
    Expression.ofPieces ((vocabulary.connective.cutBefore text).map
        (Piece.ofText vocabulary masked))
      = Expression.ofPieces ((Pattern.cutPieces [] pieces tail).map
          (Piece.ofText vocabulary masked)) := by
  have hempty : Piece.ofText vocabulary masked [] = ⟨none, none⟩ := by
    rw [Piece.ofText, leading?_eq_none hvocabulary noToken_nil]
    rfl
  unfold Pattern.cutBefore
  rw [hfound]
  cases pieces with
  | nil => rfl
  | cons piece pieces =>
    obtain ⟨gap, matched⟩ := piece
    cases gap with
    | nil =>
      rw [Pattern.cutPieces, List.append_nil, List.map_cons, hempty, Expression.ofPieces_cons]
      rfl
    | cons c gap => rfl

/-- A chunk is read as what it holds. -/
theorem Chunk.ofChunk_eq (hvocabulary : vocabulary.KnowsTokens) {connectives : List Connective}
    {conditions : List Condition} (h : Chunk text connectives conditions) :
    Expression.ofChunk vocabulary text = ⟨connectives, conditions.map .leaf⟩ := by
  obtain ⟨segs, hsegs, hread⟩ := h.exists_segments hvocabulary
  have hsegments : segments vocabulary text = segs := by
    have hall := hsegs.segmentsFrom_eq [] []
    rw [List.append_nil, segmentsFrom, List.append_nil] at hall
    exact hall
  have hmask : mask vocabulary text = ⟨veil 0 segs, spans segs⟩ := by
    rw [mask, hsegments, ← removed_ofSegments 0 segs]
    rfl
  obtain ⟨pieces, tail, hfound, hpieces⟩ :=
    hread 0 (mask vocabulary text) (by rw [hmask]; exact List.prefix_rfl) none false
  have hofChunk : Expression.ofChunk vocabulary text
      = Expression.ofPieces ((vocabulary.connective.cutBefore (mask vocabulary text).text).map
          (Piece.ofText vocabulary (mask vocabulary text))) := rfl
  have hoccurrences : vocabulary.connective.occurrences (mask vocabulary text).text
      = ⟨pieces, tail⟩ := by
    rw [hmask]
    exact hfound
  rw [hofChunk, ofPieces_cutBefore hvocabulary _ hoccurrences, hpieces [] none .nothing]
  rfl

-- ================================================================ quiet

/-- The scanner for groups passes over blanks and tokens. -/
theorem quiet_of_neutral (htext : ∀ c ∈ text, isNeutral c = true ∧ c ≠ '\x7b') (before : Text) :
    Quiet vocabulary {} before text {} :=
  quiet_neutral (fun c hc => (htext c hc).1) 0 0 before

theorem Stretch.quiet (hvocabulary : vocabulary.KnowsTokens) (h : Stretch text condition?)
    (before : Text) : Quiet vocabulary {} before text {} := by
  cases h with
  | blanks htext => exact quiet_of_neutral (neutral_of_blanks htext) before
  | condition hbefore hcondition hafter =>
    obtain ⟨outline, houtline, -⟩ := hcondition
    refine ((quiet_of_neutral (neutral_of_blanks hbefore) before).append
      (houtline.quiet hvocabulary ?_)).append (quiet_of_neutral (neutral_of_blanks hafter) _)
    intro hglued
    cases hglued

/-- The scanner for groups passes over a chunk. -/
theorem Chunk.quiet (hvocabulary : vocabulary.KnowsTokens) {connectives : List Connective}
    {conditions : List Condition} (h : Chunk text connectives conditions) (before : Text) :
    Quiet vocabulary {} before text {} := by
  induction h generalizing before with
  | last hstretch => exact hstretch.quiet hvocabulary before
  | more hstretch htoken _ ih =>
    exact ((hstretch.quiet hvocabulary before).append (quiet_of_neutral htoken.neutral _)).append
      (ih _)

end ConditionTable
