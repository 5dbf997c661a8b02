/-
Where a masked text is cut. Masking shows a segment either as itself or as
a placeholder, and a placeholder has neither blanks nor signs, so a place
where a token begins lies between two segments (`exists_veil_append`).
The cuts are such places. The pieces of a masked text are therefore
stretches of its segments, masked (`exists_stretches`), and a stretch gives
up at most a token of plain characters in front (`exists_gives_stretch`).
Nothing is said here about which stretches these are: any text may stand
between tokens.
-/
import ConditionTable.Proofs.Writing.Chunks

namespace ConditionTable

variable {vocabulary : Vocabulary} {segs : List Segment} {number : Nat}

-- ============================================================= segments

/-- A brace always begins a span. -/
theorem no_brace_segmentsFrom (vocabulary : Vocabulary) (scan : SpanScan) (before text : Text) :
    .plain '\x7b' ∉ segmentsFrom vocabulary scan before text := by
  fun_induction segmentsFrom vocabulary scan before text with
  | case1 => simp
  | case2 => simp
  | case3 before escaped c rest hbegins ih => exact ih
  | case4 before escaped c rest hbegins ih =>
    rw [List.mem_cons, not_or]
    refine ⟨?_, ih⟩
    intro heq
    obtain rfl := Segment.plain.inj heq
    exact hbegins rfl
  | case5 => simp_all
  | case6 => simp_all

theorem no_brace_segments (vocabulary : Vocabulary) (text : Text) :
    .plain '\x7b' ∉ segments vocabulary text :=
  no_brace_segmentsFrom vocabulary _ _ text

theorem mask_eq (vocabulary : Vocabulary) (text : Text) :
    mask vocabulary text
      = ⟨veil 0 (segments vocabulary text), spans (segments vocabulary text)⟩ := by
  rw [← removed_ofSegments 0]
  rfl

-- ================================================================= cuts

/-- A sign or a blank of a masked text is a segment, and the text before
it is the masked text of the segments before it. -/
theorem exists_veil_append {front rest : Text} {c : Char} (hc : isBlank c = true ∨ c ∈ signs)
    (h : veil number segs = front ++ c :: rest) :
    ∃ left right, segs = left ++ right ∧ front = veil number left
      ∧ c :: rest = veil (number + (spans left).length) right := by
  induction segs generalizing number front with
  | nil => simp at h
  | cons segment segs ih =>
    cases segment with
    | plain d =>
      cases front with
      | nil => exact ⟨[], _, rfl, rfl, h.symm⟩
      | cons e front =>
        rw [veil_plain, List.cons_append] at h
        obtain ⟨rfl, hrest⟩ := List.cons.inj h
        obtain ⟨left, right, rfl, rfl, hright⟩ := ih hrest
        exact ⟨.plain d :: left, right, rfl, rfl, hright⟩
    | span text =>
      have hnot : c ∉ placeholder number := by
        intro hmem
        obtain ⟨hblank, hsign⟩ := of_mem_placeholder hmem
        rcases hc with hc | hc
        · rw [hblank] at hc
          cases hc
        · exact hsign hc
      rw [veil_span, List.append_eq_append_iff] at h
      rcases h with h | h
      · obtain ⟨front, rfl, hrest⟩ := h
        obtain ⟨left, right, rfl, rfl, hright⟩ := ih hrest
        refine ⟨.span text :: left, right, rfl, rfl, ?_⟩
        rw [hright, spans_span, List.length_cons, Nat.add_assoc, Nat.add_comm 1]
      · obtain ⟨middle, hmiddle, hrest⟩ := h
        cases middle with
        | nil =>
          refine ⟨[.span text], segs, rfl, ?_, hrest⟩
          rw [veil_span, veil_nil, hmiddle, List.append_nil, List.append_nil]
        | cons d middle =>
          rw [← (List.cons.inj hrest).1] at hmiddle
          apply absurd _ hnot
          rw [hmiddle]
          exact List.mem_append_right _ List.mem_cons_self

/-- A masked text that begins with characters other than braces has them
as segments. -/
theorem exists_plains {text rest : Text} (htext : ∀ c ∈ text, c ≠ '\x7b')
    (h : veil number segs = text ++ rest) :
    ∃ others, segs = plains text ++ others ∧ rest = veil number others := by
  induction text generalizing segs with
  | nil => exact ⟨segs, rfl, h.symm⟩
  | cons c text ih =>
    cases segs with
    | nil => cases h
    | cons segment segs =>
      cases segment with
      | plain d =>
        rw [veil_plain, List.cons_append] at h
        obtain ⟨rfl, hrest⟩ := List.cons.inj h
        obtain ⟨others, rfl, hothers⟩ := ih (fun e he => htext e (List.mem_cons_of_mem _ he)) hrest
        exact ⟨others, rfl, hothers⟩
      | span span =>
        rw [veil_span] at h
        exact absurd (List.cons.inj h).1.symm (htext c List.mem_cons_self)

/-- At each place the search finds the token that begins there, if one
does. -/
theorem matchAt?_connective_cases (hvocabulary : vocabulary.KnowsTokens) (before : Option Char)
    (text : Text) :
    vocabulary.connective.matchAt? before text = none
      ∨ ∃ connective token rest, Token connective token ∧ text = token ++ rest
        ∧ (vocabulary.connective.matchAt? before text).map Attempt.offset = some token.length := by
  by_cases h : NoToken text
  · exact .inl (matchAt?_connective_eq_none hvocabulary h before)
  · unfold NoToken at h
    push Not at h
    obtain ⟨connective, token, rest, htoken, rfl⟩ := h
    exact .inr ⟨connective, token, rest, htoken, rfl, matchAt?_connective hvocabulary htoken before⟩

/-- What the search finds is a token. -/
theorem exists_token_of_mem_scan (hvocabulary : vocabulary.KnowsTokens) (before : Option Char)
    (skip : Nat) (touching : Bool) (gap text : Text) :
    ∀ piece ∈ (vocabulary.connective.scan before skip touching gap text).pieces,
      ∃ connective, Token connective piece.2 := by
  induction text generalizing before skip touching gap with
  | nil =>
    rw [Pattern.scan, matchAt?_connective_eq_none hvocabulary noToken_nil]
    simp
  | cons c text ih =>
    cases skip with
    | succ skip => exact ih (some c) skip touching gap
    | zero =>
      rw [Pattern.scan]
      rcases matchAt?_connective_cases hvocabulary before (c :: text) with hnone | htoken
      · rw [hnone]
        exact ih (some c) 0 false (c :: gap)
      · obtain ⟨connective, token, rest, htoken, heq, hmatch⟩ := htoken
        obtain ⟨d, left, rfl⟩ := htoken.exists_cons
        rw [hmatch, List.length_cons]
        intro piece hpiece
        rcases List.mem_cons.1 hpiece with rfl | hpiece
        · refine ⟨connective, ?_⟩
          rw [heq, List.cons_append, List.take_succ_cons, List.take_left]
          exact htoken
        · exact ih (some c) left.length true [] piece hpiece

/-- The masked texts of consecutive stretches of segments. -/
def veils (number : Nat) : List (List Segment) → List Text
  | [] => []
  | segs :: rest => veil number segs :: veils (number + (spans segs).length) rest

/-- Pieces that begin with tokens are stretches of segments. -/
theorem exists_veils_of_cutPieces {head tail : Text} {pieces : List (Text × Text)}
    (hpieces : ∀ piece ∈ pieces, ∃ connective, Token connective piece.2)
    (h : veil number segs = head ++ (Pattern.Occurrences.mk pieces tail).text) :
    ∃ stretches : List (List Segment), stretches.flatten = segs
      ∧ Pattern.cutPieces head pieces tail = veils number stretches := by
  induction pieces generalizing head number segs with
  | nil =>
    refine ⟨[segs], by simp, ?_⟩
    rw [Pattern.cutPieces, veils, h]
    rfl
  | cons piece pieces ih =>
    obtain ⟨gap, matched⟩ := piece
    obtain ⟨connective, htoken⟩ := hpieces _ List.mem_cons_self
    obtain ⟨c, left, rfl⟩ := htoken.exists_cons
    have hc : isBlank c = true ∨ c ∈ signs := htoken.break [] c rfl
    rw [Pattern.Occurrences.text_mk_cons, List.append_assoc, ← List.append_assoc head,
      List.cons_append] at h
    obtain ⟨front, back, rfl, hfront, hback⟩ := exists_veil_append hc h
    have hrest : veil (number + (spans front).length) back
        = (c :: left) ++ (Pattern.Occurrences.mk pieces tail).text := hback.symm
    obtain ⟨stretches, rfl, hcut⟩ :=
      ih (fun piece hpiece => hpieces piece (List.mem_cons_of_mem _ hpiece)) hrest
    refine ⟨front :: stretches, rfl, ?_⟩
    rw [Pattern.cutPieces, hcut, hfront]
    rfl

/-- The pieces that a masked text is cut into are stretches of its
segments. -/
theorem exists_stretches (hvocabulary : vocabulary.KnowsTokens) (segs : List Segment) :
    ∃ stretches : List (List Segment), stretches.flatten = segs
      ∧ vocabulary.connective.cutBefore (veil 0 segs) = veils 0 stretches := by
  have htext := Pattern.text_occurrences vocabulary.connective (veil 0 segs)
  have htokens : ∀ piece ∈ (vocabulary.connective.occurrences (veil 0 segs)).pieces,
      ∃ connective, Token connective piece.2 :=
    exists_token_of_mem_scan hvocabulary none 0 false [] _
  unfold Pattern.cutBefore
  split
  · next matched pieces tail heq =>
    rw [heq] at htext htokens
    have hlater := fun piece hpiece => htokens piece (List.mem_cons_of_mem _ hpiece)
    apply exists_veils_of_cutPieces hlater
    rw [← htext, Pattern.Occurrences.text_mk_cons]
    rfl
  · next pieces tail heq =>
    rw [heq] at htext htokens
    exact exists_veils_of_cutPieces htokens htext.symm

-- =============================================================== pieces

/-- The stretches, numbered from `number` on, give these pieces, whatever
else has been masked with them. -/
def Gives (vocabulary : Vocabulary) (number : Nat) (stretches : List (List Segment))
    (pieces : List Piece) : Prop :=
  ∀ masked : Masked, spans stretches.flatten <+: masked.removed.drop number →
    (veils number stretches).map (Piece.ofText vocabulary masked) = pieces

theorem gives_nil (number : Nat) : Gives vocabulary number [] [] := fun _ _ => rfl

theorem veils_append (number : Nat) (front back : List (List Segment)) :
    veils number (front ++ back)
      = veils number front ++ veils (number + (spans front.flatten).length) back := by
  induction front generalizing number with
  | nil => rfl
  | cons stretch front ih =>
    rw [List.cons_append, veils, ih, veils, List.flatten_cons, spans_append, List.length_append,
      Nat.add_assoc, List.cons_append]

theorem Gives.append {front back : List (List Segment)} {pieces pieces' : List Piece}
    (hfront : Gives vocabulary number front pieces)
    (hback : Gives vocabulary (number + (spans front.flatten).length) back pieces') :
    Gives vocabulary number (front ++ back) (pieces ++ pieces') := by
  intro masked hremoved
  rw [List.flatten_append, spans_append] at hremoved
  obtain ⟨hfirst, hrest⟩ := prefix_drop_of_append hremoved
  rw [veils_append, List.map_append, hfront masked hfirst, hback masked hrest]

/-- A stretch begins with nothing or with a token, and gives up what it
begins with. This depends on its masked text alone. -/
theorem exists_gives_stretch (hvocabulary : vocabulary.KnowsTokens) (number : Nat)
    (stretch : List Segment) :
    ∃ head connective? body, Head head connective? ∧ stretch = plains head ++ body
      ∧ ∀ other, veil number other = veil number body → .plain '\x7b' ∉ other →
          Gives vocabulary number [plains head ++ other]
            [⟨connective?, Condition.of? (other.flatMap Segment.text)⟩] := by
  have hspans : ∀ head other, spans [plains head ++ other].flatten = spans other := by
    intro head other
    rw [List.flatten_singleton, spans_append, spans_plains, List.nil_append]
  by_cases hfirst : NoToken (veil number stretch)
  · refine ⟨[], none, stretch, .nothing, rfl, fun other hveil hplain masked hremoved => ?_⟩
    rw [hspans] at hremoved
    have hrestore : masked.restore (veil number other) = other.flatMap Segment.text :=
      restore_veil hplain hremoved
    show [Piece.ofText vocabulary masked (veil number other)] = _
    rw [← hrestore, Piece.ofText, hveil, leading?_eq_none hvocabulary hfirst]
  · unfold NoToken at hfirst
    push Not at hfirst
    obtain ⟨connective, token, rest, htoken, hveil⟩ := hfirst
    obtain ⟨body, rfl, rfl⟩ := exists_plains (fun c hc => (htoken.neutral c hc).2) hveil
    refine ⟨token, some connective, body, .token htoken, rfl,
      fun other _ hplain masked hremoved => ?_⟩
    rw [hspans] at hremoved
    have hrestore : masked.restore (veil number other) = other.flatMap Segment.text :=
      restore_veil hplain hremoved
    show [Piece.ofText vocabulary masked (veil number (plains token ++ other))] = _
    rw [veil_plains, Piece.ofText, leading?_token hvocabulary htoken]
    simp only [hrestore]

/-- A chunk is read as the pieces that its stretches give. -/
theorem Gives.ofChunk_eq {chunk : Text} {stretches : List (List Segment)} {pieces : List Piece}
    (h : Gives vocabulary 0 stretches pieces)
    (hflatten : stretches.flatten = segments vocabulary chunk)
    (hcut : vocabulary.connective.cutBefore (veil 0 (segments vocabulary chunk))
      = veils 0 stretches) :
    Expression.ofChunk vocabulary chunk = .ofPieces pieces := by
  have hremoved : spans stretches.flatten <+: (mask vocabulary chunk).removed.drop 0 := by
    rw [hflatten, mask_eq]
    exact List.prefix_rfl
  rw [← h _ hremoved, ← hcut, mask_eq]
  unfold Expression.ofChunk piecesOf
  rw [mask_eq]
  rfl

end ConditionTable
