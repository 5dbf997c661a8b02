/-
What becomes of a span. A masked text shows where its spans are but not
what they hold, so nothing that a span holds decides where the text is
cut or which connectives are found. A span comes into one piece, and what
a chunk gives depends on the span in the condition of that piece alone
(`exists_ofChunk_span`).
-/
import ConditionTable.Proofs.Reading.Accounts

namespace ConditionTable

variable {vocabulary : Vocabulary}

-- ================================================================ masks

/-- A masked text does not show what a span holds. -/
theorem veil_span_congr (number : Nat) (front back : List Segment) (span span' : Text) :
    veil number (front ++ .span span :: back) = veil number (front ++ .span span' :: back) := by
  rw [veil_append, veil_append, veil_span, veil_span]

/-- Nor do the masked texts of stretches. -/
theorem veils_span_congr (number : Nat) (before after : List (List Segment))
    (left right : List Segment) (span span' : Text) :
    veils number (before ++ (left ++ .span span :: right) :: after)
      = veils number (before ++ (left ++ .span span' :: right) :: after) := by
  have hspans : (spans (left ++ .span span :: right)).length
      = (spans (left ++ .span span' :: right)).length := by
    simp
  rw [veils_append, veils_append, veils, veils, veil_span_congr _ left right span span', hspans]

-- =============================================================== pieces

/-- Stretches give pieces whatever else has been masked. -/
theorem exists_gives (hvocabulary : vocabulary.KnowsTokens) (number : Nat)
    {stretches : List (List Segment)} (hplain : .plain '\x7b' ∉ stretches.flatten) :
    ∃ pieces, Gives vocabulary number stretches pieces := by
  obtain ⟨pieces, -, hgives, -⟩ := exists_accounts_of_stretches hvocabulary number hplain
  exact ⟨pieces, hgives⟩

/-- A stretch with a span gives up what lies before the span, and the
same whatever the span holds. -/
theorem exists_gives_span (hvocabulary : vocabulary.KnowsTokens) (number : Nat)
    {front back : List Segment} (hfront : .plain '\x7b' ∉ front) (hback : .plain '\x7b' ∉ back) :
    ∃ connective? before, before <:+ front.flatMap Segment.text
      ∧ ∀ span, Gives vocabulary number [front ++ .span span :: back]
          [⟨connective?, Condition.of? (before ++ (span ++ back.flatMap Segment.text))⟩] := by
  obtain ⟨head, connective?, body, -, hstretch, hgives⟩ :=
    exists_gives_stretch hvocabulary number (front ++ .span [] :: back)
  obtain ⟨middle, rfl, rfl⟩ :
      ∃ middle, front = plains head ++ middle ∧ body = middle ++ .span [] :: back := by
    rcases List.append_eq_append_iff.1 hstretch with h | h
    · obtain ⟨middle, hhead, hrest⟩ := h
      cases middle with
      | nil => exact ⟨[], by simpa using hhead.symm, by simpa using hrest.symm⟩
      | cons segment middle =>
        have hmem : Segment.span [] ∈ plains head := by
          rw [hhead, (List.cons.inj hrest).1]
          simp
        obtain ⟨c, -, hc⟩ := List.mem_map.1 hmem
        cases hc
    · exact h
  rw [List.mem_append, not_or] at hfront
  refine ⟨connective?, middle.flatMap Segment.text, ⟨head, ?_⟩, fun span => ?_⟩
  · rw [List.flatMap_append, text_plains]
  · have hplain : .plain '\x7b' ∉ middle ++ .span span :: back := by
      simp [hfront.2, hback]
    have hspan := hgives _ (veil_span_congr number middle back span []) hplain
    rw [List.flatMap_append, List.flatMap_cons] at hspan
    rw [List.append_assoc]
    exact hspan

/-- Lists that make up a list with a given element: one of them has it. -/
theorem exists_of_flatten_eq {α : Type} {lists : List (List α)} {front back : List α} {a : α}
    (h : lists.flatten = front ++ a :: back) :
    ∃ before left right after, lists = before ++ (left ++ a :: right) :: after
      ∧ front = before.flatten ++ left ∧ back = right ++ after.flatten := by
  induction lists generalizing front with
  | nil => simp at h
  | cons list lists ih =>
    rw [List.flatten_cons] at h
    rcases List.append_eq_append_iff.1 h with h | h
    · obtain ⟨middle, rfl, hrest⟩ := h
      obtain ⟨before, left, right, after, rfl, rfl, rfl⟩ := ih hrest
      exact ⟨list :: before, left, right, after, rfl, by simp, rfl⟩
    · obtain ⟨middle, rfl, hrest⟩ := h
      cases middle with
      | nil =>
        have hnil : lists.flatten = [] ++ a :: back := hrest.symm
        obtain ⟨before, left, right, after, rfl, hfront, rfl⟩ := ih hnil
        refine ⟨(front ++ []) :: before, left, right, after, rfl, ?_, rfl⟩
        rw [List.flatten_cons, List.append_assoc, ← hfront, List.append_nil, List.append_nil]
      | cons b middle =>
        obtain ⟨rfl, rfl⟩ := List.cons.inj hrest
        exact ⟨[], front, middle, lists, rfl, rfl, rfl⟩

-- =============================================================== chunks

/-- What is read of a chunk with a span depends on the span in one
condition alone, which holds the span with some of the text around it. -/
theorem exists_ofChunk_span (hvocabulary : vocabulary.KnowsTokens) {front back : List Segment}
    (hfront : .plain '\x7b' ∉ front) (hback : .plain '\x7b' ∉ back) :
    ∃ pieces connective? before after pieces', before <:+ front.flatMap Segment.text
      ∧ after <+: back.flatMap Segment.text
      ∧ ∀ chunk span, segments vocabulary chunk = front ++ .span span :: back →
          Expression.ofChunk vocabulary chunk = .ofPieces
            (pieces ++ ⟨connective?, Condition.of? (before ++ (span ++ after))⟩ :: pieces') := by
  obtain ⟨stretches, hflatten, hcut⟩ := exists_stretches hvocabulary (front ++ .span [] :: back)
  obtain ⟨others, left, right, others', rfl, rfl, rfl⟩ := exists_of_flatten_eq hflatten
  rw [List.mem_append, not_or] at hfront hback
  obtain ⟨pieces, hpieces⟩ := exists_gives hvocabulary 0 hfront.1
  obtain ⟨connective?, before, hbefore, hspan⟩ :=
    exists_gives_span hvocabulary (0 + (spans others.flatten).length) hfront.2 hback.1
  obtain ⟨pieces', hpieces'⟩ := exists_gives hvocabulary
    (0 + (spans others.flatten).length + (spans (left ++ .span [] :: right)).length) hback.2
  refine ⟨pieces, connective?, before, right.flatMap Segment.text, pieces', ?_, ?_, ?_⟩
  · rw [List.flatMap_append]
    exact hbefore.trans (List.suffix_append _ _)
  · rw [List.flatMap_append]
    exact List.prefix_append _ _
  · intro chunk span hsegs
    have hsame : (others ++ (left ++ .span span :: right) :: others').flatten
        = segments vocabulary chunk := by
      rw [hsegs]
      simp
    have hveils : vocabulary.connective.cutBefore (veil 0 (segments vocabulary chunk))
        = veils 0 (others ++ (left ++ .span span :: right) :: others') := by
      rw [hsegs, veil_span_congr 0 _ _ span [], hcut, veils_span_congr 0 _ _ _ _ span []]
    have hlength : (spans [left ++ .span span :: right].flatten).length
        = (spans (left ++ .span [] :: right)).length := by
      simp
    rw [← hlength] at hpieces'
    exact (hpieces.append ((hspan span).append hpieces')).ofChunk_eq hsame hveils

/-- A text with a firm part holds a condition with that part. -/
theorem Condition.exists_of?_eq {text : Text} (hstart : text.FirmStart) (hend : text.FirmEnd)
    (before after : Text) :
    ∃ condition, of? (before ++ (text ++ after)) = some condition
      ∧ condition.text = before.trimStart ++ (text ++ after.trimEnd) := by
  have htrim := Text.trim_append_firm hstart hend before after
  have hne : (before ++ (text ++ after)).trim ≠ [] := by
    obtain ⟨c, rest, heq, -⟩ := hstart
    rw [htrim, heq]
    simp
  exact ⟨_, dif_pos hne, htrim⟩

end ConditionTable
