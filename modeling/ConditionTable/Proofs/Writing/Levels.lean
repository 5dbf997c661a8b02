/-
What written levels look like from outside: they are balanced, and they
begin and end with characters that are not blank (`Solid`). So trimming
and stripping parentheses take exactly the blanks and pairs around a
level away (`stripParens_wrapped`). They take no more, for a level that
begins with a group has something after it, and a single condition does
not begin with a parenthesis.
-/
import ConditionTable.Proofs.Source.Spans
import ConditionTable.Proofs.Writing.Calm

namespace ConditionTable

-- ============================================================= balanced

variable {text : Text}

theorem Balanced.append {front back : Text} (hfront : Balanced front) (hback : Balanced back) :
    Balanced (front ++ back) := by
  induction hfront with
  | nil => exact hback
  | sign hc _ ih => exact .sign hc ih
  | @literal quote content rest hquote hcontent _ ih =>
    rw [List.append_assoc]
    exact .literal hquote hcontent ih
  | @parens inner rest hinner _ _ ih =>
    rw [List.append_assoc]
    exact .parens hinner ih

theorem balanced_neutral (htext : ∀ c ∈ text, isNeutral c = true) : Balanced text := by
  induction text with
  | nil => exact .nil
  | cons c text ih =>
    exact .sign (htext c List.mem_cons_self) (ih fun d hd => htext d (List.mem_cons_of_mem _ hd))

theorem balanced_blanks (htext : Text.isBlank text = true) : Balanced text :=
  balanced_neutral fun _ hc => (of_isBlank (Text.isBlank_of_mem htext hc)).1

theorem Outline.balanced {glued : Bool} {outline : Text} (h : Outline glued text outline) :
    Balanced text := by
  induction h with
  | nil => exact .nil
  | sign hc _ ih => exact .sign (isPlain_iff.1 hc).1 ih
  | literal hquote hcontent _ ih => exact .literal hquote hcontent ih
  | call hinner _ ih => exact .parens hinner ih

-- ================================================================ solid

/-- The text is balanced and has no blanks at its ends. -/
structure Solid (text : Text) : Prop where
  balanced : Balanced text
  start : Text.FirmStart text
  stop : Text.FirmEnd text

/-- A balanced text in parentheses. -/
theorem solid_parens {inner : Text} (hinner : Balanced inner) : Solid ('(' :: inner ++ [')']) :=
  ⟨.parens hinner .nil, ⟨'(', inner ++ [')'], rfl, by decide⟩, ⟨'(' :: inner, ')', rfl, by decide⟩⟩

theorem solid_condition {condition : Condition} (h : condition.Writable) :
    Solid condition.text := by
  obtain ⟨outline, houtline, -⟩ := h
  exact ⟨houtline.balanced, Text.firmStart_of_trim_eq condition.trimmed condition.nonempty,
    Text.firmEnd_of_trim_eq condition.trimmed condition.nonempty⟩

/-- What lies in parentheses is balanced. -/
theorem Wrapped.exists_inner {level : Text} (hlevel : Balanced level) {pairs : Nat}
    (h : Wrapped level (pairs + 1) text) :
    ∃ inner, text = '(' :: inner ++ [')'] ∧ Balanced inner := by
  induction pairs generalizing text with
  | zero =>
    obtain ⟨before, inner, after, hbefore, rfl, hafter, rfl⟩ := h
    exact ⟨before ++ inner ++ after, rfl,
      ((balanced_blanks hbefore).append hlevel).append (balanced_blanks hafter)⟩
  | succ pairs ih =>
    obtain ⟨before, inner, after, hbefore, hinner, hafter, rfl⟩ := h
    obtain ⟨inner', rfl, hinner'⟩ := ih hinner
    exact ⟨_, rfl, ((balanced_blanks hbefore).append (solid_parens hinner').balanced).append
      (balanced_blanks hafter)⟩

theorem Wrapped.solid {level : Text} (hlevel : Solid level) {pairs : Nat}
    (h : Wrapped level pairs text) : Solid text := by
  cases pairs with
  | zero =>
    obtain rfl : text = level := h
    exact hlevel
  | succ pairs =>
    obtain ⟨inner, rfl, hinner⟩ := h.exists_inner hlevel.balanced
    exact solid_parens hinner

theorem Joins.balanced {connective : Connective} (h : Joins connective text) : Balanced text := by
  obtain ⟨before, token, after, hbefore, htoken, hafter, rfl⟩ := h
  have hbalanced : Balanced token := balanced_neutral fun c hc => (htoken.neutral c hc).1
  exact ((balanced_blanks hbefore).append hbalanced).append (balanced_blanks hafter)

namespace Entry

mutual

theorem solid_of_written : (entry : Entry) → {text : Text} → entry.Written text → Solid text
  | leaf condition, text, h => by
      rw [Written] at h
      obtain ⟨hcondition, rfl⟩ := h
      exact solid_condition hcondition
  | group connectives entries, text, h => by
      rw [Written] at h
      obtain ⟨level, pairs, hlevel, hwrapped⟩ := h
      exact hwrapped.solid (solid_of_levelWritten entries hlevel)

theorem solid_of_levelWritten : (entries : List Entry) → {connectives : List Connective} →
    {text : Text} → LevelWritten connectives entries text → Solid text
  | [], _, text, h => by
      rw [LevelWritten] at h
      exact h.elim
  | entry :: entries, _, text, h => by
      rw [LevelWritten] at h
      obtain ⟨-, first, rest, hfirst, hrest, rfl⟩ := h
      obtain ⟨hbalanced, hstart, hstop⟩ := solid_of_written entry hfirst
      obtain ⟨hbalanced', hstop'⟩ := balanced_of_restWritten entries hrest
      refine ⟨hbalanced.append hbalanced', hstart.append rest, ?_⟩
      rcases hstop' with rfl | hstop'
      · rw [List.append_nil]
        exact hstop
      · exact hstop'.append first

theorem balanced_of_restWritten : (entries : List Entry) → {connectives : List Connective} →
    {text : Text} → RestWritten connectives entries text →
      Balanced text ∧ (text = [] ∨ Text.FirmEnd text)
  | [], _, text, h => by
      rw [RestWritten] at h
      obtain ⟨-, rfl⟩ := h
      exact ⟨.nil, .inl rfl⟩
  | entry :: entries, _, text, h => by
      rw [RestWritten] at h
      obtain ⟨connective, others, joint, written, rest, rfl, hjoint, hwritten, hrest, rfl⟩ := h
      obtain ⟨hbalanced, -, hstop⟩ := solid_of_written entry hwritten
      obtain ⟨hbalanced', hstop'⟩ := balanced_of_restWritten entries hrest
      refine ⟨(hjoint.balanced.append hbalanced).append hbalanced', .inr ?_⟩
      rcases hstop' with rfl | hstop'
      · rw [List.append_nil]
        exact hstop.append joint
      · exact hstop'.append (joint ++ written)

end

/-- The level of an entry that is a group lies in parentheses. -/
theorem exists_inner_of_written {connectives : List Connective} {entries : List Entry}
    (h : (group connectives entries).Written text) :
    ∃ inner, text = '(' :: inner ++ [')'] ∧ Balanced inner := by
  rw [Written] at h
  obtain ⟨level, pairs, hlevel, hwrapped⟩ := h
  exact hwrapped.exists_inner (solid_of_levelWritten entries hlevel).balanced

end Entry

-- ============================================================ stripping

/-- A condition does not begin with a parenthesis, for nothing stands
before it that this could be the arguments of. -/
theorem insideParens?_condition {condition : Condition} (h : condition.Writable) (rest : Text) :
    insideParens? (condition.text ++ rest) = none := by
  obtain ⟨outline, houtline, -⟩ := h
  obtain ⟨c, text, heq⟩ := List.exists_cons_of_ne_nil condition.nonempty
  have hc : c ≠ '(' := by
    rw [heq] at houtline
    cases houtline with
    | sign hc _ => exact (isNeutral_iff.1 (isPlain_iff.1 hc).1).2.1
    | literal hquote _ _ => exact (ne_of_isQuote hquote).1
  rw [heq, List.cons_append]
  unfold insideParens?
  split
  · next heq' => exact absurd (List.cons.inj heq').1 hc
  · rfl

theorem Joins.ne_nil {connective : Connective} (h : Joins connective text) : text ≠ [] := by
  obtain ⟨before, token, after, -, htoken, -, rfl⟩ := h
  obtain ⟨c, rest, rfl⟩ := htoken.exists_cons
  simp

/-- The pair that a level begins with, if any, does not go around all of
it. -/
theorem Entry.insideParens?_of_levelWritten {connectives : List Connective}
    {entries : List Entry} (h : LevelWritten connectives entries text) :
    insideParens? text = none := by
  cases entries with
  | nil =>
    rw [LevelWritten] at h
    exact h.elim
  | cons entry entries =>
    rw [LevelWritten] at h
    obtain ⟨hsingle, first, rest, hfirst, hrest, rfl⟩ := h
    cases entry with
    | leaf condition =>
      rw [Written] at hfirst
      obtain ⟨hcondition, rfl⟩ := hfirst
      exact insideParens?_condition hcondition rest
    | group connectives' entries' =>
      obtain ⟨inner, rfl, hinner⟩ := exists_inner_of_written hfirst
      rw [List.append_assoc, List.singleton_append]
      refine insideParens?_eq_none hinner ?_
      cases entries with
      | nil =>
        obtain ⟨condition, hleaf⟩ := hsingle rfl
        cases hleaf
      | cons entry entries =>
        rw [RestWritten] at hrest
        obtain ⟨connective, others, joint, written, left, -, hjoint, -, -, rfl⟩ := hrest
        simp [hjoint.ne_nil]

/-- Trimming and stripping take all blanks and pairs away that are around
a level. -/
theorem stripParens_wrapped {level : Text} (hlevel : Solid level)
    (hinside : insideParens? level = none) {pairs : Nat} (h : Wrapped level pairs text)
    {before after : Text} (hbefore : Text.isBlank before = true)
    (hafter : Text.isBlank after = true) : stripParens (before ++ text ++ after) = level := by
  have hsolid := h.solid hlevel
  have htrim := Text.trim_surround hbefore hsolid.start hsolid.stop hafter
  induction pairs generalizing text before after with
  | zero =>
    obtain rfl : text = level := h
    rw [stripParens_of_eq_none, htrim]
    rw [htrim, hinside]
  | succ pairs ih =>
    obtain ⟨front, inner, back, hfront, hinner, hback, rfl⟩ := h
    have hbalanced := ((balanced_blanks hfront).append (hinner.solid hlevel).balanced).append
      (balanced_blanks hback)
    have hsolid' := hinner.solid hlevel
    have hinside' : insideParens? (before ++ ('(' :: (front ++ inner ++ back) ++ [')']) ++ after).trim
        = some (front ++ inner ++ back) := by
      rw [htrim, insideParens?_eq_some hbalanced]
    rw [stripParens_of_eq_some hinside']
    exact ih hinner hfront hback hsolid'
      (Text.trim_surround hfront hsolid'.start hsolid'.stop hback)

end ConditionTable
