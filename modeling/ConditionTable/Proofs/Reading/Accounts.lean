/-
An account of a whole text. Whatever the text, it can be divided into
blanks, single parentheses, tokens and conditions, so that the conditions
are those of the expression that is read of it, from left to right, and
the tokens are its connectives. So reading loses nothing but blanks and
parentheses, and neither repeats nor invents anything.

# The induction

Every step of reading has its account: a piece of a chunk is its token
and what trimming leaves of the rest, a chunk is its stretches
(`exists_accounts_ofChunk`), a level is its gaps, its groups and its tail
(`exists_accounts_ofLevel`), and stripping takes blanks and parentheses
(`exists_accounts_of_stripParens`). The levels are put together by
induction over what is left of a text. The connectives are counted by
level and the tokens from left to right, so these agree up to their
order.
-/
import ConditionTable.Proofs.Reading.Pieces
import ConditionTable.Proofs.Reading.Recursion

namespace ConditionTable

-- ========================================================== connectives

namespace Entry

mutual

/-- The connectives of all levels below an entry. -/
def allConnectives : Entry → List Connective
  | leaf _ => []
  | group connectives entries => connectives ++ allConnectivesAll entries

/-- The connectives of all levels below a list of entries. -/
def allConnectivesAll : List Entry → List Connective
  | [] => []
  | entry :: entries => entry.allConnectives ++ allConnectivesAll entries

end

theorem allConnectivesAll_append (front back : List Entry) :
    allConnectivesAll (front ++ back) = allConnectivesAll front ++ allConnectivesAll back := by
  induction front with
  | nil => rfl
  | cons entry front ih =>
    rw [List.cons_append, allConnectivesAll, ih, allConnectivesAll, List.append_assoc]

theorem leavesAll_append (front back : List Entry) :
    leavesAll (front ++ back) = leavesAll front ++ leavesAll back := by
  induction front with
  | nil => rfl
  | cons entry front ih => rw [List.cons_append, leavesAll, ih, leavesAll, List.append_assoc]

end Entry

namespace Expression

/-- The connectives of all levels. -/
def allConnectives (expression : Expression) : List Connective :=
  expression.connectives ++ Entry.allConnectivesAll expression.entries

theorem append_eq (left right : Expression) :
    left ++ right
      = ⟨left.connectives ++ right.connectives, left.entries ++ right.entries⟩ := rfl

theorem empty_append (expression : Expression) : empty ++ expression = expression := rfl

theorem append_empty (expression : Expression) : expression ++ empty = expression := by
  rw [append_eq]
  unfold empty
  rw [List.append_nil, List.append_nil]

theorem leaves_append (left right : Expression) :
    (left ++ right).leaves = left.leaves ++ right.leaves :=
  Entry.leavesAll_append left.entries right.entries

/-- The levels below come after both of two stretches of a level. -/
theorem allConnectives_append (left right : Expression) :
    (left ++ right).allConnectives.Perm (left.allConnectives ++ right.allConnectives) := by
  unfold allConnectives
  rw [append_eq, Entry.allConnectivesAll_append, List.append_assoc, List.append_assoc]
  apply List.Perm.append_left
  rw [← List.append_assoc, ← List.append_assoc]
  exact List.perm_append_comm.append_right _

end Expression

-- ================================================================ parts

/-- A part of a text, as reading accounts for it. -/
inductive Part
  | blanks (text : Text) (hblank : Text.isBlank text = true)
  | paren (c : Char) (hparen : c = '(' ∨ c = ')')
  | token (connective : Connective) (text : Text) (htoken : Token connective text)
  | leaf (condition : Condition)

namespace Part

/-- The text of a part. -/
def text : Part → Text
  | blanks text _ => text
  | paren c _ => [c]
  | token _ text _ => text
  | leaf condition => condition.text

/-- The condition that a part is. -/
def leaf? : Part → Option Condition
  | leaf condition => some condition
  | _ => none

/-- The connective that a part stands for. -/
def connective? : Part → Option Connective
  | token connective _ _ => some connective
  | _ => none

end Part

/-- The parts make up the text. The conditions among them are those of the
expression, and so are the connectives up to their order. -/
structure Accounts (parts : List Part) (text : Text) (expression : Expression) : Prop where
  text_eq : parts.flatMap Part.text = text
  leaves_eq : parts.filterMap Part.leaf? = expression.leaves
  connectives_perm : (parts.filterMap Part.connective?).Perm expression.allConnectives

namespace Accounts

variable {parts others : List Part} {text rest : Text} {expression level : Expression}

theorem append (h : Accounts parts text expression) (h' : Accounts others rest level) :
    Accounts (parts ++ others) (text ++ rest) (expression ++ level) := by
  refine ⟨?_, ?_, ?_⟩
  · rw [List.flatMap_append, h.text_eq, h'.text_eq]
  · rw [List.filterMap_append, h.leaves_eq, h'.leaves_eq, Expression.leaves_append]
  · rw [List.filterMap_append]
    exact (h.connectives_perm.append h'.connectives_perm).trans
      (Expression.allConnectives_append expression level).symm

theorem nil : Accounts [] [] .empty := ⟨rfl, rfl, .rfl⟩

/-- What stands for nothing may be put around. -/
theorem surround {front back : List Part} {before after : Text}
    (hfront : Accounts front before .empty) (h : Accounts parts text expression)
    (hback : Accounts back after .empty) :
    Accounts (front ++ parts ++ back) (before ++ text ++ after) expression := by
  have hall := (hfront.append h).append hback
  rwa [Expression.empty_append, Expression.append_empty] at hall

theorem blanks (hblank : Text.isBlank text = true) : Accounts [.blanks text hblank] text .empty :=
  ⟨List.append_nil text, rfl, .rfl⟩

theorem paren {c : Char} (hparen : c = '(' ∨ c = ')') :
    Accounts [.paren c hparen] [c] .empty := ⟨rfl, rfl, .rfl⟩

/-- A token or nothing accounts for what a piece begins with. -/
theorem head {head : Text} {connective? : Option Connective} (hhead : Head head connective?) :
    ∃ parts, Accounts parts head ⟨connective?.toList, []⟩ := by
  cases hhead with
  | nothing => exact ⟨[], nil⟩
  | @token connective token htoken =>
    exact ⟨[.token connective head htoken], List.append_nil head, rfl, .rfl⟩

/-- What trimming leaves accounts for the text of a condition. -/
theorem condition (text : Text) :
    ∃ parts, Accounts parts text ⟨[], ((Condition.of? text).map .leaf).toList⟩ := by
  obtain ⟨before, after, hbefore, hafter, htext⟩ := text.exists_trim
  by_cases hempty : text.trim = []
  · have hnone : Condition.of? text = none := dif_neg (not_not.2 hempty)
    have hblank : text.isBlank = true := by
      rw [htext, hempty, Text.isBlank_append, Text.isBlank_append, hbefore, hafter]
      rfl
    rw [hnone]
    exact ⟨_, blanks hblank⟩
  · have hsome : Condition.of? text = some ⟨text.trim, text.trim_trim, hempty⟩ := dif_pos hempty
    refine ⟨[.blanks before hbefore, .leaf ⟨text.trim, text.trim_trim, hempty⟩,
      .blanks after hafter], ?_, ?_, ?_⟩
    · conv_rhs => rw [htext]
      simp [Part.text]
    · rw [hsome]
      rfl
    · rw [hsome]
      rfl

/-- A piece is accounted for by what it begins with and its condition. -/
theorem piece {head : Text} {connective? : Option Connective} (hhead : Head head connective?)
    (text : Text) :
    ∃ parts, Accounts parts (head ++ text) (.ofPieces [⟨connective?, Condition.of? text⟩]) := by
  obtain ⟨front, hfront⟩ := Accounts.head hhead
  obtain ⟨back, hback⟩ := condition text
  refine ⟨front ++ back, ?_⟩
  have heq : Expression.ofPieces [⟨connective?, Condition.of? text⟩]
      = ⟨connective?.toList, []⟩ ++ ⟨[], ((Condition.of? text).map .leaf).toList⟩ := by
    rw [Expression.ofPieces_cons, Expression.append_eq]
    exact congrArg₂ _ rfl (List.append_nil _)
  rw [heq]
  exact hfront.append hback

/-- The parts of a level account for it as a group. -/
theorem group (h : Accounts parts text expression) :
    Accounts parts text ⟨[], [expression.toEntry]⟩ := by
  refine ⟨h.text_eq, ?_, ?_⟩
  · rw [h.leaves_eq]
    exact (List.append_nil _).symm
  · have heq : (⟨[], [expression.toEntry]⟩ : Expression).allConnectives
        = expression.allConnectives := List.append_nil _
    rw [heq]
    exact h.connectives_perm

end Accounts

-- =============================================================== chunks

variable {vocabulary : Vocabulary}

theorem Expression.ofPieces_append (front back : List Piece) :
    ofPieces (front ++ back) = ofPieces front ++ ofPieces back := by
  unfold ofPieces
  rw [List.filterMap_append, List.filterMap_append]
  rfl

/-- Each stretch of a chunk is accounted for by its piece. -/
theorem exists_accounts_of_stretches (hvocabulary : vocabulary.KnowsTokens)
    {stretches : List (List Segment)} (number : Nat) (hplain : .plain '\x7b' ∉ stretches.flatten) :
    ∃ pieces parts, Gives vocabulary number stretches pieces
      ∧ Accounts parts (stretches.flatten.flatMap Segment.text) (.ofPieces pieces) := by
  induction stretches generalizing number with
  | nil => exact ⟨[], [], gives_nil number, .nil⟩
  | cons stretch stretches ih =>
    rw [List.flatten_cons, List.mem_append, not_or] at hplain
    obtain ⟨head, connective?, body, hhead, rfl, hgives⟩ :=
      exists_gives_stretch hvocabulary number stretch
    have hbody : .plain '\x7b' ∉ body := fun hmem => hplain.1 (List.mem_append_right _ hmem)
    have hfirst := hgives body rfl hbody
    obtain ⟨front, hfront⟩ := Accounts.piece hhead (body.flatMap Segment.text)
    obtain ⟨pieces, back, hrest, hback⟩ :=
      ih (number + (spans [plains head ++ body].flatten).length) hplain.2
    refine ⟨_, front ++ back, hfirst.append hrest, ?_⟩
    rw [List.flatten_cons, List.flatMap_append, List.flatMap_append, text_plains,
      Expression.ofPieces_append]
    exact hfront.append hback

/-- The text between two groups is accounted for by what is read of it. -/
theorem exists_accounts_ofChunk (hvocabulary : vocabulary.KnowsTokens) (chunk : Text) :
    ∃ parts, Accounts parts chunk (.ofChunk vocabulary chunk) := by
  obtain ⟨stretches, hflatten, hcut⟩ := exists_stretches hvocabulary (segments vocabulary chunk)
  have hplain : .plain '\x7b' ∉ stretches.flatten := by
    rw [hflatten]
    exact no_brace_segments vocabulary chunk
  obtain ⟨pieces, parts, hgives, hparts⟩ := exists_accounts_of_stretches hvocabulary 0 hplain
  refine ⟨parts, ?_⟩
  rw [hgives.ofChunk_eq hflatten hcut]
  rw [hflatten, text_segments] at hparts
  exact hparts

-- =============================================================== levels

/-- What stripping takes away is blanks and parentheses. -/
theorem exists_accounts_of_stripParens {text : Text} {expression : Expression}
    (h : ∃ parts, Accounts parts (stripParens text) expression) :
    ∃ parts, Accounts parts text expression := by
  have htrim : ∀ text : Text, (∃ parts, Accounts parts text.trim expression)
      → ∃ parts, Accounts parts text expression := by
    intro text h
    obtain ⟨parts, hparts⟩ := h
    obtain ⟨before, after, hbefore, hafter, htext⟩ := text.exists_trim
    rw [htext]
    exact ⟨_, (Accounts.blanks hbefore).surround hparts (.blanks hafter)⟩
  fun_induction stripParens text with
  | case1 text hnone => exact htrim text h
  | case2 text inner hsome ih =>
    apply htrim
    obtain ⟨parts, hparts⟩ := ih h
    rw [(insideParens?_eq_some_iff.1 hsome).1]
    exact ⟨_, (Accounts.paren (.inl rfl)).surround hparts (.paren (.inr rfl))⟩

/-- A level is accounted for by its gaps, its groups and its tail. -/
theorem exists_accounts_ofLevel (hvocabulary : vocabulary.KnowsTokens) {read : Text → Expression}
    {pieces : List (Text × Text)} (tail : Text)
    (hgroups : ∀ piece ∈ pieces, ∃ parts, Accounts parts piece.2 (read piece.2)) :
    ∃ parts, Accounts parts (Division.mk pieces tail).text
      (.ofLevel vocabulary (pieces.map fun piece => (piece.1, read piece.2)) tail) := by
  induction pieces with
  | nil =>
    cases tail with
    | nil => exact ⟨[], .nil⟩
    | cons c tail => exact exists_accounts_ofChunk hvocabulary (c :: tail)
  | cons piece pieces ih =>
    obtain ⟨gap, group⟩ := piece
    obtain ⟨front, hfront⟩ := exists_accounts_ofChunk hvocabulary gap
    obtain ⟨middle, hmiddle⟩ := hgroups _ List.mem_cons_self
    obtain ⟨back, hback⟩ := ih fun piece hpiece => hgroups piece (List.mem_cons_of_mem _ hpiece)
    rw [Division.text_mk_cons, List.append_assoc]
    exact ⟨_, hfront.append (hmiddle.group.append hback)⟩

-- =============================================================== wholes

namespace Expression

theorem exists_accounts_ofText (hvocabulary : vocabulary.KnowsTokens) (text : Text) :
    ∃ parts, Accounts parts text (ofText vocabulary text) := by
  induction text using level_induction vocabulary with
  | level text ih =>
    apply exists_accounts_of_stripParens
    have hlevel := exists_accounts_ofLevel hvocabulary
      (divide vocabulary (stripParens text)).tail ih
    rw [← ofText_eq] at hlevel
    have htext := text_divide vocabulary (stripParens text)
    obtain ⟨parts, hparts⟩ := hlevel
    exact ⟨parts, htext ▸ hparts⟩

/-- Nothing of a text is lost, repeated or invented by reading it: it is
made up of blanks, parentheses, tokens and conditions, the conditions are
the leaves of its expression in order, and for each connective there are
as many tokens as the levels of the expression hold. -/
theorem exists_parts_ofText (text : Text) :
    ∃ parts : List Part, parts.flatMap Part.text = text
      ∧ parts.filterMap Part.leaf? = (ofText .standard text).leaves
      ∧ ∀ connective, (parts.filterMap Part.connective?).count connective
          = (ofText .standard text).allConnectives.count connective := by
  obtain ⟨parts, hparts⟩ := exists_accounts_ofText Vocabulary.knowsTokens_standard text
  exact ⟨parts, hparts.text_eq, hparts.leaves_eq, hparts.connectives_perm.count_eq⟩

end Expression

end ConditionTable
