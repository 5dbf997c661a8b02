/-
A row looked up as a dictionary. The dictionary goes by the texts of the
columns, and a text that stands for several columns has the value of the
last of them (`get?_ofColumns`). So a row that is looked up gives every
column its value exactly if columns of equal text agree in it
(`row?_gives_each_iff`). As conditions are told apart by their place only,
they need not agree, and then a column is lost
(`exists_row?_lost_column`).
-/
import ConditionTable.Analysis.Lookup
import ConditionTable.Proofs.Analysis.Columns
import Mathlib.Data.List.Induction

namespace ConditionTable

-- ========================================================= dictionaries

namespace Dictionary

variable {text key : Text} {value : Option Bool} {dictionary : Dictionary}
  {columns : List (Text × Option Bool)}

theorem get?_cons : get? ((text, value) :: dictionary) key
    = if key = text then some value else dictionary.get? key := by
  rw [get?, List.lookup_cons]
  by_cases hkey : key = text
  · rw [beq_iff_eq.2 hkey, if_pos hkey]
  · rw [beq_eq_false_iff_ne.2 hkey, if_neg hkey]
    rfl

/-- What is set is found, and nothing else changes. -/
theorem get?_set : (set text value dictionary).get? key
    = if key = text then some value else dictionary.get? key := by
  induction dictionary with
  | nil => exact get?_cons
  | cons entry dictionary ih =>
    obtain ⟨name, old⟩ := entry
    rw [set]
    by_cases hname : name = text
    · subst hname
      rw [if_pos (beq_self_eq_true name), get?_cons, get?_cons]
      by_cases hkey : key = name <;> simp [hkey]
    · rw [if_neg (by simpa using hname), get?_cons, ih, get?_cons]
      by_cases hkey : key = name
      · simp [hkey, hname]
      · simp [hkey]

/-- Setting a text adds it to the texts if it is new. -/
theorem map_fst_set : (set text value dictionary).map Prod.fst
    = if text ∈ dictionary.map Prod.fst then dictionary.map Prod.fst
      else dictionary.map Prod.fst ++ [text] := by
  induction dictionary with
  | nil => rfl
  | cons entry dictionary ih =>
    obtain ⟨name, old⟩ := entry
    rw [set]
    by_cases hname : name = text
    · subst hname
      simp
    · rw [if_neg (by simpa using hname), List.map_cons, ih]
      by_cases hmem : text ∈ dictionary.map Prod.fst <;> simp [hmem, Ne.symm hname]

theorem get?_foldl_set (columns : List (Text × Option Bool)) (dictionary : Dictionary) :
    (columns.foldl (fun dictionary (text, value) => set text value dictionary) dictionary).get? key
      = (columns.reverse.lookup key).or (dictionary.get? key) := by
  induction columns generalizing dictionary with
  | nil => rfl
  | cons column columns ih =>
    obtain ⟨text, value⟩ := column
    have hlast : List.lookup key [(text, value)] = if key = text then some value else none :=
      get?_cons
    rw [List.foldl_cons, ih, get?_set, List.reverse_cons, List.lookup_append, Option.or_assoc,
      hlast]
    by_cases hkey : key = text <;> simp [hkey]

/-- A text has the value of the last column that it stands for. -/
theorem get?_ofColumns : (ofColumns columns).get? key = columns.reverse.lookup key := by
  rw [ofColumns, get?_foldl_set]
  exact Option.or_none

/-- The texts of a dictionary are those of its columns, each of them
once. -/
theorem map_fst_ofColumns :
    ((ofColumns columns).map Prod.fst).Nodup
      ∧ ∀ text, text ∈ (ofColumns columns).map Prod.fst ↔ text ∈ columns.map Prod.fst := by
  induction columns using List.reverseRecOn with
  | nil => simp [ofColumns]
  | append_singleton columns column ih =>
    obtain ⟨hnodup, hmem⟩ := ih
    have hset : ofColumns (columns ++ [column]) = set column.1 column.2 (ofColumns columns) := by
      rw [ofColumns, List.foldl_append]
      rfl
    rw [hset, map_fst_set]
    split
    · next hold =>
      refine ⟨hnodup, fun text => ?_⟩
      rw [hmem, List.map_append, List.mem_append, List.map_singleton, List.mem_singleton]
      refine ⟨.inl, fun h => h.elim id ?_⟩
      rintro rfl
      exact (hmem _).1 hold
    · next hnew =>
      refine ⟨hnodup.append (List.nodup_singleton _) (by simpa using hnew), fun text => ?_⟩
      rw [List.mem_append, hmem, List.map_append, List.mem_append, List.map_singleton]

/-- The last of several columns with the same text. -/
theorem exists_last_of_lookup {texts : List Text} {values : List (Option Bool)}
    (hlength : texts.length = values.length) {place : Nat} (hplace : texts[place]? = some key) :
    ∃ (last : Nat) (value : Option Bool), texts[last]? = some key ∧ values[last]? = some value
      ∧ (∀ later > last, texts[later]? ≠ some key)
      ∧ (texts.zip values).reverse.lookup key = some value := by
  induction texts using List.reverseRecOn generalizing values place with
  | nil => simp at hplace
  | append_singleton texts text ih =>
    obtain ⟨values, value, rfl⟩ : ∃ front last, values = front ++ [last] := by
      refine (List.eq_nil_or_concat values).resolve_left ?_ |>.imp fun front => ?_
      · rintro rfl
        simp at hlength
      · exact fun ⟨last, h⟩ => ⟨last, by rw [h, List.concat_eq_append]⟩
    replace hlength : texts.length = values.length := by simpa using hlength
    rw [List.zip_append hlength, List.reverse_append]
    by_cases hkey : key = text
    · subst hkey
      refine ⟨texts.length, value, by simp, by simp [hlength], fun later hlater => ?_, by simp⟩
      rw [List.getElem?_eq_none (by simpa using Nat.succ_le_of_lt hlater)]
      exact (Option.some_ne_none _).symm
    · have hinside : texts[place]? = some key := by
        rcases Nat.lt_trichotomy place texts.length with hless | heq | hmore
        · rwa [List.getElem?_append_left hless] at hplace
        · subst heq
          simp [Ne.symm hkey] at hplace
        · rw [List.getElem?_eq_none (by simpa using Nat.succ_le_of_lt hmore)] at hplace
          cases hplace
      obtain ⟨last, found, htext, hvalue, hlast, hlookup⟩ := ih hlength hinside
      have hless : last < texts.length := (List.getElem?_eq_some_iff.1 htext).1
      refine ⟨last, found, ?_, ?_, fun later hlater => ?_, ?_⟩
      · rwa [List.getElem?_append_left hless]
      · rwa [List.getElem?_append_left (hlength ▸ hless)]
      · rcases Nat.lt_or_ge later texts.length with hinner | hend
        · rw [List.getElem?_append_left hinner]
          exact hlast later hlater
        · rw [List.getElem?_append_right hend]
          intro heq
          have hmem := List.mem_of_getElem? heq
          exact hkey (List.mem_singleton.1 hmem)
      · exact (get?_cons.trans (if_neg hkey)).trans hlookup

end Dictionary

-- ================================================================= rows

theorem Cell.outcome?_injective : Function.Injective Cell.outcome? := by
  intro cell other h
  cases cell <;> cases other <;> first | rfl | cases h

namespace Analysis

variable {analyzer : Analyzer} {raw : Text} {analysis : Analysis} {outcome : Bool} {index : Nat}
  {row : Row}

/-- A row of a successful analysis has a cell for each text. -/
theorem length_leafTexts_eq (h : (analyzer.analyze raw).1 = .ok analysis)
    (hrow : (analysis.rows outcome)[index]? = some row) :
    analysis.leafTexts.length = row.length := by
  have hmem := List.mem_of_getElem? hrow
  rw [rows_eq_of_analyze h] at hmem
  rw [leafTexts_eq, List.length_map, Expression.length_sites]
  exact (Expression.length_of_mem_expand hmem).symm

/-- A row that is looked up gives each text the value of the last of its
columns, and has no other text. It gives every column its own value exactly
if columns of equal text agree in this row. -/
theorem row?_gives_each_iff (h : (analyzer.analyze raw).1 = .ok analysis)
    (hrow : (analysis.rows outcome)[index]? = some row) :
    ∃ dictionary, analysis.row? outcome index = some dictionary
      ∧ (dictionary.map Prod.fst).Nodup
      ∧ (∀ text, text ∈ dictionary.map Prod.fst ↔ text ∈ analysis.leafTexts)
      ∧ (∀ (place : Nat) (text : Text), analysis.leafTexts[place]? = some text →
          ∃ (last : Nat) (cell : Cell), analysis.leafTexts[last]? = some text ∧ row[last]? = some cell
            ∧ (∀ later > last, analysis.leafTexts[later]? ≠ some text)
            ∧ dictionary.get? text = some cell.outcome?)
      ∧ ((∀ (place : Nat) (text : Text) (cell : Cell), analysis.leafTexts[place]? = some text →
            row[place]? = some cell → dictionary.get? text = some cell.outcome?)
          ↔ ∀ place other : Nat, analysis.leafTexts[place]? = analysis.leafTexts[other]? →
              row[place]? = row[other]?) := by
  have hlength := length_leafTexts_eq h hrow
  have hvalues : analysis.leafTexts.length = (row.map Cell.outcome?).length := by
    rw [hlength, List.length_map]
  obtain ⟨dictionary, hdictionary⟩ :
      ∃ dictionary,
        dictionary = Dictionary.ofColumns (analysis.leafTexts.zip (row.map Cell.outcome?)) := ⟨_, rfl⟩
  obtain ⟨hnodup, htexts⟩ := hdictionary ▸ Dictionary.map_fst_ofColumns
  rw [List.map_fst_zip (Nat.le_of_eq hvalues)] at htexts
  have hlast : ∀ (place : Nat) (text : Text), analysis.leafTexts[place]? = some text →
      ∃ (last : Nat) (cell : Cell), analysis.leafTexts[last]? = some text ∧ row[last]? = some cell
        ∧ (∀ later > last, analysis.leafTexts[later]? ≠ some text)
        ∧ dictionary.get? text = some cell.outcome? := by
    intro place text hplace
    obtain ⟨last, value, htext, hvalue, hlater, hlookup⟩ :=
      Dictionary.exists_last_of_lookup hvalues hplace
    rw [List.getElem?_map, Option.map_eq_some_iff] at hvalue
    obtain ⟨cell, hcell, rfl⟩ := hvalue
    refine ⟨last, cell, htext, hcell, hlater, ?_⟩
    rw [hdictionary, Dictionary.get?_ofColumns, hlookup]
  refine ⟨dictionary, ?_, hnodup, htexts, hlast, fun hgives place other hsame => ?_,
    fun hagree place text cell htext hcell => ?_⟩
  · rw [row?, hrow, hdictionary]
    rfl
  · cases htext : analysis.leafTexts[place]? with
    | none =>
      -- neither place is a column
      have hplace := List.getElem?_eq_none_iff.1 htext
      have hother := List.getElem?_eq_none_iff.1 (hsame.symm.trans htext)
      rw [List.getElem?_eq_none (hlength ▸ hplace), List.getElem?_eq_none (hlength ▸ hother)]
    | some text =>
      have hcell : ∀ {place}, analysis.leafTexts[place]? = some text →
          ∃ cell, row[place]? = some cell := fun {place} hplace =>
        ⟨_, List.getElem?_eq_getElem (hlength ▸ (List.getElem?_eq_some_iff.1 hplace).1)⟩
      have hother := hsame.symm.trans htext
      obtain ⟨cell, hcellAt⟩ := hcell htext
      obtain ⟨cell', hcellAt'⟩ := hcell hother
      have hvalue := (hgives place text cell htext hcellAt).symm.trans
        (hgives other text cell' hother hcellAt')
      rw [hcellAt, hcellAt', Cell.outcome?_injective (Option.some.inj hvalue)]
  · obtain ⟨last, found, hlastText, hfound, -, hget⟩ := hlast place text htext
    have hsame := hagree last place (hlastText.trans htext.symm)
    rw [hfound, hcell] at hsame
    rw [hget, Option.some.inj hsame]

/-- Two columns of equal text that agree in one row. -/
theorem row?_gives_each_iff_of_agreeing :
    ∃ analyzer analysis dictionary, Analyzer.ofSettings .standard = .ok analyzer
      ∧ (analyzer.analyze "a || (b && a)".toList).1 = .ok analysis
      ∧ (analysis.rows false)[1]? = some [.fails, .free, .fails]
      ∧ analysis.row? false 1 = some dictionary
      ∧ dictionary.get? "a".toList = some (some false)
      ∧ dictionary.get? "b".toList = some none := by
  obtain ⟨analyzer, hanalyzer, hany⟩ := exists_ok_of_any (Analyzer.ofSettings .standard)
    (fun analyzer => (analyzer.analyze "a || (b && a)".toList).1.toOption.any fun analysis =>
        analysis.leafTexts == ["a".toList, "b".toList, "a".toList]
        && (analysis.rows false)[1]? == some [.fails, .free, .fails])
    (by decide +kernel)
  obtain ⟨analysis, hanalysis, hcheck⟩ := exists_ok_of_any _ _ hany
  rw [Bool.and_eq_true, beq_iff_eq, beq_iff_eq] at hcheck
  obtain ⟨htexts, hrow⟩ := hcheck
  obtain ⟨dictionary, hdictionary, -, -, -, hgives⟩ := row?_gives_each_iff hanalysis hrow
  have hagree : ∀ place other : Nat, analysis.leafTexts[place]? = analysis.leafTexts[other]? →
      [Cell.fails, .free, .fails][place]? = [Cell.fails, .free, .fails][other]? := by
    rw [htexts]
    rintro (_ | _ | _ | place) (_ | _ | _ | other) <;> simp
  have hvalue := hgives.2 hagree
  exact ⟨analyzer, analysis, dictionary, hanalyzer, hanalysis, hrow, hdictionary,
    hvalue 0 _ _ (by rw [htexts]; rfl) rfl, hvalue 1 _ _ (by rw [htexts]; rfl) rfl⟩

/-- The first of two columns of equal text holds, and its value is lost. -/
theorem exists_row?_lost_column :
    ∃ analyzer analysis dictionary, Analyzer.ofSettings .standard = .ok analyzer
      ∧ (analyzer.analyze "a || a".toList).1 = .ok analysis
      ∧ (analysis.rows true)[0]? = some [.holds, .free]
      ∧ analysis.row? true 0 = some dictionary
      ∧ analysis.leafTexts[0]? = some "a".toList
      ∧ dictionary.get? "a".toList ≠ some (Cell.outcome? .holds) := by
  obtain ⟨analyzer, hanalyzer, hany⟩ := exists_ok_of_any (Analyzer.ofSettings .standard)
    (fun analyzer => (analyzer.analyze "a || a".toList).1.toOption.any fun analysis =>
        (analysis.rows true)[0]? == some [.holds, .free]
        && analysis.row? true 0 == some [("a".toList, none)]
        && analysis.leafTexts[0]? == some "a".toList)
    (by decide +kernel)
  obtain ⟨analysis, hanalysis, hcheck⟩ := exists_ok_of_any _ _ hany
  simp only [Bool.and_eq_true, beq_iff_eq] at hcheck
  obtain ⟨⟨hrow, hdictionary⟩, htext⟩ := hcheck
  exact ⟨analyzer, analysis, _, hanalyzer, hanalysis, hrow, hdictionary, htext, by decide⟩

end Analysis

end ConditionTable
