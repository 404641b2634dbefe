import Mathlib
import Rebind.Proofs.Layout.WhiteSpace
import Rebind.Proofs.Text.Order

/-!
# The passes over lines

Three steps of the layout go over the lines of a file one by one: white space is set right, the
imports at the top are sorted, and fields are indented.  `layLines` is the three of them, and
`lines_layLines` says what they do to the lines: with `tidy` for the first step on one line,

* the lines up to the first one that is neither blank nor an import are tidied and sorted;
* the lines from there on are tidied and indented, and stay where they are.

None of the steps undoes what another has done: an indented line is `TidyLine`, and it has the
trimmed text that it had before, by which imports, blank lines and fields are told apart
(`trim_indentField`).  So the lines of a result are laid out already (`layLines_layLines`), and
`layLines_permutes` says what has become of the lines.
-/

namespace Rebind

open List

/-! ## white space -/

theorem replaceAll_char (x : Char) (new t : Text) :
    replaceAll [x] new t = t.flatMap (fun c => if c = x then new else [c]) := by
  have hfrom : ∀ done, replaceFrom [x] new done 0 t
      = done.reverse ++ t.flatMap (fun c => if c = x then new else [c]) := by
    induction t with
    | nil => simp [replaceFrom]
    | cons c t ih =>
      intro done
      by_cases hc : c = x
      · subst hc
        simp [replaceFrom, ih]
      · simp [replaceFrom, ih, hc, Ne.symm hc]
  exact hfrom []

def untab (t : Text) : Text := t.flatMap (fun c => if c = '\t' then "    " else [c])

def tidy (l : Text) : Text := trimRight (untab l)

/-- a line without tabs and without white space behind -/
structure TidyLine (l : Text) : Prop where
  no_tab : '\t' ∉ l
  trimmed : trimRight l = l

theorem trimRight_trimRight (t : Text) : trimRight (trimRight t) = trimRight t := by
  rw [trimRight, trimRight, reverse_reverse, dropWhile_idempotent]

theorem tab_notMem_untab (t : Text) : '\t' ∉ untab t := by
  intro h
  obtain ⟨c, -, hc⟩ := mem_flatMap.mp h
  split_ifs at hc with htab
  · exact absurd hc (by decide)
  · exact htab (mem_singleton.mp hc).symm

theorem tidy_tidied (l : Text) : TidyLine (tidy l) where
  no_tab h := tab_notMem_untab l ((trimRight_isPrefix _).subset h)
  trimmed := trimRight_trimRight _

theorem TidyLine.tidy_eq {l : Text} (h : TidyLine l) : tidy l = l := by
  have hsame : untab l = l := by
    have heach : ∀ c ∈ l, (if c = '\t' then "    ".toList else [c]) = [c] := fun c hc => by
      rw [if_neg]
      rintro rfl
      exact h.no_tab hc
    rw [untab, flatMap_congr heach]
    simp
  rw [tidy, hsame, h.trimmed]

theorem visible_tidy (l : Text) : visible (tidy l) = visible l := by
  have huntab : visible (untab l) = visible l := by
    induction l with
    | nil => rfl
    | cons c l ih =>
      have hstep : untab (c :: l) = (if c = '\t' then "    ".toList else [c]) ++ untab l := rfl
      have hcons : visible (c :: l) = visible [c] ++ visible l := visible_append [c] l
      rw [hstep, visible_append, ih, hcons]
      split_ifs with htab
      · subst htab
        rfl
      · rfl
  rw [tidy, visible_trimRight, huntab]

theorem lines_flatMap {f : Char → Text} (hnewline : f '\n' = ['\n']) (hflat : ∀ c, c ≠ '\n'
    → '\n' ∉ f c) (t : Text) : lines (t.flatMap f) = (lines t).map (·.flatMap f) := by
  induction t with
  | nil => rfl
  | cons c t ih =>
    obtain ⟨l, ls, hls⟩ := exists_cons_of_ne_nil (lines_ne_nil t)
    rw [hls, map_cons] at ih
    rw [flatMap_cons, lines_cons, hls]
    by_cases hc : c = '\n'
    · subst hc
      rw [hnewline, singleton_append, lines_cons, ih]
      simp [consLine]
    · rw [lines_eq_splitAll, splitAll_append_left (hflat c hc) ih]
      simp [consLine, hc]

theorem lines_normalizeSpace (code : Text) :
    lines (normalizeSpace code) = (lines code).map tidy := by
  have htabs : replaceAll "\t" "    " code = untab code := replaceAll_char '\t' "    " code
  have hlines : lines (untab code) = (lines code).map untab :=
    lines_flatMap (by decide) (fun c hc => by split_ifs <;> simp [Ne.symm hc]) code
  rw [normalizeSpace, htabs, hlines, lines_unlines (by simp [lines_ne_nil])]
  · rw [map_map]
    rfl
  · intro l hl hm
    obtain ⟨l', hl', rfl⟩ := mem_map.mp hl
    rw [← hlines] at hl'
    exact not_mem_of_mem_lines hl' ((trimRight_isPrefix l').subset hm)

/-! ## imports -/

theorem sortLines_perm (ls : List Text) : (sortLines ls).Perm ls := mergeSort_perm ..

theorem pairwise_sortLines (ls : List Text) :
    (sortLines ls).Pairwise (fun a b => textLe (trim a) (trim b) = true) := by
  apply pairwise_mergeSort
  · intro a b c
    exact textLe_trans
  · intro a b
    rw [Bool.or_eq_true]
    exact textLe_total _ _

theorem sortLines_sortLines (ls : List Text) : sortLines (sortLines ls) = sortLines ls :=
  mergeSort_of_pairwise (pairwise_sortLines ls)

theorem lines_sortImports (code : Text) : lines (sortImports code)
    = sortLines ((lines code).takeWhile isImportLine) ++ (lines code).dropWhile isImportLine := by
  have hperm : (sortLines ((lines code).takeWhile isImportLine)
    ++ (lines code).dropWhile isImportLine).Perm
      (lines code) := by
    have h := (sortLines_perm ((lines code).takeWhile isImportLine)).append_right
      ((lines code).dropWhile isImportLine)
    rwa [takeWhile_append_dropWhile] at h
  rw [sortImports, lines_unlines]
  · intro hnil
    rw [hnil] at hperm
    exact lines_ne_nil code hperm.nil_eq.symm
  · exact fun l hl => not_mem_of_mem_lines (hperm.subset hl)

/-! ## fields -/

theorem indentField_cases (l : Text) : indentField l = l
    ∨ isFieldLine l = true ∧ indentField l = "    ".toList ++ trimLeft l := by
  unfold indentField
  split
  · next h => exact .inr ⟨(Bool.and_eq_true_iff.mp h).1, rfl⟩
  · exact .inl rfl

theorem four_blank : ∀ c ∈ "    ".toList, isBlank c :=
  all_eq_true.mp (by decide : "    ".toList.all isBlank)

/-- an indented line has the trimmed text that it had -/
theorem trim_indentField (l : Text) : trim (indentField l) = trim l := by
  rcases indentField_cases l with h | ⟨-, h⟩
  · rw [h]
  · rw [h, trim_blanks_append four_blank, trim, trim, trimLeft, trimLeft, dropWhile_idempotent]

theorem isImportLine_indentField (l : Text) : isImportLine (indentField l) = isImportLine l := by
  unfold isImportLine
  rw [trim_indentField]

theorem visible_indentField (l : Text) : visible (indentField l) = visible l := by
  rw [← visible_trim, trim_indentField, visible_trim]

theorem indentField_indentField (l : Text) : indentField (indentField l) = indentField l := by
  rcases indentField_cases l with h | ⟨-, h⟩
  · rw [h, h]
  · have hfour : "    ".toList.isPrefixOf (indentField l) := by
      rw [h, isPrefixOf_iff_prefix]
      exact prefix_append _ _
    generalize indentField l = l' at hfour
    rw [indentField, hfour]
    simp

theorem isFieldLine_blank {l : Text} (h : trim l = []) : isFieldLine l = false := by
  unfold isFieldLine
  rw [h]
  rfl

theorem indentField_of_import {l : Text} (h : isImportLine l) : indentField l = l := by
  have hnot : isFieldLine l = false := by
    rcases Bool.or_eq_true_iff.mp h with h | h
    · exact isFieldLine_blank (isEmpty_iff.mp h)
    · have hstart : nonFieldStarts.any (·.isPrefixOf (trim l)) = true :=
        any_eq_true.mpr ⟨"import ", by decide, h⟩
      obtain ⟨r, hr⟩ := isPrefixOf_iff_prefix.mp h
      have hmark : "@BindView".toList.isPrefixOf (trim l) = false := by
        rw [← hr]
        rfl
      unfold isFieldLine
      simp only [hstart, hmark, Bool.not_true, Bool.and_false, Bool.or_false]
  rw [indentField, hnot]
  rfl

theorem trimRight_eq_self_iff {t : Text} : trimRight t = t ↔ ∀ c, t.getLast? = some c
    → isBlank c = false := by
  rw [trimRight, reverse_eq_iff, dropWhile_eq_self_iff]
  rcases eq_nil_or_concat t with rfl | ⟨front, x, rfl⟩
  · simp
  · simp

theorem TidyLine.indentField {l : Text} (h : TidyLine l) : TidyLine (indentField l) := by
  rcases indentField_cases l with hl | ⟨hfield, hl⟩
  · rwa [hl]
  · rw [hl]
    have hne : trimLeft l ≠ [] := fun hnil => by
      rw [isFieldLine_blank (by rw [trim, hnil]; rfl)] at hfield
      cases hfield
    refine ⟨fun hm => ?_, ?_⟩
    · rcases mem_append.mp hm with hm | hm
      · exact absurd hm (by decide)
      · exact h.no_tab ((trimLeft_isSuffix l).subset hm)
    · obtain ⟨u, hu⟩ := trimLeft_isSuffix l
      have hlast := trimRight_eq_self_iff.mp h.trimmed
      rw [← hu, getLast?_append_of_ne_nil _ hne] at hlast
      rw [trimRight_eq_self_iff, getLast?_append_of_ne_nil _ hne]
      exact hlast

theorem lines_indentFields (code : Text) :
    lines (indentFields code) = (lines code).map indentField := by
  rw [indentFields, lines_unlines (by simp [lines_ne_nil])]
  intro l hl hm
  obtain ⟨l', hl', rfl⟩ := mem_map.mp hl
  have hflat := not_mem_of_mem_lines hl'
  rcases indentField_cases l' with h | ⟨-, h⟩
  · exact hflat (h ▸ hm)
  · rw [h, mem_append] at hm
    rcases hm with hm | hm
    · exact absurd hm (by decide)
    · exact hflat ((trimLeft_isSuffix l').subset hm)

/-! ## all three passes -/

def layLines (code : Text) : Text := indentFields (sortImports (normalizeSpace code))

def sectionEnd (code : Text) : Nat :=
  (lines (normalizeSpace code)).findIdx (fun l => !isImportLine l)

def laidOut (ls : List Text) : List Text :=
  sortLines (ls.takeWhile isImportLine) ++ (ls.dropWhile isImportLine).map indentField

section
variable {ls : List Text}

theorem isImportLine_of_mem_sorted {l : Text} (h : l ∈ sortLines (ls.takeWhile isImportLine)) :
    isImportLine l := mem_takeWhile_imp ((sortLines_perm _).subset h)

theorem lines_layLines (code : Text) : lines (layLines code) = laidOut ((lines code).map tidy) := by
  have hkept : ∀ ls : List Text, (sortLines (ls.takeWhile isImportLine)).map indentField
      = sortLines (ls.takeWhile isImportLine) := fun ls => by
    rw [map_congr_left (fun l hl => indentField_of_import (isImportLine_of_mem_sorted hl)), map_id']
  rw [layLines, lines_indentFields, lines_sortImports, lines_normalizeSpace, map_append, hkept]
  rfl

theorem tidy_of_mem_laidOut (h : ∀ l ∈ ls, TidyLine l) : ∀ l ∈ laidOut ls, TidyLine l := by
  intro l hl
  rcases mem_append.mp hl with hl | hl
  · exact h l (takeWhile_subset _ ((sortLines_perm _).subset hl))
  · obtain ⟨l', hl', rfl⟩ := mem_map.mp hl
    exact (h l' ((dropWhile_suffix _).subset hl')).indentField

theorem dropWhile_indented (ls : List Text) :
    ((ls.dropWhile isImportLine).map indentField).dropWhile isImportLine
    = (ls.dropWhile isImportLine).map indentField := by
  have hsame : isImportLine ∘ indentField = isImportLine := funext isImportLine_indentField
  rw [dropWhile_map, hsame, dropWhile_idempotent]

theorem laidOut_laidOut (ls : List Text) : laidOut (laidOut ls) = laidOut ls := by
  have hfront : ∀ l ∈ sortLines (ls.takeWhile isImportLine), isImportLine l :=
    fun l hl => isImportLine_of_mem_sorted hl
  have hdrop : (laidOut ls).dropWhile isImportLine
      = (ls.dropWhile isImportLine).map indentField := by
    rw [laidOut, dropWhile_append_of_pos hfront, dropWhile_indented]
  have htake : (laidOut ls).takeWhile isImportLine = sortLines (ls.takeWhile isImportLine) := by
    have hsplit := takeWhile_append_dropWhile (p := isImportLine) (l := laidOut ls)
    rw [hdrop] at hsplit
    exact append_cancel_right hsplit
  rw [laidOut, htake, hdrop, sortLines_sortLines, map_map]
  refine congrArg _ (map_congr_left (fun l _ => indentField_indentField l))

theorem visible_laidOut (ls : List Text) : (laidOut ls).map visible
    = (sortLines (ls.takeWhile isImportLine)).map visible
      ++ (ls.dropWhile isImportLine).map visible := by
  rw [laidOut, map_append, map_map]
  refine congrArg _ (map_congr_left (fun l _ => visible_indentField l))

theorem visible_laidOut_perm (ls : List Text) :
    ((laidOut ls).map visible).Perm (ls.map visible) := by
  have hsplit : ls.map visible
      = (ls.takeWhile isImportLine).map visible ++ (ls.dropWhile isImportLine).map visible := by
    rw [← map_append, takeWhile_append_dropWhile]
  rw [visible_laidOut, hsplit]
  exact ((sortLines_perm _).map _).append_right _

theorem length_section (ls : List Text) : (sortLines (ls.takeWhile isImportLine)).length
    = ls.findIdx (fun l => !isImportLine l) := by
  rw [(sortLines_perm _).length_eq, takeWhile_eq_take_findIdx_not, length_take,
    min_eq_left findIdx_le_length]

end

/-- lines that are laid out are left alone -/
theorem layLines_layLines (code : Text) : layLines (layLines code) = layLines code := by
  have htidy : ∀ l ∈ (lines code).map tidy, TidyLine l := fun l hl => by
    obtain ⟨l', -, rfl⟩ := mem_map.mp hl
    exact tidy_tidied l'
  have hstays : (lines (layLines code)).map tidy = lines (layLines code) := by
    rw [lines_layLines]
    exact (map_congr_left (fun l hl => (tidy_of_mem_laidOut htidy l hl).tidy_eq)).trans (map_id _)
  have hagain : lines (layLines (layLines code)) = lines (layLines code) := by
    rw [lines_layLines (layLines code), hstays, lines_layLines, laidOut_laidOut]
  rw [← unlines_lines (layLines (layLines code)), hagain, unlines_lines]

/-- the passes over lines are an idempotent permutation of what the lines show: they keep the number
of lines and the place of every line from the end of the imports on, and the lines in front of it
are in order -/
theorem layLines_permutes (code : Text) :
    layLines (layLines code) = layLines code
    ∧ (lines (layLines code)).length = (lines code).length
    ∧ ((lines (layLines code)).map visible).Perm ((lines code).map visible)
    ∧ ((lines (layLines code)).map visible).drop (sectionEnd code)
      = ((lines code).map visible).drop (sectionEnd code)
    ∧ (((lines (layLines code)).take (sectionEnd code)).map trim).Pairwise (· ≤ ·) := by
  have hshown : ((lines code).map tidy).map visible = (lines code).map visible := by
    rw [map_map]
    exact map_congr_left (fun l _ => visible_tidy l)
  have hend : sectionEnd code = ((lines code).map tidy).findIdx (fun l => !isImportLine l) := by
    rw [sectionEnd, lines_normalizeSpace]
  have hperm : ((lines (layLines code)).map visible).Perm ((lines code).map visible) := by
    rw [lines_layLines, ← hshown]
    exact visible_laidOut_perm _
  refine ⟨layLines_layLines code, ?_, hperm, ?_, ?_⟩
  · simpa only [length_map] using hperm.length_eq
  · rw [lines_layLines, hend, ← hshown]
    rw [visible_laidOut, drop_left' (by rw [length_map, length_section]),
      dropWhile_eq_drop_findIdx_not, map_drop]
  · rw [lines_layLines, hend, laidOut, take_left' (length_section _), pairwise_map]
    exact (pairwise_sortLines _).imp (fun h => not_lt.mp (textLe_iff.mp h))

end Rebind
