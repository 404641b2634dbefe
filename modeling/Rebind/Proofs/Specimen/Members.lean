import Mathlib
import Rebind.Proofs.Findings.ViewParameters
import Rebind.Proofs.Migration.OriginLines
import Rebind.Proofs.Source.LineSpans
import Rebind.Specimen.Source

/-!
# Numbered fields are read back

Specimen texts are put together from numbered pieces, on lines of their own.  What is found in such
a text, and where, follows from what each piece holds:

* `lines_numbered`: the lines of the pieces before one of them come first, then its own;
* `map_findAll_unlines`: pieces with one match each, and without comments, are read one by one;
* `lineWith_numbered`: a text is found on the first line of a piece, if no piece before holds it.

So the fields of `bindViews` are read back as `field` lists them (`detect_fields`).  A line that
belongs to a smaller number never holds the resource of a larger one, though numerals may begin with
each other (`le_of_numbered`).
-/

namespace Rebind

open List

namespace Specimen

open Pattern

variable {x : Char} {i n : Nat} {a t w : Text}

/-! ## names and numbers -/

theorem word_natText (hw : w.all isWord = true) (i : Nat) : word.Covers (w ++ natText i) := by
  refine covers_word.mpr ⟨by simp [natText, Nat.toDigits_ne_nil], fun c hc => ?_⟩
  rcases mem_append.mp hc with hc | hc
  · exact all_eq_true.mp hw c hc
  · exact isWord_of_mem_natText hc

theorem covers_all {ok : Char → Bool} (hne : t ≠ []) (h : t.all ok) : (run1 ok).Covers t :=
  covers_run1.mpr ⟨hne, all_eq_true.mp h⟩

theorem prefers_resource (r2 : Bool) (hw : w.all isWord) (i : Nat) {r : Text}
    (hr : StopsRun isWord r) : resourceId.Prefers (resource r2 w i) [] r := by
  have hname : word.Prefers (w ++ '_' :: natText i) [] r := by
    have hall : (w ++ ['_']).all isWord := by
      rw [all_append, hw]
      exact isWord_underscore
    have hcovers := word_natText hall i
    rw [append_assoc] at hcovers
    exact prefers_run1 hcovers hr
  have htwo : (Pattern.maybe (lit "2")).Prefers (if r2 then ['2'] else []) []
      (".id." ++ (w ++ '_' :: natText i) ++ r) := by
    cases r2 with
    | true => exact (prefers_text ['2'] _).maybe
    | false =>
      refine prefers_missing ?_
      rintro ⟨_, t, h, rfl⟩
      cases h
  have hall := (prefers_text "R" _).andThen (htwo.andThen ((prefers_text ".id." _).andThen hname))
  have htext : resource r2 w i
      = "R" ++ ((if r2 then ['2'] else []) ++ (".id." ++ (w ++ '_' :: natText i))) := by
    cases r2 <;> simp [resource, idClass]
  rw [htext]
  exact hall

theorem resource_covers (r2 : Bool) (hw : w.all isWord) (i : Nat) :
    resourceId.Covers (resource r2 w i) := by
  have hr : StopsRun isWord [] := by
    rintro c ⟨⟩
  exact (prefers_resource r2 hw i hr).covers

theorem not_mem_resource (hx : isWord x = false) (hdot : x ≠ '.') (r2 : Bool)
    (hw : w.all isWord) (i : Nat) : x ∉ resource r2 w i := by
  have hclass : (idClass r2 ++ ".id.").all (fun c => isWord c || c == '.') := by
    cases r2 <;> decide
  intro hm
  unfold resource at hm
  simp only [mem_append, mem_cons] at hm
  rcases hm with (hm | hm) | rfl | hm
  · simpa [hx, hdot] using all_eq_true.mp hclass x (mem_append.mpr hm)
  · simpa [hx] using all_eq_true.mp hw x hm
  · cases hx
  · simpa [hx] using isWord_of_mem_natText hm

theorem trim_word (h : word.Covers t) : trim t = t :=
  trim_eq_self fun c hc => isBlank_of_isWord ((covers_word.mp h).2 c hc)

theorem resource_eq_cons (r2 : Bool) (w : Text) (i : Nat) : ∃ t, resource r2 w i = 'R' :: t := by
  cases r2 <;> exact ⟨_, rfl⟩

theorem exists_viewType (i : Nat) :
    ∃ c t, viewType i = c :: t ∧ c ≠ 'p' ∧ word.Covers (viewType i) ∧ '_' ∉ viewType i := by
  have hall : (range 10).all (fun k => !(viewType k).isEmpty && (viewType k).head? != some 'p'
      && (viewType k).all isWord && !(viewType k).contains '_') := by decide
  have hmod : viewType i = viewType (i % 10) := by rw [viewType, viewType, Nat.mod_mod]
  have hi := all_eq_true.mp hall (i % 10) (mem_range.mpr (Nat.mod_lt i (by decide)))
  rw [← hmod] at hi
  simp only [Bool.and_eq_true] at hi
  obtain ⟨⟨⟨hne, hc⟩, hword⟩, hline⟩ := hi
  cases ht : viewType i with
  | nil => simp [ht] at hne
  | cons c t =>
    rw [ht] at hc hword hline
    exact ⟨c, t, rfl, by simpa using hc, covers_word.mpr ⟨by simp, all_eq_true.mp hword⟩,
      by simpa using hline⟩

theorem viewType_word (i : Nat) : word.Covers (viewType i) := by
  obtain ⟨_, _, -, -, h, -⟩ := exists_viewType i
  exact h

theorem underscore_not_mem_viewType (i : Nat) : '_' ∉ viewType i := by
  obtain ⟨_, _, -, -, -, h⟩ := exists_viewType i
  exact h

theorem fieldName_word (i : Nat) : word.Covers ("field" ++ natText i) := word_natText (by decide) i

theorem separator_blank (multiline : Bool) :
    blanks1.Covers (if multiline then "\n    " else " ").toList := by
  cases multiline <;> exact covers_all (by decide) (by decide)

theorem accessModifier_opens {c : Char} (hc : c ≠ 'p') (t : Text) :
    ¬ Starts accessModifier (c :: t) := by
  have hopens : accessModifier.OpensWith 'p' := by
    rintro s (⟨_, _, rfl, rfl, -⟩ | ⟨_, _, rfl, rfl, -⟩ | ⟨_, _, rfl, rfl, -⟩) <;> rfl
  exact hopens.not_starts (by simpa using hc)

/-! ## numbered pieces -/

theorem isMark_of_mem (hx : x ∈ ['/', '*']) : IsMark x := by
  rcases mem_pair.mp hx with rfl | rfl <;> decide

theorem not_mem_literal (hx : x ∈ ['/', '*']) (h : t.all (fun c => c != '/' && c != '*')) :
    x ∉ t := by
  intro hm
  have := all_eq_true.mp h x hm
  rcases mem_pair.mp hx with rfl | rfl <;> cases this

theorem not_mem_natText (hx : isWord x = false) (i : Nat) : x ∉ natText i := by
  intro hm
  rw [isWord_of_mem_natText hm] at hx
  cases hx

theorem uncommented_of_not_mem (h : ∀ x ∈ ['/', '*'], x ∉ t) : Uncommented t where
  unmarked mark hmark hin := h '/' (by decide) (hin.mem (by
    simp only [mem_cons, not_mem_nil, or_false] at hmark
    rcases hmark with rfl | rfl | rfl <;> decide))
  unstarred l hl hin :=
    h '*' (by decide) ((infix_of_mem_lines hl).mem ((trim_isInfix l).mem (hin.mem (by decide))))

theorem split_once {b u v : Text} (ha : x ∉ a) (hb : x ∉ b) (h : u ++ x :: v = a ++ x :: b) :
    u = a ∧ v = b := by
  obtain ⟨y, rfl, hy⟩ := append_eq_of_not_mem ha h.symm
  cases y with
  | nil => exact ⟨append_nil a, (List.cons.inj hy).2.symm⟩
  | cons z y =>
    have hb' : b = y ++ x :: v := (List.cons.inj hy).2
    exact absurd (by simp [hb']) hb

theorem lines_unlines_flatMap {ls : List Text} (h : ls ≠ []) :
    lines (unlines ls) = ls.flatMap lines := by
  induction ls with
  | nil => exact absurd rfl h
  | cons l ls ih =>
    by_cases hls : ls = []
    · simp [hls, unlines]
    · rw [unlines_cons hls, lines_eq_splitAll, splitAll_append, flatMap_cons, ← ih hls]
      rfl

/-- the lines of numbered texts: those of the texts before one of them come first -/
theorem lines_numbered (piece : Nat → Text) (hi : i < n) :
    ∃ after, lines (unlines ((range n).map piece))
      = (range i).flatMap (fun j => lines (piece j)) ++ (lines (piece i) ++ after) := by
  obtain ⟨m, rfl⟩ := Nat.exists_eq_add_of_lt hi
  have hrange : range (i + m + 1) = range i ++ i :: (range m).map (i + 1 + ·) := by
    rw [Nat.add_assoc, range_add, Nat.add_comm m 1, range_add]
    simp [Function.comp_def, Nat.add_assoc]
  rw [lines_unlines_flatMap (by simp), hrange, flatMap_map, flatMap_append, flatMap_cons]
  exact ⟨_, rfl⟩

/-- what is read off the matches of a pattern in numbered texts, each of which holds one -/
theorem map_findAll_unlines {α : Type} {p : Pattern} (hx : p.OpensWith '@') {piece : Nat → Text}
    {groups : Nat → List (Nat × Text)} (hpiece : ∀ i, p.HoldsOne '@' (groups i) (piece i))
    (hplain : ∀ x ∈ ['/', '*'], ∀ i, x ∉ piece i) {f : Match → α}
    (hf : ∀ m, f m = f ⟨0, 0, [], m.groups⟩) (is : List Nat) :
    (p.findAll (withoutComments (unlines (is.map piece)))).map f
      = is.map (fun i => f ⟨0, 0, [], groups i⟩) := by
  have hall : ∀ x ∈ ['/', '*'], x ∉ unlines (is.map piece) := fun x hx => by
    refine not_mem_unlines (by rintro rfl; revert hx; decide) ?_
    exact forall_mem_map.mpr fun i _ => hplain x hx i
  have hgroups := congrArg (map fun gs => f ⟨0, 0, [], gs⟩)
    (groups_findAll_unlines hx (by decide) hpiece is)
  rw [map_map, map_map] at hgroups
  rw [withoutComments_eq_self (uncommented_of_not_mem hall)]
  exact (map_congr_left fun m _ => hf m).trans hgroups

/-- a text that first occurs on the first line of one of the pieces -/
theorem lineWith_numbered {piece : Nat → Text} (hi : i < n) {part : Text}
    (hin : part <:+: lineFrom (piece i) 0)
    (hbefore : ∀ j < i, ∀ l ∈ lines (piece j), ¬ part <:+: l) :
    lineWith (unlines ((range n).map piece)) part = .given (trim (lineFrom (piece i) 0)) := by
  obtain ⟨after, hlines⟩ := lines_numbered piece hi
  obtain ⟨ls, hfirst⟩ : ∃ ls, lines (piece i) = lineFrom (piece i) 0 :: ls :=
    exists_first_line (piece i)
  have hfind : (lines (unlines ((range n).map piece))).find? (occursIn part)
      = some (lineFrom (piece i) 0) := by
    rw [hlines, find?_append, hfirst, cons_append, find?_cons_of_pos ((occursIn_iff _ _).mpr hin),
      find?_eq_none.mpr, Option.none_or]
    intro l hl
    obtain ⟨j, hj, hl⟩ := mem_flatMap.mp hl
    rw [occursIn_iff]
    exact hbefore j (mem_range.mp hj) l hl
  rw [lineWith, hfind]

/-! ## fields -/

/-- an annotated field from its annotation on -/
def fieldText (r2 multiline : Bool) (i : Nat) : Text :=
  "@BindView".toList ++ ("(".toList ++ (resource r2 "view" i ++ ([')']
    ++ ((if multiline then "\n    " else " ").toList ++ (viewType i ++ (" ".toList
    ++ ("field".toList ++ natText i ++ [';'])))))))

theorem bindView_eq (r2 multiline : Bool) (i : Nat) :
    bindView r2 multiline i = "    ".toList ++ fieldText r2 multiline i := by
  have hopen : "    @BindView(".toList = "    ".toList ++ ("@BindView".toList ++ "(".toList) := by
    decide
  have hname : " field".toList = " ".toList ++ "field".toList := by decide
  unfold bindView fieldText
  rw [hopen, hname]
  simp only [append_assoc]

def fieldGroups (r2 : Bool) (i : Nat) : List (Nat × Text) :=
  [(3, "field" ++ natText i), (2, viewType i), (1, resource r2 "view" i)]

theorem prefers_field (r2 multiline : Bool) (i : Nat) (r : Text) :
    annotatedField.Prefers (fieldText r2 multiline i) (fieldGroups r2 i) r := by
  obtain ⟨c, t, htype, hc, hword, -⟩ := exists_viewType i
  have hblank : isBlank c = false :=
    isBlank_of_isWord ((covers_word.mp hword).2 c (by simp [htype]))
  obtain ⟨t', hid⟩ := resource_eq_cons r2 "view" i
  have hall : annotatedField.Prefers
    ("@BindView".toList ++ ([] ++ ("(".toList ++ ([] ++ (resource r2 "view" i ++ ([]
      ++ ([')'] ++ ((if multiline then "\n    " else " ").toList
        ++ ([] ++ (viewType i ++ (" ".toList
      ++ ("field".toList ++ natText i ++ ([] ++ [';'])))))))))))))
      (fieldGroups r2 i) r := by
    -- part by part: every run ends where the next part begins
    refine (prefers_text _ _).andThen
      ((prefers_nil ?_).andThen ((prefers_text _ _).andThen ((prefers_nil ?_).andThen
      (((prefers_resource r2 ?_ i ?_).group 1).andThen
        ((prefers_nil ?_).andThen ((prefers_text _ _).andThen
      ((prefers_run1 (separator_blank multiline) ?_).andThen ((prefers_missing ?_).andThen
      (((prefers_run1 hword ?_).group 2).andThen ((prefers_run1 ?_ ?_).andThen
      (((prefers_run1 (fieldName_word i) ?_).group 3).andThen
      ((prefers_nil ?_).andThen (prefers_text _ _)))))))))))))
    · exact StopsRun.cons (x := '(') (by decide) _
    · rw [hid]
      exact StopsRun.cons (x := 'R') (by decide) _
    · decide
    · exact StopsRun.cons (x := ')') (by decide) _
    · exact StopsRun.cons (x := ')') (by decide) _
    · rw [htype]
      exact StopsRun.cons hblank _
    · rw [htype]
      exact accessModifier_opens hc _
    · exact StopsRun.cons (x := ' ') (by decide) _
    · exact covers_all (by decide) (by decide)
    · exact StopsRun.cons (x := 'f') (by decide) _
    · exact StopsRun.cons (x := ';') (by decide) _
    · exact StopsRun.cons (x := ';') (by decide) _
  simp only [nil_append] at hall
  exact hall

theorem not_mem_bindView (hx : x ∈ ['/', '*']) (r2 multiline : Bool) (i : Nat) :
    x ∉ bindView r2 multiline i := by
  have hmark := isMark_of_mem hx
  unfold bindView
  refine not_mem_append (not_mem_append (not_mem_append (not_mem_append (not_mem_append
    (not_mem_append (not_mem_append ?_ ?_) ?_) ?_) ?_) ?_) ?_) ?_
  · exact not_mem_literal hx (by decide)
  · exact not_mem_resource hmark.1 hmark.2.2 r2 (by decide) i
  · exact not_mem_literal hx (by decide)
  · exact hmark.avoids_blanks1 _ (separator_blank multiline)
  · exact hmark.avoids_word _ (viewType_word i)
  · exact not_mem_literal hx (by decide)
  · exact not_mem_natText hmark.1 i
  · exact not_mem_literal hx (by decide)

/-- the findings on a numbered field, with the line of its own annotation -/
def field (r2 multiline : Bool) (i : Nat) : BindView where
  id := .given (resource r2 "view" i)
  type := .given (viewType i)
  name := .given ("field" ++ natText i)
  line := .given (trim (lineFrom (bindView r2 multiline i) 0))

theorem annotatedField_opens : annotatedField.OpensWith '@' := by
  rintro _ ⟨_, _, rfl, rfl, -⟩
  rfl

theorem holdsOne_bindView (r2 multiline : Bool) (i : Nat) :
    annotatedField.HoldsOne '@' (fieldGroups r2 i) (bindView r2 multiline i) := by
  refine ⟨"    ", fieldText r2 multiline i, [], ?_, by decide, ?_, not_mem_nil,
    prefers_field r2 multiline i⟩
  · rw [bindView_eq, append_nil]
  · exact append_ne_nil_of_left_ne_nil (by decide) _

theorem underscore_not_mem_natText (i : Nat) : '_' ∉ natText i := fun h => by
  have := digit_of_mem_natText h
  cases this

/-- in a text with one underscore, which stands before the numeral of `j`, no smaller one comes
behind an underscore -/
theorem le_of_numbered {b u v : Text} {j : Nat} (ha : '_' ∉ a) (hb : '_' ∉ b)
    (hstop : StopsRun Char.isDigit b)
    (h : u ++ '_' :: (natText i ++ v) = a ++ '_' :: (natText j ++ b)) : i ≤ j := by
  obtain ⟨-, htail⟩ := split_once ha (not_mem_append (underscore_not_mem_natText j) hb) h
  rcases append_eq_append_iff.mp htail with ⟨t, ht, -⟩ | ⟨t, ht, hb'⟩
  · exact le_of_natText_append ht
  · cases t with
    | nil => exact (natText_inj (by simpa using ht)).le
    | cons c t =>
      have hdigit : c.isDigit = true := digit_of_mem_natText (n := i) (by simp [ht])
      rw [hstop c (by rw [hb']; rfl)] at hdigit
      cases hdigit

def fieldFront (r2 : Bool) : Text := "    @BindView(" ++ (idClass r2 ++ (".id." ++ "view"))

def fieldBack (multiline : Bool) (i : Nat) : Text :=
  [')'] ++ ((if multiline then "\n    " else " ").toList
    ++ (viewType i ++ (" field" ++ (natText i ++ [';']))))

theorem bindView_split (r2 multiline : Bool) (i : Nat) :
    bindView r2 multiline i = fieldFront r2 ++ '_' :: (natText i ++ fieldBack multiline i) := by
  unfold bindView resource fieldFront fieldBack
  simp only [append_assoc, cons_append]

theorem not_mem_fieldFront (hx : x ∈ ['_', '\n']) (r2 : Bool) : x ∉ fieldFront r2 := by
  rcases mem_pair.mp hx with rfl | rfl <;> cases r2 <;> decide

theorem underscore_not_mem_fieldBack (multiline : Bool) (i : Nat) :
    '_' ∉ fieldBack multiline i := by
  have hsep : '_' ∉ (if multiline then "\n    " else " ").toList := by cases multiline <;> decide
  exact not_mem_append (by decide)
    (not_mem_append hsep (not_mem_append (underscore_not_mem_viewType i)
    (not_mem_append (by decide) (not_mem_append (underscore_not_mem_natText i) (by decide)))))

theorem lineFrom_append (h : '\n' ∉ a) (b : Text) : lineFrom (a ++ b) 0 = a ++ lineFrom b 0 := by
  rw [lineFrom, lineFrom, drop_zero, drop_zero, takeWhile_append_of_pos]
  intro c hc
  rw [bne_iff_ne]
  rintro rfl
  exact h hc

theorem lineWith_field (r2 multiline : Bool) (hi : i < n) :
    lineWith (bindViews n r2 multiline) (resource r2 "view" i)
      = .given (trim (lineFrom (bindView r2 multiline i) 0)) := by
  have hid : ∀ k, fieldFront r2 ++ '_' :: natText k = "    @BindView(" ++ resource r2 "view" k :=
    fun k => by
    unfold fieldFront resource
    simp only [append_assoc]
  refine lineWith_numbered hi ?_ ?_
  · have hfront : '\n' ∉ fieldFront r2 ++ '_' :: natText i := by
      rw [hid]
      exact not_mem_append (by decide) (not_mem_resource (by decide) (by decide) r2 (by decide) i)
    rw [bindView_split, ← cons_append, ← append_assoc, lineFrom_append hfront, hid]
    exact ⟨_, _, rfl⟩
  · intro j hj l hl hin
    obtain ⟨u, v, huv⟩ := hin.trans (infix_of_mem_lines hl)
    have hle := le_of_numbered (i := i) (u := u ++ (idClass r2 ++ ".id." ++ "view")) (v := v)
      (not_mem_fieldFront (by decide) r2) (underscore_not_mem_fieldBack multiline j)
      (StopsRun.cons (x := ')') (by decide) _) (by
        rw [← bindView_split, ← huv]
        unfold resource
        simp only [append_assoc, cons_append])
    omega

theorem detect_fields (n : Nat) (r2 multiline : Bool) :
    (Findings.detect (bindViews n r2 multiline)).bindViews
      = .given ((range n).map (field r2 multiline)) := by
  have hmap := map_findAll_unlines annotatedField_opens (holdsOne_bindView r2 multiline)
    (fun _ hx => not_mem_bindView hx r2 multiline)
    (f := BindView.ofMatch (bindViews n r2 multiline)) (fun _ => rfl) (range n)
  rw [detect_bindViews]
  refine congrArg Slot.given (hmap.trans (map_congr_left fun i hi => ?_))
  have hid := trim_eq_self (isBlank_of_mem_resourceId
      (resource_covers r2 (w := "view") (by decide) i))
  have hread : BindView.ofMatch (bindViews n r2 multiline) ⟨0, 0, [], fieldGroups r2 i⟩
      = { id := .given (trim (resource r2 "view" i))
          type := .given (trim (viewType i))
          name := .given (trim ("field" ++ natText i))
          line := lineWith (bindViews n r2 multiline) (resource r2 "view" i) } := rfl
  rw [hread, hid, trim_word (viewType_word i), trim_word (fieldName_word i),
    lineWith_field r2 multiline (mem_range.mp hi), field]

end Specimen

end Rebind
