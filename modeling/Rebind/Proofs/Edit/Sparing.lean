import Mathlib
import Rebind.Proofs.Edit.Dropping
import Rebind.Proofs.Source.Standing

/-!
# What the editors do to headers

The editors of fields and of click handlers leave every header standing, whatever the source: what
they take out is balanced and apart from any header (`FieldLookup.edit_stands`,
`ClickListener.edit_stands`), and what they put in is balanced.  The editor of bind calls takes out
whole lines, so that a header on such a line goes with it (`BindCall.edit_stands`).
-/

namespace Rebind

open List Pattern

variable {c : Char} {f : Findings} {fs : List Field} {cs : List Listener} {l s t : Text}

/-! ## texts apart -/

theorem apart_of {u : Text} (hin : ∀ x y b d, u = x ++ y → y ≠ [] → y ++ d ≠ s ++ b)
    (hover : ∀ x y b d, s = x ++ y → y ≠ [] → y ++ b ≠ u ++ d) : Apart s u := by
  intro a b c d he
  by_contra hno
  rw [not_or, Nat.not_le, Nat.not_le] at hno
  obtain ⟨hs, hu⟩ := hno
  rw [append_assoc, append_assoc c] at he
  rcases append_eq_append_iff.mp he with ⟨x, rfl, hx⟩ | ⟨x, rfl, hx⟩
  · -- `u` starts in `s`, behind `x`
    have hlen : x.length < s.length := by simpa using hs
    obtain ⟨y, rfl⟩ : x <+: s := prefix_of_prefix_length_le ⟨_, hx.symm⟩ ⟨_, rfl⟩ hlen.le
    rw [append_assoc] at hx
    refine hover x y b d rfl (fun hy => ?_) (append_cancel_left hx)
    rw [hy, append_nil] at hlen
    exact absurd hlen (lt_irrefl _)
  · have hlen : x.length < u.length := by simpa using hu
    obtain ⟨y, rfl⟩ : x <+: u := prefix_of_prefix_length_le ⟨_, hx.symm⟩ ⟨_, rfl⟩ hlen.le
    rw [append_assoc] at hx
    refine hin x y b d rfl (fun hy => ?_) (append_cancel_left hx)
    rw [hy, append_nil] at hlen
    exact absurd hlen (lt_irrefl _)

theorem apart_of_heads {x y : Char} {u : Text} (hs : y ∉ x :: s) (hu : x ∉ y :: u) :
    Apart (x :: s) (y :: u) := by
  refine apart_of (fun v w b d hv hw he => ?_) (fun v w b d hv hw he => ?_)
  · obtain ⟨c, w, rfl⟩ := exists_cons_of_ne_nil hw
    have hc : c = x := (List.cons.inj he).1
    exact hu (by rw [hv, hc]; simp)
  · obtain ⟨c, w, rfl⟩ := exists_cons_of_ne_nil hw
    have hc : c = y := (List.cons.inj he).1
    exact hs (by rw [hv, hc]; simp)

namespace Header

variable (H : Header)

theorem mem_suffix {x y : Text} (h : H.text = x ++ y) (hy : y ≠ []) : '\x7b' ∈ y := by
  have hlast : (x ++ y).getLast? = some '\x7b' := by rw [← h]; simp [text]
  rw [getLast?_append_of_ne_nil x hy] at hlast
  exact mem_of_getLast? hlast

theorem semicolon_not_mem : ';' ∉ H.text := by
  rw [text, mem_append, not_or]
  exact ⟨fun hm => H.start_plain _ hm (by simp), by decide⟩

/-- a statement without braces, and the white space behind it, is apart from any header -/
theorem apart_of_statement {v w : Text} (hbrace : '\x7b' ∉ v ++ ';' :: w)
    (hw : ∀ c ∈ w, isBlank c) : Apart H.text (v ++ ';' :: w) := by
  have hclosed : '\x7b' ∈ H.text := H.mem_suffix (nil_append _).symm H.text_ne_nil
  refine apart_of (fun x y b d hu hy he => ?_) (fun x y b d hs hy he => ?_)
  · rcases append_eq_append_iff.mp he with ⟨r, hr, -⟩ | ⟨r, hr, -⟩
    · -- `y` comes first in the header, so that it holds no semicolon and is white space
      have hsemi : ';' ∉ y := fun hm => H.semicolon_not_mem (by rw [hr]; simp [hm])
      obtain ⟨c, z, rfl⟩ := exists_cons_of_ne_nil hy
      have hblank : isBlank c := by
        rcases append_eq_append_iff.mp hu with ⟨q, rfl, hq⟩ | ⟨q, rfl, hq⟩
        · cases q with
          | nil => exact absurd (by rw [← (List.cons.inj hq).1]; simp) hsemi
          | cons k q => exact hw c (by rw [(List.cons.inj hq).2]; simp)
        · exact absurd (by rw [hq]; simp) hsemi
      obtain ⟨c', r', hc', hword⟩ := H.head_word
      rw [hc'] at hr
      rw [(List.cons.inj hr).1] at hword
      rw [isBlank_of_isWord hword] at hblank
      cases hblank
    · refine hbrace ?_
      rw [hu, hr]
      simp [hclosed]
  · have hmem := H.mem_suffix hs hy
    rcases append_eq_append_iff.mp he with ⟨r, hr, -⟩ | ⟨r, hr, -⟩
    · exact hbrace (by rw [hr]; simp [hmem])
    · refine H.semicolon_not_mem ?_
      rw [hs, hr]
      simp

theorem mark_not_infix : ¬ "@OnClick" <:+: H.text := by
  have hat : ∀ t : Text, '@' ∉ t → ¬ "@OnClick" <:+: t := fun t ht hi => ht (hi.mem (by decide))
  have hfront : '@' ∉ H.front := H.not_mem_front (by decide) (by decide)
  have hroom : '@' ∉ H.room ++ ['\x7b'] := by
    rw [mem_append, not_or]
    exact ⟨fun hm => absurd (H.room_blank _ hm) (by decide), by decide⟩
  have htext : H.text = H.front ++ '(' :: (H.params ++ ')' :: (H.room ++ ['\x7b'])) := by
    simp [text, start]
  rw [htext, infix_around_iff (by decide), infix_around_iff (by decide), not_or, not_or]
  exact ⟨hat _ hfront, H.unmarked, hat _ hroom⟩

/-- a click annotation is apart from any header -/
theorem apart_of_click {b inner : Text} (hb : ∀ c ∈ b, isBlank c) (hopen : '(' ∉ inner)
    (hclose : ')' ∉ inner) : Apart H.text ("@OnClick".toList ++ b ++ '(' :: (inner ++ [')'])) := by
  have hparen : ∀ x : Char, x = '(' ∨ x = ')' → x ∉ "@OnClick".toList ++ b := by
    rintro x hx hm
    rcases mem_append.mp hm with hm | hm
    · rcases hx with rfl | rfl <;> exact absurd hm (by decide)
    · rcases hx with rfl | rfl <;> exact absurd (hb _ hm) (by decide)
  refine apart_of (fun x y c d hu hy he => ?_) (fun x y c d hs hy he => ?_)
  · -- the parenthesis that closes the annotation would close the parameters
    obtain ⟨z, e, rfl⟩ := eq_nil_or_concat' y |>.resolve_left hy
    obtain ⟨hz, he'⟩ : "@OnClick".toList ++ b ++ '(' :: inner = x ++ z ∧ [')'] = [e] := by
      refine append_inj' ?_ rfl
      rw [append_assoc x, ← hu]
      simp
    obtain rfl : ')' = e := (List.cons.inj he').1
    have hnot : ')' ∉ z := fun hm => by
      have hm' : ')' ∈ "@OnClick".toList ++ b ++ '(' :: inner := by rw [hz]; simp [hm]
      rcases mem_append.mp hm' with hm' | hm'
      · exact hparen ')' (.inr rfl) hm'
      · simp [hclose] at hm'
    have hparams : ')' ∉ H.front ++ '(' :: H.params := by
      simp only [mem_append, mem_cons, not_or]
      refine ⟨H.not_mem_front (by decide) (by decide), by decide, fun hm => H.params_plain _ hm
        (by simp)⟩
    have hall : z ++ ')' :: d = (H.front ++ '(' :: H.params) ++ ')' :: (H.room ++ '\x7b' :: c) := by
      rw [show z ++ ')' :: d = z ++ [')'] ++ d by simp, he]
      simp [text, start]
    obtain ⟨rfl, -⟩ := append_first_inj hnot hparams hall
    -- so that two words with white space between them would stand before it
    rw [← append_assoc] at hz
    obtain ⟨r, hr, hinner⟩ := append_eq_of_not_mem (hparen '(' (.inl rfl)) hz
    obtain rfl : r = [] := by
      cases r with
      | nil => rfl
      | cons k r => exact absurd (by rw [(List.cons.inj hinner).2]; simp) hopen
    rw [append_nil, front] at hr
    have hwords : "@OnClick".toList ++ b = (x ++ H.type ++ H.gap) ++ (H.name ++ H.space) := by
      rw [← hr]
      simp
    obtain ⟨g, gap, hg⟩ := exists_cons_of_ne_nil H.gap_blank.1
    obtain ⟨n, name, hn⟩ := exists_cons_of_ne_nil H.name_word.1
    rcases append_eq_append_iff.mp hwords with ⟨q, -, hq⟩ | ⟨q, hq, -⟩
    · have hblank := hb n (by rw [hq, hn]; simp)
      rw [isBlank_of_isWord (H.name_word.2 n (by simp [hn]))] at hblank
      cases hblank
    · have hmem : g ∈ "@OnClick".toList := by rw [hq, hg]; simp
      have hall : "@OnClick".toList.all (fun c => !isBlank c) = true := by decide
      have hblank := isBlank_of_isSpace (H.gap_blank.2 g (by simp [hg]))
      simpa [hblank] using all_eq_true.mp hall g hmem
  · have hmem := H.mem_suffix hs hy
    rw [append_assoc, append_assoc] at he
    rcases append_eq_append_iff.mp he with ⟨r, hr, -⟩ | ⟨r, hr, -⟩
    · exact absurd (hr ▸ mem_append_left r hmem) (by decide)
    · exact H.mark_not_infix ⟨x, r, by rw [hs, hr, append_assoc]⟩

end Header

/-! ## what an editor puts in -/

theorem balanced_word (h : word.Covers t) : Balanced t :=
  balanced_of_not_mem (avoids_run1 (by decide) t h) (avoids_run1 (by decide) t h)

theorem balanced_blanks (h : blanks.Covers t) : Balanced t :=
  balanced_of_not_mem (avoids_run (by decide) t h) (avoids_run (by decide) t h)

theorem parensFrom_unlines (p : Nat × Nat) (ls : List Text) :
    parensFrom p (unlines ls) = ls.foldl parensFrom p := by
  induction ls generalizing p with
  | nil => rfl
  | cons l ls ih =>
    cases ls with
    | nil => simp [unlines]
    | cons l' ls =>
      rw [unlines_cons (by simp), parensFrom_append]
      exact ih (parensFrom p l)

theorem balanced_unlines {ls : List Text} (h : ∀ l ∈ ls, Balanced l) : Balanced (unlines ls) := by
  rw [Balanced, parens, parensFrom_unlines]
  induction ls with
  | nil => rfl
  | cons l ls ih =>
    rw [foldl_cons, (h l mem_cons_self).parensFrom]
    exact ih (fun x hx => h x (mem_cons_of_mem _ hx))

theorem foldl_flatMap_id {α : Type} {part : α → List Text} {xs : List α}
    (h : ∀ x ∈ xs, ∀ p, (part x).foldl parensFrom p = p) (p : Nat × Nat) :
    (xs.flatMap part).foldl parensFrom p = p := by
  induction xs with
  | nil => rfl
  | cons x xs ih =>
    rw [flatMap_cons, foldl_append, h x mem_cons_self]
    exact ih (fun y hy => h y (mem_cons_of_mem _ hy))

theorem not_mem_resource (h : resourceId.Covers t) (hc : isWord c = false) (hdot : c ≠ '.') :
    c ∉ t := by
  obtain ⟨two, w, rfl, h2, hw⟩ := covers_resourceId.mp h
  have hword : c ∉ w := avoids_run1 hc w hw
  have hne : ∀ x : Char, isWord x → c ≠ x := fun x hx he => by
    rw [he, hx] at hc
    cases hc
  rcases h2 with rfl | rfl
  · simp [hne 'R' (by decide), hdot, hne 'i' (by decide), hne 'd' (by decide), hword]
  · simp [hne 'R' (by decide), hne '2' (by decide), hdot, hne 'i' (by decide),
      hne 'd' (by decide), hword]

theorem balanced_resource (h : resourceId.Covers t) : Balanced t :=
  balanced_of_not_mem (not_mem_resource h (by decide) (by decide))
    (not_mem_resource h (by decide) (by decide))

section
variable {H : Header} {code block : Text}

theorem stands_insertInOnCreate (hblock : Balanced block) (h : H.Stands code) :
    H.Stands (insertInOnCreate code block) := by
  unfold insertInOnCreate
  split
  · next k hk =>
    refine h.inserted (inserted_before (insertionPoint_some hk)) ?_
    exact balanced_append (balanced_append (by decide) hblock) (by decide)
  · exact h

theorem stands_insertInOnViewCreated (hblock : Balanced block) (h : H.Stands code) :
    H.Stands (insertInOnViewCreated code block) := by
  unfold insertInOnViewCreated
  split
  · next k hk =>
    refine h.inserted (inserted_before (insertionPoint_some hk)) ?_
    exact balanced_append (balanced_append (by decide) hblock) (by decide)
  · exact h

theorem stands_addMethodAfterClass {name : Text} (hname : word.Covers name)
    (hblock : Balanced block)
    (h : H.Stands code) : H.Stands (addMethodAfterClass name code block) := by
  unfold addMethodAfterClass
  split
  · next k hk =>
    obtain ⟨j, rfl, hj⟩ := publicClassEnd_some hk
    rw [← take_append_drop (j + 1) code] at h
    refine h.insert ?_ ?_
    · rcases hj with hj | hj
      · obtain ⟨hlt, hx⟩ := List.getElem?_eq_some_iff.mp hj
        rw [take_succ_eq_append_getElem hlt, hx]
        exact edge_newline_behind _ _
      · exact .inr (.inl (drop_eq_nil_of_le (by omega)))
    · have hheader : Balanced ("\n    private void ".toList ++ name ++ "() \x7b\n".toList) :=
        balanced_append (balanced_append (by decide) (balanced_word hname)) (by decide)
      exact balanced_append (balanced_append hheader hblock) (by decide)
  · exact h

theorem stands_placedIn {name : Text} (seen seen' : Bool) (hname : word.Covers name)
    (hblock : Balanced block) (h : H.Stands code) :
    H.Stands (placedIn name block code seen seen') :=
  placedIn_inv H.Stands (fun _ => stands_insertInOnCreate hblock)
    (fun _ => stands_insertInOnViewCreated hblock)
    (fun _ => stands_addMethodAfterClass hname hblock) seen seen' h

end

/-! ## fields -/

namespace FieldLookup

variable {H : Header} {code t' : Text}

theorem not_mem_access (hc : isBlank c = false) (hword : isWord c = false)
    (h : (Pattern.maybe accessModifier).Covers s) : c ∉ s := by
  have hkey : ∀ w : String, w.toList.all isWord → (keyword w).Avoids c := fun w hw =>
    avoids_keyword (fun hm => by rw [all_eq_true.mp hw c hm] at hword; cases hword) hc
  rcases h with rfl | h | h | h
  · simp
  · exact hkey "public" (by decide) s h
  · exact hkey "private" (by decide) s h
  · exact hkey "protected" (by decide) s h

theorem balanced_plain (F : Field) : Balanced (plainDeclaration F) := by
  have hspace : plainDeclaration F = F.type ++ ([' '] ++ F.name ++ [';']) := by
    simp [plainDeclaration]
  rw [hspace]
  exact balanced_append (balanced_word F.type_covers)
    (balanced_append (balanced_append (by decide) (balanced_word F.name_covers)) (by decide))

/-- an annotated declaration is balanced and apart from any header -/
theorem annotated_spared {F : Field} (h : (annotated F).Covers s) :
    Apart H.text s ∧ Balanced s := by
  obtain ⟨_, _, rfl, rfl, b1, _, rfl, hb1, _, _, rfl, rfl, b2, _, rfl, hb2, _, _, rfl, rfl,
    b3, _, rfl,
    hb3, _, _, rfl, rfl, g, _, rfl, hg, acc, _, rfl, hacc, _, _, rfl, rfl, g', _, rfl, hg',
    _, _, rfl, rfl, b4, _, rfl, hb4, rfl⟩ := h
  have hshape : "@BindView" ++ (b1 ++ ("(" ++ (b2 ++ (F.id ++ (b3 ++ (")" ++ (g ++ (acc
      ++ (F.type ++ (g' ++ (F.name ++ (b4 ++ ";"))))))))))))
      = ("@BindView" ++ b1) ++ ('(' :: ((b2 ++ F.id ++ b3) ++ [')']))
        ++ (g ++ acc ++ F.type ++ g' ++ F.name ++ b4) ++ ';' :: [] := by simp
  have hbrace : ∀ t : Text, word.Covers t → '\x7b' ∉ t := fun t ht => avoids_run1 (by decide) t ht
  have hblank : ∀ t : Text, blanks.Covers t → '\x7b' ∉ t := fun t ht => avoids_run (by decide) t ht
  have hgap : ∀ t : Text, blanks1.Covers t → '\x7b' ∉ t := fun t ht => avoids_run1 (by decide) t ht
  have hid : '\x7b' ∉ F.id := not_mem_resource F.id_covers (by decide) (by decide)
  have hcb : Balanced acc := balanced_of_not_mem (not_mem_access (by decide) (by decide) hacc)
    (not_mem_access (by decide) (by decide) hacc)
  have hrun : ∀ t : Text, blanks1.Covers t → Balanced t := fun t ht =>
    balanced_blanks (covers_run1.mp ht).2
  rw [hshape]
  constructor
  · refine H.apart_of_statement ?_ (by simp)
    simp only [mem_append, mem_cons, not_mem_nil, or_false, not_or]
    exact ⟨⟨⟨⟨by decide, hblank _ hb1⟩, by decide, ⟨⟨hblank _ hb2, hid⟩, hblank _ hb3⟩, by decide⟩,
      ⟨⟨⟨⟨hgap _ hg, not_mem_access (by decide) (by decide) hacc⟩, hbrace _ F.type_covers⟩,
        hgap _ hg'⟩, hbrace _ F.name_covers⟩, hblank _ hb4⟩, by decide⟩
  · refine balanced_append (balanced_append (balanced_append (balanced_append (by decide)
      (balanced_blanks hb1)) (balanced_parens ?_)) ?_) (by decide)
    · exact balanced_append (balanced_append (balanced_blanks hb2) (balanced_resource F.id_covers))
        (balanced_blanks hb3)
    · exact balanced_append (balanced_append
        (balanced_append (balanced_append (balanced_append (hrun _ hg)
        hcb) (balanced_word F.type_covers)) (hrun _ hg')) (balanced_word F.name_covers))
          (balanced_blanks hb4)

theorem stands_dropMark {F : Field} (h : dropMark code F.view = .ok t') (hs : H.Stands code) :
    H.Stands t' := by
  obtain rfl := Except.ok.inj ((dropMark_eq F code).symm.trans h)
  refine hs.replace (fun m hm => ?_)
  obtain ⟨hapart, hbalanced⟩ := annotated_spared (H := H) (of_mem_findAll hm).covers
  exact ⟨hapart, hbalanced.trans (balanced_plain F).symm⟩

theorem balanced_assignmentRow (F : Field) : Balanced (assignmentRow F) := by
  have hopen : " = (" = " = " ++ ['('] := by decide
  have hlookup : ") findViewById(" = ')' :: (" findViewById" ++ ['(']) := by decide
  have hclose : ");" = ')' :: ";" := by decide
  have hshape : assignmentRow F = ("        " ++ F.name ++ " = ") ++ ('(' :: (F.type ++ [')']))
      ++ (" findViewById" ++ ('(' :: (F.id ++ [')'])) ++ ";") := by
    unfold assignmentRow
    rw [hopen, hlookup, hclose]
    simp only [append_assoc, cons_append, nil_append]
  rw [hshape]
  refine balanced_append (balanced_append ?_ (balanced_parens (balanced_word F.type_covers))) ?_
  · exact balanced_append (balanced_append (by decide) (balanced_word F.name_covers)) (by decide)
  · exact balanced_append (balanced_append (by decide)
      (balanced_parens (balanced_resource F.id_covers))) (by decide)

theorem stands_addAssignments (h : addAssignments code (fs.map Field.view) = .ok t')
    (hs : H.Stands code) : H.Stands t' := by
  have hblock : Balanced (unlines (fs.map assignmentRow)) := balanced_unlines (fun l hl => by
    obtain ⟨F, -, rfl⟩ := mem_map.mp hl
    exact balanced_assignmentRow F)
  have hname : word.Covers "initViews" := covers_word.mpr ⟨by simp, all_eq_true.mp (by decide)⟩
  rcases addAssignments_cases h with rfl | ⟨seen, seen', rfl⟩
  · exact hs
  · exact stands_placedIn seen seen' hname hblock hs

theorem edit_stands {ls : List Listener} (hl : f.Lists fs cs ls)
    (h : edit f code = .ok t') (hs : H.Stands code) : H.Stands t' := by
  obtain ⟨bare, hfold, hadd⟩ := edit_parts hl h
  refine stands_addAssignments hadd (foldlM_inv H.Stands (fun c b hb c' hc hstep => ?_) hs hfold)
  obtain ⟨F, -, rfl⟩ := mem_map.mp hb
  exact stands_dropMark hstep hc

end FieldLookup

/-! ## click handlers -/

namespace ClickListener

variable {H : Header} {code t' : Text}

theorem clickMark_spared (h : clickMark.Covers s) : Apart H.text s ∧ Balanced s := by
  obtain ⟨_, _, rfl, rfl, b1, _, rfl, hb1, _, _, rfl, rfl, b2, _, rfl, hb2, o, _, rfl, ho, i,
    _, rfl, hi, c, _, rfl, hc, b3, _, rfl, hb3, rfl⟩ := h
  have hshape : "@OnClick" ++ (b1 ++ ("(" ++ (b2 ++ (o ++ (i ++ (c ++ (b3 ++ ")")))))))
      = "@OnClick" ++ b1 ++ '(' :: ((b2 ++ o ++ i ++ c ++ b3) ++ [')']) := by simp
  have hinner : ∀ x : Char, x = '(' ∨ x = ')' → x ∉ b2 ++ o ++ i ++ c ++ b3 := by
    intro x hx
    have hblanks : blanks.Avoids x := avoids_run (by rcases hx with rfl | rfl <;> decide)
    have hlit : ∀ w : String, ('(' ∉ w.toList ∧ ')' ∉ w.toList) → (lit w).Avoids x := fun w hw =>
      avoids_text (by rcases hx with rfl | rfl <;> tauto)
    have hid : plainId.Avoids x := avoids_andThen (hlit "R.id." (by decide))
      (avoids_run1 (by rcases hx with rfl | rfl <;> decide))
    have hopen := avoids_maybe (avoids_andThen (hlit "\x7b" (by decide)) hblanks) o ho
    have hids := avoids_maybe (avoids_andThen hid (avoids_many (avoids_andThen hblanks
      (avoids_andThen (hlit "," (by decide)) (avoids_andThen hblanks hid))))) i hi
    have hclose := avoids_maybe (avoids_andThen hblanks (hlit "\x7d" (by decide))) c hc
    simp only [mem_append, not_or]
    exact ⟨⟨⟨⟨hblanks b2 hb2, hopen⟩, hids⟩, hclose⟩, hblanks b3 hb3⟩
  rw [hshape]
  refine ⟨H.apart_of_click hb1 (hinner _ (.inl rfl)) (hinner _ (.inr rfl)), ?_⟩
  exact balanced_append (balanced_append (by decide) (balanced_blanks hb1))
    (balanced_parens (balanced_of_not_mem (hinner _ (.inl rfl)) (hinner _ (.inr rfl))))

theorem stands_dropMark {L : Listener} (h : dropMark code L.handler = .ok t') (hs : H.Stands code) :
    H.Stands t' := by
  have hstep : (if L.ids.isEmpty then Except.ok code else .ok (clickMark.erase code))
      = (.ok t' : Except Fault Text) := h
  split at hstep
  · rwa [← Except.ok.inj hstep]
  · rw [← Except.ok.inj hstep]
    refine hs.replace (fun m hm => ?_)
    obtain ⟨hapart, hbalanced⟩ := clickMark_spared (H := H) (of_mem_findAll hm).covers
    exact ⟨hapart, hbalanced⟩

theorem parensFrom_listener {method id : Text} (hmethod : word.Covers method)
    (hid : resourceId.Covers id) (p : Nat × Nat) : (listener method id).foldl parensFrom p = p := by
  have hview : Balanced (viewName id) := by
    refine balanced_append (by decide) (balanced_of_not_mem ?_ ?_)
    · exact fun hm => not_mem_resource hid (by decide) (by decide) (mem_of_mem_afterLast hm)
    · exact fun hm => not_mem_resource hid (by decide) (by decide) (mem_of_mem_afterLast hm)
  -- the first line opens a parenthesis that the last one closes
  have hfirst : parens ".setOnClickListener(new View.OnClickListener() \x7b" = (0, 1) := by decide
  have hlast : parens "        \x7d);" = (1, 0) := by decide
  have hcall : Balanced ("                " ++ method ++ "(v);") :=
    balanced_append (balanced_append (by decide) (balanced_word hmethod)) (by decide)
  have hover : Balanced "            @Override" := by decide
  have hclick : Balanced "            public void onClick(View v) \x7b" := by decide
  have hbrace : Balanced "            \x7d" := by decide
  have hnil : Balanced [] := by decide
  have hspaces : Balanced "        " := by decide
  simp only [listener, foldl_cons, foldl_nil]
  rw [hnil.parensFrom, hbrace.parensFrom, hcall.parensFrom, hclick.parensFrom, hover.parensFrom,
    parensFrom_append, (balanced_append hspaces hview).parensFrom, parensFrom_eq _ "        \x7d);",
    hlast, parensFrom_eq, hfirst]
  ext <;> simp

theorem stands_addListeners (hcs : ResourcesOnly cs)
    (h : addListeners code (cs.map Listener.handler) = .ok t') (hs : H.Stands code) :
    H.Stands t' := by
  have hblock : Balanced (unlines (cs.flatMap (fun L => L.ids.flatMap (listener L.method)))) := by
    rw [Balanced, parens, parensFrom_unlines]
    refine foldl_flatMap_id (fun L hL p => foldl_flatMap_id (fun id hid p => ?_) p) _
    exact parensFrom_listener L.method_covers (hcs L hL id hid) p
  have hname : word.Covers "initListener" :=
    covers_word.mpr ⟨by simp, all_eq_true.mp (by decide)⟩
  rcases addListeners_cases h with rfl | ⟨seen, seen', rfl⟩
  · exact hs
  · exact stands_placedIn seen seen' hname hblock hs

theorem edit_stands {ls : List Listener} (hl : f.Lists fs cs ls)
    (hcs : ResourcesOnly cs) (h : edit f code = .ok t') (hs : H.Stands code) : H.Stands t' := by
  obtain ⟨bare, hfold, hadd⟩ := edit_parts hl h
  refine stands_addListeners hcs hadd (foldlM_inv H.Stands (fun c b hb c' hc hstep => ?_) hs hfold)
  obtain ⟨L, -, rfl⟩ := mem_map.mp hb
  exact stands_dropMark hstep hc

end ClickListener

/-! ## bind calls -/

theorem mem_trim_or_blank (h : c ∈ t) : isBlank c = true ∨ c ∈ trim t := by
  have hcut : ∀ u : Text, c ∈ u → isBlank c = true ∨ c ∈ u.dropWhile isBlank := fun u hu => by
    rw [← takeWhile_append_dropWhile (p := isBlank) (l := u), mem_append] at hu
    exact hu.imp_left (fun hm => mem_takeWhile_imp hm)
  rcases hcut t h with hb | hm
  · exact .inl hb
  · exact (hcut _ (mem_reverse.mpr hm)).imp_right (fun hm => mem_reverse.mpr hm)

theorem mem_lines_unlines {ls : List Text} (hls : ∀ l ∈ ls, '\n' ∉ l)
    (h : l ∈ lines (unlines ls)) : l = [] ∨ l ∈ ls := by
  by_cases hne : ls = []
  · rw [hne, show lines (unlines []) = [[]] from rfl] at h
    exact .inl (mem_singleton.mp h)
  · rw [lines_unlines hne hls] at h
    exact .inr h

namespace BindCall

variable {H : Header} {code t' : Text}

def bindsLine (l : Text) : Bool := occursIn "ButterKnife.bind" l || occursIn "ButterKnife.unbind" l

theorem spared_of_blank (h : ∀ c ∈ l, isBlank c ∨ c = ';') : Balanced l ∧ ¬ H.text <:+: l := by
  have hnot : ∀ x : Char, isBlank x = false → x ≠ ';' → x ∉ l := fun x hx hne hm => by
    rcases h x hm with hb | rfl
    · rw [hb] at hx
      cases hx
    · exact hne rfl
  refine ⟨balanced_of_not_mem (hnot _ (by decide) (by decide)) (hnot _ (by decide) (by decide)),
    fun hi => ?_⟩
  obtain ⟨c, r, hc, hword⟩ := H.head_word
  refine hnot c (isBlank_of_isWord hword) ?_ (hi.mem (by rw [hc]; simp))
  rintro rfl
  exact absurd hword (by decide)

theorem spared_of_isEmptyLine (h : isEmptyLine l) : Balanced l ∧ ¬ H.text <:+: l := by
  refine spared_of_blank (fun c hc => (mem_trim_or_blank hc).imp_right (fun hm => ?_))
  simp only [isEmptyLine, Bool.or_eq_true, List.isEmpty_iff, beq_iff_eq] at h
  rcases h with he | he
  · rw [he] at hm
    cases hm
  · rw [he] at hm
    exact mem_singleton.mp hm

theorem stands_dropLines {call : Text} (hspared : H.SparedBy (occursIn call) code)
    (hs : H.Stands code) :
    H.Stands (dropLines call code) := by
  refine hs.dropped (Dropped.filter (fun l hl hdrop => ?_))
  by_cases hcall : occursIn call l = true
  · exact hspared l hl hcall
  · simp only [hcall, Bool.not_false, Bool.true_and, Bool.not_eq_false'] at hdrop
    exact spared_of_isEmptyLine hdrop

theorem importLine_spared {cls : String} (hcls : ∀ c ∈ cls.toList, isWord c)
    (h : (importLine cls).Covers s) : Apart H.text s ∧ Balanced s := by
  obtain ⟨_, _, rfl, ⟨_, b1, rfl, rfl, hb1⟩, _, _, rfl, rfl, _, _, rfl, rfl, b2, _, rfl, hb2, _,
    _, rfl, rfl, b3, n, rfl, hb3, hn⟩ := h
  have hshape : "import" ++ b1 ++ ("butterknife." ++ (cls.toList ++ (b2 ++ (";"
      ++ (b3 ++ n))))) = ("import" ++ b1 ++ "butterknife." ++ cls.toList ++ b2)
        ++ ';' :: (b3 ++ n) := by simp
  have hbehind : ∀ c ∈ b3 ++ n, isBlank c := by
    intro c hc
    rcases mem_append.mp hc with hc | hc
    · exact hb3 c hc
    · rcases hn with rfl | rfl
      · cases hc
      · rw [show c = '\n' by simpa using hc]
        exact isBlank_newline
  have hnot : ∀ x : Char, isBlank x = false → isWord x = false → x ≠ '.' → x ≠ ';'
      → x ∉ ("import" ++ b1 ++ "butterknife." ++ cls.toList ++ b2) ++ ';' :: (b3 ++ n) := by
    intro x hb hw hdot hsemi
    have hlit : ∀ t : Text, (∀ c ∈ t, isWord c ∨ c = '.') → x ∉ t := fun t ht hm => by
      rcases ht x hm with hx | rfl
      · rw [hx] at hw
        cases hw
      · exact hdot rfl
    have hblank : ∀ t : Text, (∀ c ∈ t, isBlank c) → x ∉ t := fun t ht hm => by
      rw [ht x hm] at hb
      cases hb
    have hword : ∀ t : Text, t.all (fun c => isWord c || c == '.') → x ∉ t := fun t ht =>
      hlit t (fun c hc => by simpa using all_eq_true.mp ht c hc)
    rw [mem_append, mem_cons, not_or, not_or]
    refine ⟨?_, hsemi, hblank _ hbehind⟩
    simp only [mem_append, not_or]
    exact ⟨⟨⟨⟨hword _ (by decide), hblank _ (covers_run1.mp hb1).2⟩, hword _ (by decide)⟩,
      hlit _ (fun c hc => .inl (hcls c hc))⟩, hblank _ hb2⟩
  rw [hshape]
  exact ⟨H.apart_of_statement (hnot _ (by decide) (by decide) (by decide) (by decide)) hbehind,
    balanced_of_not_mem (hnot _ (by decide) (by decide) (by decide) (by decide))
      (hnot _ (by decide) (by decide) (by decide) (by decide))⟩

theorem stands_dropImports (hs : H.Stands code) : H.Stands (dropImports code) := by
  have hstep : ∀ (cls : String) (t : Text), cls.toList.all isWord → H.Stands t →
      H.Stands ((importLine cls).erase t) := fun cls t hcls ht => by
    refine ht.replace (fun m hm => ?_)
    obtain ⟨hapart, hbalanced⟩ := importLine_spared (H := H) (all_eq_true.mp hcls)
      (of_mem_findAll hm).covers
    exact ⟨hapart, hbalanced⟩
  exact hstep _ _ (by decide) (hstep _ _ (by decide) (hstep _ _ (by decide) hs))

theorem dropped_squeezeFrom (kept : List Text) (blank : Bool) (ls : List Text) :
    ∃ ls', squeezeFrom kept blank ls = kept.reverse ++ ls'
      ∧ Dropped (fun l => isBlankText l = true) ls ls' := by
  induction ls generalizing kept blank with
  | nil => exact ⟨[], by simp [squeezeFrom], .nil⟩
  | cons l ls ih =>
    rw [squeezeFrom]
    split
    · next hb =>
      obtain ⟨ls', he, hd⟩ := ih kept true
      exact ⟨ls', he, .drop (Bool.and_eq_true_iff.mp hb).1 hd⟩
    · obtain ⟨ls', he, hd⟩ := ih (l :: kept) (isBlankText l)
      exact ⟨l :: ls', by rw [he]; simp, .keep l hd⟩

theorem dropped_squeezeLines (ls : List Text) :
    Dropped (fun l => isBlankText l = true) ls (squeezeLines ls) := by
  obtain ⟨ls', he, hd⟩ := dropped_squeezeFrom [] false ls
  rw [squeezeLines, he, reverse_nil, nil_append]
  have hfront := hd.trans (Dropped.dropWhile (fun _ h => h) ls')
  have hback := (hfront.reverse.trans (Dropped.dropWhile (fun _ h => h) _)).reverse
  rwa [reverse_reverse] at hback

theorem stands_squeezeBlankLines (hs : H.Stands code) : H.Stands (squeezeBlankLines code) :=
  hs.dropped ((dropped_squeezeLines (lines code)).imp (fun _ hl =>
    spared_of_blank (fun c hc => .inl (all_eq_true.mp hl c hc))))

theorem edit_stands (h : edit f code = .ok t') (hspared : H.SparedBy bindsLine code)
    (hs : H.Stands code) : H.Stands t' := by
  obtain ⟨v, -, h⟩ := bind_eq_ok.mp h
  split at h
  · rwa [← Except.ok.inj h]
  · rw [← Except.ok.inj h]
    have hbind : H.SparedBy (occursIn "ButterKnife.bind") code := fun l hl hcall =>
      hspared l hl (by rw [bindsLine, hcall]; rfl)
    have hunbind : H.SparedBy (occursIn "ButterKnife.unbind") (dropBind code) :=
      fun l hl hcall => by
      rcases mem_lines_unlines (fun x hx => not_mem_of_mem_lines (mem_of_mem_filter hx))
        hl with rfl | hl
      · exact spared_of_blank (by simp)
      · exact hspared l (mem_of_mem_filter hl) (by rw [bindsLine, hcall, Bool.or_true])
    exact stands_squeezeBlankLines
      (stands_dropImports (stands_dropLines hunbind (stands_dropLines hbind hs)))

end BindCall

end Rebind
