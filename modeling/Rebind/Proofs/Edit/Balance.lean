import Mathlib
import Rebind.Proofs.Edit.Places
import Rebind.Proofs.Edit.Sparing
import Rebind.Proofs.Migration.Totality

/-!
# The braces of edited code

The editors of fields and of click handlers change code in two ways: they take annotations out,
which hold no braces, and they put initialisation code in, in which every brace has its partner
(`paired_assignments`, `paired_listeners`), since names that were read off a source hold none.
Either change leaves as many braces open as before, and closes no more than are open
(`KeepsBraces`), whichever of the sites is chosen and however often one is.
-/

namespace Rebind

open List Pattern

/-- the change leaves as many braces open, and closes no more than are open if that was so before -/
structure KeepsBraces (t t' : Text) : Prop where
  balance : braceBalance t' = braceBalance t
  enough : ∀ d, Enough d t → Enough d t'

section
variable {p : Pattern} {s t u w new : Text}

theorem keepsBraces_refl (t : Text) : KeepsBraces t t := ⟨rfl, fun _ h => h⟩

theorem KeepsBraces.trans (h : KeepsBraces s t) (h' : KeepsBraces t u) : KeepsBraces s u :=
  ⟨h'.balance.trans h.balance, fun d hd => h'.enough d (h.enough d hd)⟩

theorem keepsBraces_insertAt (hw : Paired w) (k : Nat) (t : Text) :
    KeepsBraces t (insertAt k w t) := by
  have hsplit := take_append_drop k t
  constructor
  · have hsum := braceBalance_append (t.take k) (t.drop k)
    rw [hsplit] at hsum
    rw [insertAt, braceBalance_append, braceBalance_append, hw.balance, hsum, add_zero]
  · intro d hd
    rw [← hsplit, enough_append] at hd
    rw [insertAt, enough_append, enough_append, braceBalance_append, hw.balance, add_zero]
    exact ⟨⟨hd.1, hw.enough.mono hd.2.nonneg⟩, hd.2⟩

theorem keepsBraces_putAt (hw : Paired w) (place : Option Nat) (t : Text) :
    KeepsBraces t (putAt place w t) := by
  cases place with
  | none => exact keepsBraces_refl t
  | some k => exact keepsBraces_insertAt hw k t

theorem Replaced.keepsBraces (h : Replaced p new t u) (hopen : p.Avoids '\x7b')
    (hclose : p.Avoids '\x7d') (hnew : Paired new) : KeepsBraces t u := by
  induction h with
  | nil => exact keepsBraces_refl []
  | keep _ _ ih =>
    constructor
    · rw [braceBalance_cons, braceBalance_cons, ih.balance]
    · intro d hd
      rw [enough_cons] at hd ⊢
      exact ⟨hd.1, ih.enough _ hd.2⟩
  | swap hs _ ih =>
    have hflat := paired_of_flat (hopen _ hs) (hclose _ hs)
    constructor
    · rw [braceBalance_append, braceBalance_append, ih.balance, hnew.balance, hflat.balance]
    · intro d hd
      rw [enough_append, hflat.balance, add_zero] at hd
      rw [enough_append, hnew.balance, add_zero]
      exact ⟨hnew.enough.mono hd.1.nonneg, ih.enough _ hd.2⟩

end

/-! ## the sites -/

section
variable {name block : Text}

theorem paired_wrap {site : BodySite} (h : site ∈ bodySites) (hblock : Paired block) :
    Paired (site.wrap block) := by
  have hfront : Paired site.front := by
    simp only [bodySites, mem_cons, not_mem_nil, or_false] at h
    rcases h with rfl | rfl
    · exact paired_of_flat (by decide) (by decide)
    · exact paired_of_flat (by decide) (by decide)
  exact (hfront.append hblock).append (paired_of_flat (by decide) (by decide))

theorem keepsBraces_site {site : BodySite} (h : site ∈ bodySites) (hblock : Paired block)
    (code : Text) :
    KeepsBraces code (site.insert code block) := by
  rw [BodySite.insert_eq h]
  exact keepsBraces_putAt (paired_wrap h hblock) _ code

theorem keepsBraces_placedIn (hname : word.Covers name) (hblock : Paired block) (code : Text)
    (seen seen' : Bool) :
    KeepsBraces code (placedIn name block code seen seen') := by
  refine placedIn_inv (KeepsBraces code)
    (fun t h => h.trans (keepsBraces_site onCreateSite_mem hblock t))
    (fun t h => h.trans (keepsBraces_site onViewCreatedSite_mem hblock t)) (fun t h => h.trans ?_)
      seen seen'
    (keepsBraces_refl code)
  rw [addMethodAfterClass_eq]
  exact keepsBraces_putAt (paired_privateMethod hname hblock) _ t

end

theorem paired_resource {id : Text} (h : resourceId.Covers id) : Paired id :=
  paired_of_flat (not_mem_resource h (by decide) (by decide))
    (not_mem_resource h (by decide) (by decide))

/-! ## fields -/

namespace FieldLookup

/-- an annotated declaration holds no brace -/
theorem avoids_annotated (F : Field) {c : Char} (hc : c = '\x7b' ∨ c = '\x7d') :
    (annotated F).Avoids c := by
  have hblank : isBlank c = false := by rcases hc with rfl | rfl <;> decide
  have hword : isWord c = false := by rcases hc with rfl | rfl <;> decide
  have hdot : c ≠ '.' := by rcases hc with rfl | rfl <;> decide
  have hlit : ∀ w : String, '\x7b' ∉ w.toList → '\x7d' ∉ w.toList → c ∉ w.toList := by
    intro w hopen hclose
    rcases hc with rfl | rfl
    · exact hopen
    · exact hclose
  have haccess : accessModifier.Avoids c :=
    avoids_orElse (avoids_keyword (hlit _ (by decide) (by decide)) hblank)
      (avoids_orElse (avoids_keyword (hlit _ (by decide) (by decide)) hblank)
        (avoids_keyword (hlit _ (by decide) (by decide)) hblank))
  refine avoids_seq fun p hp => ?_
  simp only [mem_cons, not_mem_nil, or_false] at hp
  rcases hp with rfl | rfl | rfl | rfl | rfl | rfl | rfl | rfl | rfl | rfl | rfl | rfl | rfl | rfl
  · exact avoids_text (hlit _ (by decide) (by decide))
  · exact avoids_run hblank
  · exact avoids_text (hlit _ (by decide) (by decide))
  · exact avoids_run hblank
  · exact avoids_text (not_mem_resource F.id_covers hword hdot)
  · exact avoids_run hblank
  · exact avoids_text (hlit _ (by decide) (by decide))
  · exact avoids_run1 hblank
  · exact avoids_maybe haccess
  · exact avoids_text (avoids_run1 hword _ F.type_covers)
  · exact avoids_run1 hblank
  · exact avoids_text (avoids_run1 hword _ F.name_covers)
  · exact avoids_run hblank
  · exact avoids_text (hlit _ (by decide) (by decide))

theorem paired_plainDeclaration (F : Field) : Paired (plainDeclaration F) := by
  have hspace : Paired [' '] := paired_of_flat (by decide) (by decide)
  have hend : Paired [';'] := paired_of_flat (by decide) (by decide)
  exact ((paired_word F.type_covers).append (hspace.append (paired_word F.name_covers))).append hend

theorem keepsBraces_dropMarks {fs : List Field} {code out : Text}
    (h : (fs.map Field.view).foldlM dropMark code = .ok out) : KeepsBraces code out := by
  refine foldlM_inv (KeepsBraces code) (fun t view hview t' hkept hdrop => ?_)
    (keepsBraces_refl code) h
  obtain ⟨F, -, rfl⟩ := mem_map.mp hview
  exact hkept.trans ((dropMark_replaced hdrop).keepsBraces (avoids_annotated F (.inl rfl))
    (avoids_annotated F (.inr rfl)) (paired_plainDeclaration F))

theorem paired_assignments (fs : List Field) : Paired (unlines (fs.map assignmentRow)) := by
  refine paired_unlines fun l hl => ?_
  obtain ⟨F, -, rfl⟩ := mem_map.mp hl
  have hspace : Paired "        " := paired_of_flat (by decide) (by decide)
  have hcast : Paired " = (" := paired_of_flat (by decide) (by decide)
  have hcall : Paired ") findViewById(" := paired_of_flat (by decide) (by decide)
  have hend : Paired ");" := paired_of_flat (by decide) (by decide)
  have hname := (hspace.append (paired_word F.name_covers)).append hcast
  exact (((hname.append (paired_word F.type_covers)).append hcall).append
    (paired_resource F.id_covers)).append hend

theorem keepsBraces_edit {f : Findings} {fs : List Field} {cs ls : List Listener} {code out : Text}
    (hl : f.Lists fs cs ls) (h : edit f code = .ok out) : KeepsBraces code out := by
  have hname : word.Covers "initViews" := word_covers_initMethod mem_cons_self
  obtain ⟨bare, hdrop, hadd⟩ := edit_parts hl h
  refine (keepsBraces_dropMarks hdrop).trans ?_
  rcases addAssignments_cases hadd with rfl | ⟨seen, seen', rfl⟩
  · exact keepsBraces_refl out
  · exact keepsBraces_placedIn hname (paired_assignments fs) bare seen seen'

end FieldLookup

/-! ## click handlers -/

namespace ClickListener

theorem paired_rows {a b c d e f g : Text} (ha : Paired a) (hb : Paired b) (hc : Paired c)
    (hd : Paired d) (he : Paired e) (hf : Paired f) (hg : Paired g) :
    Paired (unlines [a ++ ['\x7b'], b, c ++ ['\x7b'], d, e ++ ['\x7d'], f ++ '\x7d' :: g, []]) := by
  have hbreak := paired_newline
  have hinner := ((hbreak.append hd).append (hbreak.append he)).braced
  have houter := ((((hbreak.append hb).append (hbreak.append hc)).append hinner).append
    (hbreak.append hf)).braced
  have hall := ((ha.append houter).append hg).append hbreak
  simpa [unlines, intercalate] using hall

theorem paired_viewName {id : Text} (h : resourceId.Covers id) : Paired (viewName id) := by
  have hlast : ∀ c, isWord c = false → c ≠ '.' → c ∉ afterLast '.' id :=
    fun c hword hdot hm => not_mem_resource h hword hdot (mem_of_mem_afterLast hm)
  have hfront : Paired "view_" := paired_of_flat (by decide) (by decide)
  exact hfront.append (paired_of_flat (hlast _ (by decide) (by decide))
    (hlast _ (by decide) (by decide)))

theorem paired_listener {method id : Text} (hmethod : word.Covers method)
    (hid : resourceId.Covers id) :
    Paired (unlines (listener method id)) := by
  have hlit : ∀ w : String, '\x7b' ∉ w.toList → '\x7d' ∉ w.toList → Paired w.toList :=
    fun _ hopen hclose => paired_of_flat hopen hclose
  have hstart : ".setOnClickListener(new View.OnClickListener() \x7b"
      = ".setOnClickListener(new View.OnClickListener() " ++ ['\x7b'] := by decide
  have hclick : "            public void onClick(View v) \x7b"
      = "            public void onClick(View v) " ++ ['\x7b'] := by decide
  have hinner : "            \x7d" = "            " ++ ['\x7d'] := by decide
  have houter : "        \x7d);" = "        " ++ '\x7d' :: ");" := by decide
  have hcall : Paired ("                " ++ method ++ "(v);") :=
    ((hlit _ (by decide) (by decide)).append (paired_word hmethod)).append
      (hlit _ (by decide) (by decide))
  have hset : Paired ("        " ++ viewName id
      ++ ".setOnClickListener(new View.OnClickListener() ") :=
    ((hlit _ (by decide) (by decide)).append (paired_viewName hid)).append
      (hlit _ (by decide) (by decide))
  have hrows := paired_rows hset (hlit "            @Override" (by decide) (by decide))
    (hlit "            public void onClick(View v) " (by decide) (by decide)) hcall
    (hlit "            " (by decide) (by decide)) (hlit "        " (by decide) (by decide))
    (hlit ");" (by decide) (by decide))
  rwa [append_assoc _ _ ['\x7b'], ← hstart, ← hclick, ← hinner, ← houter] at hrows

theorem paired_listeners {cs : List Listener} (h : ResourcesOnly cs) :
    Paired (unlines (cs.flatMap fun L => L.ids.flatMap (listener L.method))) :=
  paired_unlines_flatMap fun L hL =>
    paired_unlines_flatMap fun id hid => paired_listener L.method_covers (h L hL id hid)

theorem keepsBraces_addListeners {cs : List Listener} {code out : Text} (hids : ResourcesOnly cs)
    (h : addListeners code (cs.map Listener.handler) = .ok out) : KeepsBraces code out := by
  have hname : word.Covers "initListener" :=
    word_covers_initMethod (mem_cons_of_mem _ mem_cons_self)
  rcases addListeners_cases h with rfl | ⟨seen, seen', rfl⟩
  · exact keepsBraces_refl out
  · exact keepsBraces_placedIn hname (paired_listeners hids) code seen seen'

end ClickListener

/-- Code that is edited by what was found in a source keeps its braces: its fields are looked up,
and its click listeners are set, with as many braces left open as before and none closed that is not
open -/
theorem edits_keep_braces (source code : Text) :
    (∃ out, FieldLookup.edit (Findings.detect source) code = .ok out ∧ KeepsBraces code out)
      ∧ ∃ hs out, (Findings.detect source).clicks = .given hs
        ∧ ClickListener.addListeners code hs = .ok out ∧ KeepsBraces code out := by
  obtain ⟨fs, cs, ls, hl, hids⟩ := detect_lists source
  obtain ⟨looked, hlooked⟩ := FieldLookup.edit_returns hl code
  obtain ⟨set, hset⟩ := ClickListener.addListeners_returns code cs
  exact ⟨⟨looked, hlooked, FieldLookup.keepsBraces_edit hl hlooked⟩, _, set, hl.clicks, hset,
    ClickListener.keepsBraces_addListeners hids hset⟩

end Rebind
