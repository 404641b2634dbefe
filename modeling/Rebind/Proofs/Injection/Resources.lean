import Mathlib
import Rebind.Proofs.Findings.WellFormed
import Rebind.Proofs.Injection.Bindings
import Rebind.Proofs.Injection.Standing

/-!
# Which resources are looked up

A resource of a library is named `R2.id.` with a word, and the code of the application has to look
it up as `R.id.` with the same word.  `LooksUp arg t` says that the text `t` calls `findViewById`
with the argument `arg`; `InApplication t` says that no argument holds the mark of a library, and
`Names ids t` that each of the resources `ids` is looked up under its name in the application.

* `Replaced.old_gone`: what is replaced is gone from the result;
* `library_infix_iff`: the mark is left in a resource iff it stands in it, but not in front;
* `lookups_in_application_iff`: the blocks that are injected look nothing up in a library, unless
  the text of a long-click annotation has the mark elsewhere than in front of a resource, and the
  assignments of the fields do so for each field bound to a library.
-/

namespace Rebind

open List Pattern

def libraryMark : Text := "R2.id."

/-- the text calls `findViewById` with the argument `arg`, up to the first closing parenthesis -/
def LooksUp (arg t : Text) : Prop := ')' ∉ arg ∧ "findViewById(".toList ++ (arg ++ [')']) <:+: t

instance (arg t : Text) : Decidable (LooksUp arg t) :=
  inferInstanceAs (Decidable (')' ∉ arg ∧ "findViewById(".toList ++ (arg ++ [')']) <:+: t))

/-- nothing is looked up in a library -/
def InApplication (t : Text) : Prop := ∀ arg, LooksUp arg t → ¬ libraryMark <:+: arg

/-- each of the resources is looked up under its name in the application -/
def Names (ids : List Text) (t : Text) : Prop :=
  ∀ id ∈ ids, ∀ w, IsName w → (id = "R.id." ++ w ∨ id = "R2.id." ++ w) →
    LooksUp ("R.id." ++ w) t

/-- the listeners have the mark of a library only in front of a resource -/
def MarksInFront (ls : List Listener) : Prop :=
  ∀ L ∈ ls, ∀ id ∈ L.ids, libraryMark <:+: id → libraryMark <+: id

/-! ## what is replaced is gone -/

section
variable {x : Char} {u v t t' : Text}

theorem Replaced.front_of_not_mem {p : Pattern} {w r : Text} (h : Replaced p (x :: v) t t')
    (hw : x ∉ w) (ht : t' = w ++ r) : w <+: t := by
  induction w generalizing t t' with
  | nil => exact nil_prefix
  | cons y w ih =>
    have hy : x ≠ y := fun he => hw (he ▸ mem_cons_self)
    cases h with
    | nil => cases ht
    | keep hno htail =>
      obtain ⟨rfl, htail'⟩ := List.cons.inj ht
      exact cons_prefix_cons.mpr ⟨rfl, ih htail (fun hm => hw (mem_cons_of_mem _ hm)) htail'⟩
    | swap hs htail => exact absurd (List.cons.inj ht).1 hy

/-- an occurrence in the result would start at a character that was kept, or at the start of what
was put in: in the first case it was one before, and in the second it would agree with what was put
in -/
theorem Replaced.old_gone (h : Replaced (.text (x :: u)) (x :: v) t t') (hu : x ∉ u) (hv : x ∉ v)
    (huv : ¬ u <+: v) (hvu : ¬ v <+: u) : ¬ x :: u <:+: t' := by
  induction h with
  | nil => simp
  | @keep c t t' hno htail ih =>
    rw [infix_cons_iff, not_or]
    refine ⟨?_, ih⟩
    rintro ⟨r, hr⟩
    obtain ⟨rfl, hr'⟩ := List.cons.inj hr
    obtain ⟨r', rfl⟩ := htail.front_of_not_mem hu hr'.symm
    exact hno ⟨x :: u, r', rfl, rfl⟩
  | @swap s t t' hs htail ih =>
    rw [cons_append, infix_cons_iff, not_or, infix_skip hv]
    refine ⟨?_, ih⟩
    rintro ⟨r, hr⟩
    have htail' : u ++ r = v ++ t' := (List.cons.inj hr).2
    rcases append_eq_append_iff.mp htail' with ⟨w, rfl, -⟩ | ⟨w, rfl, -⟩
    · exact huv ⟨w, rfl⟩
    · exact hvu ⟨w, rfl⟩

end

/-! ## the mark of a library -/

theorem not_infix_replaced (id : Text) :
    ¬ libraryMark <:+: replaceAll "R2.id.".toList "R.id.".toList id := by
  have hold : "R2.id.".toList ≠ [] := by decide
  have hempty : ¬ (Pattern.text "R2.id.".toList).Covers [] := fun h => hold h.symm
  rw [replaceAll_eq_replace hold]
  exact (replaced_replace rfl hempty "R.id.".toList id).old_gone (x := 'R') (u := "2.id.".toList)
    (v := ".id.".toList) (by decide) (by decide) (by decide) (by decide)

/-- the mark is left in a resource iff it stands in it, but not in front -/
theorem library_infix_iff (id : Text) :
    libraryMark <:+: applicationId id ↔ libraryMark <:+: id ∧ ¬ libraryMark <+: id := by
  unfold applicationId
  split
  · next h =>
    have hfront : libraryMark <+: id := isPrefixOf_iff_prefix.mp h
    exact iff_of_false (not_infix_replaced id) (fun hb => hb.2 hfront)
  · next h =>
    have hfront : ¬ libraryMark <+: id := fun hp => h (List.isPrefixOf_iff_prefix.mpr hp)
    exact (and_iff_left hfront).symm

theorem library_front_of_occurs {id : Text} (hid : resourceId.Covers id) (h : libraryMark <:+: id) :
    libraryMark <+: id := by
  obtain ⟨two, w, rfl, htwo, hw⟩ := covers_resourceId.mp hid
  have hdot : '.' ∉ w := avoids_run1 (by decide) w hw
  rcases htwo with rfl | rfl
  · rcases infix_cons_iff.mp h with hp | hi
    · exact hp
    · have hword : libraryMark <:+: w :=
        (infix_skip (x := 'R') (s := "2.id.") (a := ".id.") (by decide)).mp hi
      exact absurd (hword.mem (by decide)) hdot
  · exact ⟨w, rfl⟩

def FreeOfLibrary (t : Text) : Prop := ¬ libraryMark <:+: t

section
variable {a b t id name call view : Text}

theorem freeOfLibrary_of_count (h : t.count '.' < 2) : FreeOfLibrary t := by
  intro hi
  have hcount : libraryMark.count '.' ≤ t.count '.' := hi.sublist.count_le '.'
  have htwo : libraryMark.count '.' = 2 := by decide
  omega

theorem freeOfLibrary_of_not_mem (h : '.' ∉ t) : FreeOfLibrary t := fun hi => h (hi.mem (by decide))

theorem freeOfLibrary_around {x : Char} (hx : x ∉ libraryMark) :
    FreeOfLibrary (a ++ x :: b) ↔ FreeOfLibrary a ∧ FreeOfLibrary b := by
  unfold FreeOfLibrary
  rw [infix_around_iff hx, not_or]

theorem freeOfLibrary_behind (ha : 'R' ∉ a) : FreeOfLibrary (a ++ b) ↔ FreeOfLibrary b :=
  not_congr (infix_skip (s := "2.id.") ha)

theorem freeOfLibrary_applicationId (h : libraryMark <:+: id → libraryMark <+: id) :
    FreeOfLibrary (applicationId id) := fun hi =>
  let hboth := (library_infix_iff id).mp hi
  hboth.2 (h hboth.1)

theorem FreeOfLibrary.inApplication (h : FreeOfLibrary t) : InApplication t := fun _ harg hi =>
  h (hi.trans ((infix_append_of_infix_right (infix_append_of_infix_left infix_rfl)).trans harg.2))

theorem freeOfLibrary_unlines {rows : List Text} (h : ∀ l ∈ rows, FreeOfLibrary l) :
    FreeOfLibrary (unlines rows) := by
  intro hi
  obtain ⟨l, hl, hin⟩ := (infix_unlines_iff (by decide) (by decide)).mp hi
  exact h l hl hin

theorem LooksUp.mono {arg s : Text} (h : LooksUp arg s) (hs : s <:+: t) : LooksUp arg t :=
  ⟨h.1, h.2.trans hs⟩

/-! ## the rows -/

theorem freeOfLibrary_framed {y : Char} {o e x c d : Text} (ha : FreeOfLibrary a)
    (hy : y ∉ libraryMark)
    (ho : o = y :: e) (hopen : 'R' ∉ e) (hx : FreeOfLibrary x) (hc : c = ')' :: d)
    (hclose : '.' ∉ d) :
    FreeOfLibrary (a ++ o ++ x ++ c) := by
  rw [ho, hc, append_assoc, append_assoc, cons_append, freeOfLibrary_around hy,
    freeOfLibrary_behind hopen, freeOfLibrary_around (by decide)]
  exact ⟨ha, hx, freeOfLibrary_of_not_mem hclose⟩

theorem freeOfLibrary_called {o x c r : Text} (hopen : 'R' ∉ o) (hx : FreeOfLibrary x)
    (hc : c = [')']) (hr : FreeOfLibrary r) : FreeOfLibrary (o ++ x ++ c ++ r) := by
  rw [hc, append_assoc, append_assoc, freeOfLibrary_behind hopen, singleton_append,
    freeOfLibrary_around (by decide)]
  exact ⟨hx, hr⟩

theorem freeOfLibrary_indented (h : FreeOfLibrary t) : FreeOfLibrary (indented t) :=
  (freeOfLibrary_behind (a := "        ") (by decide)).mpr h

theorem freeOfLibrary_listenerLine {kind : ClickKind}
    (hview : FreeOfLibrary (view ++ '.' :: kind.setter))
    (hcall : FreeOfLibrary call) : FreeOfLibrary (listenerLine kind view call) :=
  freeOfLibrary_indented (freeOfLibrary_framed (o := "(v -> ") (c := ");") hview
    (y := '(') (e := "v -> ") (d := [';']) (by decide) (by decide) (by decide) hcall (by decide)
    (by decide))

theorem freeOfLibrary_viewOf (kind : ClickKind) (h : FreeOfLibrary (applicationId id)) :
    FreeOfLibrary (viewOf id ++ '.' :: kind.setter) :=
  freeOfLibrary_called (o := "findViewById(") (c := ")") (by decide) h (by decide)
    (freeOfLibrary_of_count (by cases kind <;> decide))

theorem freeOfLibrary_named (kind : ClickKind) (h : '.' ∉ view) :
    FreeOfLibrary (view ++ '.' :: kind.setter) := by
  have hsetter : ('.' :: kind.setter).count '.' = 1 := by cases kind <;> decide
  refine freeOfLibrary_of_count ?_
  rw [count_append, count_eq_zero_of_not_mem h, hsetter]
  omega

theorem freeOfLibrary_lookupLine (hname : '.' ∉ name) (h : FreeOfLibrary (applicationId id)) :
    FreeOfLibrary (lookupLine name id) :=
  freeOfLibrary_indented (freeOfLibrary_framed (o := " = findViewById(") (c := ");")
    (freeOfLibrary_of_not_mem hname) (y := ' ') (e := "= findViewById(") (d := [';']) (by decide)
    (by decide) (by decide) h (by decide) (by decide))

theorem freeOfLibrary_itemLookupLine (hname : '.' ∉ name) (h : FreeOfLibrary (applicationId id)) :
    FreeOfLibrary (itemLookupLine name id) :=
  freeOfLibrary_indented (freeOfLibrary_framed (o := " = itemView.findViewById(") (c := ");")
    (freeOfLibrary_of_not_mem hname) (y := ' ') (e := "= itemView.findViewById(") (d := [';'])
    (by decide) (by decide) (by decide) h (by decide) (by decide))

/-! ## names and calls -/

theorem dot_not_mem_word {w : Text} (h : word.Covers w) : '.' ∉ w := avoids_run1 (by decide) w h

theorem Replaced.mem {p : Pattern} {new t' : Text} {c : Char} (h : Replaced p new t t')
    (hc : c ∈ t') :
    c ∈ t ∨ c ∈ new := by
  induction h with
  | nil => cases hc
  | keep _ _ ih =>
    rcases mem_cons.mp hc with rfl | hc
    · exact .inl mem_cons_self
    · exact (ih hc).imp_left (mem_cons_of_mem _)
  | swap _ _ ih =>
    rcases mem_append.mp hc with hc | hc
    · exact .inr hc
    · exact (ih hc).imp_left (mem_append_right _)

theorem dot_not_mem_viewNameIn (id : Text) (fs : List Field) : '.' ∉ viewNameIn id fs := by
  unfold viewNameIn
  split
  · next F _ => exact dot_not_mem_word F.name_covers
  · unfold viewNameOfId
    split
    · exact not_mem_append (by decide) (not_mem_afterLast '.' id)
    · next hdot =>
      have hempty : ¬ (Pattern.text "R_id_").Covers [] := fun h => by cases h
      refine not_mem_append (by decide) (fun hm => hdot ?_)
      rw [replaceAll_eq_erase] at hm
      have hmem := ((replaced_replace rfl hempty [] id).mem hm).resolve_right (by simp)
      simpa using hmem

theorem viewNameIn_ne_nil (id : Text) (fs : List Field) : (viewNameIn id fs).isEmpty = false := by
  unfold viewNameIn
  split
  · next F _ => simpa using (covers_word.mp F.name_covers).1
  · unfold viewNameOfId
    split <;> rfl

theorem itemViewIn_eq (id : Text) (fs : List Field) : itemViewIn id fs = viewNameIn id fs := by
  rw [itemViewIn, viewNameIn_ne_nil, if_neg (by simp)]

theorem freeOfLibrary_call (L : Listener) : FreeOfLibrary L.call := by
  refine freeOfLibrary_of_not_mem (not_mem_append (dot_not_mem_word L.method_covers) ?_)
  split <;> decide

theorem freeOfLibrary_castCall (L : Listener) : FreeOfLibrary L.castCall := by
  unfold Listener.castCall typedCall
  split
  · next hcast =>
    cases hview : L.view with
    | none =>
      rw [hview] at hcast
      cases hcast
    | some v =>
      refine freeOfLibrary_of_not_mem (not_mem_append (not_mem_append (not_mem_append
        (dot_not_mem_word L.method_covers) (by decide)) ?_) (by decide))
      exact dot_not_mem_word (L.view_covers v hview)
  · exact freeOfLibrary_call L

end

/-! ## the blocks -/

section
variable {fs : List Field} {cs ls : List Listener} {kind : ClickKind} {l id : Text}

theorem Field.freeOfLibrary (F : Field) : FreeOfLibrary (applicationId F.id) :=
  freeOfLibrary_applicationId (library_front_of_occurs F.id_covers)

theorem ResourcesOnly.marksInFront (h : ResourcesOnly cs) : MarksInFront cs :=
  fun L hL id hid => library_front_of_occurs (h L hL id hid)

theorem BlockLine.freeOfLibrary
    (h : BlockLine fs (fun id => FreeOfLibrary (applicationId id)) (fun _ => True) l) :
    FreeOfLibrary l := by
  cases h with
  | blank => exact freeOfLibrary_of_not_mem (by simp)
  | @comment c hc =>
    have hcomments : ∀ c ∈ [lookupComment, clickComment, longClickComment], '.' ∉ c := by decide
    exact freeOfLibrary_indented (freeOfLibrary_of_not_mem (hcomments c hc))
  | lookup F => exact freeOfLibrary_lookupLine (dot_not_mem_word F.name_covers) F.freeOfLibrary
  | itemLookup F =>
    exact freeOfLibrary_itemLookupLine (dot_not_mem_word F.name_covers) F.freeOfLibrary
  | plain kind L hid =>
    exact freeOfLibrary_listenerLine (freeOfLibrary_viewOf kind hid) (freeOfLibrary_call L)
  | typed kind L hid =>
    exact freeOfLibrary_listenerLine (freeOfLibrary_viewOf kind hid) (freeOfLibrary_castCall L)
  | @field L id _ =>
    exact freeOfLibrary_listenerLine (freeOfLibrary_named _ (dot_not_mem_viewNameIn id fs))
      (freeOfLibrary_castCall L)
  | @item kind L id _ =>
    rw [itemViewIn_eq]
    exact freeOfLibrary_listenerLine (freeOfLibrary_named _ (dot_not_mem_viewNameIn id fs))
      (freeOfLibrary_castCall L)

theorem IsBlock.inApplication {t : Text}
    (h : IsBlock fs (fun id => FreeOfLibrary (applicationId id)) (fun _ => True) t) :
    InApplication t := by
  obtain ⟨rows, rfl, hrows⟩ := h
  exact (freeOfLibrary_unlines fun l hl => (hrows l hl).freeOfLibrary).inApplication

theorem MarksInFront.freeOfLibrary (h : MarksInFront ls) :
    ListenTo (fun id => FreeOfLibrary (applicationId id)) ls :=
  fun L hL id hid => freeOfLibrary_applicationId (h L hL id hid)

end

/-! ## what is looked up -/

section
variable {fs : List Field} {cs ls : List Listener} {kind : ClickKind} {t id : Text}

theorem looksUp_framed {a b o x c r : Text} (ho : o = b ++ "findViewById(".toList)
    (hc : c = ')' :: r) (hx : ')' ∉ x) : LooksUp x (a ++ o ++ x ++ c) := by
  refine ⟨hx, a ++ b, r, ?_⟩
  rw [ho, hc]
  generalize "findViewById(".toList = call
  simp

theorem infix_indented (t : Text) : t <:+: indented t := (suffix_append _ t).isInfix

theorem looksUp_lookupLine (name : Text) (h : ')' ∉ applicationId id) :
    LooksUp (applicationId id) (lookupLine name id) :=
  (looksUp_framed (a := name) (b := " = ") (o := " = findViewById(") (c := ");")
    (r := [';']) (by decide) (by decide) h).mono (infix_indented _)

theorem looksUp_itemLookupLine (name : Text) (h : ')' ∉ applicationId id) :
    LooksUp (applicationId id) (itemLookupLine name id) :=
  (looksUp_framed (a := name) (b := " = itemView.") (o := " = itemView.findViewById(")
    (c := ");") (r := [';']) (by decide) (by decide) h).mono (infix_indented _)

theorem looksUp_listenerLine (kind : ClickKind) (call : Text) (h : ')' ∉ applicationId id) :
    LooksUp (applicationId id) (listenerLine kind (viewOf id) call) := by
  have hview : LooksUp (applicationId id) (viewOf id) :=
    looksUp_framed (a := []) (b := []) (r := []) (c := ")") rfl rfl h
  refine hview.mono (List.IsInfix.trans ?_ (infix_indented _))
  exact (((prefix_append _ _).trans (prefix_append _ _)).trans
    ((prefix_append _ _).trans (prefix_append _ _))).isInfix

theorem names_of_looksUp {ids : List Text}
    (h : ∀ id ∈ ids, ')' ∉ applicationId id → LooksUp (applicationId id) t) : Names ids t := by
  intro id hid w hw hshape
  have hname : applicationId id = "R.id." ++ w := by
    rcases hshape with rfl | rfl
    · exact @applicationId_of_name [] w (.inl rfl) (covers_word_iff.mpr hw)
    · exact @applicationId_of_name ['2'] w (.inr rfl) (covers_word_iff.mpr hw)
  have hclose : ')' ∉ applicationId id := by
    rw [hname]
    exact not_mem_append (by decide) (avoids_run1 (by decide) w (covers_word_iff.mpr hw))
  rw [← hname]
  exact h id hid hclose

theorem Names.append {ids ids' : List Text} (h : Names ids t) (h' : Names ids' t) :
    Names (ids ++ ids') t :=
  fun id hid => (mem_append.mp hid).elim (h id) (h' id)

/-- the resources that are listened to are looked up -/
def LooksUpAll (ls : List Listener) (t : Text) : Prop :=
  ∀ L ∈ ls, ∀ id ∈ L.ids, ')' ∉ applicationId id → LooksUp (applicationId id) t

theorem LooksUpAll.names (h : LooksUpAll ls t) : Names (ls.flatMap Listener.ids) t := by
  apply names_of_looksUp
  intro id hid
  obtain ⟨L, hL, hid⟩ := mem_flatMap.mp hid
  exact h L hL id hid

theorem names_fields {rows : List Text} (row : Field → Text) (hmem : ∀ F ∈ fs, row F ∈ rows)
    (hrow : ∀ F ∈ fs, ')' ∉ applicationId F.id → LooksUp (applicationId F.id) (row F)) :
    Names (fs.map Field.id) (unlines rows) := by
  apply names_of_looksUp
  intro id hid hclose
  obtain ⟨F, hF, rfl⟩ := mem_map.mp hid
  exact (hrow F hF hclose).mono (infix_unlines_of_mem (hmem F hF))

theorem looksUpAll_plainRows {rows : List Text}
    (hrows : ∀ L ∈ ls, ∀ l ∈ plainRows kind ls, l ∈ rows) : LooksUpAll ls (unlines rows) := by
  intro L hL id hid h
  refine (looksUp_listenerLine kind L.call h).mono (infix_unlines_of_mem (hrows L hL _ ?_))
  exact mem_flatMap.mpr ⟨L, hL, mem_map_of_mem hid⟩

theorem looksUpAll_typedRows {rows : List Text}
    (hrows : ∀ L ∈ ls, ∀ l ∈ typedRows kind fs ls, l ∈ rows) : LooksUpAll ls (unlines rows) := by
  intro L hL id hid h
  refine (looksUp_listenerLine kind L.castCall h).mono (infix_unlines_of_mem (hrows L hL _ ?_))
  refine mem_flatMap.mpr ⟨L, hL, mem_flatMap.mpr ⟨id, hid, ?_⟩⟩
  rw [viewNameIn_ne_nil, if_neg (by simp)]
  exact mem_cons_self

theorem LooksUpAll.inApplication_iff (h : LooksUpAll ls t)
    (hclosed : ∀ L ∈ ls, ∀ id ∈ L.ids, ')' ∉ id) (hfront : MarksInFront ls → InApplication t) :
    InApplication t ↔ MarksInFront ls := by
  refine ⟨fun hin L hL id hid hmark => ?_, hfront⟩
  by_contra hno
  have hsame : applicationId id = id := if_neg (fun hp => hno (List.isPrefixOf_iff_prefix.mp hp))
  have harg := h L hL id hid (by rw [hsame]; exact hclosed L hL id hid)
  exact hin _ harg ((library_infix_iff id).mpr ⟨hmark, hno⟩)

theorem looksUpAll_listenerBlock (cs ls : List Listener) :
    LooksUpAll cs (listenerBlock cs ls) ∧ LooksUpAll ls (listenerBlock cs ls) :=
  ⟨looksUpAll_plainRows fun _ hL _ hl => mem_append_left _ (mem_headed_of_mem hL hl),
    looksUpAll_plainRows fun _ hL _ hl => mem_append_right _ (mem_headed_of_mem hL hl)⟩

theorem looksUpAll_mainListenerBlock (fs : List Field) (cs ls : List Listener) :
    LooksUpAll cs (mainListenerBlock fs cs ls) ∧ LooksUpAll ls (mainListenerBlock fs cs ls) :=
  ⟨looksUpAll_typedRows fun _ hL _ hl => mem_append_left _ (mem_headed_of_mem hL hl),
    looksUpAll_typedRows fun _ hL _ hl => mem_append_right _ (mem_headed_of_mem hL hl)⟩

end

/-! ## the findings of a text -/

theorem mem_of_mem_splitAll {x c : Char} {t p : Text} (hp : p ∈ splitAll x t) (hc : c ∈ p) :
    c ∈ t := by
  induction t generalizing p with
  | nil =>
    obtain rfl : p = [] := by simpa [splitAll] using hp
    cases hc
  | cons d t ih =>
    obtain ⟨q, qs, hq⟩ := exists_cons_of_ne_nil (splitAll_ne_nil x t)
    rw [splitAll_cons x d t hq] at hp
    split at hp
    · rcases mem_cons.mp hp with rfl | hp
      · cases hc
      · exact mem_cons_of_mem _ (ih (hq ▸ hp) hc)
    · rcases mem_cons.mp hp with rfl | hp
      · rcases mem_cons.mp hc with rfl | hc
        · exact mem_cons_self
        · exact mem_cons_of_mem _ (ih (hq ▸ mem_cons_self) hc)
      · exact mem_cons_of_mem _ (ih (hq ▸ mem_cons_of_mem _ hp) hc)

theorem longClick_closed {code : Text} {ls : List Listener}
    (h : (Findings.detect code).longClicks = .given (ls.map Listener.handler)) :
    ∀ L ∈ ls, ∀ id ∈ L.ids, ')' ∉ id := by
  intro L hL id hid hclose
  have hdetect : L.handler ∈ detectLongClicks code := by
    by_cases hm : mentionsButterKnife code
    · have hlist : detectLongClicks code = ls.map Listener.handler := by
        simpa [Findings.detect, hm] using h
      rw [hlist]
      exact mem_map_of_mem hL
    · have hnil : ls = [] := by simpa [Findings.detect, Findings.none, hm] using h.symm
      rw [hnil] at hL
      cases hL
  obtain ⟨m, hm, he⟩ := mem_map.mp hdetect
  have hids : splitIds (m.group 1) = L.ids := Slot.given.inj (congrArg Handler.ids he)
  have hgroup : ')' ∉ m.group 1 := by
    obtain ⟨q, hq, hcov, -⟩ := (of_mem_findAll hm).group (n := 1) (by decide)
    simp [annotatedLongClick, parameters, seq, lit, keyword, word, run1, blanks, blanks1,
      butNot, butNot1, HasGroup] at hq
    subst hq
    exact avoids_run1 (by decide) _ hcov
  rw [← hids, splitIds] at hid
  split at hid
  · cases hid
  · obtain ⟨piece, hpiece, rfl⟩ := mem_map.mp hid
    exact hgroup (mem_of_mem_splitAll hpiece ((trim_isInfix piece).mem hclose))

namespace FieldLookup

theorem looksUp_assignmentRow (F : Field) : LooksUp F.id (assignmentRow F) :=
  looksUp_framed (b := ") ") (r := [';']) (by decide) (by decide)
    (not_mem_resource F.id_covers (by decide) (by decide))

theorem freeOfLibrary_assignmentRow {F : Field} (h : FreeOfLibrary F.id) :
    FreeOfLibrary (assignmentRow F) := by
  have hfront : '.' ∉ "        " ++ F.name ++ " = (" ++ F.type :=
    not_mem_append (not_mem_append (not_mem_append (by decide)
      (dot_not_mem_word F.name_covers)) (by decide)) (dot_not_mem_word F.type_covers)
  exact freeOfLibrary_framed (y := ')') (e := " findViewById(") (d := [';'])
    (freeOfLibrary_of_not_mem hfront) (by decide) (by decide) (by decide) h (by decide) (by decide)

theorem inApplication_assignments_iff (fs : List Field) :
    InApplication (unlines (fs.map assignmentRow)) ↔ ∀ F ∈ fs, ¬ libraryMark <+: F.id := by
  constructor
  · intro h F hF hfront
    refine h F.id ((looksUp_assignmentRow F).mono (infix_unlines_of_mem (mem_map_of_mem hF))) ?_
    exact hfront.isInfix
  · intro h
    refine (freeOfLibrary_unlines (fun l hl => ?_)).inApplication
    obtain ⟨F, hF, rfl⟩ := mem_map.mp hl
    exact freeOfLibrary_assignmentRow (fun hi => h F hF (library_front_of_occurs F.id_covers hi))

end FieldLookup

section
variable (fs : List Field) (cs ls : List Listener)

theorem names_lookupBlock : Names (fs.map Field.id) (lookupBlock fs) :=
  names_fields (fun F => lookupLine F.name F.id)
    (fun _ hF => mem_headed_of_mem hF (mem_map_of_mem hF)) (fun F _ => looksUp_lookupLine F.name)

theorem names_mainLookupBlock : Names ((mainFields fs).map Field.id) (mainLookupBlock fs) :=
  names_fields (fun F => lookupLine F.name F.id)
    (fun _ hF => mem_headed_of_mem (mem_of_mem_filter hF) (mem_map_of_mem hF))
    (fun F _ => looksUp_lookupLine F.name)

theorem names_itemBlock : Names (fs.map Field.id) (itemBlock fs cs ls) :=
  names_fields (fun F => itemLookupLine F.name F.id)
    (fun _ hF => mem_append_left _ (mem_append_left _
      (mem_headed_of_mem hF (mem_append_left _ (mem_map_of_mem hF)))))
    (fun F _ => looksUp_itemLookupLine F.name)

theorem names_initialisationBlock :
    Names (fs.map Field.id ++ cs.flatMap Listener.ids) (initialisationBlock fs cs ls) := by
  apply Names.append
  · exact names_fields (fun F => lookupLine F.name F.id)
      (fun _ hF => mem_append_left _ (mem_append_left _
        (mem_headed_of_mem hF (mem_append_left _ (mem_map_of_mem hF)))))
      (fun F _ => looksUp_lookupLine F.name)
  · exact (looksUpAll_plainRows fun _ hL _ hl =>
      mem_append_left _ (mem_append_right _ (mem_headed_of_mem hL hl))).names

end

/-- what the blocks for a text look up.  The assignments of the fields look every resource up as it
was found; the injected blocks look resources up by their names in the application, and nothing in a
library, as long as no long-click annotation has the mark of a library elsewhere than in front of a
resource -/
theorem lookups_in_application_iff (code : Text) : ∃ fs cs ls, (Findings.detect code).Lists fs cs ls
    ∧ (∃ block, FieldLookup.assignments (fs.map Field.view) = .ok block
      ∧ (∀ F ∈ fs, LooksUp F.id block) ∧ (InApplication block ↔ ∀ F ∈ fs, ¬ libraryMark <+: F.id))
    ∧ (∃ block, initialisation (.detect code) = .ok block ∧ InApplication block
      ∧ Names (fs.map Field.id ++ cs.flatMap Listener.ids) block)
    ∧ (∃ lookups listeners, newBaseBlocks (.detect code) = .ok (lookups, listeners)
      ∧ InApplication lookups
      ∧ Names ((mainFields fs).map Field.id) lookups ∧ (InApplication listeners ↔ MarksInFront ls)
      ∧ Names (cs.flatMap Listener.ids ++ ls.flatMap Listener.ids) listeners)
    ∧ (∃ block, holderBlock (.detect code) = .ok block ∧ InApplication block
      ∧ Names (fs.map Field.id) block)
    ∧ (∃ block, generalLookups (.detect code) = .ok block ∧ InApplication block
      ∧ Names (fs.map Field.id) block)
    ∧ (∃ block, generalListeners (.detect code) = .ok block
      ∧ (InApplication block ↔ MarksInFront ls)
      ∧ Names (cs.flatMap Listener.ids ++ ls.flatMap Listener.ids) block) := by
  obtain ⟨fs, cs, ls, hlists, hresources⟩ := detect_lists code
  have hcs := hresources.marksInFront.freeOfLibrary
  have hclosed := longClick_closed hlists.longClicks
  have hany : ∀ ls : List Listener, ListenTo (fun _ => True) ls := fun _ _ _ _ _ => trivial
  obtain ⟨htyped, htyped'⟩ := looksUpAll_mainListenerBlock fs cs ls
  obtain ⟨hplain, hplain'⟩ := looksUpAll_listenerBlock cs ls
  refine ⟨fs, cs, ls, hlists, ⟨_, FieldLookup.assignments_fields fs, fun F hF => ?_,
    FieldLookup.inApplication_assignments_iff fs⟩, ⟨_, initialisation_eq hlists, ?_, ?_⟩,
    ⟨_, _, newBaseBlocks_eq hlists, ?_, ?_, ?_, ?_⟩, ⟨_, holderBlock_eq hlists, ?_, ?_⟩,
    ⟨_, generalLookups_eq hlists, ?_, ?_⟩, ⟨_, generalListeners_eq hlists, ?_, ?_⟩⟩
  · exact (FieldLookup.looksUp_assignmentRow F).mono (infix_unlines_of_mem (mem_map_of_mem hF))
  · exact (IsBlock.initialisationBlock hcs (hany ls)).inApplication
  · exact names_initialisationBlock fs cs ls
  · exact (IsBlock.mainLookupBlock fs).inApplication
  · exact names_mainLookupBlock fs
  · exact htyped'.inApplication_iff hclosed fun h =>
      (IsBlock.mainListenerBlock hcs h.freeOfLibrary).inApplication
  · exact htyped.names.append htyped'.names
  · exact (IsBlock.itemBlock (hany cs) (hany ls)).inApplication
  · exact names_itemBlock fs cs ls
  · exact (IsBlock.lookupBlock fs).inApplication
  · exact names_lookupBlock fs
  · exact hplain'.inApplication_iff hclosed fun h =>
      (IsBlock.listenerBlock [] hcs h.freeOfLibrary).inApplication
  · exact hplain.names.append hplain'.names

def libraryField : Text := "public class A \x7b\n@BindView(R2.id.a) A a;\n\x7d\n"

def bracedLongClick :
    Text := "class A \x7b\n@OnLongClick(\x7bR2.id.a\x7d) boolean m() \x7b\n\x7d\n\x7d\n"

/-- the field is looked up in the library, and so is what the handler listens to -/
theorem looked_up_in_library :
    (∃ block, FieldLookup.assignments (detectBindViews libraryField) = .ok block
      ∧ LooksUp "R2.id.a".toList block)
    ∧ (∃ block, generalListeners (.detect bracedLongClick) = .ok block
      ∧ LooksUp "\x7bR2.id.a\x7d".toList block)
    ∧ ¬ InApplication "        a = (A) findViewById(R2.id.a);".toList := by
  refine ⟨exists_ok_of_check ?_, exists_ok_of_check ?_, fun h => ?_⟩
  · decide +kernel
  · decide +kernel
  · exact h "R2.id.a".toList (by decide +kernel) (by decide)

end Rebind
