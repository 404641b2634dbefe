import Mathlib
import Rebind.Proofs.Injection.Insertions

/-!
# What becomes of a binding

A bound field survives an injection if its annotation is still there (`Annotated`) or a look-up
assigns it (`Assigned`).  Both are texts that no insertion can break, since they run over no cut
(`Inserted.keeps`), and that line by line edits keep or drop as a whole.

What can lose a binding differs from route to route, and `Secure` says what rules it out:

* a holder drops annotations first, and looks for a public constructor afterwards;
* a class with a content view drops them too; `initViews` has to take the look-ups in, and neither
  the new body of `initListener` nor the clean-up of `onCreate` may take them out again;
* where the base calls the initialisers, an overridden `initViews` is replaced, and it gets the
  look-ups of main fields only;
* any other class keeps its annotations.

`survives_injected` is the result.
-/

namespace Rebind

open List Pattern

variable {F : Field} {code listeners lookups s : Text}

/-! ## annotations and look-ups -/

def annotationOf (F : Field) : Pattern :=
  seq [lit "@BindView", blanks, lit "(", blanks, .text F.id, blanks, lit ")"]

def Annotated (F : Field) (t : Text) : Prop := ∃ s, (annotationOf F).Covers s ∧ s <:+: t

def lookupOf (F : Field) : Text :=
  F.name ++ " = findViewById(" ++ applicationId F.id ++ ")"

def itemLookupOf (F : Field) : Text :=
  F.name ++ " = itemView.findViewById(" ++ applicationId F.id ++ ")"

def Assigned (F : Field) (t : Text) : Prop := lookupOf F <:+: t ∨ itemLookupOf F <:+: t

/-- the field is still bound, or looked up -/
def Survives (F : Field) (t : Text) : Prop := Annotated F t ∨ Assigned F t

/-- the text runs over no cut -/
structure Whole (s : Text) : Prop where
  opening : '\x7b' ∉ s
  closing : '\x7d' ∉ s
  semicolon : ';' ∉ s

/-- the text runs over no cut and no line break, and is not blank -/
structure Compact (s : Text) : Prop extends Whole s where
  visible : ∃ c ∈ s, isBlank c = false
  newline : '\n' ∉ s

section
variable {s t t' block pre post : Text}

theorem Cut.infix_cases (h : Cut pre post) (hs : Whole s) (hi : s <:+: pre ++ post) :
    s <:+: pre ∨ s <:+: post := by
  rcases h with ⟨p, c, rfl, hc⟩ | ⟨q, rfl⟩ | rfl
  · have hmem : c ∉ s := by
      rcases hc with rfl | rfl | rfl
      · exact hs.opening
      · exact hs.semicolon
      · exact hs.closing
    rw [append_assoc, singleton_append, infix_around_iff hmem] at hi
    exact hi.imp_left infix_append_of_infix_left
  · rw [infix_around_iff hs.closing] at hi
    exact hi.imp_right infix_cons
  · rw [append_nil] at hi
    exact .inl hi

theorem Inserted.keeps (h : Inserted block t t') (hs : Whole s) (hi : s <:+: t) : s <:+: t' := by
  obtain ⟨pre, post, rfl, rfl, hcut⟩ := h
  rcases hcut.infix_cases hs hi with hi | hi
  · exact infix_append_of_infix_left (infix_append_of_infix_left hi)
  · exact infix_append_of_infix_right hi

theorem Inserted.contains_block (h : Inserted block t t') : block <:+: t' := by
  obtain ⟨pre, post, -, rfl, -⟩ := h
  exact ⟨pre, post, rfl⟩

end

def isCompactChar (c : Char) : Bool := c != '\x7b' && c != '\x7d' && c != ';' && c != '\n'

theorem compact_of_all (hv : ∃ c ∈ s, isBlank c = false) (h : ∀ c ∈ s, isCompactChar c) :
    Compact s where
  visible := hv
  opening hm := absurd (h _ hm) (by decide)
  closing hm := absurd (h _ hm) (by decide)
  semicolon hm := absurd (h _ hm) (by decide)
  newline hm := absurd (h _ hm) (by decide)

theorem isCompactChar_of_isWord {c : Char} (h : isWord c) : isCompactChar c = true := by
  have hne : ∀ x, isWord x = false → c ≠ x := fun x hx he => by
    rw [he, hx] at h
    cases h
  simp [isCompactChar, hne '\x7b' (by decide), hne '\x7d' (by decide), hne ';' (by decide),
    hne '\n' (by decide)]

theorem Field.name_compact (F : Field) : ∀ c ∈ F.name, isCompactChar c := fun c hc =>
  isCompactChar_of_isWord ((covers_word.mp F.name_covers).2 c hc)

theorem Field.resource_compact (F : Field) : ∀ c ∈ applicationId F.id, isCompactChar c := by
  obtain ⟨w, hw, he⟩ := applicationId_eq F.id_covers
  have hres : "R.id.".toList.all isCompactChar := by decide
  rw [he]
  intro c hc
  rcases mem_append.mp hc with hc | hc
  · exact all_eq_true.mp hres c hc
  · exact isCompactChar_of_isWord ((covers_word.mp hw).2 c hc)

theorem compact_lookup {call : Text} (hcall : call.all isCompactChar) (F : Field) :
    Compact (F.name ++ call ++ applicationId F.id ++ ")") := by
  have hclose : ")".toList.all isCompactChar := by decide
  refine compact_of_all ⟨')', by simp, by decide⟩ (fun c hc => ?_)
  simp only [mem_append] at hc
  rcases hc with ((hc | hc) | hc) | hc
  · exact F.name_compact c hc
  · exact all_eq_true.mp hcall c hc
  · exact F.resource_compact c hc
  · exact all_eq_true.mp hclose c hc

theorem compact_lookupOf (F : Field) : Compact (lookupOf F) := compact_lookup (by decide) F

theorem compact_itemLookupOf (F : Field) : Compact (itemLookupOf F) := compact_lookup (by decide) F

def annotationMarkChars : Text := "@BindView()R2.id."

theorem annotation_not_mem (hs : (annotationOf F).Covers s) {x : Char}
    (hblank : isBlank x = false) (hword : isWord x = false) (hmark : x ∉ annotationMarkChars) :
    x ∉ s := by
  obtain ⟨_, _, rfl, rfl, a, _, rfl, ha, _, _, rfl, rfl, b, _, rfl, hb, _, _, rfl, rfl, c,
    _, rfl, hc, rfl⟩ := hs
  have blank : ∀ t : Text, (∀ c ∈ t, isBlank c) → x ∉ t := fun t ht hm => by
    rw [ht x hm] at hblank
    cases hblank
  have mark : ∀ t : Text, t ⊆ annotationMarkChars → x ∉ t := fun t ht hm => hmark (ht hm)
  have hid : x ∉ F.id := by
    obtain ⟨two, w, he, h2, hw⟩ := covers_resourceId.mp F.id_covers
    have hxw : x ∉ w := fun hm => by
      rw [(covers_word.mp hw).2 x hm] at hword
      cases hword
    rw [he]
    simp only [mem_append, not_or]
    rcases h2 with rfl | rfl
    · exact ⟨⟨mark ['R'] (by decide), mark _ (by decide)⟩, hxw⟩
    · exact ⟨⟨mark ['R', '2'] (by decide), mark _ (by decide)⟩, hxw⟩
  simp only [mem_append, not_or]
  exact ⟨mark _ (by decide), blank a ha, mark _ (by decide), blank b hb, hid, blank c hc,
    mark _ (by decide)⟩

theorem annotation_whole (hs : (annotationOf F).Covers s) : Whole s where
  opening := annotation_not_mem hs (by decide) (by decide) (by decide)
  closing := annotation_not_mem hs (by decide) (by decide) (by decide)
  semicolon := annotation_not_mem hs (by decide) (by decide) (by decide)

theorem annotation_compact (hs : (annotationOf F).Covers s) (hn : '\n' ∉ s) : Compact s where
  toWhole := annotation_whole hs
  visible := by
    obtain ⟨_, _, rfl, rfl, -⟩ := hs
    exact ⟨'@', by simp, by decide⟩
  newline := hn

theorem Inserted.survives {block t t' : Text} (h : Inserted block t t') (hF : Survives F t) :
    Survives F t' := by
  rcases hF with ⟨s, hs, hi⟩ | hi | hi
  · exact .inl ⟨s, hs, h.keeps (annotation_whole hs) hi⟩
  · exact .inr (.inl (h.keeps (compact_lookupOf F).toWhole hi))
  · exact .inr (.inr (h.keeps (compact_itemLookupOf F).toWhole hi))

theorem innerHolders_survives (fs : List Field) (cls : List InnerClass)
    (hF : Survives F code) : Survives F (cls.foldl (innerPlaced fs) code) := by
  induction cls generalizing code with
  | nil => exact hF
  | cons c cls ih =>
    apply ih
    rcases innerPlaced_cases fs code c with h | ⟨own, -, h⟩
    · rwa [h]
    · exact h.survives hF

/-! ## look-ups in blocks -/

section
variable {F : Field} {fs : List Field}

theorem lookupOf_infix_lookupLine (F : Field) : lookupOf F <:+: lookupLine F.name F.id := by
  have hend : ");" = ")" ++ [';'] := by decide
  refine ⟨"        ", [';'], ?_⟩
  unfold lookupLine indented lookupOf
  simp only [hend, append_assoc]

theorem itemLookupOf_infix_itemLookupLine (F : Field) :
    itemLookupOf F <:+: itemLookupLine F.name F.id := by
  have hend : ");" = ")" ++ [';'] := by decide
  refine ⟨"        ", [';'], ?_⟩
  unfold itemLookupLine indented itemLookupOf
  simp only [hend, append_assoc]

theorem mem_headed_of_mem {α : Type} {comment l : Text} {entries : List α}
    {rows : List Text} {a : α}
    (ha : a ∈ entries) (hl : l ∈ rows) : l ∈ headed comment entries rows := by
  unfold headed
  rw [if_neg (by simpa using ne_nil_of_mem ha)]
  exact mem_cons_of_mem _ hl

theorem lookupOf_infix_lookupBlock (hF : F ∈ fs) : lookupOf F <:+: lookupBlock fs :=
  (lookupOf_infix_lookupLine F).trans
    (infix_unlines_of_mem (mem_headed_of_mem hF (mem_map_of_mem hF)))

theorem lookupOf_infix_mainLookupBlock (hF : F ∈ fs) (hmain : isMainField F.name) :
    lookupOf F <:+: mainLookupBlock fs :=
  (lookupOf_infix_lookupLine F).trans (infix_unlines_of_mem
    (mem_headed_of_mem hF (mem_map_of_mem (mem_filter.mpr ⟨hF, hmain⟩))))

theorem itemLookupOf_infix_itemBlock (hF : F ∈ fs) (cs ls : List Listener) :
    itemLookupOf F <:+: itemBlock fs cs ls := by
  refine (itemLookupOf_infix_itemLookupLine F).trans (infix_unlines_of_mem ?_)
  refine mem_append_left _ (mem_append_left _ (mem_headed_of_mem hF ?_))
  exact mem_append_left _ (mem_map_of_mem hF)

theorem lookupOf_ne_nil (F : Field) : lookupOf F ≠ [] := by
  simp [lookupOf, (covers_word.mp F.name_covers).1]

theorem ne_nil_of_contains {t : Text} (hs : s ≠ []) (h : s <:+: t) : t ≠ [] := by
  rintro rfl
  exact hs (infix_nil.mp h)

/-! ## holders and other classes -/

theorem injectInHolder_survives (hF : F ∈ fs) (cs ls : List Listener)
    (h : holderConstructor.found code = true ∨ Survives F code) :
    Survives F (injectInHolder (itemBlock fs cs ls) code) := by
  have hne : itemLookupOf F ≠ [] := by simp [itemLookupOf, (covers_word.mp F.name_covers).1]
  have hitem := itemLookupOf_infix_itemBlock hF cs ls
  rcases injectInHolder_cases (itemBlock fs cs ls) code with ⟨he, hcase⟩ | ⟨-, hins⟩
  · rcases hcase with hb | hn
    · exact absurd hb (ne_nil_of_contains hne hitem)
    · rcases h with h | h
      · rw [hn] at h
        cases h
      · rwa [he]
  · exact .inr (.inr ((hitem.trans (infix_cons (infix_refl _))).trans hins.contains_block))

theorem otherPlaced_survives {block : Text} (h : Survives F code) :
    Survives F (otherPlaced block code) := by
  unfold otherPlaced
  split
  · exact h
  · rcases injectInOnCreate_cases code block with he | hins | hins
    · rwa [he]
    · exact hins.survives h
    · exact hins.survives h

/-! ## classes whose base calls the initialisers -/

theorem mem_take_or_between_or_drop {α : Type} {x : α} {l : List α} (h : x ∈ l) (i j : Nat) :
    x ∈ l.take i ∨ x ∈ (l.take j).drop i ∨ x ∈ l.drop j := by
  rw [← take_append_drop j l, mem_append] at h
  rcases h with h | h
  · rw [← take_append_drop i (l.take j), mem_append, take_take] at h
    rcases h with h | h
    · exact .inl ((take_subset_take_left l (Nat.min_le_left i j)) h)
    · exact .inr (.inl h)
  · exact .inr (.inr h)

theorem updateInitListener_keeps (content : Text) (hs : Compact s) (hi : s <:+: code) :
    s <:+: updateInitListener code content := by
  unfold updateInitListener
  simp only
  split
  · exact hi
  · next start stop _ =>
    obtain ⟨l, hl, hsl⟩ := exists_line hs.newline hi
    rcases mem_take_or_between_or_drop hl (start + 1) stop with h | h | h
    · exact hsl.trans (infix_unlines_of_mem (mem_append_left _ (mem_append_left _ h)))
    · have hbody : s <:+: unlines (((lines code).take stop).drop (start + 1)) :=
        hsl.trans (infix_unlines_of_mem h)
      refine List.IsInfix.trans ?_ (infix_unlines_of_mem (l := _) (mem_append_left _
        (mem_append_right _ (mem_singleton_self _))))
      split
      · next hblank =>
        obtain ⟨c, hc, hcb⟩ := hs.visible
        have := all_eq_true.mp hblank c (hbody.mem hc)
        rw [hcb] at this
        cases this
      · rw [append_assoc]
        exact infix_append_of_infix_left hbody
    · exact hsl.trans (infix_unlines_of_mem (mem_append_right _ h))

theorem createOverride_keeps (method : Text) (hs : Whole s) (hi : s <:+: code) :
    s <:+: (createOverride method code).value := by
  rcases createOverride_cases method code with he | hins
  · rwa [he]
  · exact hins.keeps hs hi

theorem listenersPlaced_keeps (listeners : Text) (hs : Compact s) (hi : s <:+: code) :
    s <:+: listenersPlaced listeners code := by
  unfold listenersPlaced
  split
  · exact hi
  · split
    · exact updateInitListener_keeps listeners hs hi
    · exact createOverride_keeps _ hs.toWhole hi

theorem viewsPlaced_keeps (hF : F ∈ fs) (hs : Compact s) (hi : s <:+: code)
    (hsafe : isMainField F.name ∨ hasInitViews code = false) :
    s <:+: viewsPlaced (mainLookupBlock fs) code
      ∨ lookupOf F <:+: viewsPlaced (mainLookupBlock fs) code := by
  unfold viewsPlaced
  split
  · exact .inl hi
  · split
    · next hpresent =>
      have hmain : isMainField F.name = true := by
        rcases hsafe with hm | hn
        · exact hm
        · rw [hpresent] at hn
          cases hn
      unfold updateInitViews
      simp only
      split
      · exact .inl hi
      · refine .inr ((lookupOf_infix_mainLookupBlock hF hmain).trans ?_)
        refine List.IsInfix.trans ?_ (infix_unlines_of_mem (mem_append_left _
          (mem_append_right _ (mem_singleton_self _))))
        exact infix_append_of_infix_right (infix_refl _)
    · exact .inl (createOverride_keeps _ hs.toWhole hi)

theorem newBasePlaced_survives (hF : F ∈ fs) (listeners : Text) (h : ∃ l ∈ lines code, Survives F l)
    (hsafe : isMainField F.name ∨ hasInitViews code = false) :
    Survives F (listenersPlaced listeners (viewsPlaced (mainLookupBlock fs) code)) := by
  obtain ⟨l, hl, h⟩ := h
  have keeps : ∀ s, Compact s → s <:+: l →
      s <:+: listenersPlaced listeners (viewsPlaced (mainLookupBlock fs) code)
        ∨ lookupOf F <:+: listenersPlaced listeners (viewsPlaced (mainLookupBlock fs) code) := by
    intro s hs hi
    rcases viewsPlaced_keeps hF hs (hi.trans (infix_of_mem_lines hl)) hsafe with h | h
    · exact .inl (listenersPlaced_keeps listeners hs h)
    · exact .inr (listenersPlaced_keeps listeners (compact_lookupOf F) h)
  rcases h with ⟨s, hs, hi⟩ | hi | hi
  · have hn : '\n' ∉ s := fun hm => not_mem_of_mem_lines hl (hi.mem hm)
    rcases keeps s (annotation_compact hs hn) hi with h | h
    · exact .inl ⟨s, hs, h⟩
    · exact .inr (.inl h)
  · rcases keeps _ (compact_lookupOf F) hi with h | h <;> exact .inr (.inl h)
  · rcases keeps _ (compact_itemLookupOf F) hi with h | h
    · exact .inr (.inr h)
    · exact .inr (.inl h)

/-! ## classes with a content view -/

/-- the lines between the first and the last of a method -/
def methodBody (name code : Text) : Text :=
  match methodSpan name (lines code) with
  | some (start, stop) => unlines (((lines code).take stop).drop (start + 1))
  | none => []

/-- the body of `onCreate` -/
def onCreateBody (code : Text) : Text :=
  match onCreateHeader.search code with
  | some m => (code.drop m.stop).take (bodyEnd code m.stop - m.stop)
  | none => []

/-- `initViews` takes look-ups in: a new one needs a brace to stand before; one that is there has to
have an end, and neither injected code nor any of the look-ups -/
def TakesLookups (lookups code : Text) : Prop :=
  if hasMethod code "initViews" then
    (methodSpan "initViews" (lines code)).isSome
      ∧ occursIn lookupComment (methodBody "initViews" code) = false
      ∧ occursIn clickComment (methodBody "initViews" code) = false
      ∧ ∀ l ∈ lines lookups, occursIn "findViewById(" l →
        occursIn (trim l) (methodBody "initViews" code) = false
  else '\x7d' ∈ code

theorem contains_updateMethod {lookups code : Text} {start stop : Nat}
    (hspan : methodSpan "initViews" (lines code) = some (start, stop))
    (hlookup : occursIn lookupComment (methodBody "initViews" code) = false)
    (hclick : occursIn clickComment (methodBody "initViews" code) = false)
    (hlines : ∀ l ∈ lines lookups, occursIn "findViewById(" l →
      occursIn (trim l) (methodBody "initViews" code) = false) :
    lookups <:+: (updateMethod code "initViews" lookups).value := by
  have hbody : methodBody "initViews" code
      = unlines (((lines code).take stop).drop (start + 1)) := by
    rw [methodBody, hspan]
  have hany : (lines lookups).any (fun l => occursIn "findViewById(" l
      && occursIn (trim l) (methodBody "initViews" code)) = false := by
    rw [any_eq_false]
    intro l hl
    cases hf : occursIn "findViewById(" l with
    | false => simp
    | true =>
      rw [hlines l hl hf]
      decide
  rw [hbody] at hlookup hclick hany
  unfold updateMethod
  simp only [hspan]
  rw [if_neg (by decide), if_neg (by simp [hlookup, hclick]), if_neg (by rw [hany]; simp)]
  exact infix_unlines_of_mem (mem_append_left _ (mem_append_right _
    (mem_singleton_self lookups)))

theorem infix_methodText (name content visibility : Text) :
    content <:+: methodText name content visibility :=
  ⟨"\n    " ++ visibility ++ " void " ++ name ++ "() \x7b\n", "\n    \x7d",
    rfl⟩

theorem contains_withInitViews (hne : lookups ≠ []) (h : TakesLookups lookups code) :
    lookups <:+: withInitViews lookups code := by
  have hempty : lookups.isEmpty = false := by simpa using hne
  unfold TakesLookups at h
  unfold withInitViews provideMethod
  simp only [hempty, Bool.false_eq_true, if_false]
  split at h
  · next hpresent =>
    obtain ⟨hspan, hlookup, hclick, hlines⟩ := h
    obtain ⟨⟨start, stop⟩, hs⟩ := Option.isSome_iff_exists.mp hspan
    rw [if_pos hpresent, Traced.value_note_bind]
    exact contains_updateMethod hs hlookup hclick hlines
  · next hpresent =>
    rw [if_neg hpresent, Traced.value_note_bind]
    rcases createMethod_cases code "initViews" lookups "protected" with ⟨-, hno⟩ | hins
    · exact absurd h hno
    · exact ((infix_methodText _ lookups _).trans
        (infix_append_of_infix_left (infix_refl _))).trans hins.contains_block

/-- a text outside the body that `initListener` has is kept -/
theorem withInitialisers_keeps (hs : Compact s) (hi : s <:+: withInitViews lookups code)
    (hout : ¬ s <:+: methodBody "initListener" (withInitViews lookups code)) :
    s <:+: withInitialisers lookups listeners code := by
  unfold withInitialisers
  generalize withInitViews lookups code = t at hi hout
  unfold provideMethod
  split
  · exact hi
  · split
    · rw [Traced.value_note_bind]
      unfold updateMethod
      simp only
      cases hspan : methodSpan "initListener" (lines t) with
      | none => exact hi
      | some span =>
        obtain ⟨start, stop⟩ := span
        have hbody : methodBody "initListener" t
            = unlines (((lines t).take stop).drop (start + 1)) := by
          rw [methodBody, hspan]
        obtain ⟨l, hl, hsl⟩ := exists_line hs.newline hi
        simp only
        rw [if_pos (by decide)]
        rcases mem_take_or_between_or_drop hl (start + 1) stop with h | h | h
        · exact hsl.trans (infix_unlines_of_mem (mem_append_left _ (mem_append_left _ h)))
        · exact absurd (hsl.trans (infix_unlines_of_mem h)) (hbody ▸ hout)
        · exact hsl.trans (infix_unlines_of_mem (mem_append_right _ h))
    · rw [Traced.value_note_bind]
      rcases createMethod_cases t "initListener" listeners "public" with ⟨he, -⟩ | hins
      · rwa [he]
      · exact hins.keeps hs.toWhole hi

theorem withCalls_keeps (hs : Compact s) (hi : s <:+: withInitialisers lookups listeners code) :
    s <:+: withCalls lookups listeners code := by
  unfold withCalls
  split
  · exact hi
  · rcases addInitialiserCalls_cases (withInitialisers lookups listeners code) with he
      | ⟨_, _, hins⟩
    · rwa [he]
    · exact hins.keeps hs.toWhole hi

/-- the clean-up changes nothing outside the body of `onCreate` -/
theorem cleanOnCreate_keeps (hs : Compact s) (hi : s <:+: code)
    (hout : ¬ s <:+: onCreateBody code) : s <:+: (cleanOnCreate code).value := by
  unfold cleanOnCreate
  rw [Traced.value_note_bind]
  cases hm : onCreateHeader.search code with
  | none => exact hi
  | some m =>
    have hbody : onCreateBody code = (code.drop m.stop).take (bodyEnd code m.stop - m.stop) := by
      rw [onCreateBody, hm]
    rw [hbody] at hout
    -- the text lies before the body or behind it
    have hside : s <:+: code.take m.stop ∨ s <:+: code.drop (bodyEnd code m.stop) := by
      rw [← take_append_drop m.stop code] at hi
      rcases (cut_onCreateHeader hm _).infix_cases hs.toWhole hi with hi | hi
      · exact .inl hi
      · right
        rw [drop_eq_body] at hi
        rcases body_closed code m.stop with hnil | hclosed
        · rwa [hnil, nil_append] at hi
        · rcases Cut.infix_cases (.inr (.inl hclosed)) hs.toWhole hi with hi | hi
          · exact absurd hi hout
          · exact hi
    simp only [Traced.value_bind]
    split
    · rw [Traced.value_note_bind]
      rcases hside with h | h
      · exact h.trans (List.take_prefix _ _).isInfix
      · exact h.trans (drop_suffix _ _).isInfix
    · rw [Traced.value_note_bind]
      rcases hside with h | h
      · exact infix_append_of_infix_left (infix_append_of_infix_left h)
      · exact infix_append_of_infix_right h

theorem generalPlaced_survives (hF : F ∈ fs) (htakes : TakesLookups (lookupBlock fs) code)
    (hlistener : ¬ lookupOf F <:+: methodBody "initListener" (withInitViews (lookupBlock fs) code))
    (hcreate : ¬ lookupOf F <:+: onCreateBody (withCalls (lookupBlock fs) listeners code)) :
    Survives F (generalPlaced (lookupBlock fs) listeners code) := by
  have hs := compact_lookupOf F
  have hblock := lookupOf_infix_lookupBlock hF
  have hviews := hblock.trans
    (contains_withInitViews (ne_nil_of_contains (lookupOf_ne_nil F) hblock) htakes)
  have hboth : lookupOf F <:+: withInitialisers (lookupBlock fs) listeners code :=
    withInitialisers_keeps hs hviews hlistener
  exact .inr (.inl (cleanOnCreate_keeps hs (withCalls_keeps hs hboth) hcreate))

end

/-! ## whole injections -/

/-- the route keeps the field bound, or looks it up -/
def Secure (f : Findings) (fs : List Field) (cs ls : List Listener) (F : Field) (code : Text) :
    Route → Prop
  | .holder => ∀ w, dropAnnotations f code = .ok w →
    holderConstructor.found w = true ∨ Survives F w
  | .contentView => ∀ w, dropAnnotations f code = .ok w →
    TakesLookups (lookupBlock fs) w
      ∧ ¬ lookupOf F <:+: methodBody "initListener" (withInitViews (lookupBlock fs) w)
      ∧ ¬ lookupOf F <:+: onCreateBody (withCalls (lookupBlock fs) (listenerBlock cs ls) w)
  | .newBase => (∃ l ∈ lines code, Survives F l)
    ∧ (isMainField F.name = true ∨ hasInitViews code = false)
  | .other => Survives F code

theorem survives_place {f : Findings} {fs : List Field} {cs ls : List Listener}
    {placed : Text} {route : Route} (hl : f.Lists fs cs ls) (hF : F ∈ fs)
    (hsecure : Secure f fs cs ls F code route) (h : route.place f code = .ok placed) :
    Survives F placed := by
  cases route with
  | holder =>
    rw [Route.place_holder hl] at h
    obtain ⟨w, hw, he⟩ := bind_eq_ok.mp h
    rw [← Except.ok.inj he]
    exact injectInHolder_survives hF cs ls (hsecure w hw)
  | contentView =>
    rw [Route.place_contentView hl] at h
    obtain ⟨w, hw, he⟩ := bind_eq_ok.mp h
    obtain ⟨htakes, hlistener, hcreate⟩ := hsecure w hw
    rw [← Except.ok.inj he]
    exact generalPlaced_survives hF htakes hlistener hcreate
  | newBase =>
    rw [Route.place_newBase hl] at h
    rw [← Except.ok.inj h]
    exact newBasePlaced_survives hF _ hsecure.1 hsecure.2
  | other =>
    rw [Route.place_other hl] at h
    rw [← Except.ok.inj h]
    exact otherPlaced_survives hsecure

theorem mentionsButterKnife_of_field {fs : List Field} {cs ls : List Listener}
    (hl : (Findings.detect code).Lists fs cs ls) (hF : F ∈ fs) : mentionsButterKnife code := by
  by_contra h
  have hviews := hl.views
  simp only [Findings.detect, h, Findings.none, if_false, Slot.given.injEq] at hviews
  have : F.view ∈ fs.map Field.view := mem_map_of_mem hF
  rw [← hviews] at this
  simp at this

/-- an injection loses no binding that is secure on the route it takes -/
theorem survives_injected {code out : Text} {fs : List Field} {cs ls : List Listener} {F : Field}
    {route : Route} (hl : (Findings.detect code).Lists fs cs ls) (hF : F ∈ fs)
    (hroute : Route.of (imported code) = .ok route)
    (hsecure : Secure (Findings.detect code) fs cs ls F (imported code) route)
    (hout : injected (Findings.detect code) code = .ok out) : Survives F out := by
  rw [injected_eq ((detect_applies code).trans (mentionsButterKnife_of_field hl hF)), hroute,
    ok_bind] at hout
  obtain ⟨placed, hplaced, hinner⟩ := bind_eq_ok.mp hout
  rw [injectInnerHolders_eq hl] at hinner
  rw [← Except.ok.inj hinner]
  exact innerHolders_survives fs _ (survives_place hl hF hsecure hplaced)

def publicHolder : Text :=
  "public class AHolder \x7b\n@BindView(R.id.a) A a;\npublic AHolder(View v) \x7b\n\x7d\n\x7d\n"

theorem survives_injected_publicHolder :
    ∃ fs cs ls out, (Findings.detect publicHolder).Lists fs cs ls ∧ fs.length = 1
      ∧ injected (.detect publicHolder) publicHolder = .ok out ∧ ∀ F ∈ fs, Survives F out := by
  obtain ⟨fs, cs, ls, hl, -⟩ := detect_lists publicHolder
  have hone : fs.length = 1 := by
    have hcount : (Findings.detect publicHolder).bindViews.items.length = 1 := by decide +kernel
    simpa [hl.views, Slot.items] using hcount
  have hroute : Route.of (imported publicHolder) = .ok .holder := by decide +kernel
  have hfound : ((dropAnnotations (.detect publicHolder) (imported publicHolder)).toOption.map
      holderConstructor.found) = some true := by decide +kernel
  have hsecure : ∀ F, Secure (.detect publicHolder) fs cs ls F (imported publicHolder) .holder := by
    intro F w hw
    rw [hw] at hfound
    exact .inl (Option.some.inj hfound)
  have hreturns : (injected (.detect publicHolder) publicHolder).toOption.isSome := by
    decide +kernel
  cases hout : injected (.detect publicHolder) publicHolder with
  | ok out =>
    exact ⟨fs, cs, ls, out, hl, hone, rfl,
      fun F hF => survives_injected hl hF hroute (hsecure F) hout⟩
  | error e =>
    rw [hout] at hreturns
    cases hreturns

def packageHolder : Text :=
  "public class AHolder \x7b\n@BindView(R.id.a) A a;\nAHolder(View v) \x7b\n\x7d\n\x7d\n"

/-- the annotation goes, and no look-up takes its place -/
theorem binding_lost_packageHolder :
    ∃ fs cs ls out, (Findings.detect packageHolder).Lists fs cs ls
      ∧ injected (.detect packageHolder) packageHolder = .ok out ∧ ∃ F ∈ fs, ¬ Survives F out := by
  obtain ⟨fs, cs, ls, hl, -⟩ := detect_lists packageHolder
  have hcount : (Findings.detect packageHolder).bindViews.items.length = 1 := by decide +kernel
  have hbare : ((injected (.detect packageHolder) packageHolder).toOption.map
      (fun out => occursIn "@BindView" out || occursIn "findViewById" out)) = some false := by
    decide +kernel
  obtain ⟨F, hF⟩ : ∃ F, F ∈ fs := by
    have hone : fs.length = 1 := by simpa [hl.views, Slot.items] using hcount
    exact List.exists_mem_of_length_pos (by omega)
  cases hout : injected (.detect packageHolder) packageHolder with
  | ok out =>
    rw [hout] at hbare
    have hnone := Bool.or_eq_false_iff.mp (Option.some.inj hbare)
    rw [occursIn_eq_false_iff, occursIn_eq_false_iff] at hnone
    refine ⟨fs, cs, ls, out, hl, rfl, F, hF, ?_⟩
    rintro (⟨s, ⟨_, _, rfl, rfl, -⟩, hi⟩ | hi | hi)
    · exact hnone.1 ((List.infix_append_of_infix_left (List.infix_refl _)).trans hi)
    · have hcall : "findViewById".toList <:+: " = findViewById(".toList := by decide
      refine hnone.2 (List.IsInfix.trans (hcall.trans ?_) hi)
      exact List.infix_append_of_infix_left (List.infix_append_of_infix_left
        (List.infix_append_of_infix_right (List.infix_refl _)))
    · have hcall : "findViewById".toList <:+: " = itemView.findViewById(".toList := by decide
      refine hnone.2 (List.IsInfix.trans (hcall.trans ?_) hi)
      exact List.infix_append_of_infix_left (List.infix_append_of_infix_left
        (List.infix_append_of_infix_right (List.infix_refl _)))
  | error e =>
    rw [hout] at hbare
    cases hbare

end Rebind
