import Mathlib
import Rebind.Findings.Summary
import Rebind.Proofs.Findings.Shape
import Rebind.Proofs.Outcome

/-!
# Well-formed findings

What stands in the findings of a text can be written into code as it is: names are words and
resources are `R.id.` or `R2.id.` with a word, so no blank, brace, quote or backslash is among their
characters.  The list of methods names each method once, and the only thing that can be wrong with
the findings of a text is that there is nothing to find (`detect_wellFormed`).
-/

namespace Rebind

open List Pattern

def IsName (t : Text) : Prop := t ≠ [] ∧ ∀ c ∈ t, isWord c

instance (t : Text) : Decidable (IsName t) :=
  decidable_of_iff ((!t.isEmpty && t.all isWord) = true) (by simp [IsName])

/-- the class of resources, the mark of an identifier, and a name -/
def IsResource (t : Text) : Prop :=
  ∃ w, IsName w ∧ (t = "R.id." ++ w ∨ t = "R2.id." ++ w)

structure BindView.WellFormed (b : BindView) : Prop where
  id : ∃ t, b.id = .given t ∧ IsResource t
  type : ∃ t, b.type = .given t ∧ IsName t
  name : ∃ t, b.name = .given t ∧ IsName t

structure Handler.WellFormed (h : Handler) : Prop where
  ids : ∃ ts, h.ids = .given ts ∧ ∀ t ∈ ts, IsResource t ∧ ∀ c ∈ t, isBlank c = false
  method : ∃ t, h.method = .given t ∧ IsName t
  view : ∃ takes type, h.takesView = .given takes ∧ h.viewType = .given type ∧ (takes ↔ type ≠ [])

structure Findings.WellFormed (f : Findings) : Prop where
  views : ∃ bs, f.bindViews = .given bs ∧ ∀ b ∈ bs, b.WellFormed
  clicks : ∃ hs, f.clicks = .given hs ∧ ∀ h ∈ hs, h.WellFormed
  methods : ∃ names, f.methods = .given names ∧ names.Nodup

/-! ## fields and listeners -/

theorem covers_word_iff {t : Text} : word.Covers t ↔ IsName t := covers_word

theorem covers_resourceId_iff {t : Text} : resourceId.Covers t ↔ IsResource t := by
  rw [covers_resourceId]
  constructor
  · intro h
    obtain ⟨two, w, rfl, htwo, hw⟩ := h
    refine ⟨w, covers_word_iff.mp hw, ?_⟩
    rcases htwo with rfl | rfl
    · exact .inl rfl
    · exact .inr rfl
  · intro h
    obtain ⟨w, hw, ht | ht⟩ := h
    · exact ⟨[], w, ht, .inl rfl, covers_word_iff.mpr hw⟩
    · exact ⟨['2'], w, ht, .inr rfl, covers_word_iff.mpr hw⟩

theorem Field.wellFormed_view (F : Field) : F.view.WellFormed where
  id := ⟨F.id, rfl, covers_resourceId_iff.mp F.id_covers⟩
  type := ⟨F.type, rfl, covers_word_iff.mp F.type_covers⟩
  name := ⟨F.name, rfl, covers_word_iff.mp F.name_covers⟩

theorem Listener.takes_iff (L : Listener) : L.view.isSome ↔ L.view.getD [] ≠ [] := by
  cases h : L.view with
  | none => simp
  | some v =>
    have hne : v ≠ [] := (covers_word.mp (L.view_covers v h)).1
    simp [hne]

theorem Listener.wellFormed_handler (L : Listener) (h : ∀ id ∈ L.ids, resourceId.Covers id) :
    L.handler.WellFormed where
  ids := by
    refine ⟨L.ids, rfl, ?_⟩
    intro id hid
    exact ⟨covers_resourceId_iff.mp (h id hid), isBlank_of_mem_resourceId (h id hid)⟩
  method := ⟨L.method, rfl, covers_word_iff.mp L.method_covers⟩
  view := ⟨L.view.isSome, L.view.getD [], rfl, rfl, L.takes_iff⟩

/-! ## the names of the methods -/

theorem nodup_methodNames (code : Text) : (methodNames code).Nodup := by
  -- the names met so far are kept in reverse, and a name is put in front only if it is not among
  -- them
  have hfold : ∀ (ms : List Match) (names : List Text), names.Nodup →
      (ms.foldl (fun names m =>
        let name := trim (m.group 1)
        if name.isEmpty || names.contains name then names else name :: names) names).Nodup := by
    intro ms
    induction ms with
    | nil =>
      intro names h
      exact h
    | cons m ms ih =>
      intro names h
      apply ih
      show (if _ then names else trim (m.group 1) :: names).Nodup
      split
      · exact h
      · next hnew =>
        rw [List.nodup_cons]
        simp only [Bool.or_eq_true, List.contains_iff_mem, not_or] at hnew
        exact ⟨hnew.2, h⟩
  unfold methodNames
  rw [List.nodup_reverse]
  exact hfold _ [] List.nodup_nil

/-! ## what is wrong with findings -/

theorem Field.isComplete_view (F : Field) : F.view.isComplete = true := rfl

theorem Listener.isComplete_handler (L : Listener) : L.handler.isComplete := rfl

theorem Findings.Lists.problems_eq {f : Findings} {fs : List Field} {cs ls : List Listener}
    (h : f.Lists fs cs ls) :
    f.problems = .ok (if f.applies then [] else ["未检测到ButterKnife注解"]) := by
  have hviews : (fs.map Field.view).filter (!·.isComplete) = [] := by
    rw [filter_eq_nil_iff]
    intro b hb
    obtain ⟨F, -, rfl⟩ := mem_map.mp hb
    simp [F.isComplete_view]
  have hclicks : (cs.map Listener.handler).filter (!·.isComplete) = [] := by
    rw [filter_eq_nil_iff]
    intro b hb
    obtain ⟨L, -, rfl⟩ := mem_map.mp hb
    simp [L.isComplete_handler]
  unfold Findings.problems
  simp only [h.views, h.clicks, Slot.walked, Slot.orElse, ok_bind, hviews, hclicks, map_nil,
    append_nil]
  rfl

theorem hasButterKnife_detect (code : Text) : (Findings.detect code).hasButterKnife
    = .given (.bool (mentionsButterKnife code)) := by
  cases h : mentionsButterKnife code <;> simp [Findings.detect, Findings.none, h]

/-- the findings of a text are well formed; checking them always gives an answer, and finds fault
with them iff the text has no part of the library -/
theorem detect_wellFormed (code : Text) : (Findings.detect code).WellFormed
    ∧ ∃ problems, (Findings.detect code).problems = .ok problems
      ∧ (problems = [] ↔ (Findings.detect code).hasButterKnife = .given (.bool true)) := by
  obtain ⟨fs, cs, ls, hlists, hids⟩ := detect_lists code
  constructor
  · constructor
    · refine ⟨_, hlists.views, ?_⟩
      intro b hb
      obtain ⟨F, -, rfl⟩ := mem_map.mp hb
      exact F.wellFormed_view
    · refine ⟨_, hlists.clicks, ?_⟩
      intro b hb
      obtain ⟨L, hL, rfl⟩ := mem_map.mp hb
      exact L.wellFormed_handler (hids L hL)
    · cases h : mentionsButterKnife code with
      | true => exact ⟨_, by simp [Findings.detect, h], nodup_methodNames code⟩
      | false => exact ⟨[], by simp [Findings.detect, Findings.none, h], nodup_nil⟩
  · refine ⟨_, hlists.problems_eq, ?_⟩
    rw [detect_applies, hasButterKnife_detect]
    cases mentionsButterKnife code <;> simp

end Rebind
