import Mathlib
import Rebind.Migration.Round
import Rebind.Proofs.Edit.Recognition
import Rebind.Proofs.Injection.Lineage
import Rebind.Proofs.Injection.Routes

/-!
# When a migration round returns

The three editors always return on what is read off a source (`editAll_returns`).  The injection can
be stuck in two ways (`Stuck`), and in these only:

* a holder or a class with a content view has a handler whose resources are spread over several
  lines: such a handler has no line that could be dropped (`SpreadHandler`);
* for any other class no header settles the kind, and the ancestors go on for ever
  (`EndlessLineage`).

`migrate_returns_iff` says that a round returns exactly where it is not stuck.
-/

namespace Rebind

/-! ## the editors -/

section
variable {f : Findings} {fs : List Field} {cs ls : List Listener}

theorem FieldLookup.addAssignments_returns (code : Text) (fs : List Field) :
    Returns (FieldLookup.addAssignments code (fs.map Field.view)) := by
  rcases eq_or_ne fs [] with rfl | hne
  · exact returns_ok code
  · exact ⟨_, FieldLookup.addAssignments_eq hne code⟩

theorem FieldLookup.edit_returns (h : f.Lists fs cs ls) (code : Text) :
    Returns (FieldLookup.edit f code) := by
  simp only [FieldLookup.edit, FieldLookup.applies, h.views, Slot.walked, Slot.orElse, ok_bind,
    pure_eq_ok]
  split
  · exact returns_ok _
  · refine (foldlM_returns (fun code b hb => ?_) code).bind
      (fun code => FieldLookup.addAssignments_returns code fs)
    obtain ⟨F, -, rfl⟩ := List.mem_map.mp hb
    exact ⟨_, FieldLookup.dropMark_eq F code⟩

theorem ClickListener.dropMark_returns (code : Text) (L : Listener) :
    Returns (ClickListener.dropMark code L.handler) := by
  show Returns (if L.ids.isEmpty then .ok code else .ok (ClickListener.clickMark.erase code))
  split
  · exact returns_ok _
  · exact returns_ok _

theorem ClickListener.addListeners_returns (code : Text) (ls : List Listener) :
    Returns (ClickListener.addListeners code (ls.map Listener.handler)) := by
  rcases eq_or_ne ls [] with rfl | hne
  · exact returns_ok code
  · exact ⟨_, ClickListener.addListeners_eq hne code⟩

theorem ClickListener.edit_returns (h : f.Lists fs cs ls) (code : Text) :
    Returns (ClickListener.edit f code) := by
  simp only [ClickListener.edit, ClickListener.applies, h.clicks, Slot.walked, Slot.orElse, ok_bind,
    pure_eq_ok]
  split
  · exact returns_ok _
  · refine (foldlM_returns (fun code b hb => ?_) code).bind
      (fun code => ClickListener.addListeners_returns code cs)
    obtain ⟨L, -, rfl⟩ := List.mem_map.mp hb
    exact ClickListener.dropMark_returns code L

end

theorem BindCall.edit_returns (source code : Text) :
    Returns (BindCall.edit (Findings.detect source) code) := by
  have happlies : Returns (BindCall.applies (Findings.detect source)) := by
    unfold BindCall.applies
    simp only
    split
    · exact returns_ok _
    · by_cases h : mentionsButterKnife source = true <;>
        simpa [Findings.detect, Findings.none, h, Slot.orElse] using returns_ok _
  refine happlies.bind (fun v => ?_)
  split
  · exact returns_ok _
  · exact returns_ok _

/-- the editors return on what is read off a source -/
theorem editAll_returns (code : Text) : Returns (editAll (Findings.detect code) code) := by
  obtain ⟨fs, cs, ls, h, -⟩ := detect_lists code
  exact (FieldLookup.edit_returns h code).bind (fun a =>
    (ClickListener.edit_returns h a).bind (fun b => BindCall.edit_returns code b))

/-! ## annotations dropped -/

/-- some handler has resources on more than one line -/
def SpreadHandler (code : Text) : Prop :=
  (∃ m ∈ annotatedClick.findAll (withoutComments code), '\n' ∈ m.group 1)
    ∨ ∃ m ∈ annotatedLongClick.findAll code, '\n' ∈ m.group 1

theorem dropLine_returns_iff (line : Slot Text) (code : Text) :
    Returns (dropLine line code) ↔ line ≠ .null := by
  cases line <;> simp [dropLine, Slot.orElse, Returns]

theorem dropWholeLine_returns_iff (line : Slot Text) (code : Text) :
    Returns (dropWholeLine line code) ↔ line ≠ .null := by
  cases line <;> simp [dropWholeLine, Slot.orElse, Returns]

/-- annotations can be dropped iff the line of each handler is known -/
theorem dropAnnotations_returns_iff {source : Text} (h : mentionsButterKnife source)
    (code : Text) : Returns (dropAnnotations (Findings.detect source) code)
      ↔ ¬ SpreadHandler source := by
  obtain ⟨fs, hfs⟩ := exists_fields source
  have hviews : ∀ code,
      Returns ((detectBindViews source).foldlM (fun code b => dropLine b.line code) code) := by
    rw [hfs]
    refine foldlM_returns (fun code b hb => ?_)
    obtain ⟨F, -, rfl⟩ := List.mem_map.mp hb
    exact returns_ok _
  have hclicks : ∀ code,
      Returns ((detectClicks source).foldlM (fun code h => dropLine h.line code) code)
        ↔ ∀ h ∈ detectClicks source, h.line ≠ .null :=
    foldlM_returns_iff (fun code h _ => dropLine_returns_iff h.line code)
  have hlong : ∀ code,
      Returns ((detectLongClicks source).foldlM (fun code h => dropWholeLine h.line code) code)
        ↔ ∀ h ∈ detectLongClicks source, h.line ≠ .null :=
    foldlM_returns_iff (fun code h _ => dropWholeLine_returns_iff h.line code)
  have hclickLine : ∀ m ∈ annotatedClick.findAll (withoutComments source),
      (lineWith source (m.group 1) = .null ↔ '\n' ∈ m.group 1) := fun m hm =>
    lineWith_eq_null_iff_mem (fun hn => line_withoutComments hn (annotatedClick_group hm).2.2)
  have hlongLine : ∀ m ∈ annotatedLongClick.findAll source,
      (lineWith source (m.group 1) = .null ↔ '\n' ∈ m.group 1) := fun m hm =>
    lineWith_eq_null_iff_mem (fun hn => exists_line hn (annotatedLongClick_group hm).2)
  calc Returns (dropAnnotations (Findings.detect source) code)
      ↔ (∀ h ∈ detectClicks source, h.line ≠ .null)
          ∧ ∀ h ∈ detectLongClicks source, h.line ≠ .null := by
        simp only [dropAnnotations, Findings.detect, h, if_true, Slot.walked, Slot.orElse, ok_bind]
        obtain ⟨w, hw⟩ := hviews code
        rw [hw, ok_bind, returns_bind_iff hlong, hclicks]
    _ ↔ (∀ m ∈ annotatedClick.findAll (withoutComments source), '\n' ∉ m.group 1)
          ∧ ∀ m ∈ annotatedLongClick.findAll source, '\n' ∉ m.group 1 := by
        simp only [detectClicks, detectLongClicks, List.forall_mem_map]
        exact and_congr (forall₂_congr fun m hm => not_congr (hclickLine m hm))
          (forall₂_congr fun m hm => not_congr (hlongLine m hm))
    _ ↔ ¬ SpreadHandler source := by
        simp only [SpreadHandler, not_or, not_exists, not_and]

/-! ## the round -/

/-- what stops an injection: on the first two routes a handler without a line, on the others a kind
that stays open -/
def Stuck (source code : Text) : Prop :=
  if isHolder code || setsContentView code then SpreadHandler source
  else newBaseHeaders.any (·.found code) = false ∧ EndlessLineage code

theorem isNewBase_returns_iff {code : Text} (h : setsContentView code = false) :
    Returns (isNewBase code) ↔
      ¬ (newBaseHeaders.any (·.found code) = false ∧ EndlessLineage code) := by
  have hfault : Returns (isNewBase code) ↔ ¬ isNewBase code = .error .endlessInheritance := by
    cases hb : isNewBase code with
    | ok b => simp [returns_ok]
    | error e => simp [isNewBase_fault hb, not_returns_error]
  rw [hfault, isNewBase_fault_iff]
  simp only [setsContentView, Bool.or_eq_false_iff] at h
  simp [h.1.2]

theorem injected_returns_iff {source : Text} (h : mentionsButterKnife source) (code : Text) :
    Returns (injected (Findings.detect source) code) ↔ ¬ Stuck source (imported code) := by
  obtain ⟨fs, cs, ls, hl, -⟩ := detect_lists source
  have hinner : ∀ placed, Returns (injectInnerHolders (Findings.detect source) placed) :=
    fun placed =>
    ⟨_, injectInnerHolders_eq hl placed⟩
  rw [injected_eq ((detect_applies source).trans h)]
  generalize imported code = start
  unfold Stuck Route.of
  by_cases hh : isHolder start = true
  · simp only [hh, if_true, Bool.true_or, ok_bind, pure_eq_ok, Route.place_holder hl]
    rw [returns_bind_total hinner, returns_bind_total (fun _ => returns_ok _),
      dropAnnotations_returns_iff h]
  · by_cases hc : setsContentView start = true
    · simp only [hh, hc, if_true, Bool.false_eq_true, if_false, Bool.or_true, ok_bind, pure_eq_ok,
        Route.place_contentView hl]
      rw [returns_bind_total hinner, returns_bind_total (fun _ => returns_ok _),
        dropAnnotations_returns_iff h]
    · have hplace : ∀ b : Bool, Returns ((if b then Route.newBase else Route.other).place
          (Findings.detect source) start) := by
        intro b
        cases b
        · exact ⟨_, Route.place_other hl start⟩
        · exact ⟨_, Route.place_newBase hl start⟩
      simp only [hh, hc, Bool.or_self, Bool.false_eq_true, if_false]
      rw [← isNewBase_returns_iff (by simpa using hc)]
      cases hb : isNewBase start with
      | error e => simp [not_returns_error]
      | ok b => simpa [returns_ok] using (hplace b).bind hinner

/-- a round returns exactly where it is not stuck -/
theorem migrate_returns_iff (code : Text) : ∃ edited, editAll (Findings.detect code) code
    = .ok edited
    ∧ (Returns (migrate code) ↔ ¬ (mentionsButterKnife code = true
      ∧ Stuck code (imported edited))) := by
  obtain ⟨edited, hedited⟩ := editAll_returns code
  refine ⟨edited, hedited, ?_⟩
  rw [migrate, hedited, ok_bind]
  by_cases h : mentionsButterKnife code
  · rw [injected_returns_iff h]
    simp [h]
  · rw [injected_of_not_applies ((detect_applies code).trans (by simpa using h))]
    simp [h, returns_ok]

/-- the click handler of a holder with its two resources on two lines stops the round, and so does a
class that is its own grandparent -/
theorem migrate_stuck :
    migrate
      "public class AHolder \x7b\n@OnClick(\x7bR.id.a,\nR.id.b\x7d)\nvoid m() \x7b\n\x7d\n\x7d\n"
      = .error .wrongKind
    ∧ migrate
      "class A extends B \x7b\n@BindView(R.id.a) A a;\n\x7d\nclass B extends A \x7b\x7d"
      = .error .endlessInheritance := by
  constructor <;> decide +kernel

end Rebind
