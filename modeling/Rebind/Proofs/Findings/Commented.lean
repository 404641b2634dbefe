import Mathlib
import Rebind.Proofs.Findings.Quiet
import Rebind.Proofs.Source.Comments

/-!
# What comments have no part in

The fields and the click handlers of a source are read off the text without its comments.  The names
of the library are looked for in the whole text first, but where they stand nowhere nothing could be
found either, so `Findings.bound` and `Findings.handled` depend on the text without comments alone
(`bound_detect`, `handled_detect`).  A comment line makes no difference to them, wherever it is put
(`comment_line_binds_nothing`).
-/

namespace Rebind

open List Pattern

def BindView.binding (b : BindView) : Slot Text × Slot Text × Slot Text := (b.id, b.type, b.name)

def Handler.binding (h : Handler) : Slot (List Text) × Slot Text := (h.ids, h.method)

def Findings.bound (f : Findings) : List (Slot Text × Slot Text × Slot Text) :=
  f.bindViews.items.map BindView.binding

def Findings.handled (f : Findings) : List (Slot (List Text) × Slot Text) :=
  f.clicks.items.map Handler.binding

/-! ## without a name of the library nothing is bound -/

theorem mark_absent {code : Text} (h : mentionsButterKnife code = false) :
    ∀ mark ∈ annotationMarks, ¬ mark <:+: code := by
  intro mark hmark
  rw [← occursIn_eq_false_iff]
  unfold mentionsButterKnife at h
  simp only [Bool.or_eq_false_iff] at h
  obtain ⟨⟨⟨hview, hclick⟩, hlong⟩, hbind⟩ := h
  simp only [annotationMarks, List.mem_cons, List.not_mem_nil, or_false] at hmark
  rcases hmark with rfl | rfl | rfl | rfl
  · exact hview
  · exact hclick
  · exact hlong
  · exact hbind

theorem quiet_of_not_mentions {code : Text} (h : mentionsButterKnife code = false) :
    Quiet code := by
  intro mark hmark
  apply quietFor_of_absent
  exact mark_absent h mark hmark

theorem findAll_of_not_mentions {code mark : Text} {q : Pattern}
    (h : mentionsButterKnife code = false) (hmark : mark ∈ annotationMarks) :
    (Pattern.andThen (.text mark) (.andThen blanks (.andThen (.text ['(']) q))).findAll
      (withoutComments code) = [] := by
  rw [eq_nil_iff_forall_not_mem]
  intro m hm
  exact (quiet_withoutComments (quiet_of_not_mentions h) _ hmark).not_covers (of_mem_findAll hm)

theorem detect_bindViews (code : Text) :
    (Findings.detect code).bindViews = .given (detectBindViews code) := by
  cases h : mentionsButterKnife code with
  | true => rw [Findings.detect, if_pos h]
  | false =>
    have hnone : annotatedField.findAll (withoutComments code) = [] :=
      findAll_of_not_mentions h (by decide)
    rw [detectBindViews, hnone, Findings.detect, h]
    rfl

theorem detect_clicks (code : Text) :
    (Findings.detect code).clicks = .given (detectClicks code) := by
  cases h : mentionsButterKnife code with
  | true => rw [Findings.detect, if_pos h]
  | false =>
    have hnone : annotatedClick.findAll (withoutComments code) = [] :=
      findAll_of_not_mentions h (by decide)
    rw [detectClicks, hnone, Findings.detect, h]
    rfl

/-! ## what is bound -/

theorem bound_detect (code : Text) : (Findings.detect code).bound
    = (annotatedField.findAll (withoutComments code)).map
      (fun m => (BindView.ofMatch [] m).binding) := by
  rw [Findings.bound, detect_bindViews, Slot.items, detectBindViews, map_map]
  rfl

theorem handled_detect (code : Text) : (Findings.detect code).handled
    = (annotatedClick.findAll (withoutComments code)).map
      (fun m => (Handler.ofMatch [] m).binding) := by
  rw [Findings.handled, detect_clicks, Slot.items, detectClicks, map_map]
  rfl

/-- a source with one more comment line binds the same fields and handlers in the same order, also
where the line comes inside of an annotation or of a block comment, and whatever the comment
mentions -/
theorem comment_line_binds_nothing (L : CommentLine) (code : Text) (i : Nat) :
    (Findings.detect (unlines ((lines code).take i ++ L.text :: (lines code).drop i))).bound
        = (Findings.detect code).bound
    ∧ (Findings.detect (unlines ((lines code).take i ++ L.text :: (lines code).drop i))).handled
        = (Findings.detect code).handled := by
  rw [bound_detect, bound_detect, handled_detect, handled_detect, withoutComments_insert]
  exact ⟨rfl, rfl⟩

end Rebind
