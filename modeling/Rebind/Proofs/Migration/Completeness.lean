import Mathlib
import Rebind.Proofs.Edit.Dropping
import Rebind.Proofs.Injection.Additions

/-!
# When a migration round is complete

A round is complete if nothing is left to migrate in what it returns.  It is complete on every
`Orderly` source, whichever route the injection takes (`detect_migrate`):

* every bound field is declared as its editor expects it, and every click annotation names resources
  of the application itself;
* there are no long clicks, which no editor takes out;
* bind calls are only there when their editor has something to do;
* where the injection drops annotations by their lines, these lines are the annotated ones.

Marks have to stand behind white space, since what is left around a text that was taken out comes
together. A source with a resource of a library in a click annotation is not orderly, and a round
leaves that annotation as it is (`handler_left`).
-/

namespace Rebind

open List Pattern

/-! ## what the injection does before its blocks -/

def Marked (t : Text) : Prop :=
  ∃ mark ∈ annotationMarks, ∃ c, c ≠ markSign ∧ mark ++ [c] <:+: t

theorem Quiet.absent {line code : Text} (h : Quiet code) (hline : Marked line) :
    ¬ line <:+: code := by
  obtain ⟨mark, hm, c, hc, hi⟩ := hline
  exact fun hcode => (h mark hm).absent hc (hi.trans hcode)

theorem dropLine_of_marked {line : Slot Text} {code w : Text} (hq : Quiet code)
    (hline : ∀ l, line = .given l → Marked l) (h : dropLine line code = .ok w) : w = code := by
  cases line with
  | absent => exact (Except.ok.inj h).symm
  | null => cases h
  | given l =>
    rw [← Except.ok.inj h]
    exact replaceAll_of_absent (hq.absent (hline l rfl))

theorem dropAnnotations_of_marked {f : Findings} {fs : List Field} {cs : List Listener}
    {code w : Text} (hl : f.Lists fs cs []) (hfs : ∀ F ∈ fs, Marked F.line)
    (hcs : ∀ L ∈ cs, ∀ l, L.line = .given l → Marked l) (hq : Quiet code)
    (h : dropAnnotations f code = .ok w) : w = code := by
  simp only [dropAnnotations, hl.views, hl.clicks, hl.longClicks, Slot.walked, Slot.orElse, ok_bind,
    map_nil, foldlM_nil] at h
  obtain ⟨code₁, hviews, h⟩ := bind_eq_ok.mp h
  obtain ⟨code₂, hclicks, h⟩ := bind_eq_ok.mp h
  have h₁ : code₁ = code := foldlM_inv (· = code) (fun c b hb c' hc hstep => by
    obtain ⟨F, hF, rfl⟩ := mem_map.mp hb
    subst hc
    exact dropLine_of_marked hq (fun l hl => Slot.given.inj hl ▸ hfs F hF) hstep) rfl hviews
  have h₂ : code₂ = code := foldlM_inv (· = code) (fun c b hb c' hc hstep => by
    obtain ⟨L, hL, rfl⟩ := mem_map.mp hb
    subst hc
    exact dropLine_of_marked hq (hcs L hL) hstep) h₁ hclicks
  rw [← Except.ok.inj h, h₂]

/-! ## orderly sources -/

/-- the annotations of the source have the forms that the editors look for: `fields` is the source
after the editor of fields, `clicks` after that of click handlers -/
structure Orderly (code fields clicks : Text) (fs : List Field) (cs : List Listener) : Prop where
  fields_edited : FieldLookup.edit (Findings.detect code) code = .ok fields
  clicks_edited : ClickListener.edit (Findings.detect code) fields = .ok clicks
  declarations : Handled "@BindView".toList
    (fun r => ∃ F ∈ fs, Starts (FieldLookup.annotated F) r) code
  handlers : Handled "@OnClick".toList
    (fun r => (∃ L ∈ cs, L.ids ≠ []) ∧ Starts ClickListener.clickMark r) fields
  longClicks : QuietFor "@OnLongClick".toList code
  bindCalls : (∃ v, BindCall.applies (Findings.detect code) = .ok v ∧ v.truthy = true)
    ∨ QuietFor "ButterKnife.bind".toList clicks
  imports : WordStart BindCall.importWord clicks

/-- where annotations are dropped by their lines, the lines of the findings are annotated -/
def LinesMarked (fs : List Field) (cs : List Listener) : Route → Prop
  | .holder | .contentView =>
    (∀ F ∈ fs, Marked F.line) ∧ ∀ L ∈ cs, ∀ l, L.line = .given l → Marked l
  | .newBase | .other => True

section
variable {code fields clicks edited out : Text} {fs : List Field} {cs ls : List Listener}

theorem resourcesOnly_of_lists (hl : (Findings.detect code).Lists fs cs ls) : ResourcesOnly cs := by
  obtain ⟨cs', hcs', hresources⟩ := exists_clicks code
  have hsame : cs.map Listener.handler = [] ∨ cs.map Listener.handler
      = cs'.map Listener.handler := by
    have hclicks := hl.clicks
    unfold Findings.detect at hclicks
    split at hclicks
    · exact .inr ((Slot.given.inj hclicks).symm.trans hcs')
    · exact .inl (Slot.given.inj hclicks).symm
  intro L hL id hid
  rcases hsame with hnil | hsame
  · rw [map_eq_nil_iff.mp hnil] at hL
    cases hL
  · have hmem : L.handler ∈ cs'.map Listener.handler := hsame ▸ mem_map_of_mem hL
    obtain ⟨L', hL', he⟩ := mem_map.mp hmem
    have hids : L'.ids = L.ids := Slot.given.inj (congrArg Handler.ids he)
    exact hresources L' hL' id (hids ▸ hid)

theorem Orderly.quiet (h : Orderly code fields clicks fs cs)
    (hl : (Findings.detect code).Lists fs cs ls)
    (hedit : BindCall.edit (Findings.detect code) clicks = .ok edited) : Quiet edited := by
  obtain ⟨hviews, hothers⟩ := FieldLookup.edit_quiet hl h.fields_edited h.declarations
  have hlong := hothers _ onLongClick_isAtMark h.longClicks
  obtain ⟨hclicks, hothers⟩ := ClickListener.edit_quiet hl (resourcesOnly_of_lists hl)
    h.clicks_edited h.handlers
  have hviews := hothers _ bindView_isAtMark hviews
  have hlong := hothers _ onLongClick_isAtMark hlong
  obtain ⟨hcalls, hothers⟩ := BindCall.edit_quiet hedit h.bindCalls h.imports
  intro mark hm
  have hcases := hm
  simp only [annotationMarks, mem_cons, not_mem_nil, or_false] at hcases
  rcases hcases with rfl | rfl | rfl | rfl
  · exact hothers _ hm hviews
  · exact hothers _ hm hclicks
  · exact hothers _ hm hlong
  · exact hcalls

theorem longClicks_eq_nil (hl : (Findings.detect code).Lists fs cs ls)
    (h : QuietFor "@OnLongClick" code) : ls = [] := by
  have hnone : detectLongClicks code = [] := by
    rw [detectLongClicks, map_eq_nil_iff, eq_nil_iff_forall_not_mem]
    exact fun m hm => h.not_covers (of_mem_findAll hm)
  have hlong := hl.longClicks
  unfold Findings.detect at hlong
  split at hlong
  · rw [hnone] at hlong
    simpa using Slot.given.inj hlong
  · simpa using Slot.given.inj hlong

theorem bare_of_marked {f : Findings} {start : Text} {route : Route} (hl : f.Lists fs cs [])
    (hq : Quiet start) (h : LinesMarked fs cs route) : Bare f start route := by
  cases route with
  | holder => exact fun w hw => dropAnnotations_of_marked hl h.1 h.2 hq hw ▸ hq
  | contentView => exact fun w hw => dropAnnotations_of_marked hl h.1 h.2 hq hw ▸ hq
  | newBase => exact hq
  | other => exact hq

/-- a round on an orderly source leaves nothing to migrate, whichever route it takes -/
theorem detect_migrate (hl : (Findings.detect code).Lists fs cs ls)
    (horderly : Orderly code fields clicks fs cs)
    (hlines : ∀ edited route, editAll (Findings.detect code) code = .ok edited →
      Route.of (imported edited) = .ok route → LinesMarked fs cs route)
    (hout : migrate code = .ok out) :
    (Findings.detect out).bindViews = .given [] ∧ (Findings.detect out).clicks = .given []
      ∧ (Findings.detect out).longClicks = .given []
      ∧ (Findings.detect out).bindCall = .given (.bool false) := by
  obtain ⟨edited, hedit, hinj⟩ := bind_eq_ok.mp hout
  have hquiet : Quiet edited := by
    obtain ⟨a, ha, h⟩ := bind_eq_ok.mp hedit
    obtain ⟨b, hb, h⟩ := bind_eq_ok.mp h
    rw [horderly.fields_edited] at ha
    rw [← Except.ok.inj ha, horderly.clicks_edited] at hb
    rw [← Except.ok.inj hb] at h
    exact horderly.quiet hl h
  apply detect_of_quiet
  by_cases happlies : (Findings.detect code).applies
  · rw [injected_eq happlies] at hinj
    obtain ⟨route, hroute, h⟩ := bind_eq_ok.mp hinj
    obtain ⟨placed, hplaced, hinner⟩ := bind_eq_ok.mp h
    obtain rfl := longClicks_eq_nil hl horderly.longClicks
    have himported : Quiet (imported edited) :=
      quiet_unlines_iff.mpr fun l hl => quiet_iff_lines.mp hquiet l (List.mem_of_mem_filter hl)
    have hbare := bare_of_marked hl himported (hlines edited route hedit hroute)
    have hresult := quiet_place hl (resourcesOnly_of_lists hl) (by simp [ResourcesOnly])
      hbare hplaced
    rw [injectInnerHolders_eq hl] at hinner
    rw [← Except.ok.inj hinner]
    exact quiet_innerHolders fs _ hresult
  · rw [injected_of_not_applies (by simpa using happlies)] at hinj
    rw [← Except.ok.inj hinj]
    exact hquiet

end

/-- an activity with a bound field, a click handler, a bind call and an import -/
def orderlyActivity : Text :=
  "import butterknife.ButterKnife;\npublic class A \x7b\n@BindView(R.id.a) B a;\n"
    ++ "@OnClick(\x7bR.id.b, R.id.c\x7d)\nvoid m() \x7b\nButterKnife.bind(this);\n\x7d\n\x7d\n"

theorem detect_migrate_orderlyActivity :
    ∃ fs cs ls fields clicks out, (Findings.detect orderlyActivity).Lists fs cs ls
      ∧ Orderly orderlyActivity fields clicks fs cs ∧ fs.length = 1 ∧ cs.length = 1
      ∧ migrate orderlyActivity = .ok out
      ∧ (Findings.detect out).bindViews = .given [] ∧ (Findings.detect out).clicks = .given []
      ∧ (Findings.detect out).longClicks = .given []
      ∧ (Findings.detect out).bindCall = .given (.bool false) := by
  obtain ⟨fs, cs, ls, hl, -⟩ := detect_lists orderlyActivity
  -- what is found
  have hviews : (Findings.detect orderlyActivity).bindViews.items.map
    (fun b => (b.id, b.type, b.name))
      = [(.given "R.id.a", .given "B", .given "a")] := by decide +kernel
  have hclicks : (Findings.detect orderlyActivity).clicks.items.map (·.ids)
      = [.given ["R.id.b", "R.id.c"]] := by decide +kernel
  rw [hl.views, Slot.items, map_map] at hviews
  rw [hl.clicks, Slot.items, map_map] at hclicks
  obtain ⟨F, rfl⟩ : ∃ F, fs = [F] := length_eq_one_iff.mp (by simpa using congrArg length hviews)
  obtain ⟨L, rfl⟩ : ∃ L, cs = [L] := length_eq_one_iff.mp (by simpa using congrArg length hclicks)
  have hids : L.ids ≠ [] := by
    have : L.ids = ["R.id.b", "R.id.c"] := Slot.given.inj (List.cons.inj hclicks).1
    rw [this]
    simp
  have hannotated : FieldLookup.annotated F = FieldLookup.declaration blanks1 "R.id.a" "B"
      "a" := by
    have hF := (List.cons.inj hviews).1
    have hrest := (Prod.mk.inj hF).2
    rw [FieldLookup.annotated, Slot.given.inj (Prod.mk.inj hF).1, Slot.given.inj
      (Prod.mk.inj hrest).1, Slot.given.inj (Prod.mk.inj hrest).2]
  -- the forms of the annotations, place by place
  have hdeclared : Handled "@BindView" (fun r => ((FieldLookup.declaration blanks1
      "R.id.a" "B" "a").matchStart r).isSome) orderlyActivity := by
    decide +kernel
  obtain ⟨fields, hfields, hhandled⟩ : ∃ e,
      FieldLookup.edit (Findings.detect orderlyActivity) orderlyActivity = .ok e
        ∧ Handled "@OnClick" (fun r => (ClickListener.clickMark.matchStart r).isSome = true) e :=
    exists_ok_of_check (by decide +kernel)
  obtain ⟨clicks, hclicked, hstart⟩ : ∃ e,
      (FieldLookup.edit (Findings.detect orderlyActivity) orderlyActivity
        >>= ClickListener.edit (Findings.detect orderlyActivity)) = .ok e
        ∧ WordStart BindCall.importWord e := exists_ok_of_check (by decide +kernel)
  rw [hfields, ok_bind] at hclicked
  obtain ⟨v, hv, htrue⟩ : ∃ v, BindCall.applies (Findings.detect orderlyActivity) = .ok v
      ∧ v.truthy := exists_ok_of_check (by decide +kernel)
  have horderly : Orderly orderlyActivity fields clicks [F] [L] :=
    { fields_edited := hfields
      clicks_edited := hclicked
      declarations := fun a b hab => (hdeclared a b hab).imp_right (fun h =>
        ⟨h.1, F, mem_singleton_self F, hannotated ▸ starts_of_matchStart h.2⟩)
      handlers := fun a b hab => (hhandled a b hab).imp_right (fun h =>
        ⟨h.1, ⟨L, mem_singleton_self L, hids⟩, starts_of_matchStart h.2⟩)
      longClicks := by decide +kernel
      bindCalls := .inl ⟨v, hv, htrue⟩
      imports := hstart }
  -- the class is no holder and has no content view
  obtain ⟨edited, hedited, hroute⟩ : ∃ e, editAll (Findings.detect orderlyActivity) orderlyActivity
    = .ok e
      ∧ Route.of (imported e) = .ok .other := exists_ok_of_check (by decide +kernel)
  have hlines : ∀ e route, editAll (Findings.detect orderlyActivity) orderlyActivity = .ok e →
      Route.of (imported e) = .ok route → LinesMarked [F] [L] route := by
    intro e route he hr
    rw [hedited] at he
    rw [← Except.ok.inj he, hroute] at hr
    rw [← Except.ok.inj hr]
    trivial
  obtain ⟨out, hout, -⟩ : ∃ e, migrate orderlyActivity = .ok e ∧ True :=
    exists_ok_of_check (by decide +kernel)
  exact ⟨[F], [L], ls, fields, clicks, out, hl, horderly, rfl, rfl, hout,
    detect_migrate hl horderly hlines hout⟩

def libraryClick : Text := "class A \x7b\n@OnClick(R2.id.a)\nvoid m() \x7b\n\x7d\n\x7d\n"

def longClick : Text := "class A \x7b\n@OnLongClick(R.id.a)\nboolean m() \x7b\n\x7d\n\x7d\n"

/-- a round returns on both, and leaves a handler to migrate -/
theorem handler_left :
    (∃ out, migrate libraryClick = .ok out ∧ (Findings.detect out).clicks.items.length = 1)
      ∧ ∃ out, migrate longClick = .ok out ∧ (Findings.detect out).longClicks.items.length = 1 :=
  ⟨exists_ok_of_check (by decide +kernel), exists_ok_of_check (by decide +kernel)⟩

end Rebind
