import Mathlib
import Rebind.Proofs.Injection.Standing
import Rebind.Proofs.Migration.Completeness

/-!
# Methods survive a migration round

A round keeps the names of the methods that it found as long as their headers are `Sheltered`: each
stands on one line where no parenthesis is open, and is apart from what the round takes out.  That
is

* lines with bind calls, and lines that import the library;
* annotations that the injection drops by their lines;
* bodies of methods that become other ones.

The editors of fields and of click handlers need no such condition.  A long-click annotation on the
line of its method is dropped with that line, and the method is lost (`methods_lost`).
-/

namespace Rebind

def marksEdited (code : Text) : Except Fault Text :=
  FieldLookup.edit (.detect code) code >>= ClickListener.edit (.detect code)

/-- the header is apart from all that a round takes out -/
structure Sheltered (H : Header) (code : Text) : Prop where
  stands : H.Stands code
  binds : ∀ marks, marksEdited code = .ok marks → H.SparedBy BindCall.bindsLine marks
  imports : ∀ edited, editAll (.detect code) code = .ok edited →
    H.SparedBy (fun l => (droppedImport? l).isSome) edited
  drops : ∀ edited route, editAll (.detect code) code = .ok edited →
    Route.of (imported edited) = .ok route
      → H.SparedByAll (route.drops (.detect code)) (imported edited)
  swaps : ∀ edited route, editAll (.detect code) code = .ok edited →
    Route.of (imported edited) = .ok route →
    ∀ s ∈ route.swaps (.detect code) (eraseAll (route.drops (.detect code)) (imported edited)),
      H.Spares s.1 s.2

theorem stands_imported {H : Header} {code : Text}
    (h : H.SparedBy (fun l => (droppedImport? l).isSome) code) (hs : H.Stands code) :
    H.Stands (imported code) := by
  refine hs.dropped (Dropped.filter (fun l hl hdrop => h l hl ?_))
  simpa [Option.isSome_iff_ne_none] using hdrop

/-- the long clicks of a source are on resources -/
def LongClicksOnResources (code : Text) : Prop :=
  ∀ h ∈ (Findings.detect code).longClicks.items, ∀ ids, h.ids = .given ids →
    ∀ id ∈ ids, resourceId.Covers id

theorem Sheltered.stands_migrate {H : Header} {code out : Text} (h : Sheltered H code)
    (hlong : LongClicksOnResources code) (hout : migrate code = .ok out) : H.Stands out := by
  obtain ⟨fs, cs, ls, hl, -⟩ := detect_lists code
  have hcs := resourcesOnly_of_lists hl
  have hls : ResourcesOnly ls := fun L hL id hid => by
    refine hlong L.handler ?_ L.ids rfl id hid
    rw [hl.longClicks]
    exact List.mem_map_of_mem hL
  obtain ⟨edited, hedit, hinj⟩ := bind_eq_ok.mp hout
  obtain ⟨fields, hfields, hrest⟩ := bind_eq_ok.mp hedit
  obtain ⟨marks, hmarks, hbind⟩ := bind_eq_ok.mp hrest
  have hspared : H.SparedBy BindCall.bindsLine marks :=
    h.binds marks (by rw [marksEdited, hfields]; exact hmarks)
  have hedited : H.Stands edited := BindCall.edit_stands hbind hspared
    (ClickListener.edit_stands hl hcs hmarks (FieldLookup.edit_stands hl hfields h.stands))
  by_cases happlies : (Findings.detect code).applies
  · rw [injected_eq happlies] at hinj
    obtain ⟨route, hroute, hplace⟩ := bind_eq_ok.mp hinj
    obtain ⟨placed, hplaced, hinner⟩ := bind_eq_ok.mp hplace
    have hstart := stands_imported (h.imports edited hedit) hedited
    have hresult := Route.place_stands hl hcs hls (h.drops edited route hedit hroute)
      (h.swaps edited route hedit hroute) hplaced hstart
    rw [injectInnerHolders_eq hl] at hinner
    rw [← Except.ok.inj hinner]
    exact stands_innerHolders fs _ hresult
  · rw [injected_of_not_applies (by simpa using happlies)] at hinj
    rwa [← Except.ok.inj hinj]

/-! ## sheltered headers by computation -/

/-- the texts start with characters that the other one does not have -/
def headsApart : Text → Text → Bool
  | x :: s, y :: u => !(y :: u).contains x && !(x :: s).contains y
  | _, _ => false

theorem apart_of_headsApart {s u : Text} (h : headsApart s u) : Apart s u := by
  cases s with
  | nil => cases h
  | cons x s =>
    cases u with
    | nil => cases h
    | cons y u =>
      simp only [headsApart, Bool.and_eq_true, Bool.not_eq_true', List.contains_eq_mem,
        decide_eq_false_iff_not] at h
      exact apart_of_heads h.2 h.1

/-- what the patterns match in their turn is seen to be apart from the header -/
def Header.clears (H : Header) : List Pattern → Text → Bool
  | [], _ => true
  | p :: ps, code =>
    (p.findAll code).all (fun m => headsApart H.text m.text && decide (Balanced m.text))
      && H.clears ps (p.erase code)

theorem Header.sparedByAll_of_clears {H : Header} {ps : List Pattern} {code : Text}
    (h : H.clears ps code) : H.SparedByAll ps code := by
  induction ps generalizing code with
  | nil => trivial
  | cons p ps ih =>
    obtain ⟨hfirst, hrest⟩ := Bool.and_eq_true_iff.mp h
    refine ⟨fun m hm => ?_, ih hrest⟩
    obtain ⟨hapart, hbalanced⟩ := Bool.and_eq_true_iff.mp (List.all_eq_true.mp hfirst m hm)
    exact ⟨apart_of_headsApart hapart, of_decide_eq_true hbalanced⟩

/-- the conditions of a sheltered header other than where it stands -/
def Header.sheltered (H : Header) (code : Text) : Bool :=
  (marksEdited code).toOption.all (fun marks => decide (H.SparedBy BindCall.bindsLine marks))
    && (editAll (.detect code) code).toOption.all (fun edited =>
      decide (H.SparedBy (fun l => (droppedImport? l).isSome) edited)
      && (Route.of (imported edited)).toOption.all (fun route =>
        H.clears (route.drops (.detect code)) (imported edited)
        && (route.swaps (.detect code)
          (eraseAll (route.drops (.detect code)) (imported edited))).all
          (fun s => decide (H.Spares s.1 s.2))))

theorem sheltered_of_check {H : Header} {code : Text} (hstands : H.Stands code)
    (h : H.sheltered code) : Sheltered H code := by
  have hall : ∀ {α : Type} {x : Except Fault α} {check : α → Bool}, x.toOption.all check →
      ∀ a, x = .ok a → check a := by
    intro α x check hx a ha
    rw [ha] at hx
    exact hx
  obtain ⟨hbinds, hedited⟩ := Bool.and_eq_true_iff.mp h
  have hedit := fun edited he => Bool.and_eq_true_iff.mp (hall hedited edited he)
  have hroute := fun edited route he hr =>
    Bool.and_eq_true_iff.mp (hall (hedit edited he).2 route hr)
  exact
    { stands := hstands
      binds := fun marks hm => of_decide_eq_true (hall hbinds marks hm)
      imports := fun edited he => of_decide_eq_true (hedit edited he).1
      drops := fun edited route he hr => Header.sparedByAll_of_clears (hroute edited route he hr).1
      swaps := fun edited route he hr s hs =>
        of_decide_eq_true (List.all_eq_true.mp (hroute edited route he hr).2 s hs) }

/-- a holder with a click handler on the line of its annotation, and a long-click handler below its
own -/
def handledHolder : Text :=
  unlines ["public class AHolder \x7b", "@OnClick(R.id.b) void k() \x7b", "\x7d",
    "@OnLongClick(R.id.a)", "boolean m() \x7b", "ButterKnife.bind(this);", "\x7d", "\x7d", []]

/-- the header of a method without parameters -/
def Header.bare (type name : Text) (htype : type ≠ [] ∧ type.all isWord)
    (hname : name ≠ [] ∧ name.all isWord) : Header where
  type := type
  gap := " "
  name := name
  space := []
  params := []
  room := " "
  type_word := ⟨htype.1, List.all_eq_true.mp htype.2⟩
  gap_blank := ⟨by simp, List.all_eq_true.mp (by decide)⟩
  name_word := ⟨hname.1, List.all_eq_true.mp hname.2⟩
  space_blank := by simp
  params_plain := by simp
  room_blank := List.all_eq_true.mp (by decide)
  unmarked := by decide

def clickHeader : Header := .bare "void" "k" ⟨by simp, by decide⟩ ⟨by simp, by decide⟩

def longClickHeader : Header := .bare "boolean" "m" ⟨by simp, by decide⟩ ⟨by simp, by decide⟩

/-- the methods that were found are found again after a round, if their headers are sheltered -/
theorem methods_kept {code out : Text} (hlong : LongClicksOnResources code)
    (hout : migrate code = .ok out) :
    ∀ n ∈ (Findings.detect code).methods.items, (∃ H : Header, H.name = n ∧ Sheltered H code) →
      n ∈ methodNames out := by
  rintro n - ⟨H, rfl, hH⟩
  exact Header.mem_methodNames (hH.stands_migrate hlong hout)

theorem methods_kept_handledHolder :
    (Findings.detect handledHolder).methods.items = ["k".toList, "m".toList]
      ∧ ∃ out, migrate handledHolder = .ok out ∧ "k".toList ∈ methodNames out
        ∧ "m".toList ∈ methodNames out := by
  have hmethods : (Findings.detect handledHolder).methods.items = ["k", "m"] := by
    decide +kernel
  have hlong : LongClicksOnResources handledHolder := by
    have hids : ∀ h ∈ (Findings.detect handledHolder).longClicks.items,
        h.ids = .given ["R.id.a"] := by decide +kernel
    intro h hh ids hgiven id hid
    rw [hids h hh] at hgiven
    rw [← Slot.given.inj hgiven, List.mem_singleton] at hid
    rw [hid]
    exact covers_resourceId.mpr ⟨[], "a", by decide, .inl rfl,
      covers_word.mpr ⟨by simp, List.all_eq_true.mp (by decide)⟩⟩
  have hclick : Sheltered clickHeader handledHolder := by
    refine sheltered_of_check ⟨unlines ["public class AHolder \x7b", "@OnClick(R.id.b) "],
      unlines [[], "\x7d",
      "@OnLongClick(R.id.a)", "boolean m() \x7b", "ButterKnife.bind(this);", "\x7d", "\x7d", []],
        ?_, ?_⟩ ?_
    · decide +kernel
    · decide +kernel
    · decide +kernel
  have hlongClick : Sheltered longClickHeader handledHolder := by
    refine sheltered_of_check ⟨unlines
      ["public class AHolder \x7b", "@OnClick(R.id.b) void k() \x7b", "\x7d",
      "@OnLongClick(R.id.a)", []], unlines [[], "ButterKnife.bind(this);", "\x7d", "\x7d", []],
        ?_, ?_⟩ ?_
    · decide +kernel
    · decide +kernel
    · decide +kernel
  obtain ⟨out, hout, -⟩ : ∃ e, migrate handledHolder = .ok e ∧ True :=
    exists_ok_of_check (by decide +kernel)
  have hkept := methods_kept hlong hout
  rw [hmethods] at hkept
  exact ⟨hmethods, out, hout, hkept _ (by simp) ⟨clickHeader, rfl, hclick⟩,
    hkept _ (by simp) ⟨longClickHeader, rfl, hlongClick⟩⟩

def longClickLine : Text :=
  unlines ["public class AHolder \x7b", "@OnLongClick(R.id.a) boolean m() \x7b", "\x7d", "\x7d", []]

/-- the line of the annotation goes, and the header of the method with it -/
theorem methods_lost : (Findings.detect longClickLine).methods.items = ["m".toList]
    ∧ migrate longClickLine = .ok (unlines ["public class AHolder \x7b", "\x7d", "\x7d", []])
    ∧ methodNames (unlines ["public class AHolder \x7b", "\x7d", "\x7d", []]) = [] := by
  refine ⟨by decide +kernel, ?_, by decide +kernel⟩
  obtain ⟨out, hout, he⟩ : ∃ e, migrate longClickLine = .ok e
      ∧ e = unlines ["public class AHolder \x7b", "\x7d", "\x7d", []] :=
        exists_ok_of_check (by decide +kernel)
  rw [hout, he]

end Rebind
