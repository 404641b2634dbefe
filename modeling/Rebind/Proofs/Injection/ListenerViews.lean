import Mathlib
import Rebind.Proofs.Injection.Registrations

/-!
# The views of listeners

A listener is set on a view, and hands the view that was clicked over to its method.  The method may
take a class of views, so the view has to be cast, and the variable that a listener of a holder is
set on has to be a field.

* `HandsOver argument kind ls block`: the statements of the block call their methods with
  `argument`;
* `arguments_typed_iff`: where casts are written, and where they are missed;
* `heldView`, `declaredView`: what a listener of a holder is set on, and what it ought to be set on;
* `holder_views_declared_iff`: the two are the same iff every resource has a field.
-/

namespace Rebind

open List Pattern

/-! ## the view that is handed over -/

/-- the statements of the block call the method of each listener with this argument, once for each
resource -/
def HandsOver (argument : Listener → Text) (kind : ClickKind) (ls : List Listener) (block : Text) :
    Prop :=
  (registrations kind block).map Registration.listener
    = (pairings ls).map (fun p => "v -> ".toList ++ p.1.callWith (argument p.1))

/-- no method that listens to something takes a class of views other than `View` -/
def PlainViews (ls : List Listener) : Prop :=
  ∀ p ∈ pairings ls, ∀ type, p.1.view = some type → type = "View"

section
variable {kind : ClickKind} {ls : List Listener} {block : Text}

theorem Style.handsOver (S : Style) (h : registrations kind block = (pairings ls).map S.registers) :
    HandsOver S.argument kind ls block := by
  rw [HandsOver, h, map_map]
  rfl

theorem Listener.plainArgument_eq_castArgument_iff (L : Listener) :
    L.plainArgument = L.castArgument ↔ ∀ type, L.view = some type → type = "View" := by
  unfold plainArgument castArgument
  cases L.view with
  | none => simp
  | some type =>
    by_cases htype : type = "View"
    · simp [htype]
    · have hcast : ['v'] ≠ '(' :: type ++ ") v" := fun h => absurd (List.cons.inj h).1 (by decide)
      simp only [Option.isSome_some, if_true, htype, if_false, Option.some.injEq, forall_eq']
      exact iff_of_false hcast id

theorem Listener.callWith_inj (L : Listener) {a b : Text} : L.callWith a = L.callWith b
    ↔ a = b := by
  simp [callWith]

theorem handsOver_cast_iff (h : HandsOver Listener.plainArgument kind ls block) :
    HandsOver Listener.castArgument kind ls block ↔ PlainViews ls := by
  rw [HandsOver, h, map_inj_left]
  refine forall₂_congr (fun p _ => ?_)
  rw [append_cancel_left_eq, p.1.callWith_inj, p.1.plainArgument_eq_castArgument_iff]

end

/-- the code for the initialisers of a base class and for holders casts the view to the class that
the method takes; the code for a class without a content view does so for long clicks, not for
clicks, and the code of an activity that calls its initialisers never does.  What these hand over is
the view as it is, which is the same iff no method takes another class -/
theorem arguments_typed_iff (code : Text) : ∃ fs cs ls, (Findings.detect code).Lists fs cs ls
    ∧ ∃ all lookups apart item general, initialisation (.detect code) = .ok all
      ∧ newBaseBlocks (.detect code) = .ok (lookups, apart) ∧ holderBlock (.detect code) = .ok item
      ∧ generalListeners (.detect code) = .ok general
      ∧ (∀ kind : ClickKind, HandsOver Listener.castArgument kind (kind.among cs ls) apart
        ∧ HandsOver Listener.castArgument kind (kind.among cs ls) item)
      ∧ HandsOver Listener.castArgument .longClick ls all
      ∧ HandsOver Listener.plainArgument .click cs all
      ∧ (HandsOver Listener.castArgument .click cs all ↔ PlainViews cs)
      ∧ ∀ kind : ClickKind, HandsOver Listener.plainArgument kind (kind.among cs ls) general
        ∧ (HandsOver Listener.castArgument kind (kind.among cs ls) general
          ↔ PlainViews (kind.among cs ls)) := by
  obtain ⟨fs, cs, ls, hlists, hresources⟩ := detect_lists code
  have hcs : Closed cs := hresources.closed
  have hls : Closed ls := longClick_closed hlists.longClicks
  have hclick : HandsOver Listener.plainArgument .click cs (initialisationBlock fs cs ls) :=
    Style.plain.handsOver (registrations_initialisationBlock hcs hls fs .click)
  have hgeneral : ∀ kind : ClickKind,
      HandsOver Listener.plainArgument kind (kind.among cs ls) (listenerBlock cs ls) :=
    fun kind => Style.plain.handsOver (registrations_listenerBlock hcs hls kind)
  refine ⟨fs, cs, ls, hlists, _, _, _, _, _, initialisation_eq hlists, newBaseBlocks_eq hlists,
    holderBlock_eq hlists,
    generalListeners_eq hlists, fun kind => ⟨?_, ?_⟩, ?_, hclick, handsOver_cast_iff hclick,
    fun kind => ⟨hgeneral kind, handsOver_cast_iff (hgeneral kind)⟩⟩
  · exact Style.typed.handsOver (registrations_mainListenerBlock hcs hls fs kind)
  · exact (Style.onFields fs 0 1).handsOver (registrations_itemBlock hcs hls fs kind)
  · exact (Style.onFields fs 1 0).handsOver
      (registrations_initialisationBlock hcs hls fs .longClick)

def buttonHandlers : Text :=
  "class A \x7b\n@OnClick(R.id.a)\nvoid m(Button b) \x7b\n\x7d\n"
    ++ "@OnLongClick(R.id.b)\nboolean n(Button b) \x7b\n\x7d\n\x7d\n"

/-- the methods take a button and are handed a view -/
theorem button_not_cast :
    (detectClicks buttonHandlers ++ detectLongClicks buttonHandlers).map
      (fun h => (h.takesView, h.viewType))
      = [(.given true, .given "Button".toList), (.given true, .given "Button".toList)]
    ∧ (∃ block, initialisation (.detect buttonHandlers) = .ok block
      ∧ (registrations .click block).map Registration.listener = ["v -> m(v)".toList])
    ∧ ∃ block, generalListeners (.detect buttonHandlers) = .ok block
      ∧ (registrations .click block).map Registration.listener = ["v -> m(v)".toList]
      ∧ (registrations .longClick block).map Registration.listener = ["v -> n(v)".toList] := by
  -- one evaluation, which reads the source once
  have hrun : (detectClicks buttonHandlers ++ detectLongClicks buttonHandlers).map
    (fun h => (h.takesView, h.viewType))
        = [(.given true, .given "Button"), (.given true, .given "Button")]
      ∧ (initialisation (.detect buttonHandlers)).toOption.map (fun block =>
        decide ((registrations .click block).map Registration.listener = ["v -> m(v)"])) = some true
      ∧ (generalListeners (.detect buttonHandlers)).toOption.map (fun block =>
        decide ((registrations .click block).map Registration.listener = ["v -> m(v)"]
          ∧ (registrations .longClick block).map Registration.listener = ["v -> n(v)"]))
            = some true := by
    decide +kernel
  exact ⟨hrun.1, exists_ok_of_check hrun.2.1, exists_ok_of_check hrun.2.2⟩

/-! ## the view of a holder's listener -/

/-- what a listener of a holder is set on: the first field bound to the resource, or a variable that
is made up -/
def heldView (fs : List Field) (id : Text) : Text :=
  match fs.find? (·.id = id) with
  | some F => F.name
  | none => shownView (viewNameOfId id)

/-- what it ought to be set on: the first field bound to the resource, or the view that is looked up
in the item view -/
def declaredView (fs : List Field) (id : Text) : Text :=
  match fs.find? (·.id = id) with
  | some F => F.name
  | none => "itemView.findViewById(" ++ id ++ ")"

section
variable (fs : List Field) {id : Text}

theorem shownView_viewNameIn (id : Text) : shownView (viewNameIn id fs) = heldView fs id := by
  unfold viewNameIn heldView
  cases fs.find? (·.id = id) with
  | some F =>
    exact shownView_of_solid (covers_word.mp F.name_covers).1 (isBlank_of_mem_word F.name_covers)
  | none => rfl

theorem mem_of_mem_shownView {view : Text} {c : Char} (h : c ∈ shownView view) :
    c ∈ indented view :=
  mem_of_mem_afterLast ((trim_isInfix _).mem h)

theorem heldView_eq_declaredView_iff (hid : ')' ∉ id) :
    heldView fs id = declaredView fs id ↔ ∃ F ∈ fs, F.id = id := by
  unfold heldView declaredView
  cases hfind : fs.find? (·.id = id) with
  | some F =>
    have hF : F ∈ fs := mem_of_find?_eq_some hfind
    have heq : F.id = id := by simpa using find?_some hfind
    exact iff_of_true rfl ⟨F, hF, heq⟩
  | none =>
    have hnone : ¬ ∃ F ∈ fs, F.id = id := by simpa using hfind
    refine iff_of_false (fun h : shownView (viewNameOfId id) = _ => ?_) hnone
    have hheld : ')' ∉ shownView (viewNameOfId id) := fun hm =>
      not_mem_append (by decide) (not_mem_viewNameIn hid (by decide) []) (mem_of_mem_shownView hm)
    rw [h] at hheld
    exact hheld (by simp)

end

/-- the listeners of a holder are set on the first field bound to their resource.  Where there is
none they are set on a variable that is made up, never on a view of the item view, so they are set
on what they ought to be iff every resource has a field -/
theorem holder_views_declared_iff (code : Text) : ∃ fs cs ls, (Findings.detect code).Lists fs cs ls
    ∧ ∃ block, holderBlock (.detect code) = .ok block
      ∧ ∀ kind : ClickKind, (registrations kind block).map Registration.view
          = (pairings (kind.among cs ls)).map (fun p => heldView fs p.2)
        ∧ ((registrations kind block).map Registration.view
            = (pairings (kind.among cs ls)).map (fun p => declaredView fs p.2)
          ↔ ∀ p ∈ pairings (kind.among cs ls), ∃ F ∈ fs, F.id = p.2) := by
  obtain ⟨fs, cs, ls, hlists, hresources⟩ := detect_lists code
  have hcs : Closed cs := hresources.closed
  have hls : Closed ls := longClick_closed hlists.longClicks
  have hclosed : ∀ kind : ClickKind, ∀ p ∈ pairings (kind.among cs ls), ')' ∉ p.2 := by
    intro kind p hp
    obtain ⟨L, hL, hmem⟩ := mem_flatMap.mp hp
    obtain ⟨id, hid, rfl⟩ := mem_map.mp hmem
    cases kind with
    | click => exact hcs L hL id hid
    | longClick => exact hls L hL id hid
  have hviews : ∀ kind : ClickKind, (registrations kind (itemBlock fs cs ls)).map Registration.view
      = (pairings (kind.among cs ls)).map (fun p => heldView fs p.2) := by
    intro kind
    rw [registrations_itemBlock hcs hls, map_map]
    exact map_congr_left (fun p _ => shownView_viewNameIn fs p.2)
  refine ⟨fs, cs, ls, hlists, _, holderBlock_eq hlists, fun kind => ⟨hviews kind, ?_⟩⟩
  rw [hviews kind, map_inj_left]
  exact forall₂_congr (fun p hp => heldView_eq_declaredView_iff fs (hclosed kind p hp))

def unboundHandler :
    Text := "public class AHolder \x7b\n@OnClick(R.id.a)\nvoid m() \x7b\n\x7d\n\x7d\n"

/-- there is no field, and the listener is set on one -/
theorem unbound_view_made_up : (detectBindViews unboundHandler).map BindView.name = []
    ∧ (detectClicks unboundHandler).map Handler.ids = [.given ["R.id.a".toList]]
    ∧ ∃ block, holderBlock (.detect unboundHandler) = .ok block
      ∧ registrations .click block = [⟨"view_a".toList, "v -> m()".toList⟩] := by
  refine ⟨?_, ?_, exists_ok_of_check ?_⟩
  · decide +kernel
  · decide +kernel
  · decide +kernel

end Rebind
