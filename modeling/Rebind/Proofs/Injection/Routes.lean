import Mathlib
import Rebind.Injection.Inject
import Rebind.Proofs.Injection.Blocks

/-!
# The routes of an injection

An injection without its notes.  The kind of the class decides on a `Route`, and the code goes
through three stages: the imports of the library are dropped, the blocks are placed along the route
(`Route.place`), and the inner holders follow (`injected_eq`).  The routes:

* `holder`: `injectForHolder`, which takes no notes;
* `contentView`: `generalPlaced`: both initialisers, their calls (`withCalls`), and the clean-up of
  `onCreate`;
* `newBase`: `viewsPlaced` and then `listenersPlaced`;
* `other`: `otherPlaced`, one block in `onCreate`.

For fields and listeners the last two stages never fail, apart from the dropping of annotations
(`Route.place_holder` and so on, `injectInnerHolders_eq`).
-/

namespace Rebind

@[simp] theorem outcome_step {α : Type} (x : Traced α) : Step.outcome x.step = .ok x.value := rfl

@[simp] theorem outcome_liftFault {α : Type} (x : Except Fault α) :
    Step.outcome (liftFault x) = x := rfl

/-! ## blocks along a route -/

def withInitViews (lookups code : Text) : Text :=
  (provideMethod (hasMethod code "initViews") "initViews" lookups "protected" code).value

/-- the look-ups in `initViews` and the listeners in `initListener`; whether that was there is asked
before the first of them is put in -/
def withInitialisers (lookups listeners code : Text) : Text :=
  (provideMethod (hasMethod code "initListener") "initListener" listeners "public"
    (withInitViews lookups code)).value

/-- the initialisers, called from `onCreate` if there is anything in them -/
def withCalls (lookups listeners code : Text) : Text :=
  if lookups.isEmpty && listeners.isEmpty then withInitialisers lookups listeners code
  else (addInitialiserCalls (withInitialisers lookups listeners code)).value

def generalPlaced (lookups listeners code : Text) : Text :=
  (cleanOnCreate (withCalls lookups listeners code)).value

/-- the look-ups in the overridden `initViews` -/
def viewsPlaced (lookups code : Text) : Text :=
  if lookups.isEmpty then code
  else if hasInitViews code then updateInitViews code lookups
  else (createInitViews code lookups).value

/-- the listeners in the overridden `initListener` -/
def listenersPlaced (listeners code : Text) : Text :=
  if listeners.isEmpty then code
  else if hasInitListener code then updateInitListener code listeners
  else (createInitListener code listeners).value

def otherPlaced (block code : Text) : Text :=
  if block.isEmpty then code else (injectInOnCreate code block).value

theorem outcome_injectForGeneral (f : Findings) (code : Text) :
    (injectForGeneral f code).outcome = (do
      let code ← dropAnnotations f code
      let lookups ← generalLookups f
      let listeners ← generalListeners f
      return generalPlaced lookups listeners code) := by
  simp only [injectForGeneral, Step.outcome_bind, outcome_liftFault, outcome_step, ok_bind]
  cases dropAnnotations f code with
  | error e => rfl
  | ok code =>
    cases generalLookups f with
    | error e => rfl
    | ok lookups =>
      cases generalListeners f with
      | error e => rfl
      | ok listeners =>
        simp only [ok_bind, generalPlaced, withCalls, withInitialisers, withInitViews]
        cases h : (lookups.isEmpty && listeners.isEmpty) <;> simp

theorem outcome_injectForNewBase (f : Findings) (code : Text) :
    (injectForNewBase f code).outcome = (do
      let (lookups, listeners) ← newBaseBlocks f
      return listenersPlaced listeners (viewsPlaced lookups code)) := by
  simp only [injectForNewBase, Step.outcome_bind, outcome_liftFault]
  cases newBaseBlocks f with
  | error e => rfl
  | ok blocks =>
    obtain ⟨lookups, listeners⟩ := blocks
    have hlisteners : ∀ code : Text, Step.outcome (if listeners.isEmpty then pure code
        else if hasInitListener code then do
          (Traced.note (.updating "initListener")).step
          pure (updateInitListener code listeners)
        else do
          (Traced.note (.creating "initListener")).step
          (createInitListener code listeners).step) = .ok (listenersPlaced listeners code) := by
      intro code
      unfold listenersPlaced
      split_ifs <;> simp
    simp only [ok_bind, viewsPlaced]
    by_cases hempty : lookups.isEmpty
    · simp only [hempty, if_true, Step.outcome_bind, Step.outcome_pure, ok_bind, hlisteners,
        pure_eq_ok]
    · by_cases hpresent : hasInitViews code = true <;>
        simp only [hempty, hpresent, Bool.false_eq_true, if_false, if_true, Step.outcome_bind,
          outcome_step, Step.outcome_pure, ok_bind, hlisteners, pure_eq_ok]

theorem outcome_injectForOther (f : Findings) (code : Text) :
    (injectForOther f code).outcome = (do return otherPlaced (← initialisation f) code) := by
  simp only [injectForOther, Step.outcome_bind, outcome_liftFault]
  cases initialisation f with
  | error e => rfl
  | ok block =>
    simp only [ok_bind, otherPlaced]
    split_ifs <;> simp

/-! ## routes -/

inductive Route where
  | holder
  | contentView
  | newBase
  | other
  deriving DecidableEq

/-- the route that a class takes -/
def Route.of (code : Text) : Except Fault Route :=
  if isHolder code then .ok .holder
  else if setsContentView code then .ok .contentView
  else do return if ← isNewBase code then .newBase else .other

/-- the code with its blocks placed along a route -/
def Route.place : Route → Findings → Text → Except Fault Text
  | .holder, f, code => injectForHolder f code
  | .contentView, f, code => (injectForGeneral f code).outcome
  | .newBase, f, code => (injectForNewBase f code).outcome
  | .other, f, code => (injectForOther f code).outcome

def imported (code : Text) : Text := (dropLibraryImports code).value

theorem injected_of_not_applies {f : Findings} (h : f.applies = false) (code : Text) :
    injected f code = .ok code := by
  show (inject f code).outcome = _
  simp [inject, h]

/-- an injection drops the imports, places the blocks along the route and turns to the inner
holders -/
theorem injected_eq {f : Findings} (h : f.applies) (code : Text) :
    injected f code = (do
      let route ← Route.of (imported code)
      let placed ← route.place f (imported code)
      injectInnerHolders f placed) := by
  show (inject f code).outcome = _
  simp only [inject, h, Bool.not_true, Bool.false_eq_true, if_false, Step.outcome_bind,
    outcome_step, ok_bind]
  rw [show (dropLibraryImports code).value = imported code from rfl]
  generalize imported code = start
  unfold Route.of
  by_cases hh : isHolder start = true
  · simp only [hh, if_true, ok_bind, Step.outcome_bind, outcome_step, outcome_liftFault]
    rfl
  · by_cases hc : setsContentView start = true
    · simp only [hh, hc, Bool.false_eq_true, if_false, if_true, ok_bind, Step.outcome_bind,
        outcome_step, outcome_liftFault]
      rfl
    · simp only [hh, hc, Bool.false_eq_true, if_false, Step.outcome_bind, outcome_liftFault]
      cases hb : isNewBase start with
      | error e => rfl
      | ok b =>
        cases b <;> simp only [ok_bind, Bool.false_eq_true, if_false, if_true, Step.outcome_bind,
          outcome_step, outcome_liftFault, pure_eq_ok] <;> rfl

/-! ## routes of fields and listeners -/

section
variable {f : Findings} {fs : List Field} {cs ls : List Listener}

theorem Route.place_holder (h : f.Lists fs cs ls) (code : Text) : Route.holder.place f code
    = (do return injectInHolder (itemBlock fs cs ls) (← dropAnnotations f code)) := by
  simp only [Route.place, injectForHolder, holderBlock_eq h, ok_bind]

theorem Route.place_contentView (h : f.Lists fs cs ls) (code : Text) :
    Route.contentView.place f code = (do
      return generalPlaced (lookupBlock fs) (listenerBlock cs ls) (← dropAnnotations f code)) := by
  simp only [Route.place, outcome_injectForGeneral, generalLookups_eq h,
    generalListeners_eq h, ok_bind]

theorem Route.place_newBase (h : f.Lists fs cs ls) (code : Text) : Route.newBase.place f code
    = .ok (listenersPlaced (mainListenerBlock fs cs ls)
      (viewsPlaced (mainLookupBlock fs) code)) := by
  simp only [Route.place, outcome_injectForNewBase, newBaseBlocks_eq h, ok_bind, pure_eq_ok]

theorem Route.place_other (h : f.Lists fs cs ls) (code : Text) : Route.other.place f code
    = .ok (otherPlaced (initialisationBlock fs cs ls) code) := by
  simp only [Route.place, outcome_injectForOther, initialisation_eq h, ok_bind, pure_eq_ok]

def ownFields (code : Text) (start stop : Nat) (fs : List Field) : List Field :=
  fs.filter (fun F => occursIn (F.type ++ ' ' :: F.name ++ [';'])
    ((code.drop start).take (stop - start)))

/-- the code with the look-ups of one inner class -/
def innerPlaced (fs : List Field) (code : Text) (c : InnerClass) : Text :=
  if !c.isHolder || occursIn lookupComment ((code.drop c.start).take (c.stop - c.start))
      || (ownFields code c.start c.stop fs).isEmpty then code
  else injectInConstructor code c.start c.stop (itemBlock (ownFields code c.start c.stop fs) [] [])

theorem fieldsDeclared_fields (code : Text) (start stop : Nat) (fs : List Field) :
    fieldsDeclared code start stop (fs.map Field.view)
      = .ok ((ownFields code start stop fs).map Field.view) := by
  exact filterM_map_ok (fun F _ => rfl)

theorem injectInner_fields (fs : List Field) (code : Text) (c : InnerClass) :
    injectInner (fs.map Field.view) code c = .ok (innerPlaced fs code c) := by
  unfold injectInner innerPlaced
  rw [fieldsDeclared_fields]
  by_cases hh : c.isHolder
  · by_cases hl : occursIn lookupComment ((code.drop c.start).take (c.stop - c.start)) = true
    · simp [hh, hl]
    · by_cases he : (ownFields code c.start c.stop fs).isEmpty = true
      · simp [hh, hl, List.isEmpty_iff.mp he]
      · have hblock : holderBlock
            { bindViews := .given ((ownFields code c.start c.stop fs).map Field.view)
              clicks := .given [] } = .ok (itemBlock (ownFields code c.start c.stop fs) [] []) :=
          holderBlock_of_items rfl rfl rfl
        simp only [hh, hl, he, hblock, List.isEmpty_map, Bool.not_true,
          Bool.false_eq_true, if_false, Bool.or_false, ok_bind, pure_eq_ok]
  · simp [hh]

/-- the inner holders follow without a fault -/
theorem injectInnerHolders_eq (h : f.Lists fs cs ls) (code : Text) :
    injectInnerHolders f code = .ok ((innerClasses code).foldl (innerPlaced fs) code) := by
  rw [injectInnerHolders, h.views]
  exact foldlM_ok (fun code c _ => injectInner_fields fs code c) code

end

end Rebind
