import Mathlib
import Rebind.Injection.Statements
import Rebind.Proofs.Findings.Shape
import Rebind.Proofs.Outcome

/-!
# The injected blocks of fields and listeners

On fields and listeners no generator of statements stops with a fault.  Each part of a block is a
comment with the rows of its entries below it (`headed`), and nothing at all without entries.  The
rows:

* `lookupRows`, `itemLookupRows`: look-ups of fields;
* `plainRows`: listeners on looked-up views, without casts;
* `fieldRows`: listeners on fields, each with a blank line behind it;
* `typedRows`: listeners on looked-up views, with casts;
* `itemRows`: listeners of a holder, with a blank line behind each method.

The blocks of whole findings are put together from these: `initialisationBlock`, `mainLookupBlock`,
`mainListenerBlock`, `itemBlock`, `lookupBlock` and `listenerBlock`.  `BlockLine` lists the lines
that any of them may have, so what holds of these holds of every line of a block (`IsBlock`).
-/

namespace Rebind

open List Pattern

def headed {α : Type} (comment : Text) (entries : List α) (rows : List Text) : List Text :=
  if entries.isEmpty then [] else indented comment :: rows

theorem mem_headed {α : Type} {comment l : Text} {entries : List α} {rows : List Text}
    (h : l ∈ headed comment entries rows) : l = indented comment ∨ l ∈ rows := by
  unfold headed at h
  split at h
  · simp at h
  · exact mem_cons.mp h

/-! ## resources -/

theorem replaceFrom_of_absent {old new done t : Text} (h : ¬ old <:+: t) :
    replaceFrom old new done 0 t = done.reverse ++ t := by
  induction t generalizing done with
  | nil => simp [replaceFrom]
  | cons c t ih =>
    rw [infix_cons_iff, not_or, ← List.isPrefixOf_iff_prefix, Bool.not_eq_true] at h
    rw [replaceFrom, h.1, if_neg (by simp), ih h.2]
    simp

theorem replaceAll_of_absent {old new t : Text} (h : ¬ old <:+: t) : replaceAll old new t = t := by
  unfold replaceAll
  split
  · rfl
  · rw [replaceFrom_of_absent h, reverse_nil, nil_append]

theorem applicationId_of_name {two w : Text} (htwo : two = [] ∨ two = ['2']) (hw : word.Covers w) :
    applicationId ('R' :: two ++ ".id." ++ w) = "R.id." ++ w := by
  have hdot : '.' ∉ w := fun hm => absurd ((covers_word.mp hw).2 '.' hm) (by decide)
  rcases htwo with rfl | rfl
  · rw [applicationId, if_neg]
    · rfl
    · simp
  · have hskip : replaceFrom "R2.id." "R.id." [] 0
        ('R' :: ['2'] ++ ".id." ++ w)
        = replaceFrom "R2.id." "R.id." "R.id.".toList.reverse 0 w := rfl
    rw [applicationId, if_pos (by simp), replaceAll, if_neg (by simp), hskip,
      replaceFrom_of_absent (fun hi => hdot (hi.mem (by decide)))]
    rfl

theorem applicationId_eq {id : Text} (h : resourceId.Covers id) :
    ∃ w, word.Covers w ∧ applicationId id = "R.id." ++ w := by
  obtain ⟨two, w, rfl, htwo, hw⟩ := covers_resourceId.mp h
  exact ⟨w, hw, applicationId_of_name htwo hw⟩

/-! ## look-ups -/

def lookupRows (fs : List Field) : List Text := fs.map (fun F => lookupLine F.name F.id)

def itemLookupRows (fs : List Field) : List Text := fs.map (fun F => itemLookupLine F.name F.id)

def mainFields (fs : List Field) : List Field := fs.filter (fun F => isMainField F.name)

theorem allLookups_fields (fs : List Field) :
    allLookups (fs.map Field.view) = .ok (headed lookupComment fs (lookupRows fs ++ [[]])) := by
  cases fs with
  | nil => rfl
  | cons F fs =>
    rw [allLookups, if_neg (by simp), mapM_map,
      mapM_ok (g := fun F : Field => lookupLine F.name F.id)]
    · rfl
    · exact fun _ _ => rfl

theorem mainLookups_fields (fs : List Field) :
    mainLookups (fs.map Field.view)
      = .ok (headed lookupComment fs (lookupRows (mainFields fs))) := by
  cases fs with
  | nil => rfl
  | cons F fs =>
    rw [mainLookups, if_neg (by simp), mapM_map,
      mapM_ok (g := fun F : Field => if isMainField F.name then [lookupLine F.name F.id] else [])]
    · have hflat : ∀ l : List Field,
          (l.map (fun F => if isMainField F.name then [lookupLine F.name F.id] else [])).flatten
            = lookupRows (mainFields l) := by
        intro l
        induction l with
        | nil => rfl
        | cons F l ih =>
          by_cases h : isMainField F.name <;>
            simpa [lookupRows, mainFields, h] using ih
      rw [ok_bind, hflat]
      rfl
    · intro F _
      cases h : isMainField F.name <;> simp [Field.view, Slot.require, h]

theorem itemLookups_fields (fs : List Field) :
    itemLookups (fs.map Field.view)
      = .ok (headed lookupComment fs (itemLookupRows fs ++ [[]])) := by
  cases fs with
  | nil => rfl
  | cons F fs =>
    rw [itemLookups, if_neg (by simp), mapM_map,
      mapM_ok (g := fun F : Field => itemLookupLine F.name F.id)]
    · rfl
    · exact fun _ _ => rfl

/-! ## listeners -/

/-- the view of a resource: the first field bound to it, or the variable that stands for it -/
def viewNameIn (id : Text) (fs : List Field) : Text :=
  match fs.find? (·.id = id) with
  | some F => F.name
  | none => viewNameOfId id

theorem viewNameFor_fields (id : Text) (fs : List Field) :
    viewNameFor id (fs.map Field.view) = .ok (viewNameIn id fs) := by
  induction fs with
  | nil => rfl
  | cons F fs ih =>
    rw [map_cons, viewNameFor]
    by_cases h : F.id = id
    · simp [Field.view, Slot.require, viewNameIn, h]
    · simp [Field.view, Slot.require, viewNameIn, h]
      exact ih

def Listener.call (L : Listener) : Text := plainCall L.method L.view.isSome

def Listener.castCall (L : Listener) : Text := typedCall L.method L.view.isSome (L.view.getD [])

def plainRows (kind : ClickKind) (ls : List Listener) : List Text :=
  ls.flatMap (fun L => L.ids.map (fun id => listenerLine kind (viewOf id) L.call))

def fieldRows (fs : List Field) (ls : List Listener) : List Text :=
  ls.flatMap (fun L => L.ids.flatMap (fun id =>
    if (viewNameIn id fs).isEmpty then []
    else [listenerLine .longClick (viewNameIn id fs) L.castCall, []]))

def typedRows (kind : ClickKind) (fs : List Field) (ls : List Listener) : List Text :=
  ls.flatMap (fun L => L.ids.flatMap (fun id =>
    if (viewNameIn id fs).isEmpty then [] else [listenerLine kind (viewOf id) L.castCall, []]))

def itemViewIn (id : Text) (fs : List Field) : Text :=
  if (viewNameIn id fs).isEmpty then itemViewOf id else viewNameIn id fs

def itemRows (kind : ClickKind) (fs : List Field) (ls : List Listener) : List Text :=
  ls.flatMap (fun L => L.ids.map (fun id => listenerLine kind (itemViewIn id fs) L.castCall)
    ++ [[]])

theorem plainListeners_listeners (default : Bool) (kind : ClickKind) (ls : List Listener) :
    plainListeners default kind (ls.map Listener.handler)
      = .ok (headed kind.comment ls (plainRows kind ls)) := by
  cases ls with
  | nil => rfl
  | cons L ls =>
    rw [plainListeners, if_neg (by simp), mapM_map,
      mapM_ok (g := fun L : Listener => L.ids.map (fun id => listenerLine kind (viewOf id) L.call))]
    · rfl
    · exact fun _ _ => rfl

theorem fieldLongListeners_listeners (fs : List Field) (ls : List Listener) :
    fieldLongListeners (fs.map Field.view) (ls.map Listener.handler)
      = .ok (headed longClickComment ls (fieldRows fs ls)) := by
  cases ls with
  | nil => rfl
  | cons L ls =>
    rw [fieldLongListeners, if_neg (by simp), mapM_map,
      mapM_ok (g := fun L : Listener => L.ids.map (fun id =>
        if (viewNameIn id fs).isEmpty then []
        else [listenerLine .longClick (viewNameIn id fs) L.castCall, []]))]
    · simp [headed, fieldRows, flatMap_def, flatten_flatten, Function.comp_def]
    · intro L _
      show L.ids.mapM _ = _
      apply mapM_ok
      intro id _
      rw [viewNameFor_fields, ok_bind]
      split <;> rfl

theorem typedListeners_listeners (kind : ClickKind) (fs : List Field) (ls : List Listener) :
    typedListeners kind (fs.map Field.view) (ls.map Listener.handler)
      = .ok (headed kind.comment ls (typedRows kind fs ls)) := by
  cases ls with
  | nil => rfl
  | cons L ls =>
    rw [typedListeners, if_neg (by simp), mapM_map,
      mapM_ok (g := fun L : Listener => L.ids.map (fun id =>
        if (viewNameIn id fs).isEmpty then []
        else [listenerLine kind (viewOf id) L.castCall, []]))]
    · simp [headed, typedRows, flatMap_def, flatten_flatten, Function.comp_def]
    · intro L _
      show L.ids.mapM _ = _
      apply mapM_ok
      intro id _
      rw [viewNameFor_fields, ok_bind]
      split <;> rfl

theorem itemListeners_listeners (kind : ClickKind) (fs : List Field) (ls : List Listener) :
    itemListeners kind (fs.map Field.view) (ls.map Listener.handler)
      = .ok (headed kind.comment ls (itemRows kind fs ls)) := by
  cases ls with
  | nil => rfl
  | cons L ls =>
    rw [itemListeners, if_neg (by simp), mapM_map,
      mapM_ok (g := fun L : Listener =>
        L.ids.map (fun id => listenerLine kind (itemViewIn id fs) L.castCall) ++ [[]])]
    · rfl
    · intro L _
      show ((L.ids.mapM _ : Except Fault (List Text)) >>= _) = _
      rw [mapM_ok (g := fun id => listenerLine kind (itemViewIn id fs) L.castCall)]
      · rfl
      · intro id _
        rw [viewNameFor_fields]
        rfl

/-! ## whole blocks -/

/-- look-ups and listeners together -/
def initialisationBlock (fs : List Field) (cs ls : List Listener) : Text :=
  unlines (headed lookupComment fs (lookupRows fs ++ [[]])
    ++ headed clickComment cs (plainRows .click cs)
    ++ headed longClickComment ls (fieldRows fs ls))

def mainLookupBlock (fs : List Field) : Text :=
  unlines (headed lookupComment fs (lookupRows (mainFields fs)))

/-- the listeners of the main class -/
def mainListenerBlock (fs : List Field) (cs ls : List Listener) : Text :=
  unlines (headed clickComment cs (typedRows .click fs cs)
    ++ headed longClickComment ls (typedRows .longClick fs ls))

/-- look-ups and listeners of a holder -/
def itemBlock (fs : List Field) (cs ls : List Listener) : Text :=
  unlines (headed lookupComment fs (itemLookupRows fs ++ [[]])
    ++ headed clickComment cs (itemRows .click fs cs)
    ++ headed longClickComment ls (itemRows .longClick fs ls))

def lookupBlock (fs : List Field) : Text := unlines (headed lookupComment fs (lookupRows fs))

/-- the listeners of all handlers -/
def listenerBlock (cs ls : List Listener) : Text :=
  unlines (headed clickComment cs (plainRows .click cs)
    ++ headed longClickComment ls (plainRows .longClick ls))

theorem holderBlock_of_items {f : Findings} {fs : List Field} {cs ls : List Listener}
    (hviews : f.bindViews.items = fs.map Field.view)
    (hclicks : f.clicks.items = cs.map Listener.handler)
    (hlong : f.longClicks.items = ls.map Listener.handler) :
    holderBlock f = .ok (itemBlock fs cs ls) := by
  simp only [holderBlock, hviews, hclicks, hlong, itemLookups_fields,
    itemListeners_listeners, ok_bind, pure_eq_ok]
  rfl

section
variable {f : Findings} {fs : List Field} {cs ls : List Listener}

theorem initialisation_eq (h : f.Lists fs cs ls) :
    initialisation f = .ok (initialisationBlock fs cs ls) := by
  simp only [initialisation, h.views, h.clicks, h.longClicks, Slot.items, allLookups_fields,
    plainListeners_listeners, fieldLongListeners_listeners, ok_bind, pure_eq_ok]
  rfl

theorem newBaseBlocks_eq (h : f.Lists fs cs ls) :
    newBaseBlocks f = .ok (mainLookupBlock fs, mainListenerBlock fs cs ls) := by
  have hviews : (fs.map Field.view).forM (fun b => discard (b.id.require "id"))
      = (.ok ⟨⟩ : Except Fault PUnit) := by
    apply forM_ok
    intro b hb
    obtain ⟨F, _, rfl⟩ := mem_map.mp hb
    rfl
  have hids : ∀ l : List Listener, (l.map Listener.handler).forM
      (fun h => discard (h.ids.demand "ids" .wrongKind)) = (.ok ⟨⟩ : Except Fault PUnit) := by
    intro l
    apply forM_ok
    intro b hb
    obtain ⟨L, _, rfl⟩ := mem_map.mp hb
    rfl
  simp only [newBaseBlocks, h.views, h.clicks, h.longClicks, Slot.walked, Slot.orElse, hviews, hids,
    mainLookups_fields, typedListeners_listeners, ok_bind, pure_eq_ok]
  rfl

theorem holderBlock_eq (h : f.Lists fs cs ls) : holderBlock f = .ok (itemBlock fs cs ls) := by
  apply holderBlock_of_items
  · rw [h.views, Slot.items]
  · rw [h.clicks, Slot.items]
  · rw [h.longClicks, Slot.items]

theorem generalLookups_eq (h : f.Lists fs cs ls) : generalLookups f = .ok (lookupBlock fs) := by
  rw [generalLookups, h.views]
  cases fs with
  | nil => rfl
  | cons F fs =>
    simp only [Slot.items, map_cons, isEmpty_cons, Bool.false_eq_true, if_false]
    rw [← map_cons, mapM_map, mapM_ok (g := fun F : Field => lookupLine F.name F.id)]
    · rfl
    · exact fun _ _ => rfl

theorem generalListeners_eq (h : f.Lists fs cs ls) :
    generalListeners f = .ok (listenerBlock cs ls) := by
  simp only [generalListeners, h.clicks, h.longClicks, Slot.items,
    plainListeners_listeners, ok_bind, pure_eq_ok]
  rfl

end

/-! ## the lines of blocks -/

/-- the lines of blocks; `R` holds of the resources whose views are looked up for a listener, `S` of
those whose views are named -/
inductive BlockLine (fs : List Field) (R S : Text → Prop) : Text → Prop
  | blank : BlockLine fs R S []
  | comment {c : Text} (h : c ∈ [lookupComment, clickComment, longClickComment]) :
    BlockLine fs R S (indented c)
  | lookup (F : Field) : BlockLine fs R S (lookupLine F.name F.id)
  | itemLookup (F : Field) : BlockLine fs R S (itemLookupLine F.name F.id)
  | plain (kind : ClickKind) (L : Listener) {id : Text} (h : R id) :
      BlockLine fs R S (listenerLine kind (viewOf id) L.call)
  | typed (kind : ClickKind) (L : Listener) {id : Text} (h : R id) :
      BlockLine fs R S (listenerLine kind (viewOf id) L.castCall)
  | field (L : Listener) {id : Text} (h : S id) :
      BlockLine fs R S (listenerLine .longClick (viewNameIn id fs) L.castCall)
  | item (kind : ClickKind) (L : Listener) {id : Text} (h : S id) :
      BlockLine fs R S (listenerLine kind (itemViewIn id fs) L.castCall)

/-- `R` holds of all resources that are listened to -/
def ListenTo (R : Text → Prop) (ls : List Listener) : Prop := ∀ L ∈ ls, ∀ id ∈ L.ids, R id

def BlockRows (fs : List Field) (R S : Text → Prop) (rows : List Text) :
    Prop := ∀ l ∈ rows, BlockLine fs R S l

namespace BlockRows

variable {fs : List Field} {ls : List Listener} {R S : Text → Prop} {rows rows' : List Text}

theorem append (h : BlockRows fs R S rows) (h' : BlockRows fs R S rows') :
    BlockRows fs R S (rows ++ rows') :=
  forall_mem_append.mpr ⟨h, h'⟩

theorem blank_behind (h : BlockRows fs R S rows) : BlockRows fs R S (rows ++ [[]]) :=
  h.append (forall_mem_singleton.mpr .blank)

theorem headed {α : Type} {c : Text} (hc : c ∈ [lookupComment, clickComment, longClickComment])
    (entries : List α) (h : BlockRows fs R S rows) : BlockRows fs R S (headed c entries rows) := by
  intro l hl
  rcases mem_headed hl with rfl | hl
  · exact .comment hc
  · exact h l hl

theorem lookupRows (own : List Field) : BlockRows fs R S (lookupRows own) :=
  forall_mem_map.mpr fun F _ => .lookup F

theorem itemLookupRows (own : List Field) : BlockRows fs R S (itemLookupRows own) :=
  forall_mem_map.mpr fun F _ => .itemLookup F

theorem plainRows (kind : ClickKind) (h : ListenTo R ls) :
    BlockRows fs R S (plainRows kind ls) := by
  intro l hl
  obtain ⟨L, hL, hl⟩ := mem_flatMap.mp hl
  obtain ⟨id, hid, rfl⟩ := mem_map.mp hl
  exact .plain kind L (h L hL id hid)

theorem typedRows (kind : ClickKind) (h : ListenTo R ls) :
    BlockRows fs R S (typedRows kind fs ls) := by
  intro l hl
  obtain ⟨L, hL, hl⟩ := mem_flatMap.mp hl
  obtain ⟨id, hid, hl⟩ := mem_flatMap.mp hl
  split at hl
  · simp at hl
  · rcases mem_pair.mp hl with rfl | rfl
    · exact .typed kind L (h L hL id hid)
    · exact .blank

theorem fieldRows (h : ListenTo S ls) : BlockRows fs R S (fieldRows fs ls) := by
  intro l hl
  obtain ⟨L, hL, hl⟩ := mem_flatMap.mp hl
  obtain ⟨id, hid, hl⟩ := mem_flatMap.mp hl
  split at hl
  · simp at hl
  · rcases mem_pair.mp hl with rfl | rfl
    · exact .field L (h L hL id hid)
    · exact .blank

theorem itemRows (kind : ClickKind) (h : ListenTo S ls) :
    BlockRows fs R S (itemRows kind fs ls) := by
  intro l hl
  obtain ⟨L, hL, hl⟩ := mem_flatMap.mp hl
  rcases mem_append.mp hl with hl | hl
  · obtain ⟨id, hid, rfl⟩ := mem_map.mp hl
    exact .item kind L (h L hL id hid)
  · rw [mem_singleton.mp hl]
    exact .blank

end BlockRows

def IsBlock (fs : List Field) (R S : Text → Prop) (t : Text) : Prop := ∃ rows, t = unlines rows
    ∧ BlockRows fs R S rows

namespace IsBlock

variable {fs : List Field} {cs ls : List Listener} {R S : Text → Prop}

theorem lookupBlock (fs : List Field) : IsBlock fs R S (lookupBlock fs) :=
  ⟨_, rfl, .headed (by simp) fs (.lookupRows fs)⟩

theorem mainLookupBlock (fs : List Field) : IsBlock fs R S (mainLookupBlock fs) :=
  ⟨_, rfl, .headed (by simp) fs (.lookupRows (mainFields fs))⟩

theorem listenerBlock (fs : List Field) (hcs : ListenTo R cs) (hls : ListenTo R ls) :
    IsBlock fs R S (listenerBlock cs ls) :=
  ⟨_, rfl, .append (.headed (by simp) cs (.plainRows .click hcs))
    (.headed (by simp) ls (.plainRows .longClick hls))⟩

theorem mainListenerBlock (hcs : ListenTo R cs) (hls : ListenTo R ls) :
    IsBlock fs R S (mainListenerBlock fs cs ls) :=
  ⟨_, rfl, .append (.headed (by simp) cs (.typedRows .click hcs))
    (.headed (by simp) ls (.typedRows .longClick hls))⟩

theorem initialisationBlock (hcs : ListenTo R cs) (hls : ListenTo S ls) :
    IsBlock fs R S (initialisationBlock fs cs ls) :=
  ⟨_, rfl, .append (.append (.headed (by simp) fs (.blank_behind (.lookupRows fs)))
    (.headed (by simp) cs (.plainRows .click hcs))) (.headed (by simp) ls (.fieldRows hls))⟩

theorem itemBlock (hcs : ListenTo S cs) (hls : ListenTo S ls) :
    IsBlock fs R S (itemBlock fs cs ls) :=
  ⟨_, rfl, .append (.append (.headed (by simp) fs (.blank_behind (.itemLookupRows fs)))
    (.headed (by simp) cs (.itemRows .click hcs)))
      (.headed (by simp) ls (.itemRows .longClick hls))⟩

end IsBlock

end Rebind
