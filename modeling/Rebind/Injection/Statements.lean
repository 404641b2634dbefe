import Rebind.Findings.Basic

/-!
# The statements that are injected

Look-ups that assign the bound fields, and listeners that call the bound methods.  There are four
blocks, for the four ways code is injected:

* `initialisation`: look-ups and listeners together, for a class without a content view;
* `newBaseBlocks`: look-ups and listeners apart, for the initialisers of a base class;
* `holderBlock`: look-ups inside the item view of a holder, and listeners on the fields;
* `generalLookups`, `generalListeners`: for an activity that calls its initialisers itself.

They differ in what they ask of an entry and in which order, in whether a listener casts its view,
and in the blank lines they leave.
-/

namespace Rebind

def lookupComment : Text := "// 初始化View绑定 - 替换@BindView注解"

def clickComment : Text := "// 初始化点击事件 - 替换@OnClick注解"

def longClickComment : Text := "// 初始化长按事件 - 替换@OnLongClick注解"

def indented (t : Text) : Text := "        " ++ t

def applicationId (id : Text) : Text :=
  if "R2.id.".toList.isPrefixOf id then replaceAll "R2.id." "R.id." id else id

def lookupLine (name id : Text) : Text :=
  indented (name ++ " = findViewById(".toList ++ applicationId id ++ ");".toList)

def itemLookupLine (name id : Text) : Text :=
  indented (name ++ " = itemView.findViewById(".toList ++ applicationId id ++ ");".toList)

def viewOf (id : Text) : Text := "findViewById(" ++ applicationId id ++ ")".toList

def itemViewOf (id : Text) : Text := "itemView.findViewById(" ++ applicationId id ++ ")".toList

inductive ClickKind where
  | click
  | longClick

def ClickKind.setter : ClickKind → Text
  | .click => "setOnClickListener"
  | .longClick => "setOnLongClickListener"

def ClickKind.comment : ClickKind → Text
  | .click => clickComment
  | .longClick => longClickComment

def listenerLine (kind : ClickKind) (view call : Text) : Text :=
  indented (view ++ '.' :: kind.setter ++ "(v -> ".toList ++ call ++ ");".toList)

def plainCall (method : Text) (takesView : Bool) : Text :=
  method ++ (if takesView then "(v)".toList else "()".toList)

def typedCall (method : Text) (takesView : Bool) (type : Text) : Text :=
  if takesView && type != "View".toList then method ++ "((".toList ++ type ++ ") v)".toList
  else plainCall method takesView

namespace Handler

/-- whether the handler takes the view, `default` if that is left out -/
def takes (default : Bool) (h : Handler) : Bool :=
  match h.takesView with
  | .absent => default
  | .null => false
  | .given b => b

def takenType (h : Handler) : Text :=
  match h.viewType with
  | .absent => "View"
  | .null => "None"
  | .given t => t

def parts (h : Handler) : Except Fault (List Text × Text) := do
  let ids ← h.ids.require "ids"
  let method ← h.method.written "method"
  return (← ids.elim (throw .wrongKind) pure, method)

/-- the resources and the method, asked for the other way round -/
def partsMethodFirst (h : Handler) : Except Fault (List Text × Text) := do
  let method ← h.method.written "method"
  let ids ← h.ids.require "ids"
  return (← ids.elim (throw .wrongKind) pure, method)

end Handler

def viewNameOfId (id : Text) : Text :=
  if id.contains '.' then "view_" ++ afterLast '.' id else "view_" ++ replaceAll "R_id_" [] id

/-- the first field bound to a resource, or the variable that stands for its view -/
def viewNameFor (id : Text) : List BindView → Except Fault Text
  | [] => .ok (viewNameOfId id)
  | b :: bs => do
    match ← b.id.require "id" with
    | some i => if i = id then return (← b.name.require "name").getD [] else viewNameFor id bs
    | none => viewNameFor id bs

def BindView.nameAndId (b : BindView) : Except Fault (Text × Text) := do
  let name ← b.name.written "name"
  let id ← b.id.demand "id" .noOperation
  return (name, id)

/-! ## all in one block -/

/-- the look-ups of all fields, with a blank line behind them -/
def allLookups (views : List BindView) : Except Fault (List Text) := do
  if views.isEmpty then return []
  let ls ← views.mapM (fun b => do
    let name ← b.name.written "name"
    let id ← b.id.require "id"
    let _ ← b.type.require "type"
    let id ← id.elim (throw .noOperation) pure
    return lookupLine name id)
  return indented lookupComment :: ls ++ [[]]

/-- the listeners of click handlers on looked-up views, without casts -/
def plainListeners (default : Bool) (kind : ClickKind) (hs : List Handler) :
    Except Fault (List Text) := do
  if hs.isEmpty then return []
  let ls ← hs.mapM (fun h => do
    let (ids, method) ← h.parts
    return ids.map (fun id => listenerLine kind (viewOf id) (plainCall method (h.takes default))))
  return indented kind.comment :: ls.flatten

/-- the listeners of long-click handlers on the fields, each with a blank line behind it -/
def fieldLongListeners (views : List BindView) (hs : List Handler) : Except Fault (List Text) := do
  if hs.isEmpty then return []
  let ls ← hs.mapM (fun h => do
    let (ids, method) ← h.parts
    ids.mapM (fun id => do
      let view ← viewNameFor id views
      if view.isEmpty then return []
      return [listenerLine .longClick view (typedCall method (h.takes true) h.takenType), []]))
  return indented longClickComment :: ls.flatten.flatten

def initialisation (f : Findings) : Except Fault Text := do
  let views := f.bindViews.items
  let lookups ← allLookups views
  let clicks ← plainListeners true .click f.clicks.items
  let longClicks ← fieldLongListeners views f.longClicks.items
  return unlines (lookups ++ clicks ++ longClicks)

/-! ## for the initialisers of a base class -/

def holderFieldNames : List Text :=
  ["mImgSelected".toList, "mColorPannelView".toList, "mTvTitle".toList, "mItemList".toList,
   "mImgPreview".toList, "mBtnInstall".toList, "mFrmPreview".toList, "mTvFileName".toList,
   "mCx".toList, "imgVator".toList, "tvName".toList, "tvIds".toList, "tvSteps".toList,
   "tvAddFriendTips".toList, "btnAgree".toList, "btnReject".toList, "tvLabel".toList]

def isMainField (name : Text) : Bool := !holderFieldNames.contains name

def mainLookups (views : List BindView) : Except Fault (List Text) := do
  if views.isEmpty then return []
  let ls ← views.mapM (fun b => do
    let name ← b.name.require "name"
    let id ← b.id.require "id"
    let name := name.getD "None"
    if !isMainField name then return []
    return [lookupLine name (← id.elim (throw .noOperation) pure)])
  return indented lookupComment :: ls.flatten

/-- the listeners on looked-up views, with casts, each with a blank line behind it; a resource whose
field has no name is left out -/
def typedListeners (kind : ClickKind) (views : List BindView) (hs : List Handler) :
    Except Fault (List Text) := do
  if hs.isEmpty then return []
  let ls ← hs.mapM (fun h => do
    let (ids, method) ← h.parts
    ids.mapM (fun id => do
      if (← viewNameFor id views).isEmpty then return []
      return [listenerLine kind (viewOf id) (typedCall method (h.takes true) h.takenType), []]))
  return indented kind.comment :: ls.flatten.flatten

def newBaseBlocks (f : Findings) : Except Fault (Text × Text) := do
  let views ← f.bindViews.walked
  let clicks ← f.clicks.walked
  let longClicks ← f.longClicks.walked
  views.forM (fun b => discard (b.id.require "id"))
  clicks.forM (fun h => discard (h.ids.demand "ids" .wrongKind))
  longClicks.forM (fun h => discard (h.ids.demand "ids" .wrongKind))
  let lookups ← mainLookups views
  let onClick ← typedListeners .click views clicks
  let onLongClick ← typedListeners .longClick views longClicks
  return (unlines lookups, unlines (onClick ++ onLongClick))

/-! ## for holders -/

/-- the look-ups of all fields in the item view, with a blank line behind them -/
def itemLookups (views : List BindView) : Except Fault (List Text) := do
  if views.isEmpty then return []
  let ls ← views.mapM (fun b => do
    let (name, id) ← b.nameAndId
    return itemLookupLine name id)
  return indented lookupComment :: ls ++ [[]]

/-- the listeners on the fields, or on the item view where no field has a name; a blank line follows
each handler -/
def itemListeners (kind : ClickKind) (views : List BindView) (hs : List Handler) :
    Except Fault (List Text) := do
  if hs.isEmpty then return []
  let ls ← hs.mapM (fun h => do
    let (ids, method) ← h.partsMethodFirst
    let call := typedCall method (h.takes true) h.takenType
    let ls ← ids.mapM (fun id => do
      let view ← viewNameFor id views
      return listenerLine kind (if view.isEmpty then itemViewOf id else view) call)
    return ls ++ [[]])
  return indented kind.comment :: ls.flatten

def holderBlock (f : Findings) : Except Fault Text := do
  let views := f.bindViews.items
  let lookups ← itemLookups views
  let onClick ← itemListeners .click views f.clicks.items
  let onLongClick ← itemListeners .longClick views f.longClicks.items
  return unlines (lookups ++ onClick ++ onLongClick)

/-! ## for activities that call their initialisers -/

def generalLookups (f : Findings) : Except Fault Text := do
  let views := f.bindViews.items
  if views.isEmpty then return []
  let ls ← views.mapM (fun b => do
    let (name, id) ← b.nameAndId
    return lookupLine name id)
  return unlines (indented lookupComment :: ls)

def generalListeners (f : Findings) : Except Fault Text := do
  let onClick ← plainListeners false .click f.clicks.items
  let onLongClick ← plainListeners false .longClick f.longClicks.items
  return unlines (onClick ++ onLongClick)

end Rebind
