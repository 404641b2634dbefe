import Rebind.Findings.Basic
import Rebind.Text.Order

/-!
# Findings as values

The dictionary form of findings, in which they are handed in and given out.
-/

namespace Rebind

def sortEntries (kvs : List (Text × Value)) : List (Text × Value) :=
  kvs.mergeSort (fun a b => textLe a.1 b.1)

def otherEntries (keys : List String) (kvs : List (Text × Value)) : List (Text × Value) :=
  kvs.filter (fun e => !keys.any (fun k => k.toList == e.1))

namespace Slot

variable {α : Type}

def ofEntries (key : String) (read : Value → Slot α) (kvs : List (Text × Value)) : Slot α :=
  match Value.lookup key kvs with
  | none => .absent
  | some v => read v

def ofText : Value → Slot Text
  | .null => .null
  | v => .given v.shown

def ofFlag : Value → Slot Bool
  | .null => .null
  | v => .given v.truthy

def ofRaw : Value → Slot Value
  | .null => .null
  | v => .given v

/-- a list field; a text counts as the list of its characters -/
def ofTexts : Value → Slot (List Text)
  | .list vs => .given (vs.map Value.shown)
  | .text t => .given (t.map ([·]))
  | _ => .null

def ofList (read : List (Text × Value) → α) : Value → Slot (List α)
  | .list vs => .given (vs.map (fun v => match v with
    | .dict kvs => read kvs
    | _ => read []))
  | _ => .null

def ofDict (read : List (Text × Value) → α) : Value → Slot α
  | .dict kvs => .given (read kvs)
  | _ => .null

end Slot

def BindView.ofEntries (kvs : List (Text × Value)) : BindView where
  id := Slot.ofEntries "id" .ofText kvs
  type := Slot.ofEntries "type" .ofText kvs
  name := Slot.ofEntries "name" .ofText kvs
  line := Slot.ofEntries "original_line" .ofText kvs
  others := otherEntries ["id", "type", "name", "original_line"] kvs

def BindView.entries (b : BindView) : List (Text × Value) :=
  sortEntries (b.id.entry "id" .text ++ b.type.entry "type" .text ++ b.name.entry "name" .text
    ++ b.line.entry "original_line" .text ++ b.others)

def Handler.ofEntries (kvs : List (Text × Value)) : Handler where
  ids := Slot.ofEntries "ids" .ofTexts kvs
  method := Slot.ofEntries "method" .ofText kvs
  takesView := Slot.ofEntries "has_view_param" .ofFlag kvs
  viewType := Slot.ofEntries "param_type" .ofText kvs
  line := Slot.ofEntries "original_line" .ofText kvs
  others := otherEntries ["ids", "method", "has_view_param", "param_type", "original_line"] kvs

def Handler.entries (h : Handler) : List (Text × Value) :=
  sortEntries (h.ids.entry "ids" (fun ids => .list (ids.map .text)) ++ h.method.entry "method" .text
    ++ h.takesView.entry "has_view_param" .bool ++ h.viewType.entry "param_type" .text
    ++ h.line.entry "original_line" .text ++ h.others)

def ClassInfo.ofEntries (kvs : List (Text × Value)) : ClassInfo where
  name := Slot.ofEntries "name" .ofText kvs
  parent := Slot.ofEntries "extends" .ofText kvs
  interfaces := Slot.ofEntries "implements" .ofText kvs
  others := otherEntries ["name", "extends", "implements"] kvs

def ClassInfo.entries (c : ClassInfo) : List (Text × Value) :=
  sortEntries (c.name.entry "name" .text ++ c.parent.entry "extends" .text
    ++ c.interfaces.entry "implements" .text ++ c.others)

def Findings.ofEntries (kvs : List (Text × Value)) : Findings where
  hasButterKnife := Slot.ofEntries "has_butterknife" .ofRaw kvs
  bindViews := Slot.ofEntries "bind_views" (.ofList BindView.ofEntries) kvs
  clicks := Slot.ofEntries "on_clicks" (.ofList Handler.ofEntries) kvs
  longClicks := Slot.ofEntries "on_long_clicks" (.ofList Handler.ofEntries) kvs
  bindCall := Slot.ofEntries "bind_call" .ofRaw kvs
  imports := Slot.ofEntries "imports" (.ofDict (fun kvs => kvs)) kvs
  classInfo := Slot.ofEntries "class_info" (.ofDict ClassInfo.ofEntries) kvs
  methods := Slot.ofEntries "methods" .ofTexts kvs

def Findings.entries (f : Findings) : List (Text × Value) :=
  f.hasButterKnife.entry "has_butterknife" (fun v => v)
    ++ f.bindViews.entry "bind_views" (fun bs => .list (bs.map (fun b => .dict b.entries)))
    ++ f.clicks.entry "on_clicks" (fun hs => .list (hs.map (fun h => .dict h.entries)))
    ++ f.longClicks.entry "on_long_clicks" (fun hs => .list (hs.map (fun h => .dict h.entries)))
    ++ f.bindCall.entry "bind_call" (fun v => v)
    ++ f.imports.entry "imports" .dict
    ++ f.classInfo.entry "class_info" (fun c => .dict c.entries)
    ++ f.methods.entry "methods" (fun ms => .list (ms.map .text))

end Rebind
