import Rebind.Findings.Detect
import Rebind.Edit.BindCall
import Rebind.Edit.ClickListener
import Rebind.Edit.FieldLookup

/-!
# Editors

An `Editor` is a named step from source to source, driven by findings.  What is handed to it may be
any value: `Editor.run` checks that the findings are a dictionary and the source a text that is not
blank, and keeps the source when the check, the editor or anything in between fails.

A `Registry` holds editors under names, in the order in which the names were first used.
-/

namespace Rebind

structure Editor where
  name : Text
  description : Text
  /-- whether there is anything to do, as a value that counts as true or not -/
  applies : Value → Except Fault Value
  edit : Value → Value → Except Fault Value
  finish : Value → Except Fault Value := .ok
  /-- how many places change, and how that is described, once there is anything to do -/
  changes : Value → Except Fault (Option (Int × Text)) := fun _ => .ok none

def Findings.ofValue : Value → Except Fault Findings
  | .dict kvs => .ok (.ofEntries kvs)
  | _ => .error .noOperation

namespace Editor

/-- an editor of texts: it returns what it is not meant for, and fails with `fault` on a source that
is no text -/
def ofText (name description : String) (applies : Findings → Except Fault Value) (fault : Fault)
    (edit : Findings → Text → Except Fault Text) (count : Findings → Except Fault Int)
    (describe : Text → Text) : Editor where
  name := name
  description := description
  applies data := do applies (← Findings.ofValue data)
  edit data code := do
    let f ← Findings.ofValue data
    if !(← applies f).truthy then return code
    match code with
    | .text t => return .text (← edit f t)
    | _ => throw fault
  changes data := do
    let n ← count (← Findings.ofValue data)
    return some (n, describe (intText n))

def fieldLookup : Editor :=
  ofText "FindViewTransformer" "将@BindView注解转换为findViewById调用"
    (fun f => return .bool (← FieldLookup.applies f)) .wrongKind FieldLookup.edit
    (fun f => return (← f.bindViewCount)) (fun n => "转换 " ++ n ++ " 个@BindView注解".toList)

def clickListener : Editor :=
  ofText "OnClickTransformer" "将@OnClick注解转换为setOnClickListener调用"
    (fun f => return .bool (← ClickListener.applies f)) .wrongKind ClickListener.edit
    (fun f => return (← f.clickCount)) (fun n => "转换 " ++ n ++ " 个@OnClick注解".toList)

def bindCall : Editor :=
  ofText "BindCallRemover" "删除ButterKnife.bind调用和相关import语句"
    BindCall.applies .noOperation BindCall.edit
    (fun f => return (if f.bindCall.flag.truthy then 1 else 0) + (← f.importCount))
    (fun n => "删除 " ++ n ++ " 个ButterKnife相关元素".toList)

def standard : List Editor := [fieldLookup, clickListener, bindCall]

def isAcceptable (data code : Value) : Bool :=
  match data, code with
  | .dict _, .text t => !isBlankText t
  | _, _ => false

def accept (data code : Value) : Except Fault (Value × Value) :=
  if isAcceptable data code then .ok (data, code) else .error (.invalid "输入数据无效")

/-- the editing of acceptable input, with every fault reported -/
def attempt (r : Editor) (data code : Value) : Except Fault Value := do
  let (data, code) ← accept data code
  if !(← r.applies data).truthy then return code
  r.finish (← r.edit data code)

/-- the edited source, or the source itself when something fails -/
def run (r : Editor) (data code : Value) : Value :=
  match r.attempt data code with
  | .ok result => result
  | .error _ => code

def info (r : Editor) (data : Value) : Except Fault Value := do
  let can ← r.applies data
  let (count, description) ←
    if (← r.applies data).truthy then
      match ← r.changes data with
      | some (n, d) => pure (n, d)
      | none => pure (0, r.description)
    else pure (0, r.description)
  return .dict [("transformer_name", .text r.name), ("description", .text description),
    ("can_apply", can), ("changes_count", .int count)]

def label (r : Editor) : Text := r.name ++ ": ".toList ++ r.description

def tag (r : Editor) : Text := '<' :: r.name ++ ['>']

end Editor

/-- editors under names, in the order of first registration; a name may be kept free -/
structure Registry where
  entries : List (Text × Option Editor)

namespace Registry

def empty : Registry := ⟨[]⟩

/-- the entries with `r` under `name`: in the place the name had, or at the end -/
def putEntry (name : Text) (r : Option Editor) :
    List (Text × Option Editor) → List (Text × Option Editor)
  | [] => [(name, r)]
  | (n, q) :: es => if n = name then (n, r) :: es else (n, q) :: putEntry name r es

def register (reg : Registry) (name : Text) (r : Option Editor) : Registry :=
  ⟨putEntry name r reg.entries⟩

def find? (reg : Registry) (name : Text) : Option Editor :=
  ((reg.entries.find? (·.1 == name)).map (·.2)).join

def ask (data code : Value) : Option Editor → Except Fault Value
  | some r => .ok (r.run data code)
  | none => .error .noOperation

/-- one entry at work: the source stays where nothing can be asked -/
def applyEntry (data code : Value) (e : Option Editor) : Value :=
  match ask data code e with
  | .ok result => result
  | .error _ => code

def applyAll (reg : Registry) (data code : Value) : Value :=
  reg.entries.foldl (fun code e => applyEntry data code e.2) code

def tagOf : Option Editor → Text
  | some r => r.tag
  | none => "None"

end Registry

end Rebind
