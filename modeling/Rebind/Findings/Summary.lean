import Rebind.Findings.Codec

/-!
# Summaries of findings

Counts, the kind of the class, whether the findings are complete, and the text that reports them.
-/

namespace Rebind

/-- the kind of a class by the names of its parents; a parent that is empty is no text -/
def ClassInfo.kind (c : ClassInfo) : Except Fault Text :=
  if c.isEmpty then .ok "unknown"
  else do
    let parent ← c.parent.orElse [] .wrongKind
    if occursIn "Activity" parent then return "Activity"
    if occursIn "Fragment" parent then return "Fragment"
    if occursIn "Adapter" parent then return "Adapter"
    let interfaces ← c.interfaces.orElse [] .wrongKind
    if occursIn "Adapter" interfaces then return "Adapter"
    if occursIn "View" parent then return "View"
    return "Other"

/-- the whole number a flag counts as in a sum -/
def Value.count : Value → Except Fault Int
  | .bool b => .ok (if b then 1 else 0)
  | .int i => .ok i
  | _ => .error .wrongKind

def Findings.importCount (f : Findings) : Except Fault Int := do
  let imports ← f.imports.orElse [] .noOperation
  imports.foldlM (fun n e => return n + (← e.2.count)) 0

structure Statistics where
  bindViews : Nat
  clicks : Nat
  bindCall : Value
  imports : Int
  classKind : Text

def Findings.classKind (f : Findings) : Except Fault Text :=
  match f.classInfo with
  | .given c => c.kind
  | _ => .ok "unknown"

def Findings.bindViewCount (f : Findings) : Except Fault Nat := return (← f.bindViews.walked).length

def Findings.clickCount (f : Findings) : Except Fault Nat := return (← f.clicks.walked).length

def Findings.statistics (f : Findings) : Except Fault Statistics := do
  let bindViews ← f.bindViewCount
  let clicks ← f.clickCount
  let imports ← f.importCount
  let classKind ← f.classKind
  return ⟨bindViews, clicks, f.bindCall.flag, imports, classKind⟩

def Statistics.toValue (s : Statistics) : Value :=
  .dict [("total_bind_views", .int s.bindViews), ("total_on_clicks", .int s.clicks),
    ("has_bind_call", s.bindCall), ("imports_count", .int s.imports),
    ("class_type", .text s.classKind)]

def Statistics.report (s : Statistics) : Text :=
  "解析结果:\n类类型: " ++ s.classKind ++ "\n@BindView注解: ".toList ++ natText s.bindViews
    ++ " 个\n@OnClick注解: ".toList ++ natText s.clicks ++ " 个\nButterKnife.bind调用: ".toList
    ++ (if s.bindCall.truthy then "是".toList else "否".toList) ++ "\n".toList

def BindView.isComplete (b : BindView) : Bool :=
  b.id.isPresent && b.type.isPresent && b.name.isPresent

def Handler.isComplete (h : Handler) : Bool := h.ids.isPresent && h.method.isPresent

def Findings.problems (f : Findings) : Except Fault (List Text) := do
  let unmarked := if f.applies then [] else ["未检测到ButterKnife注解".toList]
  let views ← f.bindViews.walked
  let clicks ← f.clicks.walked
  return unmarked
    ++ (views.filter (!·.isComplete)).map (fun b =>
      "@BindView注解信息不完整: " ++ (Value.dict b.entries).display)
    ++ (clicks.filter (!·.isComplete)).map (fun h =>
      "@OnClick注解信息不完整: " ++ (Value.dict h.entries).display)

end Rebind
