import Rebind.Findings.Summary
import Rebind.Findings.Detect
import Rebind.Injection.Cleanup
import Rebind.Project.Workspace
import Rebind.Source.ClassBody

/-!
# Looking at one file

Three inspections print what single stages make of a file: what is found in it, what the cleaning of
`onCreate` leaves of it, and where its first class ends.
-/

namespace Rebind

namespace Inspection

def activityPath : Text := "tests/Agent_DeviceListActivity.java"

def classPath : Text := "test_class_boundary.java"

def numbered (i : Nat) (line : Text) : Text :=
  let n := natText i
  List.replicate (3 - n.length) ' ' ++ n ++ ": ".toList ++ line

def linesWith (label mark : String) (ls : List Text) : Job Unit := do
  let found := ls.filter (occursIn mark)
  Job.say ("\n=== 检查" ++ label.toList ++ " ===".toList)
  Job.say ("找到" ++ natText found.length ++ "个".toList ++ label.toList ++ ":".toList)
  for l in found do Job.say ("  " ++ trim l)

def fieldLine (i : Nat) (b : BindView) : Text :=
  let shown : Slot Text → Text
    | .given t => t
    | _ => "None"
  "    " ++ natText i ++ ". ".toList ++ shown b.type ++ ' ' :: shown b.name ++ " = ".toList
    ++ shown b.id

def findings : Job Unit := do
  let code ← Job.readText activityPath
  let ls := lines code
  Job.say "=== 检查文件内容 ==="
  for (l, i) in ((ls.drop 55).take 15).zipIdx 56 do Job.say (numbered i l)
  linesWith "@BindView注解" "@BindView" ls
  linesWith "@OnClick注解" "@OnClick" ls
  linesWith "ButterKnife.bind调用" "ButterKnife.bind" ls
  Job.say "\n=== 测试解析器 ==="
  let f := Findings.detect code
  Job.say "解析结果:"
  Job.say ("  - @BindView注解数量: " ++ natText (← f.bindViewCount))
  Job.say ("  - @OnClick注解数量: " ++ natText (← f.clickCount))
  Job.say ("  - ButterKnife.bind调用: " ++ f.bindCall.flag.shown)
  let views ← f.bindViews.walked
  if !views.isEmpty then
    Job.say "  - @BindView详情:"
    for (b, i) in views.zipIdx 1 do Job.say (fieldLine i b)

def cleaning : Job Unit := do
  let code ← Job.readText activityPath
  Job.say ("原始代码长度: " ++ natText code.length)
  let f := Findings.detect code
  Job.say "解析结果:"
  Job.say ("  - 有ButterKnife注解: " ++ f.hasButterKnife.flag.shown)
  Job.say ("  - BindView数量: " ++ natText (← f.bindViewCount))
  Job.say ("  - OnClick数量: " ++ natText (← f.clickCount))
  Job.say "\n开始清理onCreate方法中重复的UI初始化代码..."
  let cleaned := (cleanOnCreate code).value
  Job.say ("清理后代码长度: " ++ natText cleaned.length)
  let ls := lines cleaned
  Job.say "\n第105-125行的内容:"
  for (l, i) in ((ls.drop 104).take 21).zipIdx 105 do Job.say (numbered i (trimRight l))
  let lookups := (ls.zipIdx 1).filter (fun (l, _) => occursIn "findViewById(" l && l.contains '=')
  Job.say ("\n找到 " ++ natText lookups.length ++ " 行findViewById调用:".toList)
  for (l, i) in lookups do
    Job.say ("  第" ++ natText i ++ "行: ".toList ++ trim l)

def classBoundary : Job Unit := do
  let code ← Job.readText classPath
  Job.say "测试代码:"
  Job.say code
  Job.say ('\n' :: List.replicate 50 '=' ++ ['\n'])
  let found := classEnd code
  for n in found.notes do Job.say n.message
  Job.say ("\n最终结果: " ++ positionText found.value)
  match found.value with
  | some n =>
    Job.say ("\n主类结束位置: " ++ natText n)
    Job.say ("主类结束前的内容: " ++ slice code (n - 20 : Int) (n + 20 : Int))
  | none => Job.say "未找到主类结束位置"

end Inspection

end Rebind
