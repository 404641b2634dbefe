import Rebind.Layout
import Rebind.Project.Workspace

/-!
# Setting the layout of a file right

`layOutFile` reads a file, says what is wrong with its layout and writes it back if that changes
anything.  A file that cannot be read or written is reported.
-/

namespace Rebind

def layOutFileAt (path : Text) : Job Unit := do
  let code ← Job.readText path
  let issues := layoutIssues code
  if issues.isEmpty then
    Job.say ("文件 " ++ path ++ " 无需格式化".toList)
    return
  Job.say ("发现格式化问题: " ++ List.intercalate ", ".toList issues)
  let laidOut := layOut code
  if laidOut = code then
    Job.say ("文件 " ++ path ++ " 格式化后无变化".toList)
  else
    Job.writeText path laidOut
    Job.say ("文件 " ++ path ++ " 格式化完成".toList)

/-- sets the layout of a file right; whether that could be done -/
def layOutFile (path : Text) : Job Bool := do
  match ← (layOutFileAt path).outcome with
  | .ok _ => return true
  | .error e =>
    Job.say ("格式化文件 " ++ path ++ " 时出错: ".toList ++ e.text)
    return false

end Rebind
