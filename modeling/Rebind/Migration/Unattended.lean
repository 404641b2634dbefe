import Rebind.Migration.Run

/-!
# Migrating the project here without being asked

`Unattended.run` looks at the working directory, decides what to scan, sets the layout of each file
right, migrates it and writes it back, file by file.  A file that fails is reported and left as it
was.
-/

namespace Rebind

namespace Unattended

def platformFiles : List Text :=
  ["app/build.gradle", "build.gradle", "settings.gradle", "gradle.properties"]

def sourceDirs : List Text :=
  ["app/src/main/java", "src/main/java", "src/java", "java", "src", "app/src", "tests", "test"]

def projectKind (log : Log) : Job Text := do
  let here ← Job.directory
  let w ← get
  if platformFiles.any (fun f => w.exists? (joinPath here f)) then
    log.info ("检测到Android项目: " ++ here)
    return "android"
  else
    log.info ("检测到普通Java项目: " ++ here)
    return "java"

/-- the directories to scan: the usual ones that exist, or else all that are not hidden -/
def chooseDirs (log : Log) : Job (List Text) := do
  let here ← Job.directory
  let w ← get
  let usual := sourceDirs.filter (fun d => w.isDir (joinPath here d))
  if usual.isEmpty then
    let entries := match w.tree.find? w.here with
      | some t => t.entries
      | none => []
    let dirs := (Tree.dirNames entries).filter (·.head? != some '.')
    for d in dirs do log.info ("发现目录: " ++ d)
    return dirs
  else
    for d in usual do log.info ("发现源码目录: " ++ d)
    return usual

/-- how many files had annotations, and how many of them were migrated -/
structure Tally where
  found : Nat
  migrated : Nat

/-- migrates one file, which counts as found once its annotations are seen -/
def migrateFile (s : Settings) (wr : Writer) (path : Text) (n : Tally) :
    Job (Tally × Writer × Option Fault) := do
  Job.say ("📄 处理文件: " ++ path)
  match ← (Job.readText path).outcome with
  | .error e => return (n, wr, some e)
  | .ok code =>
    let (issues, code) := Round.laidOut code
    if !issues.isEmpty then
      Job.say ("   🔧 发现格式化问题: " ++ List.intercalate ", ".toList issues)
      Job.say "   ✅ 代码格式化完成"
    let f := Findings.detect code
    if !f.applies then
      Job.say "   ⏭️  跳过（无ButterKnife注解）"
      return (n, wr, none)
    let n := { n with found := n.found + 1 }
    Job.say "   🔧 发现ButterKnife注解，开始迁移..."
    match migrate code with
    | .error e => return (n, wr, some e)
    | .ok code =>
      let (_, wr) ← wr.write s path (.text code)
      Job.say "   ✅ 迁移完成"
      return ({ n with migrated := n.migrated + 1 }, wr, none)

/-- migrates files in order; a file that fails is reported -/
def migrateFiles (log : Log) (s : Settings) (wr : Writer) (n : Tally) : List Text → Job Tally
  | [] => return n
  | path :: paths => do
    let (n, wr, failed) ← migrateFile s wr path n
    match failed with
    | some e =>
      Job.say ("   ❌ 迁移失败: " ++ e.text)
      log.error ("迁移文件 " ++ path ++ " 失败: ".toList ++ e.text)
    | none => pure ()
    migrateFiles log s wr n paths

def reportPath : Text := "butterknife_migration_report.json"

def report (here : Text) (s : Settings) (total : Nat) (n : Tally) : Json :=
  .object [("migration_time", .plain here), ("total_files", .int total),
    ("butterknife_files", .int n.found), ("migrated_files", .int n.migrated),
    ("success_rate", .plain (if n.found = 0 then "0%".toList
      else Writer.rateText n.migrated n.found ++ ['%'])),
    ("project_path", s.value .projectPath), ("scan_directories", s.value .scanDirectories)]

/-- the run itself; whether it got to its end -/
def stages (log : Log) (s : Settings) (wr : Writer) : Job Bool := do
  let rule := List.replicate 60 '='
  Job.say rule
  Job.say "🚀 ButterKnife 自动迁移工具"
  Job.say rule
  let _ ← projectKind log
  let dirs ← chooseDirs log
  let chosen := Value.list (dirs.map .plain)
  let s := if dirs.isEmpty then s else s.put .scanDirectories chosen
  if !dirs.isEmpty then log.info ("自动配置扫描目录: " ++ chosen.ofJson.display)
  Job.say ("📁 项目路径: " ++ s.shown .projectPath)
  Job.say ("📂 扫描目录: " ++ (← s.joined .scanDirectories))
  Job.say ("🔍 扫描文件类型: " ++ (← s.joined .scanExtensions))
  Job.say []
  Job.say "🔍 正在扫描Java文件..."
  let paths ← scanProject s
  if paths.isEmpty then
    Job.say "❌ 未找到任何Java文件"
    return false
  Job.say ("✅ 找到 " ++ natText paths.length ++ " 个Java文件".toList)
  let n ← migrateFiles log s wr ⟨0, 0⟩ paths
  Job.writeJson reportPath (report (← Job.directory) s paths.length n)
  Job.say ("📋 迁移报告已保存到: " ++ reportPath)
  Job.say []
  Job.say rule
  Job.say "🎉 迁移完成！"
  Job.say ("📊 总文件数: " ++ natText paths.length)
  Job.say ("🔧 ButterKnife文件数: " ++ natText n.found)
  Job.say ("✅ 成功迁移: " ++ natText n.migrated)
  Job.say rule
  return true

def prepare : Job (Settings × Log × Writer) := do
  let s ← Settings.ofHere
  let log ← Log.start s false
  return (s, log, ← Writer.start s)

def migrateHere : Job Bool := do
  let (s, log, wr) ← prepare
  match ← (stages log s wr).outcome with
  | .ok b => return b
  | .error e =>
    Job.say ("❌ 迁移过程中发生错误: " ++ e.text)
    log.error ("迁移过程失败: " ++ e.text)
    return false

/-- the whole program: a run, advice, and waiting for a line of `input` -/
def run (input : Text) : Job Unit := do
  if ← migrateHere then
    Job.say "\n💡 提示:"
    Job.say "- 请检查迁移后的代码"
    Job.say "- 如有问题，可使用备份文件恢复"
    Job.say "- 建议在版本控制系统中提交更改"
  else
    Job.say "\n❌ 迁移失败，请检查日志文件"
  Job.print "\n按回车键退出..."
  if input.isEmpty then throw .endOfInput

def detect : Job (Text × List Text) := do
  let (_, log, _) ← prepare
  return (← projectKind log, ← chooseDirs log)

end Unattended

end Rebind
