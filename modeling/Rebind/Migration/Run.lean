import Rebind.Findings.Summary
import Rebind.Migration.Round
import Rebind.Project.Log
import Rebind.Project.Options
import Rebind.Project.Scan
import Rebind.Project.Writer

/-!
# Migrating a project

A run scans a project, reads the files that have annotations, edits them, injects the
initialisation, writes them back and reports.  Each stage goes over all files before the next one
starts; a file that fails in a stage is reported and left out of what follows, except that a failed
injection leaves the edited code to be written.

`runCommand` is the whole program: it reads the command line, takes what it says over the settings
and runs.
-/

namespace Rebind

/-- a file with annotations, and its code after the stages so far -/
structure SourceFile where
  path : Text
  findings : Findings
  code : Text

namespace SourceFile

def name (f : SourceFile) : Text := (Path.ofText f.path).name

def detail (f : SourceFile) (written : Bool) : Value :=
  let count (n : Except Fault Nat) : Value := match n with
    | .ok n => .int n
    | .error _ => .int 0
  .dict [("file", .text f.name), ("status", .str (if written then "success" else "failed")),
    ("bind_views_count", count f.findings.bindViewCount),
    ("on_clicks_count", count f.findings.clickCount),
    ("has_bind_call", f.findings.bindCall.flag)]

end SourceFile

structure RunReport where
  total : Nat
  successful : Nat
  failed : Nat
  details : List Value

namespace RunReport

def toValue (r : RunReport) : Value :=
  .dict [("total_files", .int r.total), ("successful_migrations", .int r.successful),
    ("failed_migrations", .int r.failed), ("details", .list r.details)]

def path (project : Text) : Text := joinPath project "butterknife_migration_report.json"

def add (r : RunReport) (f : SourceFile) (written : Bool) : RunReport :=
  { r with
    successful := if written then r.successful + 1 else r.successful
    failed := if written then r.failed else r.failed + 1
    details := r.details ++ [f.detail written] }

def publish (r : RunReport) (log : Log) (path : Text) : Job Unit := do
  Job.writeText path r.toValue.toJson
  log.info ("迁移报告已保存到: " ++ path)
  let rule := List.replicate 50 '='
  Job.say ('\n' :: rule)
  Job.say "ButterKnife迁移报告"
  Job.say rule
  Job.say ("总文件数: " ++ natText r.total)
  Job.say ("成功迁移: " ++ natText r.successful)
  Job.say ("迁移失败: " ++ natText r.failed)
  Job.say ("成功率: " ++ Writer.rateText r.successful r.total ++ ['%'])
  Job.say rule

end RunReport

namespace Run

/-- the file at a path, if it has annotations; one that cannot be read is reported -/
def readSource (log : Log) (path : Text) : Job (Option SourceFile) := do
  match ← (Job.readText path).outcome with
  | .ok code =>
    let f : SourceFile := ⟨path, Findings.detect code, code⟩
    if f.findings.applies then
      log.info ("解析文件: " ++ f.name)
      return some f
    else return none
  | .error e =>
    log.error ("解析文件 " ++ path ++ " 时出错: ".toList ++ e.text)
    return none

/-- a file after the editors; one that cannot be edited is reported -/
def editSource (log : Log) (f : SourceFile) : Job (Option SourceFile) := do
  match editAll f.findings f.code with
  | .ok code => return some { f with code }
  | .error e =>
    log.error ("转换文件 " ++ f.path ++ " 时出错: ".toList ++ e.text)
    return none

/-- a file after the injection; one that cannot be injected is reported and stays as it is -/
def injectSource (log : Log) (f : SourceFile) : Job SourceFile := do
  match injected f.findings f.code with
  | .ok code => return { f with code }
  | .error e =>
    log.error ("注入代码到文件 " ++ f.path ++ " 时出错: ".toList ++ e.text)
    return f

def writeSources (log : Log) (s : Settings) (wr : Writer) (r : RunReport) :
    List SourceFile → Job RunReport
  | [] => return r
  | f :: fs => do
    let (written, wr) ← wr.write s f.path (.text f.code)
    if written then log.info ("成功迁移文件: " ++ f.name)
    else log.error ("迁移文件失败: " ++ f.name)
    writeSources log s wr (r.add f written) fs

def migrateFiles (log : Log) (s : Settings) (wr : Writer) (paths : List Text) : Job Unit := do
  log.info "步骤2: 解析ButterKnife注解..."
  let sources := (← paths.mapM (readSource log)).filterMap id
  log.info ("找到 " ++ natText sources.length ++ " 个包含ButterKnife的文件".toList)
  if sources.isEmpty then
    log.info "未找到包含ButterKnife注解的文件，无需迁移"
    return
  log.info "步骤3: 转换代码..."
  let edited := (← sources.mapM (editSource log)).filterMap id
  log.info "步骤4: 注入初始化代码..."
  let finished ← edited.mapM (injectSource log)
  log.info "步骤5: 写入转换后的文件..."
  let report ← writeSources log s wr ⟨finished.length, 0, 0, []⟩ finished
  log.info "步骤6: 生成迁移报告..."
  let path := RunReport.path (← s.project)
  match ← (report.publish log path).outcome with
  | .ok _ => pure ()
  | .error e => log.error ("生成迁移报告时出错: " ++ e.text)
  log.info "ButterKnife迁移流程完成!"

def stages (log : Log) (s : Settings) (wr : Writer) : Job Unit := do
  log.info "开始ButterKnife迁移流程..."
  log.info "步骤1: 扫描项目文件..."
  let paths ← scanProject s
  log.info ("找到 " ++ natText paths.length ++ " 个Java文件".toList)
  if paths.isEmpty then
    log.warning "未找到任何Java文件，请检查项目路径配置"
    return
  migrateFiles log s wr paths

/-- a run over the project that settings name; what stops it is logged first -/
def project (s : Settings) : Job Unit := do
  let log ← Log.start (← Settings.ofHere) false
  let wr ← Writer.start s
  match ← (stages log s wr).outcome with
  | .ok _ => return
  | .error e =>
    log.error ("迁移过程中发生错误: " ++ e.text)
    throw e

end Run

def given? (v : Option Text) : Option Text := v.filter (!·.isEmpty)

/-- the settings with what the command line says: whether there are backups is always its
decision -/
def Options.apply (o : Options) (s : Settings) : Settings :=
  let s := match given? o.project with
    | some p => s.put .projectPath (.plain p)
    | none => s
  let s := match given? o.mode with
    | some m => s.put .bindingMode (.plain m)
    | none => s
  s.put .backupEnabled (.bool o.backup)

/-- the settings that are written down: those of the file that is named, or else the default ones -/
def Options.loaded (o : Options) : Job Settings :=
  match given? o.config with
  | some path => Settings.load path
  | none => Settings.ofHere

def Options.settings (o : Options) : Job Settings := do
  let s := o.apply (← o.loaded)
  return if o.verbose then s.put .logLevel (.plain "DEBUG") else s

/-- a run with these settings; the status with which it ends early -/
def launch (s : Settings) : Job (Option Nat) := do
  if !(← s.projectExists (← get)) then
    Job.say ("错误: 项目路径不存在: " ++ s.shown .projectPath)
    return some 1
  Run.project s
  return none

def reporting (x : Job (Option Nat)) : Job (Option Nat) := do
  match ← x.outcome with
  | .ok status => return status
  | .error e =>
    Job.say ("错误: " ++ e.text)
    return some 1

/-- the program `program` with the words of its command line; the status with which it ends early -/
def runCommand (program : Text) (words : List Text) : Job (Option Nat) := do
  match CommandLine.read words with
  | .help =>
    Job.print (CommandLine.helpText program)
    return some 0
  | .wrong =>
    Job.complain (program ++ ": error: wrong arguments".toList)
    return some 2
  | .run o => reporting (do launch (← o.settings))

end Rebind
