import Rebind.Project.Settings
import Rebind.Value.Number

/-!
# Writing files with a backup

A `Writer` replaces the text of files that exist.  With backups on, the bytes a file had are first
copied below the backup directory of the project, under the path the file has in the project, or
under its name alone when it lies elsewhere; `Writer.restore` copies them back.  Every copy and
every write is logged.
-/

namespace Rebind

structure WriteEntry where
  path : Text
  success : Bool
  message : Text
  time : Text

structure Writer where
  backup : Option Path
  log : List WriteEntry

namespace Writer

def backupDir (project : Text) : Path := (Path.ofText project).join "butterknife_backup"

def start (s : Settings) : Job Writer := do
  if (s.value .backupEnabled).truthy then
    let dir := backupDir (← s.project)
    if !(← Job.exists? dir.text) then Job.makeDirs dir
    return ⟨some dir, []⟩
  else return ⟨none, []⟩

def note (wr : Writer) (path : Text) (success : Bool) (message : Text) : Job Writer := do
  return { wr with log := wr.log ++ [⟨path, success, message, (← get).now.iso⟩] }

/-- where the backup of a file stands below the backup directory -/
def backupPath (dir : Path) (project path : Text) : Path :=
  let p := Path.ofText path
  match p.relativeTo? (Path.ofText project) with
  | some q => dir.append q
  | none => dir.join p.name

def shownPath (p : Path) : Text := "PosixPath(" ++ quoted p.text ++ [')']

def makeBackup (dir : Path) (s : Settings) (path : Text) : Job Path := do
  let target := backupPath dir (← s.project) path
  Job.makeDirs target.parent
  Job.copy path target.text (quoted path ++ " and ".toList ++ shownPath target)
  return target

/-- copies a file to its backup and logs it; a copy that fails is reported -/
def backUp (wr : Writer) (s : Settings) (path : Text) : Job Writer := do
  match wr.backup with
  | none => return wr
  | some dir =>
    match ← (makeBackup dir s path).outcome with
    | .ok target => wr.note path true ("备份文件已创建: " ++ target.text)
    | .error e =>
      Job.say ("创建备份失败: " ++ e.text)
      return wr

/-- replaces the content of a file; what is no text empties it -/
def replace (path : Text) : Value → Job Unit
  | .text t => Job.writeText path t
  | v => do
    Job.writeText path []
    let kind := match v with
      | .null => "None".toList
      | v => v.kindName
    throw (.unfit ("write() argument must be str, not " ++ kind))

/-- replaces the content of a file that exists, after a backup; whether it was written -/
def write (wr : Writer) (s : Settings) (path : Text) (content : Value) : Job (Bool × Writer) := do
  if !(← Job.exists? (Path.ofText path).text) then
    Job.say ("警告: 文件不存在: " ++ path)
    return (false, wr)
  let wr ← if (s.value .backupEnabled).truthy then wr.backUp s path else pure wr
  match ← (replace path content).outcome with
  | .ok _ => return (true, ← wr.note path true "文件写入成功")
  | .error e =>
    let message := "写入文件失败: " ++ e.text
    Job.say message
    return (false, ← wr.note path false message)

def present? (wr : Writer) : Job (Option Path) := do
  match wr.backup with
  | some dir => return if ← Job.exists? dir.text then some dir else none
  | none => return none

def restore (wr : Writer) (s : Settings) (path : Text) : Job Bool := do
  match ← wr.present? with
  | none =>
    Job.say "备份目录不存在"
    return false
  | some dir =>
    let attempt : Job Bool := do
      let source := backupPath dir (← s.project) path
      if !(← Job.exists? source.text) then
        Job.say ("备份文件不存在: " ++ source.text)
        return false
      Job.copy source.text path (shownPath source ++ " and ".toList ++ quoted path)
      Job.say ("文件已从备份恢复: " ++ path)
      return true
    match ← attempt.outcome with
    | .ok b => return b
    | .error e =>
      Job.say ("从备份恢复文件失败: " ++ e.text)
      return false

def clean (wr : Writer) : Job (Bool × Writer) := do
  match ← wr.present? with
  | none => return (true, wr)
  | some dir =>
    if ← Job.isDir dir.text then
      Job.remove dir.text
      Job.say "备份目录已清理: None"
      return (true, { wr with backup := none })
    else
      Job.say ("清理备份目录失败: " ++ DiskCause.notDirectory.text ++ ": ".toList ++ shownPath dir)
      return (false, wr)

/-! ## reports -/

/-- how many lines a log has, and how many of them say that something was done -/
structure WriteSummary where
  total : Nat
  successful : Nat

def summary (wr : Writer) : WriteSummary := ⟨wr.log.length, wr.log.countP (·.success)⟩

def rate (part total : Nat) : Json :=
  if total = 0 then .int 0
  else .real (.finite false ((Binary.ofQuotient part total).times 100))

def rateText (part total : Nat) : Text :=
  if total = 0 then "0.0" else ((Binary.ofQuotient part total).times 100).fixedText 1

def backupValue (wr : Writer) : Json :=
  match wr.backup with
  | some dir => .plain dir.text
  | none => .null

def summaryEntries (wr : Writer) (s : Settings) : List (Text × Json) :=
  let n := wr.summary
  [("total_files".toList, .int n.total), ("successful_files".toList, .int n.successful),
   ("failed_files".toList, .int (n.total - n.successful : Nat)),
   ("success_rate".toList, rate n.successful n.total),
   ("backup_enabled".toList, s.value .backupEnabled),
   ("backup_directory".toList, wr.backupValue)]

def entryValue (e : WriteEntry) (withTime : Bool) : Value :=
  .dict ([("file_path".toList, .text e.path), ("success".toList, .bool e.success),
    ("message".toList, .text e.message)]
    ++ if withTime then [("timestamp".toList, .text e.time)] else [])

def report (wr : Writer) (s : Settings) : Json :=
  .object [("summary".toList, .object (wr.summaryEntries s)),
    ("detailed_log".toList, .list (wr.log.map (fun e => (entryValue e true).json))),
    ("config".toList, .object [("project_path".toList, s.value .projectPath),
      ("binding_mode".toList, s.value .bindingMode),
      ("backup_enabled".toList, s.value .backupEnabled),
      ("backup_extension".toList, s.value .backupExtension)])]

def exportReport (wr : Writer) (s : Settings) (path : Text) : Job Bool := do
  match ← (Job.writeJson path (wr.report s)).outcome with
  | .ok _ => return true
  | .error e =>
    Job.say ("导出迁移报告失败: " ++ e.text)
    return false

def printSummary (wr : Writer) (s : Settings) : Job Unit := do
  let n := wr.summary
  let rule := List.replicate 60 '='
  Job.say ('\n' :: rule)
  Job.say "文件迁移摘要"
  Job.say rule
  Job.say ("总文件数: " ++ natText n.total)
  Job.say ("成功迁移: " ++ natText n.successful)
  Job.say ("迁移失败: " ++ natText (n.total - n.successful))
  Job.say ("成功率: " ++ rateText n.successful n.total ++ ['%'])
  Job.say (if (s.value .backupEnabled).truthy then "备份功能: 启用" else "备份功能: 禁用")
  match wr.backup with
  | some dir => Job.say ("备份目录: " ++ dir.text)
  | none => pure ()
  Job.say rule

/-- prints the last lines of the log: `count` of them, all for zero, all but the first ones for a
negative count -/
def printLog (wr : Writer) (count : Int) : Job Unit := do
  if wr.log.isEmpty then
    Job.say "暂无迁移日志"
    return
  let n := wr.log.length
  Job.say ("\n详细迁移日志 (显示最近 " ++ intText (min count n) ++ " 条):".toList)
  Job.say (List.replicate 80 '-')
  for e in wr.log.drop (clampIndex n (-count)) do
    Job.say ((if e.success then '✓' else '✗') :: ' ' :: (Path.ofText e.path).name
      ++ " - ".toList ++ e.message)
    Job.say ("    时间: " ++ e.time)
    Job.say []

/-- how many files the backup directory holds, and how many bytes -/
def backupInfo (wr : Writer) : Job Value := do
  match ← wr.present? with
  | none =>
    return .dict [("backup_enabled".toList, .bool false), ("backup_directory".toList, .null),
      ("backup_file_count".toList, .int 0), ("backup_size".toList, .int 0)]
  | some dir =>
    let files := match (← get).item? dir.text with
      | some (.dir es) => Tree.filesOf es
      | _ => []
    let size : Nat := files.foldl (fun n f => n + f.2.size) 0
    return .dict [("backup_enabled".toList, .bool true),
      ("backup_directory".toList, .text dir.text),
      ("backup_file_count".toList, .int files.length), ("backup_size".toList, .int size),
      ("backup_size_mb".toList, .real (.finite false (Binary.ofQuotient size (1024 * 1024))))]

end Writer

end Rebind
