import Rebind.Project.Settings
import Rebind.Text.Capital
import Rebind.Value.Number

/-!
# Logs

A `Log` prints lines with a time and a level and appends them to a file.  Lines below the level of
the log are left out; errors are printed as complaints.  A level is given by name: a name that is
none counts as `INFO` and is shown as it is, in capitals.

A log whose file cannot be made has none.  When the file refuses to take a line, that is reported
and the line stays unwritten, so closing the file is refused once as well.
-/

namespace Rebind

inductive Level where
  | debug
  | info
  | warning
  | error
  deriving DecidableEq, Repr

namespace Level

def label : Level → Text
  | .debug => "DEBUG"
  | .info => "INFO"
  | .warning => "WARNING"
  | .error => "ERROR"

def rank : Level → Nat
  | .debug => 0
  | .info => 1
  | .warning => 2
  | .error => 3

def all : List Level := [.debug, .info, .warning, .error]

def ofLabel? (t : Text) : Option Level := all.find? (·.label == t)

def ofName (t : Text) : Level := (ofLabel? (capitals t)).getD .info

end Level

inductive LogFile where
  | none
  | appending (place : Place)
  /-- a file that takes nothing, and whether a line waits to be written -/
  | refusing (waiting : Bool)
  /-- a file that was closed with a line waiting -/
  | shut

structure Log where
  level : Level
  file : LogFile
  colored : Bool

namespace Log

def levelOf (s : Settings) : Except Fault Level :=
  match s.value .logLevel with
  | .text t => .ok ((whole? t).elim .info .ofName)
  | _ => .error .noOperation

def openFile (s : Settings) : Job LogFile := do
  let project ← s.project
  let name ← match s.value .logFile with
    | .text t => (whole? t).elim (throw .notEncodable) pure
    | v => throw (.unfit ("join() argument must be str, bytes, or os.PathLike object, not '"
      ++ v.kindName ++ ['\'']))
  let path := joinPath project name
  let dir := directoryPart path
  if !dir.isEmpty && !(← Job.exists? dir) then Job.makeDirs (Path.ofText dir)
  let place ← Job.locate path
  match (← get).tree.find? place with
  | some (.dir _) => Job.refuse .isDirectory path
  | some (.device false) => return .refusing false
  | some _ => return .appending place
  | none =>
    Job.store place (.file .empty)
    return .appending place

def start (s : Settings) (colored : Bool) : Job Log := do
  let level ← levelOf s
  if (s.value .logFile).truthy then
    match ← (openFile s).outcome with
    | .ok file => return ⟨level, file, colored⟩
    | .error e =>
      Job.say ("初始化日志文件失败: " ++ e.text)
      return ⟨level, .none, colored⟩
  else return ⟨level, .none, colored⟩

/-- appends a text to the file at a place, if there still is one -/
def appendTo (place : Place) (t : Text) : Job Unit := do
  match (← get).tree.find? place with
  | some (.file content) => Job.store place (.file (content ++ Job.bytesOf t))
  | _ => return

def record (log : Log) (line : Text) : Job Log := do
  let failed (e : Text) : Job Unit := Job.say ("写入日志文件失败: " ++ e)
  match log.file with
  | .none => return log
  | .appending place =>
    appendTo place (line ++ ['\n'])
    return log
  | .refusing _ =>
    failed DiskCause.noSpace.text
    return { log with file := .refusing true }
  | .shut =>
    failed "I/O operation on closed file."
    return log

def colorOf (label : Text) : Text :=
  match Level.ofLabel? label with
  | some .debug => "\x1b[36m"
  | some .info => "\x1b[32m"
  | some .warning => "\x1b[33m"
  | some .error => "\x1b[31m"
  | none => "\x1b[0m"

def painted (log : Log) (label line : Text) : Text :=
  if log.colored then colorOf label ++ line ++ "\x1b[0m".toList else line

def write (log : Log) (level message : Text) : Job Log := do
  if (Level.ofName level).rank < log.level.rank then return log
  let label := capitals level
  let line := '[' :: (← get).now.stamp ++ "] [".toList ++ label ++ "] ".toList ++ message
  let shown := log.painted label line
  if label = Level.error.label then Job.complain shown else Job.say shown
  log.record line

def lineAt (log : Log) (level : Level) (message : Text) : Job Log := log.write level.label message

def critical (log : Log) (message : Text) : Job Log := log.lineAt .error ("CRITICAL: " ++ message)

def shows (log : Log) (level : Level) : Bool := log.level.rank ≤ level.rank

def tell (log : Log) (level : Level) (message : Text) : Job Unit := do
  let _ ← log.lineAt level message

def info (log : Log) (message : Text) : Job Unit := log.tell .info message

def warning (log : Log) (message : Text) : Job Unit := log.tell .warning message

def error (log : Log) (message : Text) : Job Unit := log.tell .error message

def close (log : Log) : Job Log := do
  match log.file with
  | .refusing true =>
    Job.say ("关闭日志文件失败: " ++ DiskCause.noSpace.text)
    return { log with file := .shut }
  | _ => return { log with file := .none }

/-! ## lines of a fixed form -/

def failure (log : Log) (message : Text) (kind : Text) (detail : Text) : Job Log := do
  let log ← log.lineAt .error (message ++ ": ".toList ++ kind ++ ": ".toList ++ detail)
  if log.level = .debug then log.lineAt .debug "异常堆栈:\nNoneType: None\n" else return log

def progress (log : Log) (current total : Value) (description : Value) : Job Log := do
  if !(← total.isPositive) then return log
  let percent ← current.percentOf total
  let line := "进度: " ++ current.shown ++ '/' :: total.shown ++ " (".toList ++ percent.fixedText 1
    ++ "%)".toList
  log.lineAt .info (if description.truthy then line ++ " - ".toList ++ description.shown else line)

def fileOperation (log : Log) (operation path : Text) (success : Bool) (details : Value) :
    Job Log :=
  let line := "文件操作 " ++ operation ++ ": ".toList ++ fileName path
    ++ (if success then " - 成功" else " - 失败").toList
  let line := if details.truthy then line ++ " (".toList ++ details.shown ++ [')'] else line
  log.lineAt (if success then .info else .error) line

def step (log : Log) (name : Text) (details : Value) (success : Bool) : Job Log :=
  let line := "迁移步骤: " ++ name ++ (if success then " - 完成" else " - 失败").toList
  let line := if details.truthy then line ++ " - ".toList ++ details.shown else line
  log.lineAt (if success then .info else .error) line

def statisticText : Value → Text
  | .real x => x.fixedText 2
  | v => v.shown

def statistics (log : Log) (stats title : Value) : Job Log := do
  let mut log ← log.lineAt .info ("=== " ++ title.shown ++ " ===".toList)
  match stats with
  | .dict kvs =>
    for (key, v) in kvs do
      log ← log.lineAt .info ("  " ++ key ++ ": ".toList ++ statisticText v)
  | _ => throw .noOperation
  match title.size? with
  | some n => log.lineAt .info (List.replicate (n + 8) '=')
  | none => throw .wrongKind

/-- the log at the level that settings ask for now; a change is reported under the name `name` -/
def refresh (log : Log) (s : Settings) (name : Value) : Job Log := do
  let level ← levelOf s
  if level = log.level then return log
  match name with
  | .text t => lineAt { log with level } .info ("日志级别已更改: " ++ capitals t)
  | _ => throw .noOperation

end Log

end Rebind
