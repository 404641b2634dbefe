import Rebind.Project.Workspace
import Rebind.Value.Json

/-!
# Settings

What a run over a project is told: `Setting` lists what can be set, and `Settings` holds a value for
each.  A settings file may give any of them a value of any kind, so each use says what it needs and
stops with a fault otherwise.  No path or name has half of a surrogate pair in it.

Settings are kept in files as dictionaries.  `Settings.load` starts from the defaults and takes over
the entries it knows; `Settings.save` writes all of them in the order of their keys.  A file may
also put a value in the place of an operation on settings, which can then no longer be used.
-/

namespace Rebind

/-- writes the text form of a value to a file; where a text cannot be written, what stands in front
of it is left in the file -/
def Job.writeJson (path : Text) (v : Json) : Job Unit := do
  writeText path v.jsonText.1
  if !v.jsonText.2 then throw .notEncodable

inductive Setting where
  | projectPath
  | bindingMode
  | backupEnabled
  | backupExtension
  | logLevel
  | logFile
  | scanExtensions
  | scanDirectories
  | excludeDirectories
  | excludePatterns
  | viewBindingPackage
  | viewBindingImport
  | indentSize
  | useSpaces
  | removeImports
  | addImports
  | preserveComments
  deriving DecidableEq, Repr

namespace Setting

def key : Setting → Text
  | .projectPath => "PROJECT_PATH"
  | .bindingMode => "BINDING_MODE"
  | .backupEnabled => "BACKUP_ENABLED"
  | .backupExtension => "BACKUP_EXTENSION"
  | .logLevel => "LOG_LEVEL"
  | .logFile => "LOG_FILE"
  | .scanExtensions => "SCAN_EXTENSIONS"
  | .scanDirectories => "SCAN_DIRECTORIES"
  | .excludeDirectories => "EXCLUDE_DIRECTORIES"
  | .excludePatterns => "EXCLUDE_PATTERNS"
  | .viewBindingPackage => "VIEWBINDING_PACKAGE"
  | .viewBindingImport => "VIEWBINDING_IMPORT"
  | .indentSize => "INDENT_SIZE"
  | .useSpaces => "USE_SPACES"
  | .removeImports => "REMOVE_BUTTERKNIFE_IMPORTS"
  | .addImports => "ADD_FINDVIEWBYID_IMPORTS"
  | .preserveComments => "PRESERVE_COMMENTS"

def all : List Setting :=
  [.projectPath, .bindingMode, .backupEnabled, .backupExtension, .logLevel, .logFile,
   .scanExtensions, .scanDirectories, .excludeDirectories, .excludePatterns, .viewBindingPackage,
   .viewBindingImport, .indentSize, .useSpaces, .removeImports, .addImports, .preserveComments]

def ofKey? (key : Text) : Option Setting := all.find? (·.key == key)

end Setting

/-- an operation on settings whose place a settings file can take -/
inductive SettingsUse where
  | load
  | save
  | scanPaths
  | excluded
  | validate
  deriving DecidableEq, Repr

namespace SettingsUse

def key : SettingsUse → Text
  | .load => "from_file"
  | .save => "save_to_file"
  | .scanPaths => "get_scan_paths"
  | .excluded => "get_exclude_patterns"
  | .validate => "validate"

def all : List SettingsUse := [.load, .save, .scanPaths, .excluded, .validate]

end SettingsUse

structure Settings where
  value : Setting → Json
  extra : List (Text × Json)

namespace Settings

def textList (ts : List Text) : Json := .list (ts.map .plain)

def default (project : Text) : Settings where
  value
    | .projectPath => .plain project
    | .bindingMode => .plain "findViewById"
    | .backupEnabled => .bool true
    | .backupExtension => .plain ".bak"
    | .logLevel => .plain "INFO"
    | .logFile => .plain "butterknife_migration.log"
    | .scanExtensions => textList [".java"]
    | .scanDirectories => textList ["app/src/main/java", "src/main/java", "java", "tests"]
    | .excludeDirectories => textList ["build", ".gradle", ".idea", "bin", "gen"]
    | .excludePatterns => textList ["R.java", "BuildConfig.java"]
    | .viewBindingPackage => .plain "androidx.databinding"
    | .viewBindingImport => .plain "androidx.databinding.ViewBinding"
    | .indentSize => .int 4
    | .useSpaces => .bool true
    | .removeImports => .bool true
    | .addImports => .bool true
    | .preserveComments => .bool true
  extra := []

def put (s : Settings) (k : Setting) (v : Json) : Settings :=
  { s with value := fun j => if j = k then v else s.value j }

def set (s : Settings) (key : Text) (v : Json) : Settings :=
  match Setting.ofKey? key with
  | some k => s.put k v
  | none => { s with extra := Value.put key v s.extra }

def entries (s : Settings) : List (Text × Json) :=
  Setting.all.map (fun k => (k.key, s.value k)) ++ s.extra.filter (fun e => e.1.head? != some '_')

def allow (s : Settings) (u : SettingsUse) : Except Fault Unit :=
  if (Value.lookup u.key s.extra).isSome then .error .wrongKind else .ok ()

/-! ## values of the kind that is needed -/

def project (s : Settings) : Except Fault Text :=
  match s.value .projectPath with
  | .text t => (whole? t).elim (.error .notEncodable) .ok
  | v => .error (.unfit ("expected str, bytes or os.PathLike object, not " ++ v.kindName))

/-- the items of a value: a text has its characters and a dictionary its keys -/
def itemsOf : Json → Except Fault (List Json)
  | .list vs => .ok vs
  | .text t => .ok (t.map (fun c => .text [c]))
  | .dict kvs => .ok (kvs.map (fun e => .text e.1))
  | _ => .error .wrongKind

def items (s : Settings) (k : Setting) : Except Fault (List Json) := itemsOf (s.value k)

def textItem : Json → Except Fault (List CodePoint)
  | .text t => .ok t
  | _ => .error .wrongKind

def shown (s : Settings) (k : Setting) : Text := (s.value k).ofJson.shown

def joined (s : Settings) (k : Setting) : Except Fault Text := do
  let texts ← (← s.items k).mapM (fun v => return (Value.text (← textItem v)).ofJson.shown)
  return List.intercalate ", ".toList texts

/-! ## what settings say -/

/-- the directories to scan: those that exist, or the project itself -/
def scanPaths (s : Settings) (w : Workspace) : Except Fault (List Text) := do
  s.allow .scanPaths
  let project := Path.ofText (← s.project)
  let dirs ← (← s.items .scanDirectories).mapM textItem
  let found := ((dirs.filterMap whole?).map (fun d => (project.join d).text)).filter w.exists?
  return if found.isEmpty then [project.text] else found

def excluded (s : Settings) : Except Fault (List Text) := do
  s.allow .excluded
  let dirs ← s.items .excludeDirectories
  let files ← s.items .excludePatterns
  return dirs.map (fun d => "**/" ++ d.ofJson.shown ++ "/**".toList)
    ++ files.map (fun f => "**/".toList ++ f.ofJson.shown)

/-- whether the project exists: a number stands for an open stream, of which there are three -/
def projectExists (s : Settings) (w : Workspace) : Except Fault Bool :=
  match s.value .projectPath with
  | .text t => .ok ((whole? t).any w.exists?)
  | .int i => .ok (0 ≤ i ∧ i ≤ 2)
  | .bool _ => .ok true
  | _ => .error .wrongKind

def isOneOf (v : Json) (choices : List String) : Bool :=
  match v with
  | .text t => choices.any (fun c => some c.toList == whole? t)
  | _ => false

def problem? (s : Settings) (w : Workspace) : Except Fault (Option Text) := do
  s.allow .validate
  if !(← s.projectExists w) then
    return some ("错误: 项目路径不存在: " ++ s.shown .projectPath)
  if !isOneOf (s.value .bindingMode) ["findViewById", "viewBinding"] then
    return some ("错误: 无效的绑定模式: " ++ s.shown .bindingMode)
  if !isOneOf (s.value .logLevel) ["DEBUG", "INFO", "WARNING", "ERROR"] then
    return some ("错误: 无效的日志级别: " ++ s.shown .logLevel)
  return none

def report (s : Settings) : Except Fault Text := do
  let line (label : String) (t : Text) : Text := label.toList ++ t ++ ['\n']
  let extensions ← s.joined .scanExtensions
  let dirs ← s.joined .scanDirectories
  let excluded ← s.joined .excludeDirectories
  return "配置信息:\n" ++ line "项目路径: " (s.shown .projectPath)
    ++ line "绑定模式: " (s.shown .bindingMode)
    ++ line "启用备份: " (s.shown .backupEnabled)
    ++ line "日志级别: " (s.shown .logLevel)
    ++ line "扫描扩展名: " extensions ++ line "扫描目录: " dirs ++ line "排除目录: " excluded

/-! ## files of settings -/

/-- whether a key is that of a setting or an operation; settings have further names of their own,
which are set without effect unless they refuse (`refuses`) -/
def isKnown (key : Text) : Bool :=
  (Setting.ofKey? key).isSome || SettingsUse.all.any (fun u => u.key == key)

/-- whether settings refuse a value under a key: their kind and what refers to them cannot be set,
and their names only as a whole -/
def refuses (key : Text) (v : Json) : Bool :=
  key == "__class__".toList || key == "__weakref__".toList
    || key == "__dict__".toList && v.kindName != "dict".toList

/-- the settings with the values that entries give to the keys they know, up to the first entry that
is refused -/
def update (s : Settings) : List (List CodePoint × Json) → Settings × Option Fault
  | [] => (s, none)
  | (key, v) :: kvs =>
    match whole? key with
    | none => s.update kvs
    | some key =>
      if refuses key v then (s, some .wrongKind)
      else (if isKnown key then s.set key v else s).update kvs

def readEntries (path : Text) : Job (List (List CodePoint × Json)) := do
  match Value.ofJson? (← Job.readText path) with
  | some (.dict kvs) => return kvs
  | some _ => throw .noOperation
  | none => throw (.invalid "Expecting value")

def ofHere : Job Settings := return default (← Job.directory)

def warn : Option Fault → Job Unit
  | none => return
  | some e => Job.say ("警告: 加载配置文件失败: " ++ e.text)

/-- the settings of the project here with what a file says; a file that cannot be used is
reported -/
def load (path : Text) : Job Settings := do
  let s ← ofHere
  if ← Job.exists? path then
    match ← (readEntries path).outcome with
    | .ok kvs =>
      warn (s.update kvs).2
      return (s.update kvs).1
    | .error e =>
      warn (some e)
      return s
  else return s

/-- what is written to a file: all settings in the order of their keys -/
def document (s : Settings) : Json :=
  .object (s.entries.mergeSort (fun a b => textLe a.1 b.1))

/-- writes the settings to a file; a file that cannot be written is reported -/
def save (s : Settings) (path : Text) : Job Unit := do
  match ← (Job.writeJson path s.document).outcome with
  | .ok _ => return
  | .error e => Job.say ("保存配置文件失败: " ++ e.text)

def defaultFile : Text := "butterknife_migrator_config.json"

def saveDefault : Job Unit := do
  (← ofHere).save defaultFile
  Job.say ("默认配置文件已创建: " ++ defaultFile)

end Settings

end Rebind
