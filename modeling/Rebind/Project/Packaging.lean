import Rebind.Project.Workspace
import Rebind.Number.Decimal

/-!
# Packaging the program

Two ways to make an executable of the program with the packaging tool, and a directory to hand out.
The tool is run by commands; `Commands` answers for them: it keeps the commands that were asked for,
and knows with which status each ends and which files it leaves.
-/

namespace Rebind

structure Commands where
  /-- the commands so far, latest first -/
  asked : List (List Text)
  /-- with which status the next ones end: zero when there is none left -/
  statuses : List Int
  products : List (Text × ByteArray)
  version : Option Text
  interpreter : Text

abbrev Build := StateT Commands Job

namespace Build

def say (t : Text) : Build Unit := Job.say t

def run (command : List Text) : Build Int := do
  let c ← get
  let status := c.statuses.head?.getD 0
  set { c with asked := command :: c.asked, statuses := c.statuses.tail }
  if status = 0 then
    for (path, content) in c.products do
      Job.makeDirs (Path.ofText path).parent
      Job.writeBytes path content
  return status

def failure (command : List Text) (status : Int) : Text :=
  "Command '[" ++ List.intercalate ", ".toList (command.map quoted)
    ++ "]' returned non-zero exit status ".toList ++ intText status ++ ['.']

def rule : Text := List.replicate 60 '='

/-! ## a single executable -/

def singleCommand : List Text :=
  ["python", "-m", "PyInstaller", "--onefile", "--console", "--name=ButterKnifeMigrator", "--clean",
   "auto_migrate.py"].map String.toList

def clean : Build Unit := do
  if ← Job.exists? "dist" then Job.removeDir "dist"
  if ← Job.exists? "build" then Job.removeDir "build"
  if ← Job.exists? "*.spec" then
    let w ← (getThe Workspace : Job Workspace)
    let entries := match w.tree.find? w.here with
      | some t => t.entries
      | none => []
    for (name, t) in entries do
      if ".spec".toList.isSuffixOf name then
        if t.isDir then Job.refuse .isDirectory name
        Job.remove name

def single : Build Bool := do
  say "🔨 开始构建单个exe文件..."
  clean
  say ("执行命令: " ++ List.intercalate [' '] singleCommand)
  let status ← run singleCommand
  if status = 0 then
    say "✅ exe文件构建成功"
    return true
  else
    say ("❌ 构建失败: " ++ failure singleCommand status)
    return false

def sizeOf (path : Text) : Job Nat := do
  match (← get).item? path with
  | some (.file content) => return content.size
  | _ => return 0

def singleProgram : Build Unit := do
  say rule
  say "🔨 ButterKnife 迁移工具 - 构建exe文件"
  say rule
  if ← single then
    let path : Text := "dist/ButterKnifeMigrator.exe"
    if ← Job.exists? path then
      say ("✅ 可执行文件已生成: " ++ path)
      let size ← sizeOf path
      say ("📁 文件大小: " ++ (Binary.ofQuotient size (1024 * 1024)).fixedText 1 ++ " MB".toList)
      say []
      say "📖 使用方法:"
      say "1. 将 ButterKnifeMigrator.exe 复制到你的Android项目根目录"
      say "2. 双击运行即可自动扫描和迁移"
      say "3. 查看生成的迁移报告"
    else say "❌ 未找到生成的exe文件"
  else say "❌ 构建失败"

/-! ## an executable to hand out -/

def toolPresent : Build Bool := do
  match (← get).version with
  | some v =>
    say ("✅ PyInstaller 已安装: " ++ v)
    return true
  | none =>
    say "❌ PyInstaller 未安装"
    return false

def installTool : Build Bool := do
  say "📦 正在安装 PyInstaller..."
  let status ← run ((← get).interpreter
    :: ["-m", "pip", "install", "pyinstaller"].map String.toList)
  if status = 0 then
    say "✅ PyInstaller 安装成功"
    return true
  else
    say "❌ PyInstaller 安装失败"
    return false

/-- the command that builds the executable, with its icon if there is one -/
def executableCommand (icon : Bool) : List Text :=
  (["pyinstaller", "--onefile", "--windowed", "--name=ButterKnifeMigrator"]
    ++ (if icon then ["--icon=icon.ico"] else [])
    ++ ["--add-data=config.py;.", "--add-data=scanner;scanner",
      "--add-data=butterknife_parser_module;butterknife_parser_module",
      "--add-data=transformer;transformer", "--add-data=injector;injector",
      "--add-data=writer;writer", "--add-data=utils;utils", "auto_migrate.py"]).map String.toList

def executable : Build Bool := do
  say "🔨 开始构建可执行文件..."
  let command := executableCommand (← Job.exists? "icon.ico")
  let status ← run command
  if status = 0 then
    say "✅ 可执行文件构建成功"
    return true
  else
    say ("❌ 构建失败: " ++ failure command status)
    return false

def handOutDir : Text := "ButterKnifeMigrator_Distribution"

def executableName : Text := "ButterKnifeMigrator"

def startScript : Text :=
  unlines ["#!/bin/bash", "", "echo \"\"", "echo \"========================================\"",
    "echo \"   ButterKnife 自动迁移工具\"", "echo \"========================================\"",
    "echo \"\"", "", "echo \"🚀 启动迁移工具...\"", "echo \"\"", "./" ++ executableName, "",
    "echo \"\"", "echo \"迁移完成！\"", ""]

def handOut : Build Bool := do
  say "📦 创建发布包..."
  if ← Job.exists? handOutDir then Job.removeDir handOutDir
  Job.makeDirs (Path.ofText handOutDir)
  let path := joinPath "dist" executableName
  if ← Job.exists? path then
    Job.copy path handOutDir []
    say ("✅ 复制可执行文件: " ++ executableName)
  else
    say ("❌ 未找到可执行文件: " ++ path)
    return false
  for file in ["使用说明.md".toList, "requirements.txt".toList] do
    if ← Job.exists? file then
      Job.copy file handOutDir []
      say ("✅ 复制文件: " ++ file)
  Job.writeText (joinPath handOutDir "运行迁移.sh") startScript
  say "✅ 创建 Linux/Mac 启动脚本"
  say ("✅ 发布包创建完成: " ++ handOutDir)
  return true

/-- builds the executable and the directory to hand out; whether all of it succeeded -/
def program : Build Bool := do
  say rule
  say "🔨 ButterKnife 迁移工具 - 可执行文件构建器"
  say rule
  if !(← toolPresent) then
    if !(← installTool) then
      say "❌ 无法安装 PyInstaller，构建终止"
      return false
  if !(← executable) then
    say "❌ 构建失败"
    return false
  if !(← handOut) then
    say "❌ 发布包创建失败"
    return false
  say []
  say rule
  say "🎉 构建完成！"
  say "📁 发布包位置: ButterKnifeMigrator_Distribution/"
  say "📖 使用说明: 使用说明.md"
  say rule
  return true

end Build

end Rebind
