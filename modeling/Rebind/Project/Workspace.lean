import Rebind.Fault
import Rebind.Project.Moment
import Rebind.Project.Path
import Rebind.Project.Tree

/-!
# Workspaces

A `Workspace` is all that a run over a project can see and change: the tree of files, the working
directory, the time, and what was printed.  A `Job` is a computation on it that may stop with a
fault; what was done before the fault stays done.

A written path leads through directories that have to exist (`Workspace.locate`); `..` goes up in
the tree.  Text is read as UTF-8 with every end of line as a newline, and written as it is.
-/

namespace Rebind

structure Workspace where
  tree : Tree
  here : Place
  now : Moment
  /-- what was printed, latest first -/
  output : List Text
  /-- what was printed as a complaint, latest first -/
  complaints : List Text

abbrev Job := ExceptT Fault (StateM Workspace)

def Job.outcome {α : Type} (x : Job α) : Job (Except Fault α) := ExceptT.lift x.run

/-! ## places -/

/-- the place that names lead to from another one: what is passed through has to be a directory -/
def Tree.follow (t : Tree) (p : Place) : List Text → Except DiskCause Place
  | [] => .ok p
  | n :: ns =>
    match t.find? p with
    | none => .error .noSuchFile
    | some u =>
      if !u.isDir then .error .notDirectory
      else if n.isEmpty || n = ['.'] then t.follow p ns
      else if n = ['.', '.'] then t.follow p.dropLast ns
      else t.follow (p ++ [n]) ns

namespace Workspace

def locate (w : Workspace) (path : Text) : Except DiskCause Place :=
  if path.isEmpty then .error .noSuchFile
  else w.tree.follow (if path.head? = some '/' then [] else w.here) (splitAll '/' path)

def item? (w : Workspace) (path : Text) : Option Tree :=
  match w.locate path with
  | .ok p => w.tree.find? p
  | .error _ => none

def exists? (w : Workspace) (path : Text) : Bool := (w.item? path).isSome

def isDir (w : Workspace) (path : Text) : Bool :=
  match w.item? path with
  | some t => t.isDir
  | none => false

def isFile (w : Workspace) (path : Text) : Bool :=
  match w.item? path with
  | some t => t.isFile
  | none => false

def directory (w : Workspace) : Text := '/' :: List.intercalate ['/'] w.here

end Workspace

namespace Job

def directory : Job Text := return (← get).directory

def exists? (path : Text) : Job Bool := return (← get).exists? path

def isDir (path : Text) : Job Bool := return (← get).isDir path

def isFile (path : Text) : Job Bool := return (← get).isFile path

def within {α : Type} (dir : Place) (x : Job α) : Job α := do
  let here := (← get).here
  modify (fun w => { w with here := dir })
  let r ← x.outcome
  modify (fun w => { w with here })
  match r with
  | .ok a => return a
  | .error e => throw e

def refuse {α : Type} (cause : DiskCause) (path : Text) : Job α := throw (.disk cause (some path))

def locate (path : Text) : Job Place := do
  match (← get).locate path with
  | .ok p => return p
  | .error cause => refuse cause path

/-! ## printing -/

def print (t : Text) : Job Unit := modify (fun w => { w with output := t :: w.output })

def say (t : Text) : Job Unit := print (t ++ ['\n'])

def complain (t : Text) : Job Unit :=
  modify (fun w => { w with complaints := (t ++ ['\n']) :: w.complaints })

/-! ## files -/

def store (p : Place) (t : Tree) : Job Unit := modify (fun w => { w with tree := w.tree.put p t })

def readBytes (path : Text) : Job ByteArray := do
  let p ← locate path
  match (← get).tree.find? p with
  | none => refuse .noSuchFile path
  | some (.dir _) => refuse .isDirectory path
  | some (.device _) => return .empty
  | some (.file content) => return content

def newlines : Text → Text := fun t =>
  (t.foldl (fun (s : Text × Bool) c =>
    if c = '\r' then ('\n' :: s.1, true)
    else if c = '\n' && s.2 then (s.1, false)
    else (c :: s.1, false)) ([], false)).1.reverse

def readText (path : Text) : Job Text := do
  match String.fromUTF8? (← readBytes path) with
  | some s => return newlines s.toList
  | none => throw .notText

def bytesOf (t : Text) : ByteArray := (String.ofList t).toUTF8

def writeBytes (path : Text) (content : ByteArray) : Job Unit := do
  let p ← locate path
  match (← get).tree.find? p with
  | some (.dir _) => refuse .isDirectory path
  | some (.device true) => return
  | some (.device false) => throw (.disk .noSpace none)
  | _ => store p (.file content)

def writeText (path : Text) (t : Text) : Job Unit := writeBytes path (bytesOf t)

/-- makes the directory at the end of a path, and those above it that are missing; `count` bounds
the names of the path -/
def makeDirsFrom (p : Path) : Nat → Job Unit
  | 0 => return
  | count + 1 => do
    match (← get).locate p.text with
    | .ok place =>
      match (← get).tree.find? place with
      | none => store place (.dir [])
      | some (.dir _) => return
      | some _ => refuse .alreadyExists p.text
    | .error .noSuchFile => do
      makeDirsFrom p.parent count
      match (← get).locate p.text with
      | .ok place => if ((← get).tree.find? place).isNone then store place (.dir [])
      | .error cause => refuse cause p.text
    | .error cause => refuse cause p.text

def makeDirs (p : Path) : Job Unit := makeDirsFrom p (p.names.length + 1)

def remove (path : Text) : Job Unit := do
  let p ← locate path
  modify (fun w => { w with tree := w.tree.erase p })

def removeDir (path : Text) : Job Unit := do
  if ← isDir path then remove path else refuse .notDirectory path

/-- copies a file to a path, or under its own name into the directory there -/
def copy (source target : Text) (names : Text) : Job Unit := do
  let target := if (← get).isDir target then joinPath target (fileName source) else target
  match (← get).locate source, (← get).locate target with
  | .ok a, .ok b => if a = b && (← get).exists? source then throw (.sameFile names)
  | _, _ => pure ()
  writeBytes target (← readBytes source)

end Job

end Rebind
