import Rebind.Project.Kind
import Rebind.Project.Settings

/-!
# Scanning a project

`Tree.scan` walks through a directory, leaves out the directories that are excluded and gives the
paths of the files that are wanted.  Settings of the wrong kind are noticed at the first name they
are held against; what was found before that is kept.

A `Scanner` remembers what it found until it is told to forget.
-/

namespace Rebind

def hasPart (name : Text) : List Json → Except Fault Bool
  | [] => .ok false
  | v :: vs => do
    let part ← Settings.textItem v
    if (whole? part).any (occursIn · name) then return true else hasPart name vs

def hasEnding (name : Text) : List Json → Except Fault Bool
  | [] => .ok false
  | v :: vs => do
    let ending ← Settings.textItem v
    if (whole? ending).any (·.isSuffixOf name) then return true else hasEnding name vs

namespace Settings

def excludesDir (s : Settings) (name : Text) : Except Fault Bool := do
  hasPart name (← s.items .excludeDirectories)

/-- the settings of the project here for another path, and with these endings and excluded
directories unless they are empty -/
def ofOptions (project endings excluded : Json) : Job Settings := do
  let s := (← ofHere).put .projectPath project
  let s := if endings.truthy then s.put .scanExtensions endings else s
  return if excluded.truthy then s.put .excludeDirectories excluded else s

def wantsFile (s : Settings) (name : Text) : Except Fault Bool := do
  if ← hasEnding name (← s.items .scanExtensions) then
    return !(← hasPart name (← s.items .excludePatterns))
  else return false

end Settings

/-- the names for which a test holds, up to the first that cannot be tested -/
def keepWhile (test : Text → Except Fault Bool) : List Text → List Text × Option Fault
  | [] => ([], none)
  | n :: ns =>
    match test n with
    | .error e => ([], some e)
    | .ok b =>
      let rest := keepWhile test ns
      (if b then n :: rest.1 else rest.1, rest.2)

namespace Tree

def dirNames (es : List (Text × Tree)) : List Text := (es.filter (·.2.isDir)).map (·.1)

def fileNames (es : List (Text × Tree)) : List Text := (es.filter (!·.2.isDir)).map (·.1)

mutual

/-- the wanted files of a directory with the path `root`, and why the walk stopped if it did -/
def scan (s : Settings) (root : Text) : Tree → List Text × Option Fault
  | .file _ => ([], none)
  | .device _ => ([], none)
  | .dir es =>
    match keepWhile (fun n => return !(← s.excludesDir n)) (dirNames es) with
    | (_, some e) => ([], some e)
    | (kept, none) =>
      let own := keepWhile s.wantsFile (fileNames es)
      let here := own.1.map (joinPath root)
      match own.2 with
      | some e => (here, some e)
      | none =>
        let below := scanOf s root kept es
        (here ++ below.1, below.2)

def scanOf (s : Settings) (root : Text) (kept : List Text) :
    List (Text × Tree) → List Text × Option Fault
  | [] => ([], none)
  | (n, t) :: es =>
    if t.isDir && kept.contains n then
      let first := scan s (joinPath root n) t
      match first.2 with
      | some e => (first.1, some e)
      | none =>
        let rest := scanOf s root kept es
        (first.1 ++ rest.1, rest.2)
    else scanOf s root kept es

end

end Tree

/-- the wanted files below a directory; a walk that stops is reported -/
def scanDir (s : Settings) (root : Text) : Job (List Text) := do
  match (← get).item? root with
  | none => return []
  | some t =>
    let (found, stopped) := t.scan s root
    match stopped with
    | some e => Job.say ("扫描目录 " ++ root ++ " 时出错: ".toList ++ e.text)
    | none => pure ()
    return found

def scanProject (s : Settings) : Job (List Text) := do
  let roots ← s.scanPaths (← get)
  return sortedSet (← roots.mapM (scanDir s)).flatten

/-- the kind of the file at a path; one that cannot be read is of no special kind -/
def kindAt (path : Text) : Job FileKind := do
  match ← (Job.readText path).outcome with
  | .ok content => return .ofContent content
  | .error _ => return .other

/-- what was found so far: nothing found is looked for again -/
structure Scanner where
  files : List Text
  kinds : Option (List (Text × FileKind))

namespace Scanner

def fresh : Scanner := ⟨[], none⟩

/-- the files of the project, and the scanner that remembers them -/
def scan (sc : Scanner) (s : Settings) : Job (List Text × Scanner) := do
  if sc.files.isEmpty then
    let files ← scanProject s
    return (files, { sc with files })
  else return (sc.files, sc)

def classify (sc : Scanner) (s : Settings) : Job (List (Text × FileKind) × Scanner) := do
  match sc.kinds with
  | some kinds => return (kinds, sc)
  | none =>
    let (files, sc) ← sc.scan s
    let kinds ← files.mapM (fun f => return (f, ← kindAt f))
    return (kinds, { sc with kinds := some kinds })

def ofKind (kinds : List (Text × FileKind)) (k : FileKind) : List Text :=
  (kinds.filter (·.2 = k)).map (·.1)

def statistics (sc : Scanner) (s : Settings) : Job (List (Text × Nat) × Scanner) := do
  let (kinds, sc) ← sc.classify s
  let (files, sc) ← sc.scan s
  return (FileKind.all.map (fun k => (k.label, (ofKind kinds k).length))
    ++ [("total".toList, files.length)], sc)

end Scanner

end Rebind
