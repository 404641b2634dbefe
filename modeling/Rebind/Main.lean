import Rebind.Migration.Run
import Std.Time

/-!
# The command line

Takes a picture of the working directory and of the paths named on the command line, runs the
migration on it, prints what it printed and carries out what it changed.
-/

namespace Rebind

partial def readTree (path : String) : IO (Option Tree) := do
  let p ← IO.FS.realPath path
  if ← p.isDir then
    let mut entries : List (Text × Tree) := []
    for e in ← p.readDir do
      match ← readTree (path ++ "/" ++ e.fileName) with
      | some t => entries := Tree.putEntry e.fileName.toList t entries
      | none => pure ()
    return some (.dir entries)
  else if ← p.pathExists then
    return some (.file (← IO.FS.readBinFile p))
  else return none

def placeOf (path : Text) : Place := (Path.ofText path).names

def pathOf (place : Place) : String := String.ofList ('/' :: List.intercalate ['/'] place)

def readMoment : IO Moment := do
  let t ← Std.Time.PlainDateTime.now
  return {
    year := t.date.year.toInt.toNat
    month := t.date.month.val.toNat
    day := t.date.day.val.toNat
    hour := t.time.hour.val.toNat
    minute := t.time.minute.val.toNat
    second := t.time.second.val.toNat
    microsecond := t.time.nanosecond.val.toNat / 1000 }

def namedPaths (words : List Text) : List Text :=
  match CommandLine.read words with
  | .run o => [o.config, o.project].filterMap id
  | _ => []

def readWorkspace (words : List Text) : IO Workspace := do
  let here := (← IO.currentDir).toString.toList
  let mut tree : Tree := .dir []
  for path in here :: (namedPaths words).map (joinPath here) do
    match ← readTree (String.ofList path) with
    | some t => tree := tree.put (placeOf path) t
    | none => pure ()
  return { tree, here := placeOf here, now := ← readMoment, output := [], complaints := [] }

def applyChanges (old new : Tree) : IO Unit := do
  for place in old.removed new do
    let p ← IO.FS.realPath (pathOf place)
    if ← p.isDir then IO.FS.removeDirAll p else IO.FS.removeFile p
  for (place, content) in old.added new do
    match content with
    | some bytes =>
      IO.FS.createDirAll (pathOf place.dropLast)
      IO.FS.writeBinFile (pathOf place) bytes
    | none => IO.FS.createDirAll (pathOf place)

end Rebind

open Rebind in
def main (args : List String) : IO UInt32 := do
  let words := args.map String.toList
  let old ← readWorkspace words
  let (status, new) := (runCommand "rebind" words).run old
  for t in new.output.reverse do
    IO.print (String.ofList t)
  for t in new.complaints.reverse do
    IO.eprint (String.ofList t)
  applyChanges old.tree new.tree
  return match status with
    | .ok (some n) => n.toUInt32
    | .ok none => 0
    | .error _ => 1
