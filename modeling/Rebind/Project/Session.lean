import Rebind.Project.Log
import Rebind.Project.Scan
import Rebind.Project.Writer

/-!
# Sessions

A `Session` holds what is at hand while one works on a project: the workspace, the settings, and the
parts made so far, a scanner, a writer and a log.

* A part goes by the settings of the session as long as these are only changed.  When they are
  replaced as a whole (`Act.reload`), the parts made before keep the old ones.
* There is one log that everything shares.  It may be the log of the session (`SharedLog.session`)
  or one of its own; a log that nobody holds any more is closed.
-/

namespace Rebind

/-- a part of a session, with the settings it goes by if these are not those of the session -/
structure Part (α : Type) where
  item : α
  own : Option Settings

def Part.settings {α : Type} (p : Part α) (s : Settings) : Settings := p.own.getD s

def Part.keep {α : Type} (s : Settings) (p : Part α) : Part α :=
  { p with own := some (p.settings s) }

inductive SharedLog where
  | unset
  | session
  | own (log : Log)

structure Session where
  space : Workspace
  settings : Settings
  scanner : Option (Part Scanner)
  writer : Option (Part Writer)
  log : Option (Part Log)
  shared : SharedLog

def Session.start (space : Workspace) (settings : Settings) : Session :=
  ⟨space, settings, none, none, none, .unset⟩

abbrev Act := ExceptT Fault (StateM Session)

namespace Act

def job {α : Type} (x : Job α) : Act α := fun s =>
  let (r, w) := x.run s.space
  (r, { s with space := w })

/-! ## settings -/

def settings : Act Settings := return (← get).settings

def change (key : Text) (v : Json) : Act Unit :=
  modify (fun t => { t with settings := t.settings.set key v })

def reload (path : Text) : Act Unit := do
  let loaded ← job (Settings.load path)
  modify (fun t => { t with
    settings := loaded
    scanner := t.scanner.map (Part.keep t.settings)
    writer := t.writer.map (Part.keep t.settings)
    log := t.log.map (Part.keep t.settings) })

/-! ## scanner and writer -/

def newScanner (own : Option Settings) : Act Unit :=
  modify (fun t => { t with scanner := some ⟨.fresh, own⟩ })

def onScanner {α : Type} (f : Scanner → Settings → Job (α × Scanner)) : Act α := do
  let t ← get
  match t.scanner with
  | none => throw .noOperation
  | some p =>
    let (a, item) ← job (f p.item (p.settings t.settings))
    modify (fun t => { t with scanner := some { p with item } })
    return a

def newWriter : Act Unit := do
  let item ← job (Writer.start (← settings))
  modify (fun t => { t with writer := some ⟨item, none⟩ })

def onWriter {α : Type} (f : Writer → Settings → Job (α × Writer)) : Act α := do
  let t ← get
  match t.writer with
  | none => throw .noOperation
  | some p =>
    let (a, item) ← job (f p.item (p.settings t.settings))
    modify (fun t => { t with writer := some { p with item } })
    return a

/-! ## logs -/

def discard (log : Log) : Act Unit := do
  let _ ← job log.close
  return

def newLog (colored : Bool) : Act Unit := do
  let t ← get
  let item ← job (Log.start t.settings colored)
  modify (fun t => { t with log := some ⟨item, none⟩ })
  match t.log, t.shared with
  | some p, .session => modify (fun t => { t with shared := .own p.item })
  | some p, _ => discard p.item
  | none, _ => return

def onLog {α : Type} (f : Log → Settings → Job (α × Log)) : Act α := do
  let t ← get
  match t.log with
  | none => throw .noOperation
  | some p =>
    let (a, item) ← job (f p.item (p.settings t.settings))
    modify (fun t => { t with log := some { p with item } })
    return a

def shareLog : Act Unit := do
  let t ← get
  modify (fun t => { t with shared := if t.log.isSome then .session else .unset })
  match t.shared with
  | .own log => discard log
  | _ => return

/-- sees to it that there is a shared log, made with these settings if it has to be -/
def needShared (s : Settings) : Act Unit := do
  match (← get).shared with
  | .unset =>
    let log ← job (Log.start s false)
    modify (fun t => { t with shared := .own log })
  | _ => return

def sharesOwn : Act Bool := do
  needShared (← settings)
  match (← get).shared with
  | .session => return true
  | _ => return false

def shared (level : Level) (message : Text) : Act Unit := do
  needShared (← job Settings.ofHere)
  match (← get).shared with
  | .own log =>
    let log ← job (log.lineAt level message)
    modify (fun t => { t with shared := .own log })
  | _ => onLog (fun log _ => return ((), ← log.lineAt level message))

end Act

end Rebind
