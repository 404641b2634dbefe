import Mathlib
import Rebind.Proofs.Migration.Stages
import Rebind.Proofs.Project.Backups

/-!
# The account of a run

`Run.project` sets up a log and a writer (`Run.setUp`) and goes through the stages.  Whatever the
project is, its report counts the scanned files that are text with annotations, all of them as
migrated and in the order of the scan, and besides these files, the log, the report and what lies
below the backup directory every file is left as it was (`run_accounts`).

The one way out is the backup of a file whose path climbs, which may come to stand over another file
(`neighbour_overwritten`).
-/

namespace Rebind

open List Job

/-! ## setting up -/

namespace Job

variable {α β : Type} {here : Place} {S : Place → Prop}

def Ends (here : Place) (S : Place → Prop) (x : Job α) (R : α → Prop) : Prop :=
  ∀ w : Workspace, w.here = here → w.Frame S (exec x w).2 ∧ ∀ a, (exec x w).1 = .ok a → R a

theorem ends_of_frames {x : Job α} (h : Frames here S x) : Ends here S x (fun _ => True) :=
  fun w hw => ⟨h w hw, fun _ _ => trivial⟩

theorem ends_pure {a : α} {R : α → Prop} (h : R a) : Ends here S (pure a) R := by
  intro w _
  refine ⟨.refl S w, fun b hb => ?_⟩
  rw [← Except.ok.inj hb]
  exact h

theorem ends_lift (x : Except Fault α) : Ends here S (liftM x : Job α) (fun a => x = .ok a) :=
  fun w _ => ⟨.refl S w, fun _ h => h⟩

theorem ends_bind {x : Job α} {f : α → Job β} {P : α → Prop} {R : β → Prop} (hx : Ends here S x P)
    (hf : ∀ a, P a → Ends here S (f a) R) : Ends here S (x >>= f) R := by
  intro w hw
  obtain ⟨hframe, hP⟩ := hx w hw
  rw [exec_bind]
  generalize exec x w = r at hframe hP
  obtain ⟨r, u⟩ := r
  cases r with
  | error e => exact ⟨hframe, fun _ h => nomatch h⟩
  | ok a =>
    obtain ⟨hrest, hR⟩ := hf a (hP a rfl) u (hframe.here.trans hw)
    exact ⟨hframe.trans hrest, hR⟩

theorem ends_outcome {x : Job α} {R : α → Prop} (h : Ends here S x R) :
    Ends here S x.outcome (fun r => ∀ a, r = .ok a → R a) := by
  intro w hw
  refine ⟨(h w hw).1, fun r hr a ha => (h w hw).2 a ?_⟩
  rw [exec_outcome] at hr
  rw [← ha]
  exact Except.ok.inj hr

end Job

namespace Log

variable {here : Place} {S : Place → Prop}

/-- opens the file at a path to append to it, and makes it if it is not there -/
def openAt (path : Text) : Job LogFile := do
  let place ← Job.locate path
  match (← get).tree.find? place with
  | some (.dir _) => Job.refuse .isDirectory path
  | some (.device false) => return .refusing false
  | some _ => return .appending place
  | none =>
    Job.store place (.file .empty)
    return .appending place

theorem ends_openAt (path : Text) : Ends here S (openAt path)
    (fun file => ∀ q, file = .appending q → q = Place.ofPath here path) := by
  intro w hw
  unfold openAt
  rw [exec_bind, exec_locate]
  cases hq : w.locate path with
  | error c => exact ⟨.refl S w, fun _ h => nomatch h⟩
  | ok place =>
    have hplace : place = Place.ofPath here path := by rw [Workspace.locate_eq hq, hw]
    have hat : ∀ file q, (Except.ok (.appending place) : Except Fault LogFile) = .ok file →
        file = .appending q → q = Place.ofPath here path := by
      intro file q hfile hown
      rw [← Except.ok.inj hfile] at hown
      rw [← hplace]
      exact (LogFile.appending.inj hown).symm
    dsimp only [Except.mapError]
    rw [exec_bind_ok (exec_get w)]
    cases hfind : w.tree.find? place with
    | none =>
      -- nothing stood there, so no file is lost
      refine ⟨Workspace.frame_stored (Workspace.reaches_of_locate hq) (fun old hold => ?_),
        fun file hfile q => hat file q hfile⟩
      rw [hfind] at hold
      cases hold
    | some t =>
      cases t with
      | file content => exact ⟨.refl S w, fun file hfile q => hat file q hfile⟩
      | dir es => exact ⟨.refl S w, fun _ h => nomatch h⟩
      | device takes =>
        cases takes with
        | true => exact ⟨.refl S w, fun file hfile q => hat file q hfile⟩
        | false =>
          refine ⟨.refl S w, fun file hfile q hown => ?_⟩
          rw [← Except.ok.inj hfile] at hown
          cases hown

theorem ends_openFile {s : Settings} {project name : Text} (hproject : s.project = .ok project)
    (hname : s.value .logFile = .plain name) : Ends here S (openFile s)
      (fun file => ∀ q, file = .appending q → q = Place.ofPath here (joinPath project name)) := by
  have hopen : Ends here S (openAt (joinPath project name))
      (fun file => ∀ q, file = .appending q → q = Place.ofPath here (joinPath project name)) :=
        ends_openAt _
  unfold openFile
  rw [hproject, hname]
  refine ends_bind (ends_lift _) (fun p hp => ?_)
  rw [← Except.ok.inj hp]
  dsimp only [Value.plain]
  rw [whole?_map, Option.elim_some, pure_bind]
  refine ends_bind (ends_of_frames (frames_of_same fun _ => ⟨rfl, rfl⟩)) (fun there _ => ?_)
  split
  · exact ends_bind (ends_of_frames (frames_makeDirs _)) (fun _ _ => hopen)
  · exact hopen

theorem ends_start {s : Settings} {project name : Text} (hproject : s.project = .ok project)
    (hname : s.value .logFile = .plain name) (colored : Bool) : Ends here S (start s colored)
      (fun log => ∀ q, log.Owns q → q = Place.ofPath here (joinPath project name)) := by
  unfold start
  refine ends_bind (ends_lift _) (fun level _ => ?_)
  split
  · refine ends_bind (ends_outcome (ends_openFile hproject hname)) (fun r hr => ?_)
    cases r with
    | ok file => exact ends_pure (hr file rfl)
    | error e =>
      exact ends_bind (ends_of_frames (frames_say _)) (fun _ _ => ends_pure (fun q h => nomatch h))
  · exact ends_pure (fun q h => nomatch h)

end Log

theorem Writer.ends_start {here : Place} {S : Place → Prop} (s : Settings) :
    Ends here S (Writer.start s)
    (fun wr => ∀ dir, wr.backup = some dir → ∃ project, s.project = .ok project
      ∧ dir = backupDir project) := by
  unfold Writer.start
  split
  · refine ends_bind (ends_lift _) (fun project hproject => ?_)
    have hdir : ∀ dir, some (backupDir project) = some dir →
        ∃ project, s.project = .ok project ∧ dir = backupDir project := fun dir h =>
      ⟨project, hproject, (Option.some.inj h).symm⟩
    refine ends_bind (ends_of_frames (frames_of_same fun _ => ⟨rfl, rfl⟩)) (fun there _ => ?_)
    dsimp only
    split
    · exact ends_bind (ends_of_frames (frames_makeDirs _)) (fun _ _ => ends_pure hdir)
    · exact ends_pure hdir
  · exact ends_pure (fun dir h => nomatch h)

namespace Run

/-- the log and the writer of a run -/
def setUp (s : Settings) : Job (Log × Writer) := do
  let log ← Log.start (← Settings.ofHere) false
  let wr ← Writer.start s
  return (log, wr)

def logPlace (w : Workspace) : Place :=
  Place.ofPath w.here (joinPath w.directory "butterknife_migration.log")

def reportPlace (w : Workspace) (project : Text) :
    Place := Place.ofPath w.here (RunReport.path project)

def backupPlace (w : Workspace) (project : Text) :
    Place := Place.ofPath w.here (Writer.backupDir project).text

theorem setUp_spec {s : Settings} {w v : Workspace} {log : Log} {wr : Writer}
    (h : exec (setUp s) w = (.ok (log, wr), v)) : w.Frame (fun _ => False) v
      ∧ (∀ q, log.Owns q → q = logPlace w)
      ∧ ∀ dir, wr.backup = some dir → ∃ project, s.project = .ok project
        ∧ dir = Writer.backupDir project := by
  have hends : Ends w.here (fun _ => False) (setUp s) (fun p => (∀ q, p.1.Owns q → q = logPlace w)
      ∧ ∀ dir, p.2.backup = some dir → ∃ project, s.project = .ok project
        ∧ dir = Writer.backupDir project) := by
    have hhere : Ends w.here (fun _ => False) Settings.ofHere
        (fun s' => s' = .default w.directory) := by
      intro z hz
      refine ⟨.refl _ z, fun s' hs' => ?_⟩
      have hdefault : Settings.default z.directory = s' := Except.ok.inj hs'
      show s' = .default w.directory
      rw [← hdefault, Workspace.directory, Workspace.directory, hz]
    have hproject : (Settings.default w.directory).project = .ok w.directory := by
      show (whole? _).elim _ _ = _
      rw [whole?_map]
      rfl
    have hname : (Settings.default w.directory).value .logFile
        = .plain "butterknife_migration.log" := rfl
    refine ends_bind hhere (fun s' hs' => ?_)
    subst hs'
    refine ends_bind (Log.ends_start hproject hname false) (fun log hlog => ?_)
    exact ends_bind (Writer.ends_start s) (fun wr hwr => ends_pure ⟨hlog, hwr⟩)
  obtain ⟨hframe, hR⟩ := hends w rfl
  rw [h] at hframe hR
  exact ⟨hframe, hR _ rfl⟩

/-- the stages of a run with its log and writer; what stops it is logged first -/
def loggedStages (s : Settings) (log : Log) (wr : Writer) : Job Unit := do
  match ← (stages log s wr).outcome with
  | .ok _ => return
  | .error e =>
    log.error ("迁移过程中发生错误: " ++ e.text)
    throw e

theorem project_eq (s : Settings) : Run.project s = setUp s >>= fun p =>
    loggedStages s p.1 p.2 := by
  simp only [project, setUp, bind_assoc, pure_bind]
  rfl

theorem logPlace_ne_reportPlace (w : Workspace) (project : Text) :
    logPlace w ≠ reportPlace w project := by
  obtain ⟨p, hlog⟩ := Place.exists_ofPath_joinPath (n := "butterknife_migration.log") (by decide)
    (by decide) (by decide) w.here w.directory
  obtain ⟨p', hreport⟩ := Place.exists_ofPath_joinPath (n := "butterknife_migration_report.json")
    (by decide) (by decide) (by decide) w.here project
  rw [logPlace, hlog, reportPlace, RunReport.path, hreport]
  exact Place.append_name_ne (by decide) p p'

/-! ## what a run makes of the files -/

/-- the account of a run from `w` to `u` over the paths of a scan, where `v` is the workspace after
setting up: `fs` are the files with annotations, each read with the log as it was then; the editors
take them all; the report counts them and nothing else; and all other files are kept, but for one
that a backup climbs to -/
structure Account (wr : Writer) (project : Text) (paths : List Text) (w v u : Workspace)
    (fs : List SourceFile) :
    Prop where
  sources : ∃ found, fs = found.filterMap id
    ∧ List.Forall₂ (fun path r => ∃ z, v.Alike (· = logPlace w) z ∧ r = z.source? path) paths found
  edited : ∀ f ∈ fs, ∃ code, editAll f.findings f.code = .ok code
  report : fs ≠ [] → ∀ q, v.locate (RunReport.path project) = .ok q →
    ∃ t, u.tree.find? q = some t
      ∧ (t.isFile = true → ∃ r : RunReport, t = .file (bytesOf r.toValue.toJson)
      ∧ r.successful + r.failed = r.total ∧ r.total = fs.length
      ∧ r.details = fs.map (·.detail true))
  kept : ∀ q content, w.tree.find? q = some (.file content)
    → (∀ f ∈ fs, q ≠ Place.ofPath w.here f.path) →
    q ≠ logPlace w → q ≠ reportPlace w project → ¬ backupPlace w project <+: q →
    (∀ f ∈ fs, wr.backup ≠ none → Writer.Climbs project f.path →
      q ∉ Writer.backupPlaces w.here (Writer.backupDir project) project f.path) →
    u.tree.find? q = some (.file content)

section
variable {log : Log} {s : Settings} {wr : Writer} {project : Text} {paths : List Text}
  {w v u : Workspace} {fs : List SourceFile}

theorem Account.sources_eq (h : Account wr project paths w v u fs) (hhere : v.here = w.here)
    (hlog : ∀ path ∈ paths, Place.ofPath w.here path ≠ logPlace w) :
    fs = paths.filterMap v.source? := by
  obtain ⟨found, rfl, hreads⟩ := h.sources
  clear h
  induction hreads with
  | nil => rfl
  | @cons path r paths found hr _ ih =>
    obtain ⟨z, hz, rfl⟩ := hr
    have hplace : Place.ofPath v.here path ≠ logPlace w := by
      rw [hhere]
      exact hlog path mem_cons_self
    rw [filterMap_cons, filterMap_cons, hz.source?_eq hplace,
      ← ih (fun path hpath => hlog path (mem_cons_of_mem _ hpath))]
    rfl

theorem Handles.account (hproject : s.project = .ok project)
    (hsetUp : exec (setUp s) w = (.ok (log, wr), v))
    (h : Handles log s wr project paths v u fs) : Account wr project paths w v u fs := by
  obtain ⟨hframe, hlog, hdir⟩ := setUp_spec hsetUp
  have hhere : v.here = w.here := hframe.here
  constructor
  · obtain ⟨found, hreads, hfs⟩ := h.sources
    exact ⟨found, hfs, hreads.imp fun path r ⟨z, hz, hr⟩ => ⟨z, hz.mono hlog, hr⟩⟩
  · intro f hf
    obtain ⟨-, z, -, hsource⟩ := h.of_mem_sources hf
    rw [(Workspace.source?_eq_some.mp hsource).2.1]
    exact editAll_returns f.code
  · intro hne q hq
    have hown : ¬ log.Owns q := by
      intro hown
      apply logPlace_ne_reportPlace w project
      rw [← hlog q hown, Workspace.locate_eq hq, hhere]
      rfl
    obtain ⟨t, ht, hfile⟩ := h.report hne q hq hown
    refine ⟨t, ht, fun hisFile => ⟨_, hfile hisFile, ?_, ?_, ?_⟩⟩
    · exact Nat.add_zero _
    · exact length_map _
    · exact map_map
  · intro q content hq hsource hqlog hqreport hqbackup hqclimbs
    have hq' : v.tree.find? q = some (.file content) := hframe.find? hq rfl (fun hf => hf)
    refine h.frame.find? hq' rfl ?_
    rw [hhere]
    intro hwrites
    rcases hwrites with (hown | ⟨f, hf, hplace | ⟨dir, project', hback, hproject', hmem⟩⟩) | hreport
    · exact hqlog (hlog q hown)
    · exact hsource f hf hplace
    · obtain rfl : project = project' := Except.ok.inj (hproject.symm.trans hproject')
      obtain ⟨_, hp, rfl⟩ := hdir dir hback
      obtain rfl := Except.ok.inj (hproject.symm.trans hp)
      -- only a file whose path climbs has its backup elsewhere
      by_cases hclimbs : Writer.Climbs project f.path
      · exact hqclimbs f hf (by simp [hback]) hclimbs hmem
      · exact hqbackup (Writer.backup_below hclimbs w.here q hmem)
    · exact hqreport hreport

theorem gives_stages_nil (wr : Writer) (hfound : (exec (found log s) w).1 = .ok []) :
    Gives (stages log s wr) w (fun _ u => Handles log s wr project [] w u []) := by
  rw [stages_eq]
  refine gives_bind_of_exec (Prod.ext hfound rfl) ?_
  unfold afterFound
  refine (log.gives_tell _ _ _).bind (fun _ v hv => ?_)
  rw [if_pos isEmpty_nil]
  refine (log.gives_tell _ _ v).bind (fun _ u hu => gives_pure ?_)
  have hframe : w.Frame log.Owns u := (alike_found log s w).onward.trans (hv.trans hu)
  exact
    { sources := ⟨[], .nil, rfl⟩
      frame := hframe.mono (fun _ h => .inl (.inl h))
      written := by simp
      report := fun h => absurd rfl h }

theorem gives_loggedStages {P : Unit → Workspace → Prop} (h : Gives (stages log s wr) w P) :
    Gives (loggedStages s log wr) w P := by
  obtain ⟨_, u, he, hP⟩ := h
  unfold loggedStages
  refine gives_bind_of_exec (exec_outcome _ w) ?_
  rw [he]
  exact gives_pure hP

end

end Run

/-! ## two classes of one name -/

def boundClass : Text := unlines ["class A \x7b", "@BindView(R.id.a) A a;", "\x7d", []]

def plainClass : Text := unlines ["class B \x7b", "\x7d", []]

/-- a plain class in the project `/p`, and a bound one of the same name beside it -/
def twins : Workspace where
  tree := .dir [("p", .dir [("q", .dir [("A.java", .file (bytesOf plainClass))])]),
    ("q", .dir [("A.java", .file (bytesOf boundClass))])]
  here := ["p"]
  now := ⟨2024, 1, 1, 0, 0, 0, 0⟩
  output := []
  complaints := []

/-- the text of a file -/
def Tree.text? : Tree → Option Text
  | .file content => textOf? content
  | _ => none

def plainTwin : Place := ["p", "q", "A.java"]

def sourcesIn (project dir : String) : Settings :=
  (Settings.default project).put .scanDirectories (Settings.textList [dir])

def twinsLog : Log := ⟨.info, .appending ["p", "butterknife_migration.log"], false⟩

def backingUp (project : Text) : Writer := ⟨some (Writer.backupDir project), []⟩

deriving instance DecidableEq for LogFile, Log, WriteEntry, Writer

theorem twins_source : twins.source? "/q/A.java"
    = some ⟨"/q/A.java", .detect boundClass, boundClass⟩ := by
  refine Workspace.source?_eq_some.mpr
    ⟨rfl, rfl, by decide +kernel, ["q", "A.java"], bytesOf boundClass, by decide +kernel, rfl, ?_⟩
  rw [textOf?_bytesOf]
  decide +kernel

theorem exists_start {log : Log} {s : Settings} {wr : Writer} {paths : List Text} {w : Workspace}
    (hsetUp : (exec (Run.setUp s) w).1 = .ok (log, wr))
    (hfound : (exec (Run.found log s) (exec (Run.setUp s) w).2).1 = .ok paths) :
    ∃ v, exec (Run.setUp s) w = (.ok (log, wr), v) ∧ (exec (Run.found log s) v).1 = .ok paths :=
  ⟨_, Prod.ext hsetUp rfl, hfound⟩

/-! ## the account -/

/-- a run that sets up and scans gives its account -/
theorem run_accounts {log : Log} {s : Settings} {wr : Writer} {project : Text} {paths : List Text}
    {w v : Workspace} (hproject : s.project = .ok project)
    (hsetUp : exec (Run.setUp s) w = (.ok (log, wr), v))
    (hfound : (exec (Run.found log s) v).1 = .ok paths) :
    Gives (Run.project s) w (fun _ u => ∃ fs, Run.Account wr project paths w v u fs) := by
  rw [Run.project_eq]
  refine gives_bind_of_exec hsetUp (Run.gives_loggedStages ?_)
  by_cases hempty : paths = []
  · subst hempty
    exact (Run.gives_stages_nil wr hfound).mono (fun _ u h => ⟨[], h.account hproject hsetUp⟩)
  · exact (Run.gives_stages wr hproject hfound hempty).mono
      (fun _ u ⟨fs, h⟩ => ⟨fs, h.account hproject hsetUp⟩)

/-- a run on the directory of the bound class leaves its twin alone -/
theorem run_accounts_twins : Gives (Run.project (sourcesIn "/q" ".")) twins (fun _ u =>
    u.tree.find? plainTwin = some (.file (bytesOf plainClass))
    ∧ ∃ t, u.tree.find? ["q", "butterknife_migration_report.json"] = some t
      ∧ (t.isFile = true → ∃ r : RunReport, t = .file (bytesOf r.toValue.toJson)
        ∧ r.successful + r.failed = 1 ∧ r.total = 1 ∧ r.details.length = 1)) := by
  have hproject : (sourcesIn "/q" ".").project = .ok "/q" := by decide +kernel
  obtain ⟨v, hsetUp, hfound⟩ : ∃ v, exec (Run.setUp (sourcesIn "/q" ".")) twins
    = (.ok (twinsLog, backingUp "/q"), v)
      ∧ (exec (Run.found twinsLog (sourcesIn "/q" ".")) v).1 = .ok ["/q/A.java"] :=
    exists_start (by decide +kernel) (by decide +kernel)
  have hframe := (Run.setUp_spec hsetUp).1
  have hsource := hframe.source? twins_source (fun hf => hf)
  have hreport : v.locate (RunReport.path "/q") = .ok ["q", "butterknife_migration_report.json"] :=
    hframe.locate (by decide +kernel)
  refine (run_accounts hproject hsetUp hfound).mono (fun _ u ⟨fs, h⟩ => ?_)
  obtain rfl : fs = [⟨"/q/A.java", .detect boundClass, boundClass⟩] := by
    rw [h.sources_eq hframe.here (by decide), filterMap_cons, hsource]
    rfl
  constructor
  · refine h.kept plainTwin (bytesOf plainClass) rfl ?_ (by decide) (by decide) (by decide) ?_
    · intro f hf
      rw [mem_singleton.mp hf]
      show plainTwin ≠ Place.ofPath twins.here "/q/A.java"
      decide
    · intro f hf _ hclimbs
      rw [mem_singleton.mp hf] at hclimbs
      exact absurd hclimbs (by decide)
  · obtain ⟨t, ht, hfile⟩ := h.report (cons_ne_nil _ _) _ hreport
    refine ⟨t, ht, fun hisFile => ?_⟩
    obtain ⟨r, hr, hsum, htotal, hdetails⟩ := hfile hisFile
    exact ⟨r, hr, hsum.trans htotal, htotal, by rw [hdetails, length_map]; rfl⟩

/-- a run from the project of the plain class, with its sources beside it, puts the backup of the
bound class in the place of the plain one -/
theorem neighbour_overwritten :
    (∃ v, exec (Run.setUp (sourcesIn "/p" "../q")) twins = (.ok (twinsLog, backingUp "/p"), v)
      ∧ (exec (Run.found twinsLog (sourcesIn "/p" "../q")) v).1 = .ok ["/p/../q/A.java"])
    ∧ plainTwin ≠ Place.ofPath twins.here "/p/../q/A.java" ∧ plainTwin ≠ Run.logPlace twins
    ∧ plainTwin ≠ Run.reportPlace twins "/p" ∧ ¬ Run.backupPlace twins "/p" <+: plainTwin
    ∧ twins.tree.find? plainTwin = some (.file (bytesOf plainClass))
    ∧ (exec (Run.project (sourcesIn "/p" "../q")) twins).2.tree.find? plainTwin
      ≠ some (.file (bytesOf plainClass)) := by
  refine ⟨exists_start (by decide +kernel) (by decide +kernel), by decide, by decide, by decide,
    by decide, rfl, ?_⟩
  have hbound : ((exec (Run.project (sourcesIn "/p" "../q")) twins).2.tree.find? plainTwin).bind
    Tree.text?
      = some boundClass := by decide +kernel
  intro hplain
  rw [hplain] at hbound
  have htext : textOf? (bytesOf plainClass) = some boundClass := hbound
  rw [textOf?_bytesOf] at htext
  exact absurd htext (by decide +kernel)

end Rebind
