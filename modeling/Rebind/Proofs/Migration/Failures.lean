import Mathlib
import Rebind.Migration.Unattended
import Rebind.Proofs.Migration.Stages

/-!
# Files that cannot be migrated

The injection of a source can stop with a fault.  The two ways to run a migration take that
differently:

* a run over a project goes on with the edited code, writes it and counts the file as migrated, so
  the file is left as it was only if editing made no difference;
* an unattended run leaves the file alone (`Unattended.migrateFiles_keeps`).

`stuck_source_written` says both, for every workspace in which the file is not the log, the report
or a backup.
-/

namespace Rebind

open List Job

/-! ## unattended runs -/

namespace Unattended

def Migrates (w : Workspace) (path : Text) : Prop :=
  ∃ code out, w.textAt path = .ok code ∧ migrate (Round.laidOut code).2 = .ok out

theorem gives_migrateFile (s : Settings) (wr : Writer) (path : Text) (n : Tally) (w : Workspace) :
    Gives (migrateFile s wr path n) w (fun r u => r.2.1.backup = wr.backup
      ∧ w.Frame (fun q => Migrates w path ∧ wr.Touches s w.here path q) u) := by
  generalize hS : (fun q => Migrates w path ∧ wr.Touches s w.here path q) = S
  unfold migrateFile
  refine Gives.bind (P := fun _ u => u.here = w.here ∧ u.tree = w.tree) ⟨(), _, rfl, rfl, rfl⟩
    (fun _ w₁ ⟨hhere, htree⟩ => ?_)
  have hstart : w.Frame S w₁ := Workspace.frame_of_eq hhere htree
  refine gives_bind_of_exec (exec_outcome _ w₁) ?_
  rw [exec_readText, Workspace.textAt_congr hhere htree]
  cases hcode : w.textAt path with
  | error e => exact gives_pure ⟨rfl, hstart⟩
  | ok code =>
    -- the layout is told about or not before the rest
    have hlayout : ∀ {c : Prop} [Decidable c] {a b : Text}
      {rest : Job (Tally × Writer × Option Fault)}
        {R : Tally × Writer × Option Fault → Workspace → Prop}, (∀ v, w.Frame S v → Gives rest v R)
          →
        Gives (if c then say a >>= fun _ => say b >>= fun _ => rest else rest) w₁ R := by
      intro c _ a b rest R hrest
      split
      · refine (gives_say S a w₁).bind (fun _ v hv => (gives_say S b v).bind (fun _ v' hv' => ?_))
        exact hrest v' (hstart.trans (hv.trans hv'))
      · exact hrest w₁ hstart
    dsimp only
    generalize hlaid : Round.laidOut code = laid
    refine hlayout (fun v hv => ?_)
    split
    · exact (gives_say S _ v).bind (fun _ v' hv' => gives_pure ⟨rfl, hv.trans hv'⟩)
    · refine (gives_say S _ v).bind (fun _ v' hv' => ?_)
      have hframe : w.Frame S v' := hv.trans hv'
      cases hmigrate : migrate laid.2 with
      | error e => exact gives_pure ⟨rfl, hframe⟩
      | ok out =>
        refine (wr.gives_write s path out v').bind (fun r z ⟨hbackup, hz, _⟩ => ?_)
        refine (gives_say S _ z).bind (fun _ u hu => gives_pure ⟨hbackup, ?_⟩)
        refine hframe.trans ((hz.mono fun q hq => ?_).trans hu)
        rw [← hS]
        rw [hframe.here] at hq
        exact ⟨⟨code, out, hcode, by rw [hlaid, hmigrate]⟩, hq⟩

/-- a file that cannot be migrated is still the same after an unattended run over any files -/
theorem migrateFiles_keeps {log : Log} {s : Settings} {q : Place} {content : ByteArray}
    {here : Place}
    (hstuck : ∀ code, textOf? content = some code → ¬ Returns (migrate (Round.laidOut code).2))
    (hlog : ¬ log.Owns q) {paths : List Text} {wr : Writer}
    (hbackups : ∀ path ∈ paths, ¬ wr.BacksUpAt s here path q) {n : Tally} {w : Workspace}
    (hw : w.here = here) (hfile : w.tree.find? q = some (.file content)) :
    Gives (migrateFiles log s wr n paths) w (fun _ u => w.Frame (· ≠ q) u) := by
  induction paths generalizing wr n w with
  | nil => exact gives_pure (.refl _ w)
  | cons path paths ih =>
    rw [migrateFiles]
    refine (gives_migrateFile s wr path n w).bind (fun ⟨n', wr', failed⟩ v ⟨hbackup, hv⟩ => ?_)
    have hkept : w.Frame (· ≠ q) v := by
      refine hv.mono ?_
      rintro p ⟨⟨code, out, hcode, hout⟩, hplace | hback⟩ rfl
      · obtain ⟨q, hq, htext⟩ := Workspace.locate_of_textAt hcode
        rw [hplace, ← Workspace.locate_eq hq] at hfile
        exact hstuck code (htext content hfile) ⟨out, hout⟩
      · rw [hw] at hback
        exact hbackups path mem_cons_self hback
    have hbackups' : ∀ path ∈ paths, ¬ wr'.BacksUpAt s here path q := by
      intro p hp
      rw [Writer.BacksUpAt, hbackup]
      exact hbackups p (mem_cons_of_mem _ hp)
    have hnext : ∀ v', w.Frame (· ≠ q) v' →
        Gives (migrateFiles log s wr' n' paths) v' (fun _ u => w.Frame (· ≠ q) u) := fun v' hv' =>
      (ih hbackups' (hv'.here.trans hw) (hv'.find? hfile rfl (fun h => h rfl))).mono
        (fun _ _ hu => hv'.trans hu)
    cases failed with
    | none => exact hnext v hkept
    | some e =>
      refine (gives_say (· ≠ q) _ v).bind (fun _ v₁ hv₁ => ?_)
      refine (log.gives_tell _ _ v₁).bind (fun _ v₂ hv₂ => hnext v₂ ?_)
      exact hkept.trans (hv₁.trans (hv₂.mono fun p hp => by rintro rfl; exact hlog hp))

end Unattended

/-! ## runs over a project -/

namespace Run

variable {log : Log} {s : Settings} {wr : Writer} {project path : Text} {paths : List Text}
  {w u : Workspace} {fs : List SourceFile} {f : SourceFile}

/-- the report of a run says that the source was migrated -/
def Reports (log : Log) (project : Text) (f : SourceFile) (w u : Workspace) : Prop :=
  ∃ r : RunReport, r.successful = r.total ∧ r.failed = 0 ∧ f.detail true ∈ r.details
    ∧ ∀ q, w.locate (RunReport.path project) = .ok q → ¬ log.Owns q →
      ∃ t, u.tree.find? q = some t ∧ (t.isFile → t = .file (bytesOf r.toValue.toJson))

theorem Handles.reports (h : Handles log s wr project paths w u fs) (hf : f ∈ fs) :
    Reports log project f.edited.finished w u := by
  have hreport := h.report (ne_nil_of_mem hf)
  have hmem : f.edited.finished ∈ fs.map (·.edited.finished) := mem_map_of_mem hf
  generalize fs.map (·.edited.finished) = gs at hreport hmem
  exact ⟨RunReport.allWritten gs, rfl, rfl, mem_map_of_mem hmem, hreport⟩

theorem Handles.item?_eq (h : Handles log s wr project paths w u fs)
    (hf : w.source? path = some f) :
    u.item? path = u.tree.find? (Place.ofPath w.here path) := by
  obtain ⟨-, -, -, q, content, hq, -, -⟩ := Workspace.source?_eq_some.mp hf
  rw [Workspace.item?_eq (h.frame.locate hq), Workspace.locate_eq hq]

end Run

theorem SourceFile.finished_of_stuck {f : SourceFile} (hf : f.findings = .detect f.code)
    (hstuck : ¬ Returns (migrate f.code)) :
    ∃ edited, editAll f.findings f.code = .ok edited
      ∧ f.edited.finished = { f with code := edited } := by
  obtain ⟨edited, hedited⟩ := editAll_returns f.code
  rw [← hf] at hedited
  refine ⟨edited, hedited, ?_⟩
  have hcode : (editAll f.findings f.code).toOption.getD f.code = edited := by
    rw [hedited]
    rfl
  have hinjected : (injected f.findings edited).toOption.getD edited = edited := by
    cases hresult : injected f.findings edited with
    | error e => rfl
    | ok out =>
      refine absurd ⟨out, ?_⟩ hstuck
      rw [migrate, ← hf, hedited, ok_bind, hresult]
  simp only [SourceFile.edited, SourceFile.finished, hcode, hinjected]

/-! ## a holder with a handler on two lines -/

def stuckHolder : Text :=
  unlines ["public class AHolder \x7b", "@OnClick(\x7bR.id.a,", "R.id.b\x7d)", "void m() \x7b",
    "\x7d", "\x7d", []]

/-- a project with the log of a run and one source -/
def stuckProject : Workspace where
  tree := .dir [("p", .dir [("butterknife_migration.log", .file .empty),
    ("java", .dir [("AHolder.java", .file (bytesOf stuckHolder))])])]
  here := ["p"]
  now := ⟨2024, 1, 1, 0, 0, 0, 0⟩
  output := []
  complaints := []

def stuckPath : Text := "/p/java/AHolder.java"

def stuckSource : SourceFile := ⟨stuckPath, .detect stuckHolder, stuckHolder⟩

def stuckLog : Log := ⟨.info, .appending ["p", "butterknife_migration.log"], false⟩

def stuckWriter : Writer := ⟨some (Writer.backupDir "/p"), []⟩

theorem stuckProject_found : (exec (Run.found stuckLog (.default "/p")) stuckProject).1
    = .ok [stuckPath] := by
  decide +kernel

theorem stuckProject_source : stuckProject.source? stuckPath = some stuckSource := by
  refine Workspace.source?_eq_some.mpr ⟨rfl, rfl, by decide +kernel, ["p", "java", "AHolder.java"],
    bytesOf stuckHolder, by decide +kernel, rfl, ?_⟩
  rw [textOf?_bytesOf]
  decide +kernel

theorem stuckHolder_stuck : ¬ Returns (migrate stuckHolder) := by
  have hfault : migrate stuckHolder = .error .wrongKind := by decide +kernel
  rw [hfault]
  exact not_returns_error _

theorem stuckHolder_laidOut_stuck : ¬ Returns (migrate (Round.laidOut stuckHolder).2) := by
  have hfault : migrate (Round.laidOut stuckHolder).2 = .error .wrongKind := by decide +kernel
  rw [hfault]
  exact not_returns_error _

theorem stuckProject_aside :
    ¬ Run.Aside stuckLog (.default "/p") stuckWriter "/p" ["p"] [stuckPath]
      (Place.ofPath ["p"] stuckPath) := by
  rintro (hlog | hreport | ⟨path, hpath, hback⟩)
  · injection hlog with hplace
    exact absurd hplace (by decide)
  · exact absurd hreport (by decide)
  · obtain ⟨dir, project, hdir, hproject, hplaces⟩ := hback
    obtain rfl := Option.some.inj hdir
    obtain rfl := Except.ok.inj hproject
    rw [mem_singleton.mp hpath] at hplaces
    exact absurd hplaces (by decide)

/-! ## the source is written -/

/-- a source that the injection stops at is written with the code of the editors and counted as
migrated, so it is left as it was only if it had that code already; an unattended run leaves it as
it was -/
theorem stuck_source_written {log : Log} {s : Settings} {wr : Writer} {project : Text}
    {w : Workspace}
    {paths : List Text} {path : Text} {f : SourceFile} (hproject : s.project = .ok project)
    (hfound : (exec (Run.found log s) w).1 = .ok paths) (hpath : path ∈ paths)
    (hf : w.source? path = some f) (hstuck : ¬ Returns (migrate f.code))
    (haside : ¬ Run.Aside log s wr project w.here paths (Place.ofPath w.here path)) :
    (∃ edited, editAll f.findings f.code = .ok edited ∧ Gives (Run.stages log s wr) w (fun _ u =>
      u.item? path = some (.file (bytesOf edited))
        ∧ (u.item? path = w.item? path ↔ w.item? path = some (.file (bytesOf edited)))
        ∧ Run.Reports log project { f with code := edited } w u))
    ∧ (¬ Returns (migrate (Round.laidOut f.code).2) → ∀ n others,
        (∀ p ∈ others, ¬ wr.BacksUpAt s w.here p (Place.ofPath w.here path)) →
        Gives (Unattended.migrateFiles log s wr n others) w
          (fun _ u => u.item? path = w.item? path)) := by
  obtain ⟨-, hfindings, -, q, content, hq, hfile, hcode⟩ := Workspace.source?_eq_some.mp hf
  have hlog : ¬ log.Owns (Place.ofPath w.here path) := fun h => haside (.inl h)
  constructor
  · obtain ⟨edited, hedited, hfinished⟩ := SourceFile.finished_of_stuck hfindings hstuck
    refine ⟨edited, hedited, (Run.gives_stages wr hproject hfound (List.ne_nil_of_mem hpath)).mono
      ?_⟩
    rintro _ u ⟨fs, hfs⟩
    have hwritten : u.item? path = some (.file (bytesOf edited)) := by
      rw [hfs.item?_eq hf, hfs.source_written hpath hf haside, hfinished]
    refine ⟨hwritten, by rw [hwritten, eq_comm], ?_⟩
    have hreports := hfs.reports (hfs.mem_sources hpath hf hlog)
    rwa [hfinished] at hreports
  · intro hlaid n others hothers
    rw [← Workspace.locate_eq hq] at hothers hlog
    refine (Unattended.migrateFiles_keeps (fun code htext => ?_) hlog hothers rfl hfile).mono
      (fun _ u hu => ?_)
    · rwa [← Option.some.inj (hcode.symm.trans htext)]
    · rw [Workspace.item?_eq hq, Workspace.item?_eq (hu.locate hq), hfile, hu.find? hfile rfl
        (fun h => h rfl)]

theorem stuck_source_written_stuckProject :
    (∃ edited, editAll (.detect stuckHolder) stuckHolder = .ok edited
      ∧ Gives (Run.stages stuckLog (.default "/p") stuckWriter) stuckProject (fun _ u =>
        u.item? stuckPath = some (.file (bytesOf edited))
          ∧ Run.Reports stuckLog "/p" { stuckSource with code := edited } stuckProject u))
    ∧ Gives (Unattended.migrateFiles stuckLog (.default "/p") stuckWriter ⟨0, 0⟩ [stuckPath])
      stuckProject
        (fun _ u => u.item? stuckPath = stuckProject.item? stuckPath) := by
  have hboth := stuck_source_written rfl stuckProject_found mem_cons_self stuckProject_source
    stuckHolder_stuck stuckProject_aside
  refine ⟨?_, hboth.2 stuckHolder_laidOut_stuck ⟨0, 0⟩ [stuckPath] (fun p hp hback => ?_)⟩
  · obtain ⟨edited, hedited, hrun⟩ := hboth.1
    exact ⟨edited, hedited, hrun.mono fun _ u ⟨hwritten, _, hreports⟩ => ⟨hwritten, hreports⟩⟩
  · exact stuckProject_aside (.inr (.inr ⟨p, hp, hback⟩))

/-- a run changes the source that it cannot migrate, and reports it as migrated -/
theorem stuck_source_changed : ¬ Returns (migrate stuckHolder)
    ∧ stuckProject.item? stuckPath = some (.file (bytesOf stuckHolder))
    ∧ Gives (Run.stages stuckLog (.default "/p") stuckWriter) stuckProject (fun _ u =>
        u.item? stuckPath ≠ stuckProject.item? stuckPath
          ∧ Run.Reports stuckLog "/p" stuckSource.edited.finished stuckProject u) := by
  refine ⟨stuckHolder_stuck, rfl, ?_⟩
  refine (Run.gives_stages stuckWriter rfl stuckProject_found (by simp)).mono ?_
  rintro _ u ⟨fs, hfs⟩
  have hlog : ¬ stuckLog.Owns (Place.ofPath ["p"] stuckPath) := fun h => stuckProject_aside (.inl h)
  refine ⟨?_, hfs.reports (hfs.mem_sources mem_cons_self stuckProject_source hlog)⟩
  rw [hfs.item?_eq stuckProject_source,
    hfs.source_written mem_cons_self stuckProject_source stuckProject_aside]
  intro hsame
  -- bytes that are the same stand for the same text
  have hbytes : bytesOf stuckSource.edited.finished.code = bytesOf stuckHolder := by
    injection Option.some.inj hsame
  have htexts := congrArg textOf? hbytes
  rw [textOf?_bytesOf, textOf?_bytesOf] at htexts
  exact absurd htexts (by decide +kernel)

end Rebind
