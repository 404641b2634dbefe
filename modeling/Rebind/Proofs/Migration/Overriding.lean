import Rebind.Migration.Run
import Rebind.Proofs.Project.CommandLine
import Rebind.Proofs.Project.Frame

/-!
# Settings under a command line

A run takes its settings from a file, or from the defaults, and lets the command line speak last.
`runCommand_launches` says with which settings it then goes to work: a setting is as the file has it
unless an option speaks for it.  The one exception is whether there are backups, which the command
line decides also where it does not mention them.
-/

namespace Rebind

open Job CommandLine

variable {said : List (Flag × Text)} {words : List Text} {u w : Workspace}

/-- the option that speaks for a setting -/
def Setting.flag? : Setting → Option Flag
  | .projectPath => some .project
  | .bindingMode => some .mode
  | .backupEnabled => some .backup
  | .logLevel => some .verbose
  | _ => none

/-- `s` is what the words, which say `said`, make of the settings `file` -/
structure Overridden (words : List Text) (said : List (Flag × Text)) (file s : Settings) :
    Prop where
  kept : ∀ k, k ≠ .backupEnabled → (∀ flag, k.flag? = some flag → ∀ v, (flag, v) ∉ said) →
    s.value k = file.value k
  backup : s.value .backupEnabled = .bool (words.any (backupWords.contains ·))
  project : ∀ p, p ≠ [] → lastSaid said .project = some p → s.value .projectPath = .plain p
  mode : ∀ m, lastSaid said .mode = some m → s.value .bindingMode = .plain m
  extra : s.extra = file.extra

/-! ### What is written down -/

theorem exec_ofHere (w : Workspace) :
    exec Settings.ofHere w = (.ok (Settings.default w.directory), w) := rfl

theorem exec_exists? (path : Text) (w : Workspace) :
    exec (Job.exists? path) w = (.ok (w.exists? path), w) := rfl

theorem still_readEntries (path : Text) : Still (Settings.readEntries path) := by
  intro w
  unfold Settings.readEntries
  rw [exec_bind, exec_readText]
  cases w.textAt path with
  | error e => exact ⟨rfl, rfl⟩
  | ok t =>
    dsimp only
    split <;> exact ⟨rfl, rfl⟩

theorem gives_load (path : Text) (w : Workspace) :
    Gives (Settings.load path) w (fun _ u => u.here = w.here ∧ u.tree = w.tree) := by
  unfold Settings.load
  apply gives_bind_of_exec (exec_ofHere w)
  apply gives_bind_of_exec (exec_exists? path w)
  cases w.exists? path with
  | false => exact gives_pure ⟨rfl, rfl⟩
  | true =>
    have hstill := still_readEntries path w
    apply gives_bind_of_exec (exec_outcome (Settings.readEntries path) w)
    cases (exec (Settings.readEntries path) w).1 with
    | ok kvs =>
      dsimp only
      cases (Settings.update _ kvs).2 with
      | none => exact ⟨_, _, rfl, hstill⟩
      | some e => exact ⟨_, _, rfl, hstill⟩
    | error e => exact ⟨_, _, rfl, hstill⟩

theorem Options.gives_loaded (o : Options) (w : Workspace) :
    Gives o.loaded w (fun _ u => u.here = w.here ∧ u.tree = w.tree) := by
  unfold Options.loaded
  split
  · exact gives_load _ w
  · exact ⟨_, w, exec_ofHere w, rfl, rfl⟩

/-! ### The command line speaks last -/

def Options.over (o : Options) (file : Settings) : Settings :=
  if o.verbose then (o.apply file).put .logLevel (.plain "DEBUG") else o.apply file

theorem exec_reporting_bind {α : Type} {x : Job α} {a : α} {f : α → Job (Option Nat)}
    (h : exec x w = (.ok a, u)) :
    exec (reporting (x >>= f)) w = exec (reporting (f a)) u := by
  unfold reporting
  rw [exec_bind_ok (exec_outcome _ w), exec_bind_ok (exec_outcome _ u), exec_bind_ok h]

theorem exec_runCommand {o : Options} (hread : CommandLine.read words = .run o)
    {file : Settings} (h : exec o.loaded w = (.ok file, u)) (program : Text) :
    exec (runCommand program words) w = exec (reporting (launch (o.over file))) u := by
  unfold runCommand
  rw [hread]
  refine exec_reporting_bind ?_
  unfold Options.settings
  rw [exec_bind_ok h]
  rfl

theorem Options.extra_over (o : Options) (file : Settings) : (o.over file).extra = file.extra := by
  unfold Options.over Options.apply
  split <;> split <;> split <;> rfl

/-- what the options put in the place of a setting -/
def Options.put? (o : Options) : Setting → Option Json
  | .projectPath => (given? o.project).map .plain
  | .bindingMode => (given? o.mode).map .plain
  | .backupEnabled => some (.bool o.backup)
  | .logLevel => if o.verbose then some (.plain "DEBUG") else none
  | _ => none

theorem Options.value_over (o : Options) (file : Settings) (k : Setting) :
    (o.over file).value k = (o.put? k).getD (file.value k) := by
  unfold Options.over Options.apply Options.put?
  cases given? o.project <;> cases given? o.mode <;> cases o.verbose <;> cases k <;> rfl

theorem given?_some {t : Text} (h : t ≠ []) : given? (some t) = some t := by
  simp [given?, h]

theorem put?_ofSaid {k : Setting} (hk : k ≠ .backupEnabled)
    (h : ∀ flag, k.flag? = some flag → ∀ v, (flag, v) ∉ said) : (ofSaid said).put? k = none := by
  have hnone : ∀ flag, k.flag? = some flag → lastSaid said flag = none := by
    intro flag hflag
    rw [lastSaid_eq_none_iff]
    intro v hv
    exact h flag hflag v hv
  cases k with
  | backupEnabled => exact absurd rfl hk
  | projectPath => simp [Options.put?, ofSaid, given?, hnone .project rfl]
  | bindingMode => simp [Options.put?, ofSaid, given?, hnone .mode rfl]
  | logLevel => simp [Options.put?, ofSaid, hnone .verbose rfl]
  | _ => rfl

theorem CommandLine.Spoken.isSome_backup (h : Spoken words said) :
    (lastSaid said .backup).isSome = words.any (backupWords.contains ·) := by
  have hsaid : (lastSaid said .backup).isSome ↔ ∃ v, (Flag.backup, v) ∈ said := by
    rw [Option.isSome_iff_ne_none, ne_eq, lastSaid_eq_none_iff, not_forall_not]
  rw [Bool.eq_iff_iff, hsaid, h.backup_iff]
  simp

theorem overridden_over (h : Spoken words said)
    (file : Settings) : Overridden words said file ((ofSaid said).over file) where
  kept k hk hsaid := by
    rw [Options.value_over, put?_ofSaid hk hsaid, Option.getD_none]
  backup := by
    rw [Options.value_over, ← h.isSome_backup]
    rfl
  project p hp hsaid := by
    rw [Options.value_over]
    simp [Options.put?, ofSaid, hsaid, given?_some hp]
  mode m hsaid := by
    have hm : m ≠ [] := by
      rintro rfl
      exact absurd ((h.fits _ (mem_of_lastSaid hsaid)).2 rfl) (by decide)
    rw [Options.value_over]
    simp [Options.put?, ofSaid, hsaid, given?_some hm]
  extra := Options.extra_over _ file

/-- **A run goes to work with the settings of its file, as far as no option speaks for them.**  Only
of backups the command line has the say in any case: they are made if a word asks for them, whatever
the file has. -/
theorem runCommand_launches {words : List Text} {o : Options}
    (h : CommandLine.read words = .run o) (program : Text) (w : Workspace) :
    ∃ said file s u, Spoken words said ∧ o = ofSaid said
      ∧ exec o.loaded w = (.ok file, u) ∧ u.here = w.here ∧ u.tree = w.tree
      ∧ exec (runCommand program words) w = exec (reporting (launch s)) u
      ∧ Overridden words said file s := by
  obtain ⟨said, hspoken, rfl⟩ := spoken_of_read h
  obtain ⟨file, u, hfile, hhere, htree⟩ := (ofSaid said).gives_loaded w
  exact ⟨said, file, _, u, hspoken, rfl, hfile, hhere, htree, exec_runCommand h hfile program,
    overridden_over hspoken file⟩

/-- the file asks for backups and for another binding mode than the usual one -/
def configured : Workspace where
  tree := .dir [("p", .dir [
    ("c.json",
      .file (bytesOf "\x7b\"BACKUP_ENABLED\": true, \"BINDING_MODE\": \"viewBinding\"\x7d")),
    ("java", .dir [("A.java", .file (bytesOf "class A \x7b\n@BindView(R.id.a) A a;\n\x7d\n"))])])]
  here := ["p"]
  now := ⟨2024, 1, 1, 0, 0, 0, 0⟩
  output := []
  complaints := []

def configuredWords : List Text := ["-vc", "c.json"]

def configuredOptions : Options := ⟨some "c.json", none, none, false, true⟩

theorem read_configuredWords : CommandLine.read configuredWords = .run configuredOptions := by
  decide

/-- the binding mode of the file stays, its backups do not -/
theorem runCommand_launches_configured : ∃ s u,
    exec (runCommand "migrate" configuredWords) configured = exec (reporting (launch s)) u
      ∧ Settings.isOneOf (s.value .bindingMode) ["viewBinding"] = true
      ∧ s.value .backupEnabled = .bool false := by
  obtain ⟨said, file, s, u, -, ho, hfile, -, -, hrun, hover⟩ :=
    runCommand_launches read_configuredWords "migrate" configured
  have hmode : (exec configuredOptions.loaded configured).1.toOption.map
      (fun file => Settings.isOneOf (file.value .bindingMode) ["viewBinding"]) = some true := by
    decide +kernel
  rw [hfile] at hmode
  have hunsaid : lastSaid said .mode = none := (congrArg Options.mode ho).symm
  have hkept : s.value .bindingMode = file.value .bindingMode := by
    apply hover.kept .bindingMode (by decide)
    rintro flag ⟨⟩
    exact lastSaid_eq_none_iff.1 hunsaid
  refine ⟨s, u, hrun, ?_, hover.backup⟩
  rw [hkept]
  exact Option.some.inj hmode

/-- no word speaks of backups and the file asks for them, and still the class is overwritten with no
copy kept -/
theorem backup_off_unsaid :
    (∀ t ∈ configuredWords, t ∉ backupWords)
      ∧ (∃ o file u, CommandLine.read configuredWords = .run o
        ∧ exec o.loaded configured = (.ok file, u)
        ∧ (file.value .backupEnabled).truthy = true
        ∧ exec (runCommand "migrate" configuredWords) configured
          = exec (reporting (launch (o.over file))) u
        ∧ (o.over file).value .backupEnabled = .bool false)
      ∧ ((exec (runCommand "migrate" configuredWords) configured).2.textAt "java/A.java").toOption
        ≠ (configured.textAt "java/A.java").toOption
      ∧ (exec (runCommand "migrate" configuredWords) configured).2.exists?
        "butterknife_backup" = false := by
  refine ⟨by decide, ?_, by decide +kernel, by decide +kernel⟩
  obtain ⟨file, u, hfile, -⟩ := configuredOptions.gives_loaded configured
  have hbackup : (exec configuredOptions.loaded configured).1.toOption.map
      (fun file => (file.value .backupEnabled).truthy) = some true := by
    decide +kernel
  rw [hfile] at hbackup
  exact ⟨_, file, u, read_configuredWords, hfile, Option.some.inj hbackup,
    exec_runCommand read_configuredWords hfile "migrate", Options.value_over _ _ _⟩

end Rebind
