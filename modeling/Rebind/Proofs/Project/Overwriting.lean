import Mathlib
import Rebind.Proofs.Project.Restoring

/-!
# What is left of a file that is overwritten

A writer with backups on copies a file to its backup and then replaces its bytes.  The copy may
fail; then the writer says so and replaces the bytes all the same (`overwritten_unsaved`).  It may
also go astray, into something else that stands where the backup should be.  `Leaves` lists what can
be left of the bytes, and `overwritten_leaves` says that every call ends in one of these ways,
whatever the workspace.
-/

namespace Rebind

open Job

namespace Job

variable {α β : Type}

/-! ## jobs that print nothing -/

def Silent (x : Job α) : Prop := ∀ w, (exec x w).2.output = w.output

theorem silent_pure (a : α) : Silent (pure a : Job α) := fun _ => rfl

theorem silent_throw (e : Fault) : Silent (throw e : Job α) := fun _ => rfl

theorem silent_get : Silent (get : Job Workspace) := fun _ => rfl

theorem silent_lift (x : Except Fault α) : Silent (liftM x : Job α) := fun _ => rfl

theorem silent_store (p : Place) (t : Tree) : Silent (store p t) := fun _ => rfl

theorem silent_bind {x : Job α} {f : α → Job β} (hx : Silent x) (hf : ∀ a, Silent (f a)) :
    Silent (x >>= f) := by
  intro w
  have hfirst := hx w
  rw [exec_bind]
  generalize exec x w = r at hfirst
  obtain ⟨r, u⟩ := r
  cases r with
  | error e => exact hfirst
  | ok a => exact (hf a u).trans hfirst

theorem silent_ite {c : Prop} [Decidable c] {x y : Job α} (hx : Silent x) (hy : Silent y) :
    Silent (if c then x else y) := by
  split
  · exact hx
  · exact hy

theorem silent_readBytes (path : Text) : Silent (readBytes path) := fun w => by rw [exec_readBytes]

theorem silent_writeBytes (path : Text) (content : ByteArray) :
    Silent (writeBytes path content) := by
  intro w
  rcases writeBytes_cases path content w with ⟨q, -, -, he⟩ | ⟨he, -⟩
  · rw [he]
    rfl
  · rw [he]

theorem silent_makeDirsFrom (p : Path) (count : Nat) : Silent (makeDirsFrom p count) := by
  induction count generalizing p with
  | zero => exact silent_pure _
  | succ count ih =>
    unfold makeDirsFrom
    refine silent_bind silent_get (fun w => ?_)
    split
    · refine silent_bind silent_get (fun v => ?_)
      split
      · exact silent_store _ _
      · exact silent_pure _
      · exact silent_throw _
    · refine silent_bind (ih p.parent) (fun _ => silent_bind silent_get (fun v => ?_))
      split
      · exact silent_bind silent_get (fun z => silent_ite (silent_store _ _) (silent_pure _))
      · exact silent_throw _
    · exact silent_throw _

theorem silent_copy (source target names : Text) : Silent (copy source target names) := by
  have hwrite : ∀ t, Silent (readBytes source >>= writeBytes t) := fun t =>
    silent_bind (silent_readBytes source) (fun _ => silent_writeBytes t _)
  unfold copy
  refine silent_bind silent_get
    (fun _ => silent_bind silent_get (fun _ => silent_bind silent_get (fun _ => ?_)))
  dsimp only
  split
  · exact silent_bind silent_get
      (fun _ => silent_ite (silent_bind (silent_throw _) (fun _ => hwrite _)) (hwrite _))
  · exact hwrite _

theorem exec_bind_eq_ok {x : Job α} {f : α → Job β} {w v : Workspace} {b : β}
    (h : exec (x >>= f) w = (.ok b, v)) :
    ∃ a u, exec x w = (.ok a, u) ∧ exec (f a) u = (.ok b, v) := by
  rw [exec_bind] at h
  generalize exec x w = r at h
  obtain ⟨r, u⟩ := r
  cases r with
  | error e => cases h
  | ok a => exact ⟨a, u, rfl, h⟩

/-- a file that was copied stands at the target, unless something stood there that is no file -/
theorem stored_of_copy {source target names : Text} {a : Place} {old : ByteArray} {w u : Workspace}
    (ha : w.locate source = .ok a) (hold : w.tree.find? a = some (.file old))
    (hcopy : exec (copy source target names) w = (.ok (), u)) :
    (∃ b, w.locate target = .ok b ∧ b ≠ a ∧ u = w.stored b (.file old))
      ∨ ∃ t, w.item? target = some t ∧ t.isFile = false := by
  cases hdir : w.isDir target with
  | true =>
    right
    unfold Workspace.isDir at hdir
    split at hdir
    · rename_i t ht
      exact ⟨t, ht, by cases t <;> simp_all [Tree.isDir, Tree.isFile]⟩
    · cases hdir
  | false =>
    by_cases hsame : w.locate target = .ok a
    · -- a file is not copied onto itself
      have hthere : w.exists? source := by
        rw [Workspace.exists?, Workspace.item?_eq ha, hold]
        rfl
      unfold copy at hcopy
      rw [exec_bind_ok (exec_get w), hdir] at hcopy
      dsimp only [Bool.false_eq_true, if_false] at hcopy
      rw [exec_bind_ok (exec_get w), exec_bind_ok (exec_get w), ha] at hcopy
      simp only [Bool.false_eq_true, if_false, hsame] at hcopy
      rw [exec_bind_ok (exec_get w), hthere, if_pos (by simp)] at hcopy
      cases hcopy
    · rw [exec_copy_eq names ha hold hdir hsame] at hcopy
      rcases writeBytes_cases target old w with ⟨b, hb, -, he⟩ | ⟨-, hno⟩
      · rw [he] at hcopy
        exact .inl ⟨b, hb, fun hba => hsame (by rw [hb, hba]), (Prod.mk.inj hcopy).2.symm⟩
      · cases hb : w.locate target with
        | ok b =>
          obtain ⟨t, ht, hfile⟩ := hno b hb
          exact .inr ⟨t, by rw [Workspace.item?_eq hb, ht], hfile⟩
        | error cause =>
          rw [writeBytes, exec_bind, exec_locate, hb] at hcopy
          cases hcopy

end Job

namespace Writer

def failedBackup (e : Fault) : Text := "创建备份失败: " ++ e.text ++ ['\n']

/-- what a call from `w` to `u` leaves of the bytes that a file had; the writer was started for the
project `home` -/
inductive Leaves (s : Settings) (home project path : Text) (old : ByteArray) (w u : Workspace) :
    Prop where
  /-- they stand where restoring the file reads them, in the backup directory unless the path
  climbs -/
  | kept (b : Place) (place : u.locate (backupPath (backupDir home) project path).text = .ok b)
      (bytes : u.tree.find? b = some (.file old)) (apart : u.locate path ≠ .ok b)
      (within : ¬ Climbs project path → Place.ofPath u.here (backupDir home).text <+: b)
  /-- they could not be copied, and this was said -/
  | reported (e : Fault) (failed : (exec (makeBackup (backupDir home) s path) w).1 = .error e)
      (rest : List Text) (said : u.output = rest ++ failedBackup e :: w.output)
  /-- something that is no file stands where restoring the file reads -/
  | blocked (t : Tree) (there : u.item? (backupPath (backupDir home) project path).text = some t)
      (other : t.isFile = false)

section
variable {s : Settings} {home project path : Text} {w u v : Workspace} {wr : Writer} {q : Place}
  {old : ByteArray}

theorem Leaves.of_item? {S : Place → Prop} {t : Tree}
    (ht : v.item? (backupPath (backupDir home) project path).text = some t)
    (hother : t.isFile = false) (hframe : v.Frame S u) : Leaves s home project path old w u := by
  obtain ⟨b, hb, hfind⟩ := Workspace.locate_of_item? ht
  obtain ⟨t', ht', hkind, -⟩ := hframe.kept b t hfind
  exact .blocked t' (by rw [Workspace.item?_eq (hframe.locate hb), ht']) (hkind.isFile.trans hother)

theorem Leaves.onward (h : Leaves s home project path old w v) (hq : v.locate path = .ok q)
    (hframe : v.Frame (· = q) u)
    (hsaid : v.output <:+ u.output) : Leaves s home project path old w u := by
  cases h with
  | kept b place bytes apart within =>
    have hne : b ≠ q := fun he => apart (by rw [hq, he])
    refine .kept b (hframe.locate place) (hframe.find? bytes rfl hne)
      ?_ (by rw [hframe.here]; exact within)
    rw [hframe.locate hq]
    exact fun he => hne (Except.ok.inj he).symm
  | reported e failed rest said =>
    obtain ⟨more, hmore⟩ := hsaid
    refine .reported e failed (more ++ rest) ?_
    rw [← hmore, said, List.append_assoc]
  | blocked t there other => exact .of_item? there other hframe

theorem leaves_of_makeBackup {target : Path} (hproject : s.project = .ok project)
    (hq : w.locate path = .ok q) (hold : w.tree.find? q = some (.file old))
    (h : exec (makeBackup (backupDir home) s path) w = (.ok target, v)) :
    Leaves s home project path old w v := by
  unfold makeBackup at h
  rw [exec_bind_ok (a := project) (u := w) (by rw [exec_lift, hproject])] at h
  dsimp only at h
  obtain ⟨_, v₁, hdirs, h⟩ := exec_bind_eq_ok h
  obtain ⟨_, v₂, hcopy, hend⟩ := exec_bind_eq_ok h
  obtain rfl : v₂ = v := (Prod.mk.inj hend).2
  -- no file changes while the directories are made
  have hframe : w.Frame (fun _ => False) v₁ := (frames_makeDirs _).of_exec hdirs
  have hframe' : v₁.Frame (fun _ => True) v₂ := (frames_copy trivial trivial).of_exec hcopy
  rcases stored_of_copy (hframe.locate hq) (hframe.find? hold rfl not_false) hcopy with
    ⟨b, hb, hne, hv⟩ | ⟨t, ht, hother⟩
  · have hb' := hframe'.locate hb
    refine .kept b hb' (by rw [hv]; exact Workspace.find?_stored v₁ b _) ?_ (fun hlevel => ?_)
    · rw [hframe'.locate (hframe.locate hq)]
      exact fun he => hne (Except.ok.inj he).symm
    · refine backup_below hlevel v₂.here b ?_
      rw [Workspace.locate_eq hb']
      exact List.mem_cons_self
  · exact .of_item? ht hother hframe'

theorem gives_leaves (hproject : s.project = .ok project) (hwr : wr.backup = some (backupDir home))
    (hq : w.locate path = .ok q) (hold : w.tree.find? q = some (.file old)) :
    Gives (wr.backUp s path) w (fun _ v => w.Frame (fun _ => True) v
      ∧ Leaves s home project path old w v) := by
  have hframe : w.Frame (wr.BacksUpAt s w.here path)
      (exec (makeBackup (backupDir home) s path) w).2 :=
    frames_makeBackup hwr w rfl
  have hsilent : Silent (makeBackup (backupDir home) s path) :=
    silent_bind (silent_lift _) (fun _ => silent_bind (silent_makeDirsFrom _ _) (fun _ =>
      silent_bind (silent_copy _ _ _) (fun _ => silent_pure _)))
  have hsame := hsilent w
  unfold backUp
  rw [hwr]
  refine gives_bind_of_exec (exec_outcome _ w) ?_
  cases hmake : exec (makeBackup (backupDir home) s path) w with
  | mk r v =>
    rw [hmake] at hframe hsame
    have hframe' := hframe.mono (fun _ _ => trivial)
    cases r with
    | ok target => exact ⟨_, v, rfl, hframe', leaves_of_makeBackup hproject hq hold hmake⟩
    | error e =>
      refine ⟨wr, _, rfl, hframe'.trans (Workspace.frame_of_eq rfl rfl),
        .reported e (by rw [hmake]) [] ?_⟩
      exact congrArg (failedBackup e :: ·) hsame

/-- a file gets its new bytes, whatever became of those it had -/
theorem overwritten_leaves (hproject : s.project = .ok project)
    (hon : (s.value .backupEnabled).truthy = true)
    (hwr : wr.backup = some (backupDir home)) (hold : w.item? path = some (.file old))
    (content : Value) :
    Gives (wr.write s path content) w (fun _ u =>
      u.item? path = some (.file (written content)) ∧ Leaves s home project path old w u) := by
  obtain ⟨q, hq, hfile⟩ := Workspace.locate_of_item? hold
  refine (gives_overwriting hon hq hfile (gives_leaves hproject hwr hq hfile)
    (fun _ _ h => h.1) content).mono ?_
  rintro r u ⟨wr', v, ⟨hframe, hleaves⟩, -, hhere, htree, hsaid⟩
  have hq' := hframe.locate hq
  obtain ⟨bytes, hbytes⟩ := hframe.file hfile
  have halike : v.Alike (· = q) (v.stored q (.file (written content))) :=
    Workspace.alike_stored hbytes rfl
  have hu : v.Frame (· = q) u := halike.onward.trans (Workspace.frame_of_eq hhere htree)
  refine ⟨?_, hleaves.onward hq' hu hsaid⟩
  rw [Workspace.item?_eq (hu.locate hq'), htree]
  exact Workspace.find?_stored v q _

end

/-- where nothing is in the way, the old bytes are in the backup -/
theorem overwritten_leaves_jotter :
    Gives (write ⟨some (backupDir "/p"), []⟩ (.default "/p") "/p/A.java" (.str "two")) jotter
      (fun _ u =>
      u.item? "/p/A.java" = some (.file (bytesOf "two"))
      ∧ ∃ b, u.locate (backupPath (backupDir "/p") "/p" "/p/A.java").text = .ok b
        ∧ u.tree.find? b = some (.file (bytesOf "one"))) := by
  have hproject : (Settings.default "/p").project = .ok "/p" := rfl
  have hwr : Writer.backup ⟨some (backupDir "/p"), []⟩ = some (backupDir "/p") := rfl
  have hold : jotter.item? "/p/A.java" = some (.file (bytesOf "one")) := rfl
  obtain ⟨r, u, hu, hnew, hleaves⟩ := overwritten_leaves hproject rfl hwr hold (.str "two")
  refine ⟨r, u, hu, hnew, ?_⟩
  cases hleaves with
  | kept b place bytes _ _ => exact ⟨b, place, bytes⟩
  | reported e failed =>
    have hmade : ((exec (makeBackup (backupDir "/p") (.default "/p") "/p/A.java")
        jotter).1).isOk := by
      decide +kernel
    rw [failed] at hmade
    cases hmade
  | blocked t there other =>
    have hfile : (exec (write ⟨some (backupDir "/p"), []⟩ (.default "/p") "/p/A.java" (.str "two"))
      jotter).2.isFile
        (backupPath (backupDir "/p") "/p" "/p/A.java").text := by decide +kernel
    rw [hu, Workspace.isFile, there] at hfile
    cases other.symm.trans hfile

end Writer

/-- a project where a file stands in the way of the backups -/
def obstructed : Workspace where
  tree := .dir [("p", .dir [("butterknife_backup", .dir [("java", .file (bytesOf "x"))]),
    ("java", .dir [("A.java", .file (bytesOf "one"))])])]
  here := []
  now := ⟨2024, 1, 1, 0, 0, 0, 0⟩
  output := []
  complaints := []

namespace Writer

/-- a new writer overwrites a file -/
def overwrite (s : Settings) (path : Text) (content : Value) : Job (Bool × Writer) := do
  let wr ← start s
  wr.write s path content

/-- the file is overwritten although there is no backup of it -/
theorem overwritten_unsaved :
    obstructed.textAt "/p/java/A.java" = .ok "one"
    ∧ (exec (overwrite (.default "/p") "/p/java/A.java" (.str "two")) obstructed).2.textAt
      "/p/java/A.java" = .ok "two"
    ∧ (exec (overwrite (.default "/p") "/p/java/A.java" (.str "two")) obstructed).2.exists?
      (backupPath (backupDir "/p") "/p" "/p/java/A.java").text = false := by
  decide +kernel

end Writer

end Rebind
