import Mathlib
import Rebind.Proofs.Project.Mirror

/-!
# What restoring gives back

A writer puts the bytes of a file in its backup each time it writes the file, over those of the time
before. So a restored file has the bytes it had before its last call, whatever other files were
written meanwhile (`restores_last_call`), and any number of writers may have been at work
(`restored_original_iff`).  These are the bytes the file had at first only if nothing had changed
them before that last call (`original_lost`).
-/

namespace Rebind

open List Job

namespace Writer

section
variable {s : Settings} {project path : Text} {base : Place} {ns : List Text} {w u v z : Workspace}
  {wr : Writer} {calls before after : List (Text × Value)} {content : Value}

/-! ## the last call for a file -/

/-- a new writer, and its calls -/
def work (s : Settings) (calls : List (Text × Value)) : Job Writer := do
  let wr ← start s
  wr.writeAll s calls

theorem work_append (s : Settings) (calls calls' : List (Text × Value)) :
    work s (calls ++ calls') = work s calls >>= fun wr => wr.writeAll s calls' := by
  simp only [work, writeAll_append, bind_assoc]

theorem gives_work (hproject : s.project = .ok project) (hon : (s.value .backupEnabled).truthy)
    (hm : Mirrored project base w) (hcalls : ∀ c ∈ calls, Inner project c.1 ∧ w.isFile c.1) :
    Gives (work s calls) w (fun wr u => wr.backup = some (backupDir project)
      ∧ Mirrored project base u ∧ Trail base (filesOf project calls) w u) := by
  refine (gives_start hproject hon hm).bind (fun wr v ⟨hwr, hmv, htrail⟩ => ?_)
  have hcalls' : ∀ c ∈ calls, Inner project c.1 ∧ v.isFile c.1 := fun c hc =>
    ⟨(hcalls c hc).1, htrail.frame.isFile (hcalls c hc).2⟩
  exact (gives_writeAll hproject hon hwr hmv calls hcalls').mono
    (fun wr' u ⟨hwr', hmu, htrail'⟩ => ⟨hwr', hmu, htrail.trans htrail'⟩)

theorem exists_call (hproject : s.project = .ok project) (hon : (s.value .backupEnabled).truthy)
    (hm : Mirrored project base w)
    (hcalls : ∀ c ∈ before ++ (path, content) :: after, Inner project c.1 ∧ w.isFile c.1)
    (hrun : exec (work s (before ++ (path, content) :: after)) w = (.ok wr, u)) :
    ∃ wr₁ v₁ wr₂ v₂, exec (work s before) w = (.ok wr₁, v₁)
      ∧ exec (work s (before ++ [(path, content)])) w = (.ok wr₂, v₂) ∧ w.Frame (fun _ => True) v₁
      ∧ Saves base (below project path) v₁ v₂ ∧ Trail base (filesOf project after) v₂ u := by
  obtain ⟨wr₁, v₁, hwork₁, hwr₁, hm₁, htrail₁⟩ := gives_work hproject hon hm
    (fun c hc => hcalls c (mem_append_left _ hc))
  obtain ⟨hin, hfile⟩ := hcalls (path, content) (by simp)
  obtain ⟨r, v₂, hwrite, hwr₂, hsaves⟩ :=
    gives_saving hproject hon hwr₁ hm₁ hin (htrail₁.frame.isFile hfile) content
  obtain ⟨wr', u', hrest, -, -, htrail⟩ :=
    gives_writeAll hproject hon hwr₂ (hsaves.mirrored hm₁ hin.outside) after
    (fun c hc => ⟨(hcalls c (by simp [hc])).1,
      hsaves.frame.isFile (htrail₁.frame.isFile (hcalls c (by simp [hc])).2)⟩)
  have hwork₂ : exec (work s (before ++ [(path, content)])) w = (.ok r.2, v₂) := by
    rw [work_append, exec_bind_ok hwork₁]
    exact exec_bind_ok hwrite _
  refine ⟨wr₁, v₁, r.2, v₂, hwork₁, hwork₂, htrail₁.frame, hsaves, ?_⟩
  -- the run as a whole ends where these three parts end
  rw [append_cons, work_append, exec_bind_ok hwork₂, hrest] at hrun
  rw [← (Prod.mk.inj hrun).2]
  exact htrail

/-! ## restored files -/

theorem alike_restored {q : Place} {old new : ByteArray} (hq : w.locate path = .ok q)
    (hfile : w.tree.view q = some (.file new)) (hhere : u.here = w.here)
    (htree : u.tree = w.tree.put q (.file old)) :
    w.Alike (· = q) u ∧ u.item? path = some (.file old) ∧ ∀ p, p ≠ q
      → u.tree.view p = w.tree.view p := by
  have halike : w.Alike (· = q) u :=
    (Workspace.alike_stored (S := (· = q)) (Tree.view_eq_file.mp hfile) rfl).trans
    (Workspace.alike_of_eq hhere htree)
  refine ⟨halike, ?_, fun p hp => ?_⟩
  · rw [Workspace.item?_eq (halike.onward.locate hq), htree, Tree.find?_put]
  · rw [htree]
    refine (Workspace.view_stored_file old (Workspace.reaches_of_locate hq)
      (.inr ⟨new, hfile⟩) p).trans ?_
    rw [if_neg hp]

theorem Mirrored.of_alike {S : Place → Prop} (hm : Mirrored project base w) (h : w.Alike S u) :
    Mirrored project base u where
  found := h.onward.locate hm.found
  dir := by
    obtain ⟨t, ht, hkind⟩ := h.onward.view hm.dir
    exact Tree.view_of_sameKind_dir ht hkind
  mirror := by
    intro ns t ht
    obtain ⟨t₁, ht₁, hkind₁⟩ := h.back.view ht
    obtain ⟨t₂, ht₂, hkind₂⟩ := hm.mirror ns t₁ ht₁
    obtain ⟨t₃, ht₃, hkind₃⟩ := h.onward.view ht₂
    exact ⟨t₃, ht₃, hkind₃.trans (hkind₂.trans hkind₁)⟩

/-- from `w` to `u` no file outside the backup directory changed but the one a path leads to -/
def Spares (base : Place) (path : Text) (w u : Workspace) : Prop :=
  ∀ p, ¬ backupAt base [] <+: p → w.locate path ≠ .ok p → u.tree.view p = w.tree.view p

theorem Saves.spares (h : Saves base (below project path) w u)
    (hq : w.locate path = .ok (base ++ below project path)) : Spares base path w u := by
  intro p hp hother
  refine h.kept p (fun he => hother (by rw [hq, he])) (fun ms _ he => hp ?_)
  rw [he]
  exact backupAt_mono nil_prefix

/-- a file of the project whose backup is there -/
structure Restorable (project : Text) (base : Place) (path : Text) (w : Workspace) : Prop where
  inner : Inner project path
  isFile : w.isFile path
  backup : ∃ old, w.tree.view (backupAt base (below project path)) = some (.file old)

theorem Restorable.locate (h : Restorable project base path w) (hm : Mirrored project base w) :
    w.locate path = .ok (base ++ below project path)
      ∧ ∃ content, w.tree.view (base ++ below project path) = some (.file content) := by
  obtain ⟨q, content, hq, hcontent⟩ := Workspace.isFile_iff.mp h.isFile
  obtain rfl := h.inner.locate hm.found hq
  exact ⟨hq, content, Tree.view_eq_file.mpr hcontent⟩

def Outside (base p : Place) : Prop := ¬ backupAt base [] <+: p

theorem Inner.outside_place (h : Inner project path) :
    Outside base (base ++ below project path) := by
  rintro ⟨r, hr⟩
  have hback : base ++ below project path = backupAt base r := by
    rw [← hr, backupAt, append_assoc]
    rfl
  exact backupAt_ne h.outside r hback

theorem Restorable.of_alike (h : Restorable project base path w)
    (halike : w.Alike (Outside base) u) :
    Restorable project base path u where
  inner := h.inner
  isFile := halike.onward.isFile h.isFile
  backup := by
    obtain ⟨old, hold⟩ := h.backup
    exact ⟨old, Tree.view_eq_file.mpr (halike.onward.find? (Tree.view_eq_file.mp hold) rfl
      (fun hout => hout (backupAt_mono nil_prefix)))⟩

theorem gives_restored (hproject : s.project = .ok project)
    (hwr : wr.backup = some (backupDir project))
    (hm : Mirrored project base w) (h : Restorable project base path w) :
    Gives (wr.restore s path) w (fun done u => done = true ∧ Spares base path w u
      ∧ w.Alike (Outside base) u) := by
  obtain ⟨old, hold⟩ := h.backup
  obtain ⟨hq, content, hcontent⟩ := h.locate hm
  refine (gives_restore hproject hwr hm h.inner h.isFile hold).mono
    (fun done u ⟨hdone, hhere, htree⟩ => ?_)
  obtain ⟨halike, -, hkept⟩ := alike_restored hq hcontent hhere htree
  refine ⟨hdone, fun p _ hother => hkept p (fun he => hother (by rw [hq, he])), halike.mono ?_⟩
  rintro p rfl
  exact h.inner.outside_place

theorem gives_restores (hproject : s.project = .ok project)
    (hwr : wr.backup = some (backupDir project)) (hm : Mirrored project base w) (paths : List Text)
    (h : ∀ path ∈ paths, Restorable project base path w) :
    Gives (paths.mapM (wr.restore s)) w (fun done u => (∀ b ∈ done, b)
      ∧ w.Alike (Outside base) u) := by
  induction paths generalizing w with
  | nil => exact gives_pure ⟨by simp, .refl _ w⟩
  | cons path paths ih =>
    rw [mapM_cons]
    refine (gives_restored hproject hwr hm (h path mem_cons_self)).bind
      (fun b v ⟨hb, _, halike⟩ => ?_)
    refine (ih (hm.of_alike halike) (fun path' hpath' => ?_)).bind (fun bs u ⟨hbs, halike'⟩ => ?_)
    · exact (h path' (mem_cons_of_mem path hpath')).of_alike halike
    · refine gives_pure ⟨fun b' hb' => ?_, halike.trans halike'⟩
      rcases mem_cons.mp hb' with rfl | hb'
      · exact hb
      · exact hbs b' hb'

/-- two files are restored, one after the other -/
def restoreBoth (wr : Writer) (s : Settings) (path path' : Text) : Job (Bool × Bool) := do
  let first ← wr.restore s path
  let second ← wr.restore s path'
  return (first, second)

theorem gives_restoreBoth {path' : Text} {old old' : ByteArray} (hproject : s.project = .ok project)
    (hwr : wr.backup = some (backupDir project)) (hm : Mirrored project base w)
    (h : Restorable project base path w) (h' : Restorable project base path' w)
    (hold : w.tree.view (backupAt base (below project path)) = some (.file old))
    (hold' : w.tree.view (backupAt base (below project path')) = some (.file old')) :
    Gives (wr.restoreBoth s path path') w (fun done u => done = (true, true) ∧ u.tree =
      (w.tree.put (base ++ below project path) (.file old)).put (base ++ below project path')
        (.file old')) := by
  obtain ⟨hq, content, hcontent⟩ := h.locate hm
  refine (gives_restore hproject hwr hm h.inner h.isFile hold).bind
    (fun done v ⟨hdone, hhere, htree⟩ => ?_)
  obtain ⟨halike, -, hkept⟩ := alike_restored hq hcontent hhere htree
  have hback : v.tree.view (backupAt base (below project path')) = some (.file old') := by
    rw [hkept _ (backupAt_ne h.inner.outside _).symm, hold']
  refine (gives_restore hproject hwr (hm.of_alike halike) h'.inner (halike.onward.isFile h'.isFile)
    hback).bind (fun done' u ⟨hdone', _, htree'⟩ => gives_pure ⟨?_, ?_⟩)
  · rw [hdone, hdone']
  · rw [htree', htree]

/-! ## what a writer can undo -/

/-- a project without a backup directory -/
structure Fresh (project : Text) (base : Place) (w : Workspace) : Prop where
  found : w.locate (Path.ofText project).text = .ok base
  dir : w.tree.view base = some (.dir [])
  unbacked : w.tree.find? (backupAt base []) = none

theorem Fresh.mirrored (h : Fresh project base w) : Mirrored project base w where
  found := h.found
  dir := h.dir
  mirror := by
    intro ns t ht
    have hsome := Tree.view_isSome_of_prefix ht (backupAt_mono nil_prefix)
    rw [Tree.view_eq_none.mpr h.unbacked] at hsome
    cases hsome

/-- what a writer can undo at the end of a run of calls from `w` to `u` -/
structure Undoes (s : Settings) (base : Place) (calls : List (Text × Value)) (w : Workspace)
    (wr : Writer) (u : Workspace) : Prop where
  /-- a file gets back the bytes it had just before the last call for it -/
  restored : ∀ before path content after, calls = before ++ (path, content) :: after →
    (∀ c ∈ after, w.locate c.1 ≠ w.locate path) →
    ∃ wr' v old, exec (work s before) w = (.ok wr', v) ∧ v.item? path = some (.file old)
      ∧ Gives (wr.restore s path) u (fun done z => done = true ∧ z.item? path = some (.file old))
  /-- the order in which two files are restored does not matter -/
  commute : ∀ c ∈ calls, ∀ c' ∈ calls, w.locate c.1 ≠ w.locate c'.1 →
    ∃ z z', exec (wr.restoreBoth s c.1 c'.1) u = (.ok (true, true), z)
      ∧ exec (wr.restoreBoth s c'.1 c.1) u = (.ok (true, true), z') ∧ z.tree = z'.tree
  /-- outside the backup directory no call touches another file than its own -/
  writes : ∀ before path content after, calls = before ++ (path, content) :: after →
    ∃ wr₁ v₁ wr₂ v₂, exec (work s before) w = (.ok wr₁, v₁)
      ∧ exec (work s (before ++ [(path, content)])) w = (.ok wr₂, v₂) ∧ Spares base path v₁ v₂
  /-- nor does restoring a file, after any others -/
  restores : ∀ paths, paths ⊆ calls.map (·.1) → ∀ c ∈ calls,
    Gives (paths.mapM (wr.restore s)) u (fun done z => (∀ b ∈ done, b)
      ∧ Gives (wr.restore s c.1) z (fun b y => b = true ∧ Spares base c.1 z y))

theorem restorable_of_mem (hproject : s.project = .ok project)
    (hon : (s.value .backupEnabled).truthy)
    (hm : Mirrored project base w) (hcalls : ∀ c ∈ calls, Inner project c.1 ∧ w.isFile c.1)
    (hrun : exec (work s calls) w = (.ok wr, u)) {c : Text × Value} (hc : c ∈ calls) :
    Restorable project base c.1 u := by
  obtain ⟨before, after, rfl⟩ := append_of_mem hc
  obtain ⟨_, v₁, _, v₂, -, -, hframe, hsaves, hafter⟩ := exists_call hproject hon hm hcalls hrun
  obtain ⟨hin, hfile⟩ := hcalls c hc
  refine ⟨hin, (hframe.trans (hsaves.frame.trans hafter.frame)).isFile hfile, ?_⟩
  -- the backup that the call made has not gone since
  obtain ⟨old, _, -, -, hold⟩ := hsaves.saved
  obtain ⟨t, ht, hkind⟩ := hafter.frame.view hold
  exact Tree.view_of_sameKind_file ht hkind

theorem restoreBoth_comm {path' : Text} (hproject : s.project = .ok project)
    (hwr : wr.backup = some (backupDir project)) (hm : Mirrored project base w)
    (h : Restorable project base path w) (h' : Restorable project base path' w)
    (hne : below project path ≠ below project path') :
    ∃ z z', exec (wr.restoreBoth s path path') w = (.ok (true, true), z)
      ∧ exec (wr.restoreBoth s path' path) w = (.ok (true, true), z') ∧ z.tree = z'.tree := by
  obtain ⟨old, hold⟩ := h.backup
  obtain ⟨old', hold'⟩ := h'.backup
  obtain ⟨_, z, hz, rfl, htree⟩ := gives_restoreBoth hproject hwr hm h h' hold hold'
  obtain ⟨_, z', hz', rfl, htree'⟩ := gives_restoreBoth hproject hwr hm h' h hold' hold
  refine ⟨z, z', hz, hz', ?_⟩
  -- neither of two files is above the other
  have hapart : ∀ {p q : Place} {a b : ByteArray}, w.tree.view p = some (.file a)
    → w.tree.view q = some (.file b) →
      p ≠ q → ¬ p <+: q := by
    intro p q a b hp hq hpq hprefix
    rw [Tree.view_above hq hprefix hpq] at hp
    cases hp
  obtain ⟨-, content, hcontent⟩ := h.locate hm
  obtain ⟨-, content', hcontent'⟩ := h'.locate hm
  have hplaces : base ++ below project path ≠ base ++ below project path' := fun he =>
    hne (append_cancel_left he)
  rw [htree, htree', Tree.put_comm _ _ _ (hapart hcontent' hcontent hplaces.symm)
    (hapart hcontent hcontent' hplaces)]

theorem gives_item {old : ByteArray} (hproject : s.project = .ok project)
    (hwr : wr.backup = some (backupDir project))
    (hm : Mirrored project base w) (h : Restorable project base path w)
    (hold : w.tree.view (backupAt base (below project path)) = some (.file old)) :
    Gives (wr.restore s path) w (fun done u => done = true ∧ u.item? path = some (.file old)) := by
  obtain ⟨hq, content, hcontent⟩ := h.locate hm
  exact (gives_restore hproject hwr hm h.inner h.isFile hold).mono
    (fun done u ⟨hdone, hhere, htree⟩ =>
    ⟨hdone, (alike_restored hq hcontent hhere htree).2.1⟩)

/-- a writer that starts on a project without backups can undo its last call for each file -/
theorem restores_last_call (hproject : s.project = .ok project)
    (hon : (s.value .backupEnabled).truthy = true)
    (hfresh : Fresh project base w) (hcalls : ∀ c ∈ calls, Inner project c.1
      ∧ w.isFile c.1 = true) :
    Gives (work s calls) w (fun wr u => Undoes s base calls w wr u) := by
  have hm := hfresh.mirrored
  have hplace : ∀ c ∈ calls, w.locate c.1 = .ok (base ++ below project c.1) := by
    intro c hc
    obtain ⟨q, _, hq, -⟩ := Workspace.isFile_iff.mp (hcalls c hc).2
    rw [hq, (hcalls c hc).1.locate hm.found hq]
  obtain ⟨wr, u, hrun, hwr, hmu, -⟩ := gives_work hproject hon hm hcalls
  have hrestorable : ∀ c ∈ calls, Restorable project base c.1 u := fun c hc =>
    restorable_of_mem hproject hon hm hcalls hrun hc
  refine ⟨wr, u, hrun, ?_, ?_, ?_, ?_⟩
  · rintro before path content after rfl hlast
    have hmem : (path, content) ∈ before ++ (path, content) :: after := by simp
    obtain ⟨wr₁, v₁, _, v₂, hwork, -, hframe, hsaves, hafter⟩ :=
      exists_call hproject hon hm hcalls hrun
    obtain ⟨old, _, hbefore, -, hold⟩ := hsaves.saved
    have hnot : below project path ∉ filesOf project after := by
      intro hin
      obtain ⟨c, hc, hsame⟩ := mem_map.mp hin
      refine hlast c hc ?_
      rw [hplace c (by simp [hc]), hplace _ hmem, hsame]
    refine ⟨wr₁, v₁, old, hwork, ?_, gives_item hproject hwr hmu (hrestorable _ hmem)
      (hafter.backups _ old hnot hold)⟩
    rw [Workspace.item?_eq (hframe.locate (hplace _ hmem))]
    exact Tree.view_eq_file.mp hbefore
  · intro c hc c' hc' hne
    refine restoreBoth_comm hproject hwr hmu (hrestorable c hc) (hrestorable c' hc')
      (fun he => hne ?_)
    rw [hplace c hc, hplace c' hc', he]
  · rintro before path content after rfl
    obtain ⟨wr₁, v₁, wr₂, v₂, hwork₁, hwork₂, hframe, hsaves, -⟩ :=
      exists_call hproject hon hm hcalls hrun
    exact ⟨wr₁, v₁, wr₂, v₂, hwork₁, hwork₂, hsaves.spares
      (hframe.locate (hplace (path, content) (by simp)))⟩
  · intro paths hpaths c hc
    refine (gives_restores hproject hwr hmu paths (fun path hpath => ?_)).mono
      (fun done z ⟨hdone, halike⟩ => ⟨hdone, ?_⟩)
    · obtain ⟨c', hc', rfl⟩ := mem_map.mp (hpaths hpath)
      exact hrestorable c' hc'
    · exact (gives_restored hproject hwr (hmu.of_alike halike)
        ((hrestorable c hc).of_alike halike)).mono (fun b y ⟨hb, hspares, _⟩ => ⟨hb, hspares⟩)

/-! ## many writers -/

/-- a step of the work on a project: a new writer, or a call of one of those there are -/
inductive Deed where
  | start
  | write (k : Nat) (path : Text) (content : Value)

namespace Deed

def isStart : Deed → Bool
  | .start => true
  | .write .. => false

/-- the path a step is told to write to -/
def path? : Deed → Option Text
  | .start => none
  | .write _ path _ => some path

def run (s : Settings) (wrs : List Writer) : Deed → Job (List Writer)
  | .start => return wrs ++ [← Writer.start s]
  | .write k path content =>
    match wrs[k]? with
    | none => return wrs
    | some wr => return wrs.set k (← wr.write s path content).2

/-- the step stays with the files of the project -/
def Within (project : Text) (w : Workspace) (d : Deed) : Prop :=
  ∀ path ∈ d.path?, Inner project path ∧ w.isFile path

/-- the step is for the file a path leads to -/
def IsFor (w : Workspace) (path : Text) (d : Deed) : Prop := ∃ path' ∈ d.path?, w.locate path'
    = w.locate path

end Deed

def history (s : Settings) (deeds : List Deed) : Job (List Writer) := deeds.foldlM (Deed.run s) []

def filesWritten (project : Text) (deeds : List Deed) : List (List Text) :=
  (deeds.filterMap Deed.path?).map (below project)

/-- writers that keep their backups in the project, and the project as they left it -/
structure Ready (project : Text) (base : Place) (wrs : List Writer) (w : Workspace) : Prop where
  writers : ∀ wr ∈ wrs, wr.backup = some (backupDir project)
  mirrored : Mirrored project base w

variable {wrs : List Writer} {d : Deed} {deeds : List Deed}

theorem Deed.run_write {k : Nat} (hk : wrs[k]? = some wr) : Deed.run s wrs (.write k path content)
    = wr.write s path content >>= fun r => pure (wrs.set k r.2) := by
  simp only [Deed.run, hk]

theorem Ready.set (h : Ready project base wrs w) (hwr : wr.backup = some (backupDir project))
    (hm : Mirrored project base u) (k : Nat) : Ready project base (wrs.set k wr) u := by
  refine ⟨fun wr' hwr' => ?_, hm⟩
  rcases mem_or_eq_of_mem_set hwr' with hold | rfl
  · exact h.writers wr' hold
  · exact hwr

theorem gives_deed (hproject : s.project = .ok project) (hon : (s.value .backupEnabled).truthy)
    (hready : Ready project base wrs w) (hd : d.Within project w) :
    Gives (d.run s wrs) w (fun wrs' u => Ready project base wrs' u
      ∧ wrs'.length = wrs.length + [d].countP Deed.isStart
      ∧ Trail base (filesWritten project [d]) w u) := by
  cases d with
  | start =>
    refine (gives_start hproject hon hready.mirrored).bind (fun wr u ⟨hwr, hm, htrail⟩ => ?_)
    refine gives_pure ⟨⟨fun wr' hwr' => ?_, hm⟩, by rw [length_append]; rfl, htrail⟩
    rcases mem_append.mp hwr' with hold | hnew
    · exact hready.writers wr' hold
    · rw [mem_singleton.mp hnew, hwr]
  | write k path content =>
    cases hk : wrs[k]? with
    | none =>
      have hrun : Deed.run s wrs (.write k path content) = pure wrs := by simp only [Deed.run, hk]
      rw [hrun]
      exact gives_pure ⟨hready, rfl, .of_eq rfl rfl⟩
    | some wr =>
      obtain ⟨hin, hfile⟩ := hd path rfl
      have hwr := hready.writers wr (mem_of_getElem? hk)
      rw [Deed.run_write hk]
      refine (gives_saving hproject hon hwr hready.mirrored hin hfile content).bind
        (fun r u ⟨hr, hsaves⟩ => ?_)
      exact gives_pure ⟨hready.set hr (hsaves.mirrored hready.mirrored hin.outside) k, length_set,
        hsaves.trail hready.mirrored hin.outside⟩

theorem gives_deeds (hproject : s.project = .ok project) (hon : (s.value .backupEnabled).truthy)
    (hready : Ready project base wrs w) (hdeeds : ∀ d ∈ deeds, d.Within project w) :
    Gives (deeds.foldlM (Deed.run s) wrs) w (fun wrs' u => Ready project base wrs' u
      ∧ wrs'.length = wrs.length + deeds.countP Deed.isStart
      ∧ Trail base (filesWritten project deeds) w u) := by
  induction deeds generalizing wrs w with
  | nil => exact gives_pure ⟨hready, rfl, .of_eq rfl rfl⟩
  | cons d deeds ih =>
    rw [foldlM_cons]
    refine (gives_deed hproject hon hready (hdeeds d mem_cons_self)).bind
      (fun wrs₁ v ⟨hready₁, hlen₁, htrail₁⟩ => ?_)
    have hrest : ∀ d' ∈ deeds, d'.Within project v := fun d' hd' path hpath =>
      ⟨(hdeeds d' (mem_cons_of_mem d hd') path hpath).1,
        htrail₁.frame.isFile (hdeeds d' (mem_cons_of_mem d hd') path hpath).2⟩
    refine (ih hready₁ hrest).mono (fun wrs₂ u ⟨hready₂, hlen₂, htrail₂⟩ => ⟨hready₂, ?_, ?_⟩)
    · rw [hlen₂, hlen₁, Nat.add_assoc, ← countP_append]
      rfl
    · have htrail := htrail₁.trans htrail₂
      rw [filesWritten, filesWritten, ← map_append, ← filterMap_append] at htrail
      exact htrail

theorem below_notMem_filesWritten (hfound : w.locate (Path.ofText project).text = .ok base)
    (hq : w.locate path = .ok (base ++ below project path))
    (hdeeds : ∀ d ∈ deeds, d.Within project w)
    (hother : ∀ d ∈ deeds, ¬ d.IsFor w path) : below project path ∉ filesWritten project deeds := by
  intro hmem
  obtain ⟨path', hpath', hsame⟩ := mem_map.mp hmem
  obtain ⟨d, hd, hdpath⟩ := mem_filterMap.mp hpath'
  obtain ⟨hin, hfile⟩ := hdeeds d hd path' hdpath
  obtain ⟨q, _, hq', -⟩ := Workspace.isFile_iff.mp hfile
  refine hother d hd ⟨path', hdpath, ?_⟩
  rw [hq, hq', hin.locate hfound hq', hsame]

/-- a call among other steps: the file is saved by it, and the steps before and after leave their
own trails -/
theorem exists_write {k : Nat} {before after : List Deed} (hproject : s.project = .ok project)
    (hon : (s.value .backupEnabled).truthy) (hm : Mirrored project base w)
    (hdeeds : ∀ d ∈ before ++ .write k path content :: after, d.Within project w)
    (hk : k < before.countP Deed.isStart) :
    ∃ wrs v v' wrs' u, exec (history s before) w = (.ok wrs, v)
      ∧ exec (history s (before ++ .write k path content :: after)) w = (.ok wrs', u)
      ∧ wrs'.length = (before ++ after).countP Deed.isStart ∧ Ready project base wrs' u
      ∧ Trail base (filesWritten project before) w v ∧ Saves base (below project path) v v'
      ∧ Trail base (filesWritten project after) v' u := by
  obtain ⟨hin, hfile⟩ := hdeeds (.write k path content) (by simp) path rfl
  have hnone : Ready project base [] w := ⟨by simp, hm⟩
  obtain ⟨wrs, v, hwrs, hready, hlen, htrail⟩ := gives_deeds hproject hon hnone
    (fun d hd => hdeeds d (mem_append_left _ hd))
  rw [length_nil, Nat.zero_add] at hlen
  -- the call itself, by a writer that is there
  obtain ⟨wr, hwr⟩ : ∃ wr, wrs[k]? = some wr := ⟨_, getElem?_eq_getElem (hlen ▸ hk)⟩
  obtain ⟨r, v', hwrite, hr, hsaves⟩ :=
    gives_saving hproject hon (hready.writers wr (mem_of_getElem? hwr))
    hready.mirrored hin (htrail.frame.isFile hfile) content
  have hframe := htrail.frame.trans hsaves.frame
  have hafter : ∀ d ∈ after, d.Within project v' := fun d hd path hpath =>
    ⟨(hdeeds d (by simp [hd]) path hpath).1, hframe.isFile (hdeeds d (by simp [hd]) path hpath).2⟩
  obtain ⟨wrs', u, hwrs', hready', hlen', htrail'⟩ := gives_deeds hproject hon
    (hready.set hr (hsaves.mirrored hready.mirrored hin.outside) k) hafter
  refine ⟨wrs, v, v', wrs', u, hwrs, ?_, ?_, hready', htrail, hsaves, htrail'⟩
  · rw [history, foldlM_append, exec_bind_ok hwrs, foldlM_cons]
    refine (exec_bind_ok ?_ _).trans hwrs'
    rw [Deed.run_write hwr]
    exact exec_bind_ok hwrite _
  · rw [hlen', length_set, hlen, countP_append]

/-- after the work of any number of writers, each of them restores a file to what it was before the
last call for it: to what it was at first, if and only if it was still that then, as before the only
call -/
theorem restored_original_iff {k : Nat} {before after : List Deed}
    (hproject : s.project = .ok project)
    (hon : (s.value .backupEnabled).truthy = true) (hm : Mirrored project base w)
    (hdeeds : ∀ d ∈ before ++ .write k path content :: after, d.Within project w)
    (hk : k < before.countP Deed.isStart) (hlast : ∀ d ∈ after, ¬ d.IsFor w path) :
    ∃ wrs v wrs' u, exec (history s before) w = (.ok wrs, v)
      ∧ exec (history s (before ++ .write k path content :: after)) w = (.ok wrs', u)
      ∧ wrs'.length = (before ++ after).countP Deed.isStart
      ∧ (∀ wr ∈ wrs', Gives (wr.restore s path) u (fun done z => done = true
        ∧ z.item? path = v.item? path
        ∧ (z.item? path = w.item? path ↔ v.item? path = w.item? path)))
      ∧ ((∀ d ∈ before, ¬ d.IsFor w path) → v.item? path = w.item? path) := by
  obtain ⟨hin, hfile⟩ := hdeeds (.write k path content) (by simp) path rfl
  obtain ⟨q, first, hq, hfirst⟩ := Workspace.isFile_iff.mp hfile
  obtain rfl := hin.locate hm.found hq
  obtain ⟨wrs, v, v', wrs', u, hwrs, hwrs', hlen, hready, htrail, hsaves, htrail'⟩ :=
    exists_write hproject hon hm hdeeds hk
  obtain ⟨last, _, hlastBytes, -, hbackup⟩ := hsaves.saved
  have hv : v.item? path = some (.file last) := by
    rw [Workspace.item?_eq (htrail.frame.locate hq)]
    exact Tree.view_eq_file.mp hlastBytes
  refine ⟨wrs, v, wrs', u, hwrs, hwrs', hlen, fun wr' hwr' => ?_, fun honly => ?_⟩
  · -- no later step touches the backup
    have hnot := below_notMem_filesWritten hm.found hq (fun d hd => hdeeds d (by simp [hd])) hlast
    have hkept := htrail'.backups _ last hnot hbackup
    have hrestorable : Restorable project base path u :=
      ⟨hin, (htrail.frame.trans (hsaves.frame.trans htrail'.frame)).isFile hfile, last, hkept⟩
    refine (gives_item hproject (hready.writers wr' hwr') hready.mirrored hrestorable hkept).mono
      (fun done z ⟨hdone, hz⟩ => ⟨hdone, ?_, ?_⟩)
    · rw [hz, hv]
    · rw [hz, hv]
  · -- no earlier step touches the file
    have hnot := below_notMem_filesWritten hm.found hq
      (fun d hd => hdeeds d (mem_append_left _ hd)) honly
    rw [Workspace.item?_eq (htrail.frame.locate hq), Workspace.item?_eq hq, hfirst]
    refine Tree.view_eq_file.mp ((htrail.kept _ hin.outside_place (fun ns hns he => hnot ?_)).trans
      (Tree.view_eq_file.mpr hfirst))
    rw [append_cancel_left he]
    exact hns

end

end Writer

/-- a small project: two files, one of them in a directory -/
def jotter : Workspace where
  tree := .dir [("p", .dir [("A.java", .file (bytesOf "one")),
    ("src", .dir [("B.java", .file (bytesOf "b"))])])]
  here := []
  now := ⟨2024, 1, 1, 0, 0, 0, 0⟩
  output := []
  complaints := []

theorem Workspace.textAt_of_item? {w : Workspace} {path : Text} {content : ByteArray}
    (h : w.item? path = some (.file content)) :
    w.textAt path = (textOf? content).elim (.error .notText) .ok := by
  obtain ⟨q, hq, hfile⟩ := locate_of_item? h
  exact textAt_eq hq hfile

namespace Writer

theorem fresh_jotter : Fresh "/p" ["p"] jotter := ⟨by decide +kernel, rfl, rfl⟩

theorem inner_A : Inner "/p" "/p/A.java" :=
  have h : Inner "/p" (joinPath "/p" "A.java") := inner_joinPath (by decide) (by decide) (by decide)
  h

theorem inner_B : Inner "/p" "/p/src/B.java" :=
  have h : Inner "/p" (joinPath "/p" "src/B.java") :=
    inner_joinPath (by decide) (by decide) (by decide)
  h

/-- of three calls the first and the last are for one file, which is restored to what the first one
wrote -/
theorem restores_last_call_jotter : Gives (work (.default "/p")
      [("/p/A.java", .str "two"), ("/p/src/B.java", .str "x"), ("/p/A.java", .str "three")]) jotter
        (fun wr u =>
    Gives (wr.restore (.default "/p") "/p/A.java") u (fun done z => done = true
      ∧ z.textAt "/p/A.java" = .ok "two")) := by
  refine (restores_last_call rfl rfl fresh_jotter (fun c hc => ?_)).mono (fun wr u h => ?_)
  · simp only [mem_cons, not_mem_nil, or_false] at hc
    rcases hc with rfl | rfl | rfl
    · exact ⟨inner_A, by decide +kernel⟩
    · exact ⟨inner_B, by decide +kernel⟩
    · exact ⟨inner_A, by decide +kernel⟩
  · obtain ⟨wr', v, old, hwork, hv, hrestore⟩ :=
      h.restored [("/p/A.java", .str "two"), ("/p/src/B.java", .str "x")]
      "/p/A.java" (.str "three") [] rfl (fun _ h => nomatch h)
    have htwo : (exec (work (.default "/p")
      [("/p/A.java", .str "two"), ("/p/src/B.java", .str "x")]) jotter).2.textAt
        "/p/A.java" = .ok "two" := by decide +kernel
    rw [hwork, Workspace.textAt_of_item? hv] at htwo
    refine hrestore.mono (fun done z ⟨hdone, hz⟩ => ⟨hdone, ?_⟩)
    rw [Workspace.textAt_of_item? hz, htwo]

/-- one call for each of two files, by two writers: both restore the first file to what it was -/
theorem restored_original_jotter : ∃ wrs u,
    exec (history (.default "/p") [.start, .write 0 "/p/A.java" (.str "two"), .start,
      .write 1 "/p/src/B.java" (.str "x")]) jotter = (.ok wrs, u)
    ∧ wrs.length = 2
    ∧ ∀ wr ∈ wrs, Gives (wr.restore (.default "/p") "/p/A.java") u (fun done z =>
      done = true ∧ z.item? "/p/A.java" = jotter.item? "/p/A.java") := by
  have hdeeds : ∀ d ∈ [Deed.start] ++ .write 0 "/p/A.java" (.str "two")
      :: [.start, .write 1 "/p/src/B.java" (.str "x")], d.Within "/p" jotter := by
    intro d hd path hpath
    simp only [cons_append, nil_append, mem_cons, not_mem_nil, or_false] at hd
    rcases hd with rfl | rfl | rfl | rfl
    · cases hpath
    · cases hpath
      exact ⟨inner_A, by decide +kernel⟩
    · cases hpath
    · cases hpath
      exact ⟨inner_B, by decide +kernel⟩
  have hlast : ∀ d ∈ [Deed.start, .write 1 "/p/src/B.java" (.str "x")],
      ¬ d.IsFor jotter "/p/A.java" := by
    intro d hd hfor
    obtain ⟨path, hpath, hsame⟩ := hfor
    simp only [mem_cons, not_mem_nil, or_false] at hd
    rcases hd with rfl | rfl
    · cases hpath
    · cases hpath
      exact absurd hsame (by decide +kernel)
  obtain ⟨_, v, wrs, u, -, hrun, hlen, hrestored, honly⟩ :=
    restored_original_iff (s := .default "/p") rfl rfl fresh_jotter.mirrored hdeeds
      (by decide) hlast
  have hfirst : v.item? "/p/A.java" = jotter.item? "/p/A.java" := honly (by
    intro d hd hfor
    obtain ⟨path, hpath, -⟩ := hfor
    rw [mem_singleton.mp hd] at hpath
    cases hpath)
  refine ⟨wrs, u, hrun, hlen, fun wr hwr => (hrestored wr hwr).mono ?_⟩
  exact fun done z ⟨hdone, hz, _⟩ => ⟨hdone, hz.trans hfirst⟩

def rewritten : List Deed :=
  [.start, .write 0 "/p/A.java" (.str "two"), .start, .write 1 "/p/A.java" (.str "three")]

/-- what is left once every writer has restored a file -/
def regained (s : Settings) (deeds : List Deed) (path : Text) : Job (List Bool) := do
  let wrs ← history s deeds
  wrs.mapM (·.restore s path)

/-- after two runs over a file neither writer gives back what it was at first -/
theorem original_lost : jotter.textAt "/p/A.java" = .ok "one"
    ∧ (exec (regained (.default "/p") rewritten "/p/A.java") jotter).1 = .ok [true, true]
    ∧ (exec (regained (.default "/p") rewritten "/p/A.java") jotter).2.textAt "/p/A.java"
      = .ok "two" := by
  decide +kernel

end Writer

end Rebind
