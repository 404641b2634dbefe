import Mathlib
import Rebind.Proofs.Project.Restoring

/-!
# The counts of a summary

A writer counts the lines of its log.  `Writer.serve` makes one call after the other, with anything
else in between, and remembers for each of them the workspace it was made in and its answer
(`Writer.Turn`).

* `gives_write_marks`: what one call logs: nothing if the file is missing, else one line for a
  backup that was made and one for the answer;
* `gives_serve_marks`: what many calls log;
* `summary_of_calls`: so a summary counts a backup as a file that was written, and leaves out a file
  that is missing; it counts the answers of the calls only if there was neither.
-/

namespace Rebind

open List Job

namespace Writer

/-! ## calls -/

/-- a call of a writer, after something else was done in the workspace -/
structure Call where
  before : Job Unit
  path : Text
  content : Value

/-- a call that was made: the workspace it was made in, its path and its answer -/
structure Turn where
  start : Workspace
  path : Text
  answer : Bool

/-- makes the calls one after the other -/
def serve (wr : Writer) (s : Settings) : List Call → Job (List Turn × Writer)
  | [] => return ([], wr)
  | c :: calls => do
    let _ ← c.before.outcome
    let start ← get
    let (answer, wr) ← wr.write s c.path c.content
    let (turns, wr) ← wr.serve s calls
    return (⟨start, c.path, answer⟩ :: turns, wr)

namespace Turn

def missing (t : Turn) : Bool := !t.start.exists? (Path.ofText t.path).text

/-- what was at the path could be copied to the backup directory -/
def backedUp (s : Settings) (backup : Option Path) (t : Turn) : Bool :=
  !t.missing && (s.value .backupEnabled).truthy
    && backup.any (fun dir => (exec (makeBackup dir s t.path) t.start).1.isOk)

def marks (s : Settings) (backup : Option Path) (t : Turn) : List Bool :=
  if t.missing then [] else (if t.backedUp s backup then [true] else []) ++ [t.answer]

end Turn

/-! ## what calls log -/

def marks (wr : Writer) : List Bool := wr.log.map (·.success)

theorem gives_note (wr : Writer) (path message : Text) (success : Bool) (w : Workspace) :
    Gives (wr.note path success message) w (fun wr' _ => wr'.backup = wr.backup
      ∧ wr'.marks = wr.marks ++ [success]) :=
  ⟨_, w, rfl, rfl, map_append⟩

theorem gives_backUp_marks (wr : Writer) (s : Settings) (path : Text) (w : Workspace) :
    Gives (wr.backUp s path) w (fun wr' _ => wr'.backup = wr.backup ∧ wr'.marks = wr.marks
      ++ if wr.backup.any (fun dir => (exec (makeBackup dir s path) w).1.isOk) then [true]
        else []) := by
  unfold backUp
  split
  · next hnone => exact gives_pure ⟨rfl, by simp [hnone]⟩
  · next dir hdir =>
    rw [hdir, Option.any_some]
    refine gives_bind_of_exec (exec_outcome _ w) ?_
    cases (exec (makeBackup dir s path) w).1 with
    | ok target => exact (gives_note wr path _ true _).mono (fun _ _ h => ⟨h.1.trans hdir, h.2⟩)
    | error e => exact gives_bind_of_exec rfl (gives_pure ⟨hdir, (append_nil _).symm⟩)

/-- what one call logs, and that a call for a missing file fails -/
theorem gives_write_marks (wr : Writer) (s : Settings) (path : Text) (content : Value)
    (w : Workspace) :
    Gives (wr.write s path content) w (fun r _ => r.2.backup = wr.backup
      ∧ r.2.marks = wr.marks ++ Turn.marks s wr.backup ⟨w, path, r.1⟩
      ∧ ((⟨w, path, r.1⟩ : Turn).missing → r.1 = false)) := by
  unfold write
  refine gives_bind_of_exec (a := w.exists? (Path.ofText path).text) (u := w) rfl ?_
  cases hthere : w.exists? (Path.ofText path).text with
  | false =>
    have hmissing : ∀ b, (⟨w, path, b⟩ : Turn).missing := fun b => by simp [Turn.missing, hthere]
    refine gives_bind_of_exec rfl (gives_pure ⟨rfl, ?_, fun _ => rfl⟩)
    rw [Turn.marks, if_pos (hmissing _), append_nil]
  | true =>
    have hmissing : ∀ b, (⟨w, path, b⟩ : Turn).missing = false :=
      fun b => by simp [Turn.missing, hthere]
    have hbackup : Gives (if (s.value .backupEnabled).truthy then wr.backUp s path else pure wr) w
        (fun wr' _ => wr'.backup = wr.backup ∧ ∀ b, wr'.marks = wr.marks
          ++ if (⟨w, path, b⟩ : Turn).backedUp s wr.backup then [true] else []) := by
      simp only [Turn.backedUp, hmissing, Bool.not_false, Bool.true_and]
      split
      · next hon =>
        simpa only [hon, Bool.true_and, forall_const] using gives_backUp_marks wr s path w
      · next hoff =>
        rw [Bool.not_eq_true] at hoff
        exact gives_pure ⟨rfl, fun _ => by simp [hoff]⟩
    simp only [Bool.not_true, Bool.false_eq_true, if_false]
    rw [ite_bind]
    refine hbackup.bind (fun wr' u ⟨hwr', hmarks⟩ => ?_)
    have hnoted : ∀ b (wr'' : Writer), wr''.backup = wr'.backup ∧ wr''.marks = wr'.marks ++ [b] →
        wr''.backup = wr.backup ∧ wr''.marks = wr.marks ++ Turn.marks s wr.backup ⟨w, path, b⟩
          ∧ ((⟨w, path, b⟩ : Turn).missing → b = false) := by
      rintro b wr'' ⟨hsame, hnew⟩
      refine ⟨hsame.trans hwr', ?_, fun h => absurd h (by simp [hmissing])⟩
      rw [hnew, hmarks b, Turn.marks, hmissing, append_assoc]
      rfl
    refine gives_bind_of_exec (exec_outcome _ u) ?_
    cases (exec (replace path content) u).1 with
    | ok _ => exact (gives_note wr' path _ true _).bind (fun _ _ h => gives_pure (hnoted true _ h))
    | error e =>
      exact gives_bind_of_exec rfl
        ((gives_note wr' path _ false _).bind (fun _ _ h => gives_pure (hnoted false _ h)))

/-- what many calls log -/
theorem gives_serve_marks (wr : Writer) (s : Settings) (calls : List Call) (w : Workspace) :
    Gives (wr.serve s calls) w (fun r _ => r.1.map (·.path) = calls.map (·.path)
      ∧ r.2.marks = wr.marks ++ r.1.flatMap (Turn.marks s wr.backup)
      ∧ ∀ t ∈ r.1, t.missing → t.answer = false) := by
  induction calls generalizing wr w with
  | nil => exact gives_pure ⟨rfl, (append_nil _).symm, fun t ht => absurd ht not_mem_nil⟩
  | cons c calls ih =>
    refine gives_bind_of_exec (exec_outcome _ w) (gives_bind_of_exec (exec_get _) ?_)
    refine (gives_write_marks wr s c.path c.content _).bind
      (fun r u ⟨hbackup, hmarks, hfails⟩ => ?_)
    refine (ih r.2 u).bind (fun r' v ⟨hpaths, hmarks', hfails'⟩ => gives_pure ⟨?_, ?_, ?_⟩)
    · rw [map_cons, map_cons, hpaths]
    · rw [hmarks', hmarks, hbackup, flatMap_cons, append_assoc]
    · exact forall_mem_cons.mpr ⟨hfails, hfails'⟩

/-! ## counting -/

theorem countP_cons_toNat {α : Type} (p : α → Bool) (a : α) (l : List α) :
    (a :: l).countP p = (p a).toNat + l.countP p := by
  cases h : p a with
  | true => rw [countP_cons_of_pos h, Bool.toNat_true, Nat.add_comm]
  | false => rw [countP_cons_of_neg (by simp [h]), Bool.toNat_false, Nat.zero_add]

theorem count_true_marks (s : Settings) (backup : Option Path) {turns : List Turn}
    (h : ∀ t ∈ turns, t.missing → t.answer = false) :
    (turns.flatMap (Turn.marks s backup)).count true
      = turns.countP (·.answer) + turns.countP (·.backedUp s backup) := by
  induction turns with
  | nil => rfl
  | cons t turns ih =>
    obtain ⟨ht, hrest⟩ := forall_mem_cons.mp h
    have hmark : (t.marks s backup).count true = t.answer.toNat + (t.backedUp s backup).toNat := by
      unfold Turn.marks
      split
      · next hmissing => simp [ht hmissing, Turn.backedUp, hmissing]
      · cases t.answer <;> cases t.backedUp s backup <;> rfl
    rw [flatMap_cons, count_append, ih hrest, hmark, countP_cons_toNat, countP_cons_toNat]
    omega

theorem count_false_marks (s : Settings) (backup : Option Path) (turns : List Turn) :
    (turns.flatMap (Turn.marks s backup)).count false
      = turns.countP (fun t => !t.answer && !t.missing) := by
  induction turns with
  | nil => rfl
  | cons t turns ih =>
    have hmark : (t.marks s backup).count false = (!t.answer && !t.missing).toNat := by
      unfold Turn.marks
      cases t.missing <;> cases t.answer <;> cases t.backedUp s backup <;> rfl
    rw [flatMap_cons, count_append, ih, hmark, countP_cons_toNat]

theorem countP_failed {turns : List Turn} (h : ∀ t ∈ turns, t.missing → t.answer = false) :
    turns.countP (fun t => !t.answer)
      = turns.countP (fun t => !t.answer && !t.missing) + turns.countP (·.missing) := by
  induction turns with
  | nil => rfl
  | cons t turns ih =>
    obtain ⟨ht, hrest⟩ := forall_mem_cons.mp h
    have hone : (!t.answer).toNat = (!t.answer && !t.missing).toNat + t.missing.toNat := by
      cases hmissing : t.missing with
      | true => simp [ht hmissing]
      | false => simp
    rw [countP_cons_toNat, countP_cons_toNat, countP_cons_toNat, ih hrest, hone]
    omega

/-- the summary of a writer gives these numbers of files that were written and that were not -/
def Tells (wr : Writer) (s : Settings) (successful failed : Nat) : Prop :=
  (wr.summaryEntries s).lookup "total_files".toList = some (.int (successful + failed : Nat))
  ∧ (wr.summaryEntries s).lookup "successful_files".toList = some (.int successful)
  ∧ (wr.summaryEntries s).lookup "failed_files".toList = some (.int failed)

theorem tells_iff {wr : Writer} {s : Settings} {successful failed : Nat} :
    wr.Tells s successful failed ↔ wr.marks.count true = successful ∧ wr.marks.count false
      = failed := by
  have htrue : wr.summary.successful = wr.marks.count true := by
    rw [marks, List.count, countP_map]
    exact countP_congr (fun e _ => by simp)
  have htotal : wr.summary.total = wr.marks.count true + wr.marks.count false := by
    rw [Nat.add_comm, count_false_add_count_true, marks, length_map]
    rfl
  have hfields : wr.Tells s successful failed ↔
      some (Value.int wr.summary.total) = some (.int (successful + failed : Nat))
      ∧ some (Value.int wr.summary.successful) = some (.int successful)
      ∧ some (Value.int (wr.summary.total - wr.summary.successful : Nat))
        = some (.int failed) := Iff.rfl
  rw [hfields, htotal, htrue]
  simp only [Option.some.injEq, Value.int.injEq, Nat.cast_inj]
  omega

/-- a summary counts the calls that wrote their file and the backups that were made, and of the
calls that failed those whose file was not missing: its numbers are those of the answers only if no
file was missing and no backup was made -/
theorem summary_of_calls (s : Settings) (backup : Option Path) (calls : List Call) (w : Workspace) :
    Gives (serve ⟨backup, []⟩ s calls) w (fun r _ => r.1.map (·.path) = calls.map (·.path)
      ∧ r.2.Tells s (r.1.countP (·.answer) + r.1.countP (·.backedUp s backup))
          (r.1.countP (fun t => !t.answer && !t.missing))
      ∧ (r.2.Tells s (r.1.countP (·.answer)) (r.1.countP (fun t => !t.answer))
          ↔ ∀ t ∈ r.1, t.missing = false ∧ t.backedUp s backup = false)) := by
  refine (gives_serve_marks ⟨backup, []⟩ s calls w).mono (fun r u ⟨hpaths, hmarks, hfails⟩ => ?_)
  have htrue := count_true_marks s backup hfails
  have hfalse := count_false_marks s backup r.1
  have hfailed := countP_failed hfails
  have hnone : (∀ t ∈ r.1, t.missing = false ∧ t.backedUp s backup = false)
      ↔ r.1.countP (·.missing) = 0 ∧ r.1.countP (·.backedUp s backup) = 0 := by
    simp only [countP_eq_zero, Bool.not_eq_true, forall_and]
  have hempty : (⟨backup, []⟩ : Writer).marks = [] := rfl
  rw [tells_iff, tells_iff, hmarks, hempty, nil_append, htrue, hfalse, hnone]
  refine ⟨hpaths, ⟨rfl, rfl⟩, ?_⟩
  omega

theorem gives_of_run {x : Job (List Turn × Writer)} {w : Workspace} {answers marks : List Bool}
    (h : (exec x w).1.toOption.map (fun r => (r.1.map (·.answer), r.2.marks))
      = some (answers, marks)) :
    Gives x w (fun r _ => r.1.map (·.answer) = answers ∧ r.2.marks = marks) := by
  obtain ⟨r, hr, hpair⟩ := Option.map_eq_some_iff.mp h
  obtain ⟨hanswers, hmarks⟩ := Prod.mk.inj hpair
  refine ⟨r, (exec x w).2, Prod.ext ?_ rfl, hanswers, hmarks⟩
  cases hx : (exec x w).1 with
  | ok r' =>
    rw [hx] at hr
    exact congrArg Except.ok (Option.some.inj hr)
  | error e =>
    rw [hx] at hr
    cases hr

/-- one file that is written counts as two, and a file that is missing does not count -/
theorem summary_miscounts :
    Gives (start (.default "/p") >>= fun wr => wr.serve (.default "/p")
      [⟨pure (), "/p/A.java", .str "two"⟩]) jotter
      (fun r _ => r.1.map (·.answer) = [true] ∧ r.2.Tells (.default "/p") 2 0
        ∧ ¬ r.2.Tells (.default "/p") 1 0)
    ∧ Gives (start (.default "/p") >>= fun wr => wr.serve (.default "/p")
      [⟨pure (), "/p/C.java", .str "two"⟩]) jotter
      (fun r _ => r.1.map (·.answer) = [false] ∧ r.2.Tells (.default "/p") 0 0
        ∧ ¬ r.2.Tells (.default "/p") 0 1) := by
  constructor
  · refine (gives_of_run (by decide +kernel : _ = some ([true], [true, true]))).mono
      (fun r _ ⟨hanswers, hmarks⟩ => ?_)
    rw [tells_iff, tells_iff, hmarks]
    exact ⟨hanswers, by decide⟩
  · refine (gives_of_run (by decide +kernel : _ = some ([false], []))).mono
      (fun r _ ⟨hanswers, hmarks⟩ => ?_)
    rw [tells_iff, tells_iff, hmarks]
    exact ⟨hanswers, by decide⟩

end Writer

end Rebind
