import Mathlib
import Rebind.Project.Log
import Rebind.Project.Writer
import Rebind.Proofs.Project.Frame

/-!
# What logs and writers change

A line of a log changes the file of the log and nothing else (`Log.gives_tell`).  A writer that is
given a text for a path changes what the path leads to and the places of the backup
(`Writer.Touches`), and a file that exists is written (`Writer.gives_write`).
-/

namespace Rebind

/-! ## paths in normal form -/

theorem Tree.follow_proper {t : Tree} {p q : Place} {ns : List Text} (h : t.follow p ns = .ok q) :
    t.follow p (ns.filter Path.isProper) = .ok q := by
  induction ns generalizing p with
  | nil => exact h
  | cons n ns ih =>
    obtain ⟨hdir, hrest⟩ := Tree.follow_cons.mp h
    by_cases hn : Path.isProper n = true
    · rw [List.filter_cons_of_pos hn]
      exact Tree.follow_cons.mpr ⟨hdir, ih hrest⟩
    · have hskip : Place.step p n = p := by
        rw [Place.step, if_pos]
        by_cases he : n = ['.'] <;> simp_all [Path.isProper]
      rw [hskip] at hrest
      rw [List.filter_cons_of_neg hn]
      exact ih hrest

theorem Tree.follow_slash {t : Tree} {p q : Place} {rest : Text}
    (h : t.follow p (splitAll '/' rest) = .ok q) :
    t.follow p (splitAll '/' ('/' :: rest)) = .ok q := by
  have hcons : splitAll '/' ('/' :: rest) = [] :: splitAll '/' rest := splitAll_append '/' [] rest
  obtain ⟨n, ns, hns⟩ := List.exists_cons_of_ne_nil (splitAll_ne_nil '/' rest)
  rw [hcons]
  refine Tree.follow_cons.mpr ⟨?_, h⟩
  rw [hns] at h
  exact (Tree.follow_cons.mp h).1

theorem Path.rootOf_cases (t : Text) :
    (t.head? ≠ some '/' ∧ rootOf t = [])
      ∨ t.head? = some '/' ∧ (rootOf t = ['/'] ∨ rootOf t = ['/', '/']) := by
  cases t with
  | nil => exact .inl ⟨by simp, rfl⟩
  | cons c t =>
    by_cases hc : c = '/'
    · subst hc
      refine .inr ⟨rfl, ?_⟩
      unfold rootOf
      split
      · simp_all
      · exact .inr rfl
      · exact .inl rfl
    · exact .inl ⟨by simpa using hc, by simp [rootOf, hc]⟩

/-- a path leads where its normal form leads -/
theorem Workspace.locate_ofText {w : Workspace} {path : Text} {q : Place}
    (h : w.locate path = .ok q) :
    w.locate (Path.ofText path).text = .ok q := by
  unfold Workspace.locate at h
  split at h
  · cases h
  · have hproper := Tree.follow_proper h
    obtain ⟨n, ns, hns⟩ := List.exists_cons_of_ne_nil (splitAll_ne_nil '/' path)
    rw [hns] at h
    obtain ⟨hdir, -⟩ := Tree.follow_cons.mp h
    have hslash : ∀ m ∈ (splitAll '/' path).filter Path.isProper, '/' ∉ m ∧ m ≠ [] := by
      intro m hm
      obtain ⟨hmem, hprop⟩ := List.mem_filter.mp hm
      exact ⟨not_mem_of_mem_splitAll hmem, by rintro rfl; simp [Path.isProper] at hprop⟩
    unfold Path.ofText Path.text
    generalize (splitAll '/' path).filter Path.isProper = names at hproper hslash
    generalize hstart : (if path.head? = some '/' then [] else w.here) = p at hproper hdir
    -- the names of the normal form lead on from the same place
    have hnames : w.tree.follow p (splitAll '/' (List.intercalate ['/'] names)) = .ok q := by
      by_cases hnil : names = []
      · subst hnil
        exact Tree.follow_cons.mpr ⟨hdir, hproper⟩
      · rw [splitAll_intercalate hnil (fun m hm => (hslash m hm).1)]
        exact hproper
    have habsolute : ∀ rest : Text, p = [] → w.tree.follow p (splitAll '/' ('/' :: rest)) = .ok q →
        w.locate ('/' :: rest) = .ok q := by
      rintro rest rfl hrest
      simpa [Workspace.locate] using hrest
    rcases Path.rootOf_cases path with ⟨hhead, hroot⟩ | ⟨hhead, hroot | hroot⟩
    · rw [if_neg hhead] at hstart
      subst hstart
      rw [hroot]
      by_cases hnil : names = []
      · subst hnil
        show w.tree.follow _ [['.']] = .ok q
        exact Tree.follow_cons.mpr ⟨hdir, hproper⟩
      · obtain ⟨m, ms, rfl⟩ := List.exists_cons_of_ne_nil hnil
        obtain ⟨hm, hmne⟩ := hslash m List.mem_cons_self
        obtain ⟨c, m, rfl⟩ := List.exists_cons_of_ne_nil hmne
        have hhead' : (List.intercalate ['/'] ((c :: m) :: ms)).head? = some c := by
          cases ms <;> simp [List.intercalate_cons_cons]
        have hc : c ≠ '/' := fun he => hm (by simp [he])
        have hne : List.intercalate ['/'] ((c :: m) :: ms) ≠ [] := by
          rintro he
          rw [he] at hhead'
          cases hhead'
        simpa [Workspace.locate, hhead', hc, hne] using hnames
    · rw [if_pos hhead] at hstart
      rw [hroot]
      exact habsolute _ hstart.symm (Tree.follow_slash hnames)
    · rw [if_pos hhead] at hstart
      rw [hroot]
      exact habsolute _ hstart.symm (Tree.follow_slash (Tree.follow_slash hnames))

open Job

/-! ## logs -/

namespace Log

def Owns (log : Log) (q : Place) : Prop := log.file = .appending q

theorem gives_appendTo (place : Place) (t : Text) (w : Workspace) :
    Gives (appendTo place t) w (fun _ u => w.Alike (· = place) u) := by
  unfold appendTo
  refine gives_bind_of_exec (exec_get w) ?_
  split
  · rename_i content hfind
    exact ⟨(), _, rfl, Workspace.alike_stored hfind rfl⟩
  · exact gives_pure (.refl _ w)

theorem gives_record (log : Log) (line : Text) (w : Workspace) :
    Gives (log.record line) w (fun _ u => w.Alike log.Owns u) := by
  have hsay : ∀ t, Gives (say t) w (fun _ u => w.Alike log.Owns u) := fun t =>
    ⟨(), _, rfl, Workspace.alike_of_eq rfl rfl⟩
  unfold record
  dsimp only
  split
  · exact gives_pure (.refl _ w)
  · rename_i place hfile
    refine (gives_appendTo place _ w).bind (fun _ u hu => gives_pure (hu.mono (fun q hq => ?_)))
    rw [Owns, hfile, hq]
  · exact (hsay _).bind (fun _ u hu => gives_pure hu)
  · exact (hsay _).bind (fun _ u hu => gives_pure hu)

theorem gives_write (log : Log) (level message : Text) (w : Workspace) :
    Gives (log.write level message) w (fun _ u => w.Alike log.Owns u) := by
  have hrecord : ∀ (line : Text) (v : Workspace), w.Alike log.Owns v →
      Gives (log.record line) v (fun _ u => w.Alike log.Owns u) := fun line v hv =>
    (gives_record log line v).mono (fun _ _ hu => hv.trans hu)
  unfold write
  split
  · exact gives_pure (.refl _ w)
  · refine gives_bind_of_exec (exec_get w) ?_
    dsimp only
    split
    · exact gives_bind_of_exec rfl (hrecord _ _ (Workspace.alike_of_eq rfl rfl))
    · exact gives_bind_of_exec rfl (hrecord _ _ (Workspace.alike_of_eq rfl rfl))

theorem gives_tell_alike (log : Log) (level : Level) (message : Text) (w : Workspace) :
    Gives (log.tell level message) w (fun _ u => w.Alike log.Owns u) :=
  (gives_write log level.label message w).bind (fun _ _ hu => gives_pure hu)

theorem gives_tell (log : Log) (level : Level) (message : Text) (w : Workspace) :
    Gives (log.tell level message) w (fun _ u => w.Frame log.Owns u) :=
  (gives_tell_alike log level message w).mono (fun _ _ hu => hu.onward)

theorem frames_tell {S : Place → Prop} {here : Place} {log : Log} (h : ∀ q, log.Owns q → S q)
    (level : Level) (message : Text) : Frames here S (log.tell level message) := by
  intro w _
  obtain ⟨_, u, hu, hframe⟩ := gives_tell log level message w
  rw [hu]
  exact hframe.mono h

end Log

/-! ## writers -/

namespace Writer

/-- the places where the backup of a file may come to stand: that of its path, and that of its name
in a directory that stands there already -/
def backupPlaces (here : Place) (dir : Path) (project path : Text) : List Place :=
  [Place.ofPath here (backupPath dir project path).text,
    Place.ofPath here (joinPath (backupPath dir project path).text (fileName path))]

/-- the backup of the file at a path may come to stand at a place -/
def BacksUpAt (wr : Writer) (s : Settings) (here : Place) (path : Text) (q : Place) : Prop :=
  ∃ dir project, wr.backup = some dir ∧ s.project = .ok project
    ∧ q ∈ backupPlaces here dir project path

def Touches (wr : Writer) (s : Settings) (here : Place) (path : Text) (q : Place) : Prop :=
  q = Place.ofPath here path ∨ wr.BacksUpAt s here path q

theorem frames_makeBackup {wr : Writer} {s : Settings} {path : Text} {dir : Path} {here : Place}
    (h : wr.backup = some dir) :
    Frames here (wr.BacksUpAt s here path) (makeBackup dir s path) := by
  unfold makeBackup
  refine frames_lift_bind (fun project hproject => ?_)
  have hplaces : ∀ q ∈ backupPlaces here dir project path, wr.BacksUpAt s here path q :=
    fun q hq => ⟨dir, project, h, hproject, hq⟩
  refine frames_bind (frames_makeDirs _)
    (fun _ => frames_bind (frames_copy ?_ ?_) (fun _ => frames_pure _))
  · exact hplaces _ (by simp [backupPlaces])
  · exact hplaces _ (by simp [backupPlaces])

theorem gives_backUp (wr : Writer) (s : Settings) (path : Text) (w : Workspace) :
    Gives (wr.backUp s path) w (fun wr' u =>
      wr'.backup = wr.backup ∧ w.Frame (wr.BacksUpAt s w.here path) u) := by
  unfold backUp
  split
  · exact gives_pure ⟨rfl, .refl _ w⟩
  · rename_i dir hdir
    refine (gives_outcome (frames_makeBackup hdir) rfl).bind (fun r u ⟨_, hu⟩ => ?_)
    cases r with
    | ok target => exact ⟨_, u, rfl, rfl, hu⟩
    | error e => exact (gives_say _ _ u).bind (fun _ v hv => gives_pure ⟨rfl, hu.trans hv⟩)

/-- a text is written to every path that leads to a file, and no more changes than that file and
backups -/
theorem gives_write (wr : Writer) (s : Settings) (path t : Text) (w : Workspace) :
    Gives (wr.write s path (.text t)) w (fun r u => r.2.backup = wr.backup
      ∧ w.Frame (wr.Touches s w.here path) u
      ∧ ∀ q old, w.locate path = .ok q → w.tree.find? q = some (.file old) →
          r.1 ∧ u.tree.find? q = some (.file (bytesOf t))) := by
  unfold write
  refine gives_bind_of_exec (a := w.exists? (Path.ofText path).text) (u := w) rfl ?_
  cases hthere : w.exists? (Path.ofText path).text with
  | false =>
    refine (gives_say _ _ w).bind (fun _ u hu => gives_pure ⟨rfl, hu, fun q old hq hold => ?_⟩)
    rw [Workspace.exists?, Workspace.item?_eq (Workspace.locate_ofText hq), hold] at hthere
    cases hthere
  | true =>
    have hbackup : Gives (if (s.value .backupEnabled).truthy then wr.backUp s path else pure wr) w
        (fun wr' u => wr'.backup = wr.backup ∧ w.Frame (wr.BacksUpAt s w.here path) u) := by
      split
      · exact gives_backUp wr s path w
      · exact gives_pure ⟨rfl, .refl _ w⟩
    simp only [Bool.not_true, Bool.false_eq_true, if_false]
    rw [ite_bind]
    refine hbackup.bind (fun wr' u ⟨hwr', hu⟩ => ?_)
    have hstart : w.Frame (wr.Touches s w.here path) u := hu.mono (fun q hq => .inr hq)
    have hframes : Frames w.here (wr.Touches s w.here path) (replace path (.text t)) :=
      frames_writeBytes _ _ (.inl rfl)
    refine (gives_outcome hframes hu.here).bind (fun r z ⟨hr, hz⟩ => ?_)
    -- a file is still a file after the backup
    have hfile : ∀ q old, w.locate path = .ok q → w.tree.find? q = some (.file old) →
        (r, z) = (.ok (), u.stored q (.file (bytesOf t))) := by
      intro q old hq hold
      obtain ⟨new, hnew⟩ := hu.file hold
      rw [← hr]
      exact exec_writeBytes (hu.locate hq) hnew
    cases r with
    | ok _ =>
      refine ⟨_, z, rfl, hwr', hstart.trans hz, fun q old hq hold => ⟨rfl, ?_⟩⟩
      obtain ⟨-, rfl⟩ := Prod.mk.inj (hfile q old hq hold)
      exact Workspace.find?_stored u q _
    | error e =>
      refine (gives_say (wr.Touches s w.here path) _ z).bind (fun _ z' hz' => ?_)
      refine ⟨_, z', rfl, hwr', hstart.trans (hz.trans hz'), fun q old hq hold => ?_⟩
      obtain ⟨he, -⟩ := Prod.mk.inj (hfile q old hq hold)
      cases he

end Writer

end Rebind
