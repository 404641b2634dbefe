import Mathlib
import Rebind.Proofs.Project.Writing

/-!
# Where backups stand

The backup of a file has the path of the file as seen from the project, put behind the backup
directory.  That path may hold `..`, as it does for a directory of sources given as `../lib`, and
then the backup stands outside of the backup directory.  A file whose path does not climb has its
backup below (`backup_below`).

* `Place.ofPath_joinPath`, `Path.Named.ofPath_text`: the places of paths, name by name.
-/

namespace Rebind

open List

/-! ## the places of paths -/

/-- a name put behind a path leads one step further -/
theorem Place.ofPath_joinPath {here : Place} {a b : Text} (ha : a ≠ []) (hb : '/' ∉ b) :
    Place.ofPath here (joinPath a b) = (Place.ofPath here a).step b := by
  have hhead : ¬ b.head? = some '/' := fun h => hb (mem_of_head? h)
  have hsplit : ∀ x : Text, splitAll '/' (x ++ '/' :: b) = splitAll '/' x ++ [b] := by
    intro x
    rw [splitAll_append, splitAll_of_not_mem hb]
  have hfront : ∀ x y : Text, x ≠ [] → (x ++ y).head? = x.head? := by
    intro x y hx
    exact head?_append_of_ne_nil x hx
  unfold joinPath
  rw [if_neg hhead]
  by_cases hlast : a.getLast? = some '/'
  · -- the slash at the end of the path makes an empty name, which leads nowhere
    obtain ⟨x, rfl⟩ := getLast?_eq_some_iff.mp hlast
    rw [if_pos (by simp)]
    unfold Place.ofPath
    rw [hfront _ _ ha, append_assoc, singleton_append, hsplit, splitAll_append, foldl_append,
      foldl_append]
    rfl
  · rw [if_neg (by simp [ha, hlast])]
    unfold Place.ofPath
    rw [hfront _ _ ha, hsplit, foldl_append]
    rfl

/-- the root mark is one that paths have, and the names say something and lie between slashes -/
structure Path.Named (p : Path) : Prop where
  root : p.root = [] ∨ p.root = ['/'] ∨ p.root = ['/', '/']
  names : ∀ n ∈ p.names, Path.isProper n ∧ '/' ∉ n

namespace Path

theorem named_ofText (t : Text) : (ofText t).Named where
  root := by
    rcases rootOf_cases t with ⟨-, h⟩ | ⟨-, h⟩
    · exact .inl h
    · exact .inr h
  names := by
    intro n hn
    obtain ⟨hmem, hproper⟩ := mem_filter.mp hn
    exact ⟨hproper, not_mem_of_mem_splitAll hmem⟩

theorem ne_nil_of_isProper {n : Text} (h : isProper n) : n ≠ [] := by
  rintro rfl
  cases h

theorem Named.ofPath_text {p : Path} (h : p.Named) (hne : p.names ≠ []) (here : Place) :
    Place.ofPath here p.text = p.names.foldl Place.step (if p.root = [] then here else []) := by
  have hsplit : splitAll '/' (intercalate ['/'] p.names) = p.names :=
    splitAll_intercalate hne (fun n hn => (h.names n hn).2)
  have hslash : ∀ x : Text, splitAll '/' ('/' :: x) = [] :: splitAll '/' x := fun x =>
    splitAll_append '/' [] x
  have htext : p.text = p.root ++ intercalate ['/'] p.names := by
    rw [text, if_neg]
    simp [hne]
  rw [htext]
  rcases h.root with hroot | hroot | hroot
  · -- without a root mark the text starts with its first name, and so not with a slash
    obtain ⟨n, ns, hnames⟩ := exists_cons_of_ne_nil hne
    obtain ⟨hproper, hno⟩ := h.names n (by rw [hnames]; exact mem_cons_self)
    obtain ⟨c, n, rfl⟩ := exists_cons_of_ne_nil (ne_nil_of_isProper hproper)
    have hhead : ¬ (intercalate ['/'] p.names).head? = some '/' := by
      intro hc
      rw [hnames] at hc
      have hfirst : (intercalate ['/'] ((c :: n) :: ns)).head? = some c := by
        cases ns <;> simp [intercalate_cons_cons]
      rw [hfirst] at hc
      exact hno (by rw [Option.some.inj hc]; exact mem_cons_self)
    rw [hroot, nil_append, Place.ofPath, if_neg hhead, hsplit, if_pos rfl]
  · rw [hroot, Place.ofPath, singleton_append, hslash, hsplit]
    rfl
  · rw [hroot, Place.ofPath, cons_append, singleton_append, hslash, hslash, hsplit]
    rfl

theorem Named.text_ne_nil {p : Path} (h : p.Named) (hne : p.names ≠ []) : p.text ≠ [] := by
  obtain ⟨n, ns, hnames⟩ := exists_cons_of_ne_nil hne
  have hn := ne_nil_of_isProper (h.names n (by rw [hnames]; exact mem_cons_self)).1
  rw [text, if_neg (by simp [hne]), hnames]
  cases ns <;> simp [intercalate_cons_cons, hn]

theorem relativeTo?_eq_some {p base q : Path} (h : p.relativeTo? base = some q) :
    q.root = [] ∧ q.names = p.names.drop base.names.length := by
  unfold relativeTo? at h
  split at h
  · rw [← Option.some.inj h]
    exact ⟨rfl, rfl⟩
  · cases h

theorem ofText_name {n : Text} (hproper : isProper n) (hno : '/' ∉ n) : ofText n = ⟨[], [n]⟩ := by
  have hroot : rootOf n = [] := by
    rcases rootOf_cases n with ⟨-, h⟩ | ⟨h, -⟩
    · exact h
    · exact absurd (mem_of_head? h) hno
  rw [ofText, hroot, splitAll_of_not_mem hno, filter_cons_of_pos hproper]
  rfl

end Path

theorem Place.step_eq {n : Text} (hproper : Path.isProper n) (hup : n ≠ ['.', '.']) (p : Place) :
    p.step n = p ++ [n] := by
  rw [Place.step, if_neg, if_neg hup]
  simpa [Path.isProper] using hproper

theorem Place.foldl_step_eq {names : List Text} (h : ∀ n ∈ names, Path.isProper n ∧ n ≠ ['.', '.'])
    (p : Place) : names.foldl Place.step p = p ++ names := by
  induction names generalizing p with
  | nil => exact (append_nil p).symm
  | cons n names ih =>
    obtain ⟨hproper, hup⟩ := h n mem_cons_self
    rw [foldl_cons, Place.step_eq hproper hup, ih (fun m hm => h m (mem_cons_of_mem _ hm)),
      append_assoc]
    rfl

theorem Place.append_name_ne {n n' : Text} (hn : n ≠ n') (p p' : Place) :
    p ++ [n] ≠ p' ++ [n'] := by
  intro h
  exact hn (singleton_inj.mp (append_inj' h rfl).2)

theorem Place.exists_ofPath_joinPath {n : Text} (hproper : Path.isProper n) (hup : n ≠ ['.', '.'])
    (hno : '/' ∉ n) (here : Place) (a : Text) : ∃ p, Place.ofPath here (joinPath a n) = p
      ++ [n] := by
  by_cases ha : a = []
  · have hhead : ¬ n.head? = some '/' := fun h => hno (mem_of_head? h)
    subst ha
    refine ⟨here, ?_⟩
    rw [← Place.step_eq hproper hup here, joinPath, if_neg hhead, Place.ofPath]
    simp [hhead, splitAll_of_not_mem hno]
  · exact ⟨_, by rw [Place.ofPath_joinPath ha hno, Place.step_eq hproper hup]⟩

/-! ## backups -/

namespace Writer

/-- the names that the backup of a file has behind the backup directory -/
def below (project path : Text) : List Text :=
  match (Path.ofText path).relativeTo? (Path.ofText project) with
  | some q => q.names
  | none => (Path.ofText path).names.getLast?.toList

def Climbs (project path : Text) : Prop := ['.', '.'] ∈ fileName path :: below project path

instance (project path : Text) : Decidable (Climbs project path) :=
  inferInstanceAs (Decidable (['.', '.'] ∈ fileName path :: below project path))

theorem backupDir_eq (project : Text) : backupDir project
    = ⟨(Path.ofText project).root, (Path.ofText project).names
      ++ ["butterknife_backup".toList]⟩ := by
  have hname : Path.ofText "butterknife_backup".toList = ⟨[], ["butterknife_backup".toList]⟩ :=
    Path.ofText_name (by decide) (by decide)
  rw [backupDir, Path.join, hname]
  rfl

theorem named_backupDir (project : Text) : (backupDir project).Named := by
  have hproject := Path.named_ofText project
  rw [backupDir_eq]
  refine ⟨hproject.root, ?_⟩
  intro n hn
  rcases mem_append.mp hn with hn | hn
  · exact hproject.names n hn
  · rw [mem_singleton.mp hn]
    exact ⟨by decide, by decide⟩

theorem backupDir_names_ne_nil (project : Text) : (backupDir project).names ≠ [] := by
  rw [backupDir_eq]
  simp

theorem named_below (project path : Text) : ∀ n ∈ below project path, Path.isProper n
    ∧ '/' ∉ n := by
  intro n hn
  have hpath := Path.named_ofText path
  unfold below at hn
  split at hn
  · rename_i q hq
    rw [(Path.relativeTo?_eq_some hq).2] at hn
    exact hpath.names n (mem_of_mem_drop hn)
  · exact hpath.names n (mem_of_getLast? (Option.mem_toList.mp hn))

theorem backupPath_eq (dir : Path) (project path : Text) :
    backupPath dir project path = ⟨dir.root, dir.names ++ below project path⟩ := by
  unfold backupPath below
  dsimp only
  cases hq : (Path.ofText path).relativeTo? (Path.ofText project) with
  | some q =>
    have hroot : q.root = [] := (Path.relativeTo?_eq_some hq).1
    show dir.append q = _
    rw [Path.append, hroot]
    rfl
  | none =>
    show dir.join (Path.ofText path).name = _
    rw [Path.name]
    cases hlast : (Path.ofText path).names.getLast? with
    | none =>
      have hempty : Path.ofText [] = ⟨[], []⟩ := rfl
      rw [Option.getD_none, Path.join, hempty]
      rfl
    | some n =>
      obtain ⟨hproper, hno⟩ := (Path.named_ofText path).names n (mem_of_getLast? hlast)
      rw [Option.getD_some, Path.join, Path.ofText_name hproper hno]
      rfl

/-- a backup whose path does not climb stands below the backup directory -/
theorem backup_below {home project path : Text} (h : ¬ Climbs project path) (here : Place) :
    ∀ q ∈ backupPlaces here (backupDir home) project path,
      Place.ofPath here (backupDir home).text <+: q := by
  obtain ⟨hfile, hbelow⟩ := not_or.mp (fun hc => h (mem_cons.mpr hc))
  have hnamed : (backupPath (backupDir home) project path).Named := by
    rw [backupPath_eq]
    refine ⟨(named_backupDir home).root, fun n hn => ?_⟩
    rcases mem_append.mp hn with hn | hn
    · exact (named_backupDir home).names n hn
    · exact named_below project path n hn
  have hnames : (backupPath (backupDir home) project path).names ≠ [] := by
    rw [backupPath_eq]
    simp [backupDir_names_ne_nil]
  have hplace : Place.ofPath here (backupPath (backupDir home) project path).text
      = Place.ofPath here (backupDir home).text ++ below project path := by
    rw [hnamed.ofPath_text hnames, (named_backupDir home).ofPath_text (backupDir_names_ne_nil home),
      backupPath_eq, foldl_append]
    apply Place.foldl_step_eq
    intro n hn
    exact ⟨(named_below project path n hn).1, fun hup => hbelow (hup ▸ hn)⟩
  have hname : '/' ∉ fileName path := not_mem_afterLast '/' path
  intro q hq
  simp only [backupPlaces, mem_cons, not_mem_nil, or_false] at hq
  rcases hq with rfl | rfl
  · rw [hplace]
    exact prefix_append _ _
  · -- where a directory stands at the path, the copy goes into it
    rw [Place.ofPath_joinPath (hnamed.text_ne_nil hnames) hname, hplace, Place.step]
    split
    · exact prefix_append _ _
    · rw [if_neg (fun hup => hfile hup.symm), append_assoc]
      exact prefix_append _ _

end Writer

end Rebind
