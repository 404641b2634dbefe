import Mathlib
import Rebind.Project.Scan
import Rebind.Proofs.Project.View
import Rebind.Proofs.Text.Order

/-!
# What a scan finds

A scan walks through the directories it is told to look in, passes over directories by their names
and takes files by theirs.  `Search.Wants` says which files of a project are looked for without a
word on walks, and `Search.scan_lists` that a fresh scanner gives exactly their paths, in order and
each once.

The directories to look in may lie in one another, so that several walks come to a file, and a name
that one walk passes over may be that of a directory above where another starts.
`Search.finds_scan` is about one walk, for every tree.
-/

namespace Rebind

open List Job

variable {es : List (Text × Tree)} {ns : List Text} {p : Path} {root : Text} {u w : Workspace}

/-! ## trees with names that lead down -/

namespace Tree

variable {t u : Tree} {es : List (Text × Tree)} {n : Text} {ns : List Text} {p : Place}

theorem child?_eq_some (h : (es.map (·.1)).Nodup) : child? n es = some u ↔ (n, u) ∈ es := by
  induction es with
  | nil => simp [child?]
  | cons e es ih =>
    obtain ⟨m, v⟩ := e
    obtain ⟨hm, hes⟩ := nodup_cons.mp h
    rw [child?, mem_cons, Prod.mk.injEq]
    split
    · rename_i hmn
      subst hmn
      have hnot : (m, u) ∉ es := fun hmem => hm (mem_map.mpr ⟨_, hmem, rfl⟩)
      simp [hnot, eq_comm]
    · rename_i hmn
      rw [ih hes]
      simp [Ne.symm hmn]

theorem find?_cons_eq_some : t.find? (n :: ns) = some u ↔ ∃ v, child? n t.entries = some v
    ∧ v.find? ns = some u := by
  rw [Tree.find?]
  cases child? n t.entries with
  | none => simp
  | some v => simp

/-- the entries of each directory have different names, all of which lead down -/
def WellNamed (t : Tree) : Prop :=
  ∀ p u, t.find? p = some u → (u.entries.map (·.1)).Nodup ∧ GoDown (u.entries.map (·.1))

theorem WellNamed.names (h : t.WellNamed) :
    (t.entries.map (·.1)).Nodup ∧ GoDown (t.entries.map (·.1)) := h [] t rfl

theorem WellNamed.find? (h : t.WellNamed) (hu : t.find? p = some u) : u.WellNamed := by
  intro q v hq
  refine h (p ++ q) v ?_
  rw [find?_append, hu]
  exact hq

theorem WellNamed.find?_entry (h : t.WellNamed) (hu : (n, u) ∈ t.entries) : t.find? [n] = some u :=
  find?_cons_eq_some.mpr ⟨u, (child?_eq_some h.names.1).mpr hu, rfl⟩

theorem wellNamed_iff : t.WellNamed
    ↔ ((t.entries.map (·.1)).Nodup ∧ GoDown (t.entries.map (·.1)))
      ∧ ∀ e ∈ t.entries, e.2.WellNamed := by
  constructor
  · exact fun h => ⟨h.names, fun e he => h.find? (h.find?_entry he)⟩
  · rintro ⟨hnames, hentries⟩ p u hp
    cases p with
    | nil =>
      cases hp
      exact hnames
    | cons n p =>
      obtain ⟨v, hv, hu⟩ := find?_cons_eq_some.mp hp
      exact hentries (n, v) ((child?_eq_some hnames.1).mp hv) p u hu

theorem wellNamed_file (content : ByteArray) : (Tree.file content).WellNamed :=
  wellNamed_iff.mpr ⟨⟨.nil, fun _ hn => nomatch hn⟩, fun _ he => nomatch he⟩

theorem WellNamed.goDown (h : t.WellNamed) (hu : t.find? ns = some u) : GoDown ns := by
  induction ns generalizing t with
  | nil => exact fun _ hn => nomatch hn
  | cons n ns ih =>
    obtain ⟨v, hv, hrest⟩ := find?_cons_eq_some.mp hu
    have hmem := (child?_eq_some h.names.1).mp hv
    intro m hm
    rcases mem_cons.mp hm with rfl | hm
    · exact h.names.2 m (mem_map.mpr ⟨_, hmem, rfl⟩)
    · exact ih (h.find? (h.find?_entry hmem)) hrest m hm

end Tree

/-! ## what is looked for -/

/-- what a scan is told: the project, the directories to look in, how the names of files end, and
what must not stand in the names of directories and of files -/
structure Search where
  project : Text
  dirs : List Text
  endings : List Text
  passedDirs : List Text
  passedFiles : List Text

namespace Search

/-- the settings say so -/
structure Reads (c : Search) (s : Settings) : Prop where
  usable : s.allow .scanPaths = .ok ()
  project : s.project = .ok c.project
  dirs : s.items .scanDirectories = .ok (c.dirs.map .plain)
  endings : s.items .scanExtensions = .ok (c.endings.map .plain)
  passedDirs : s.items .excludeDirectories = .ok (c.passedDirs.map .plain)
  passedFiles : s.items .excludePatterns = .ok (c.passedFiles.map .plain)

def PassesDir (c : Search) (name : Text) : Prop := ∃ part ∈ c.passedDirs, part <:+: name

def TakesFile (c : Search) (name : Text) : Prop :=
  (∃ ending ∈ c.endings, ending <:+ name) ∧ ¬ ∃ part ∈ c.passedFiles, part <:+: name

instance (c : Search) (name : Text) : Decidable (c.PassesDir name) :=
  inferInstanceAs (Decidable (∃ part ∈ c.passedDirs, part <:+: name))

instance (c : Search) (name : Text) : Decidable (c.TakesFile name) :=
  inferInstanceAs (Decidable ((∃ ending ∈ c.endings, ending <:+ name)
    ∧ ¬ ∃ part ∈ c.passedFiles, part <:+: name))

/-- the names of the directories to look in that are there, or else of the project itself -/
def roots (c : Search) (t : Tree) : List (List Text) :=
  let found := (c.dirs.map (fun d => (Path.ofText d).names)).filter (fun ns => (t.find? ns).isSome)
  if found.isEmpty then [[]] else found

/-- below a directory stands a file to take, behind directories that are not passed over -/
structure Takes (c : Search) (dir : Tree) (between : List Text) (name : Text) : Prop where
  there : ∃ leaf, dir.find? (between ++ [name]) = some leaf ∧ leaf.isDir = false
  entered : ∀ n ∈ between, ¬ c.PassesDir n
  taken : c.TakesFile name

/-- the file at names of the project is looked for: it stands below one of the directories to look
in, is to be taken by its name, and no directory between the two is passed over -/
def Wants (c : Search) (t : Tree) (ns : List Text) : Prop :=
  ∃ root ∈ c.roots t, ∃ between name, ns = root ++ (between ++ [name])
    ∧ (∃ leaf, t.find? ns = some leaf ∧ leaf.isDir = false) ∧ (∀ n ∈ between, ¬ c.PassesDir n)
      ∧ c.TakesFile name

def pathOf (c : Search) (ns : List Text) : Text := ((Path.ofText c.project).extend ns).text

end Search

/-! ## tests on names -/

theorem hasPart_plain (name : Text) (parts : List Text) :
    hasPart name (parts.map .plain) = .ok (decide (∃ part ∈ parts, part <:+: name)) := by
  induction parts with
  | nil => simp [hasPart]
  | cons part parts ih =>
    rw [map_cons, hasPart, ih]
    show (if (whole? _).any _ = true then (.ok true : Except Fault Bool) else _) = _
    rw [whole?_map, Option.any_some]
    by_cases h : part <:+: name
    · rw [if_pos ((occursIn_iff part name).mpr h)]
      simp [h]
    · rw [if_neg (fun ho => h ((occursIn_iff part name).mp ho))]
      simp [h]

theorem hasEnding_plain (name : Text) (endings : List Text) :
    hasEnding name (endings.map .plain) = .ok (decide (∃ ending ∈ endings, ending <:+ name)) := by
  induction endings with
  | nil => simp [hasEnding]
  | cons ending endings ih =>
    rw [map_cons, hasEnding, ih]
    show (if (whole? _).any _ = true then (.ok true : Except Fault Bool) else _) = _
    rw [whole?_map, Option.any_some]
    by_cases h : ending <:+ name
    · rw [if_pos (isSuffixOf_iff_suffix.mpr h)]
      simp [h]
    · rw [if_neg (fun ho => h (isSuffixOf_iff_suffix.mp ho))]
      simp [h]

theorem keepWhile_eq {test : Text → Except Fault Bool} {p : Text → Prop} [DecidablePred p]
    (h : ∀ n, test n = .ok (decide (p n))) (ns : List Text) :
    keepWhile test ns = (ns.filter (fun n => p n), none) := by
  induction ns with
  | nil => rfl
  | cons n ns ih =>
    rw [keepWhile, h]
    dsimp only
    rw [ih, filter_cons]

namespace Search

variable {c : Search} {s : Settings}

theorem Reads.excludesDir (h : c.Reads s) (name : Text) :
    s.excludesDir name = .ok (decide (c.PassesDir name)) := by
  rw [Settings.excludesDir, h.passedDirs]
  exact hasPart_plain name c.passedDirs

theorem Reads.wantsFile (h : c.Reads s) (name : Text) :
    s.wantsFile name = .ok (decide (c.TakesFile name)) := by
  have hboth : ∀ (p q : Prop) [Decidable p] [Decidable q],
      (if decide p = true then .ok (!decide q) else .ok false : Except Fault Bool)
        = .ok (decide (p ∧ ¬ q)) := by
    intro p q _ _
    by_cases hp : p <;> simp [hp]
  rw [Settings.wantsFile, h.endings, h.passedFiles]
  show (hasEnding name _ >>= fun b => if b = true then hasPart name _ >>= fun b => pure !b else _)
    = _
  rw [hasEnding_plain, hasPart_plain]
  exact hboth _ _

end Search

/-! ## paths -/

theorem intercalate_concat (x : Char) (hne : ns ≠ []) (n : Text) :
    List.intercalate [x] (ns ++ [n]) = List.intercalate [x] ns ++ x :: n := by
  induction ns with
  | nil => exact absurd rfl hne
  | cons m ns ih =>
    cases ns with
    | nil => simp [intercalate_cons_cons]
    | cons k ns =>
      rw [cons_append, cons_append, intercalate_cons_cons, ← cons_append, ih (by simp),
        intercalate_cons_cons]
      simp

/-- a path in normal form that starts at the top -/
structure Path.Rooted (p : Path) : Prop extends p.Named where
  absolute : p.root ≠ []

namespace Path

variable {p : Path} {n : Text} {ns : List Text}

theorem Rooted.extend (h : p.Rooted) (hns : GoDown ns) : (p.extend ns).Rooted :=
  ⟨h.toNamed.extend hns.named, h.absolute⟩

theorem extend_extend (p : Path) (ms ns : List Text) :
    (p.extend ms).extend ns = p.extend (ms ++ ns) := by
  simp [Path.extend]

/-- a name written behind a path continues it -/
theorem Rooted.joinPath_text (h : p.Rooted) (hn : GoDown [n]) :
    joinPath p.text n = (p.extend [n]).text := by
  obtain ⟨hproper, hno, -⟩ := hn n mem_cons_self
  have hhead : ¬ n.head? = some '/' := fun hc => hno (mem_of_head? hc)
  have htext : ∀ q : Path, q.root = p.root → q.text = p.root ++ intercalate ['/'] q.names := by
    intro q hq
    rw [text, if_neg (by simp [hq, h.absolute]), hq]
  rw [joinPath, if_neg hhead, htext p rfl, htext (p.extend [n]) rfl]
  by_cases hnames : p.names = []
  · have hslash : p.root.getLast? = some '/' := by
      rcases h.root with hroot | hroot | hroot
      · exact absurd hroot h.absolute
      · rw [hroot]
        rfl
      · rw [hroot]
        rfl
    rw [if_pos (by simp [hnames, hslash]), Path.extend, hnames]
    simp
  · have hsplit : splitAll '/' (intercalate ['/'] p.names) = p.names :=
      splitAll_intercalate hnames (fun m hm => (h.names m hm).2)
    have hempty : [] ∉ p.names := fun hmem => absurd (h.names [] hmem).1 (by decide)
    have hne : intercalate ['/'] p.names ≠ [] := by
      intro hnil
      rw [hnil] at hsplit
      exact hempty (hsplit ▸ mem_cons_self)
    -- a name that ends the path is not empty, so the path ends in no slash
    have hlast : ¬ (intercalate ['/'] p.names).getLast? = some '/' := by
      intro hslash
      obtain ⟨x, hx⟩ := getLast?_eq_some_iff.mp hslash
      rw [hx, splitAll_append] at hsplit
      exact hempty (hsplit ▸ mem_append_right _ mem_cons_self)
    rw [if_neg (by simp [h.absolute, hne, hlast]), Path.extend, intercalate_concat '/' hnames,
      append_assoc]

end Path

def joinNames (root : Text) (ns : List Text) : Text := ns.foldl joinPath root

theorem Path.Rooted.joinNames_text (h : p.Rooted) (hns : GoDown ns) :
    joinNames p.text ns = (p.extend ns).text := by
  induction ns generalizing p with
  | nil =>
    show p.text = _
    rw [Path.extend, append_nil]
  | cons n ns ih =>
    have hn : GoDown [n] := hns.of_prefix ⟨ns, rfl⟩
    show joinNames (joinPath p.text n) ns = _
    rw [h.joinPath_text hn, ih (h.extend hn) hns.of_cons, Path.extend_extend]
    rfl

/-! ## one walk -/

namespace Search

variable {c : Search} {s : Settings} {t : Tree} {n name : Text} {between : List Text}

theorem takes_nil (h : t.WellNamed) : c.Takes t [] name
    ↔ ∃ leaf, (name, leaf) ∈ t.entries ∧ leaf.isDir = false ∧ c.TakesFile name := by
  constructor
  · rintro ⟨⟨leaf, hfind, hleaf⟩, -, htaken⟩
    obtain ⟨v, hv, hnil⟩ := Tree.find?_cons_eq_some.mp hfind
    rw [Option.some.inj hnil] at hv
    exact ⟨leaf, (Tree.child?_eq_some h.names.1).mp hv, hleaf, htaken⟩
  · rintro ⟨leaf, hmem, hleaf, htaken⟩
    exact ⟨⟨leaf, h.find?_entry hmem, hleaf⟩, by simp, htaken⟩

theorem takes_cons (h : t.WellNamed) : c.Takes t (n :: between) name
    ↔ ∃ u, (n, u) ∈ t.entries ∧ ¬ c.PassesDir n ∧ c.Takes u between name := by
  constructor
  · rintro ⟨⟨leaf, hfind, hleaf⟩, hentered, htaken⟩
    obtain ⟨v, hv, hrest⟩ := Tree.find?_cons_eq_some.mp hfind
    exact ⟨v, (Tree.child?_eq_some h.names.1).mp hv, hentered n mem_cons_self, ⟨leaf, hrest, hleaf⟩,
      fun m hm => hentered m (mem_cons_of_mem n hm), htaken⟩
  · rintro ⟨u, hmem, hn, ⟨leaf, hfind, hleaf⟩, hentered, htaken⟩
    have hu := (Tree.child?_eq_some h.names.1).mpr hmem
    refine ⟨⟨leaf, Tree.find?_cons_eq_some.mpr ⟨u, hu, hfind⟩, hleaf⟩, fun m hm => ?_, htaken⟩
    rcases mem_cons.mp hm with rfl | hm
    · exact hn
    · exact hentered m hm

theorem Takes.isDir (h : c.Takes t between name) : t.isDir := by
  obtain ⟨leaf, hfind, -⟩ := h.there
  obtain ⟨m, ms, hms⟩ : ∃ m ms, between ++ [name] = m :: ms := exists_cons_of_ne_nil (by simp)
  cases hdir : t.isDir with
  | true => rfl
  | false =>
    rw [hms, Tree.find?_cons_of_not_dir hdir] at hfind
    cases hfind

/-- a walk from a path gave the files to take, and did not stop -/
structure Finds (c : Search) (root : Text) (t : Tree) (r : List Text × Option Fault) : Prop where
  whole : r.2 = none
  mem_iff : ∀ path, path ∈ r.1 ↔ ∃ between name, c.Takes t between name
    ∧ path = joinNames root (between ++ [name])

/-- the same for the entries of a directory that are kept -/
structure FindsBelow (c : Search) (root : Text) (kept : List Text) (es : List (Text × Tree))
    (r : List Text × Option Fault) : Prop where
  whole : r.2 = none
  mem_iff : ∀ path, path ∈ r.1 ↔ ∃ e ∈ es, e.1 ∈ kept
    ∧ ∃ between name, c.Takes e.2 between name ∧ path = joinNames root (e.1 :: (between ++ [name]))

theorem Reads.scan_dir (h : c.Reads s) (root : Text) (es : List (Text × Tree)) :
    (Tree.dir es).scan s root =
      (((Tree.fileNames es).filter (fun n => c.TakesFile n)).map (joinPath root)
        ++ (Tree.scanOf s root ((Tree.dirNames es).filter (fun n => ¬ c.PassesDir n)) es).1,
        (Tree.scanOf s root ((Tree.dirNames es).filter (fun n => ¬ c.PassesDir n)) es).2) := by
  have hdirs : keepWhile (fun n => return !(← s.excludesDir n)) (Tree.dirNames es)
      = ((Tree.dirNames es).filter (fun n => ¬ c.PassesDir n), none) := by
    refine keepWhile_eq (fun n => ?_) _
    rw [h.excludesDir, decide_not]
    rfl
  rw [Tree.scan, hdirs, keepWhile_eq h.wantsFile]

theorem mem_dirNames : n ∈ Tree.dirNames es ↔ ∃ u, (n, u) ∈ es ∧ u.isDir := by
  simp [Tree.dirNames]

theorem mem_fileNames : n ∈ Tree.fileNames es ↔ ∃ u, (n, u) ∈ es ∧ u.isDir = false := by
  simp [Tree.fileNames]

theorem Finds.of_not_dir (root : Text) (h : t.isDir = false) : c.Finds root t ([], none) where
  whole := rfl
  mem_iff := by
    intro path
    simp only [not_mem_nil, false_iff]
    rintro ⟨between, name, htakes, -⟩
    cases h.symm.trans htakes.isDir

theorem FindsBelow.finds {inner : List Text × Option Fault} (ht : (Tree.dir es).WellNamed)
    (hinner : c.FindsBelow root ((Tree.dirNames es).filter (fun n => ¬ c.PassesDir n)) es inner) :
    c.Finds root (.dir es) (((Tree.fileNames es).filter (fun n => c.TakesFile n)).map
      (joinPath root) ++ inner.1, inner.2) where
  whole := hinner.whole
  mem_iff := by
    intro path
    rw [mem_append, mem_map, hinner.mem_iff]
    constructor
    · rintro (⟨name, hname, rfl⟩ | ⟨e, he, hkept, between, name, htakes, rfl⟩)
      · obtain ⟨hmem, htaken⟩ := mem_filter.mp hname
        obtain ⟨u, hu, hleaf⟩ := mem_fileNames.mp hmem
        exact ⟨[], name, (takes_nil ht).mpr ⟨u, hu, hleaf, of_decide_eq_true htaken⟩, rfl⟩
      · obtain ⟨-, hpass⟩ := mem_filter.mp hkept
        exact ⟨e.1 :: between, name, (takes_cons ht).mpr ⟨e.2, he, of_decide_eq_true hpass, htakes⟩,
          rfl⟩
    · rintro ⟨between, name, htakes, rfl⟩
      cases between with
      | nil =>
        obtain ⟨u, hu, hleaf, htaken⟩ := (takes_nil ht).mp htakes
        exact .inl ⟨name, mem_filter.mpr ⟨mem_fileNames.mpr ⟨u, hu, hleaf⟩, decide_eq_true htaken⟩,
          rfl⟩
      | cons n between =>
        obtain ⟨u, hu, hpass, hrest⟩ := (takes_cons ht).mp htakes
        refine .inr ⟨(n, u), hu, mem_filter.mpr
          ⟨mem_dirNames.mpr ⟨u, hu, hrest.isDir⟩, decide_eq_true hpass⟩, ?_⟩
        exact ⟨between, name, hrest, rfl⟩

theorem FindsBelow.cons {kept : List Text} {first rest : List Text × Option Fault}
    (hrest : c.FindsBelow root kept es rest) (hfirst : c.Finds (joinPath root n) t first)
    (hn : n ∈ kept) :
    c.FindsBelow root kept ((n, t) :: es) (first.1 ++ rest.1, rest.2) where
  whole := hrest.whole
  mem_iff := by
    intro path
    rw [mem_append, hfirst.mem_iff, hrest.mem_iff, exists_mem_cons_iff]
    simp only [hn, true_and]
    rfl

theorem FindsBelow.skip {kept : List Text} {rest : List Text × Option Fault}
    (hrest : c.FindsBelow root kept es rest) (hskip : n ∈ kept → t.isDir = false) :
    c.FindsBelow root kept ((n, t) :: es) rest where
  whole := hrest.whole
  mem_iff := by
    intro path
    rw [hrest.mem_iff, exists_mem_cons_iff]
    refine (or_iff_right ?_).symm
    rintro ⟨hn, between, name, htakes, -⟩
    cases (hskip hn).symm.trans htakes.isDir

mutual

theorem finds_scan (h : c.Reads s) (t : Tree) (root : Text) (ht : t.WellNamed) :
    c.Finds root t (t.scan s root) := by
  cases t with
  | file content =>
    rw [Tree.scan]
    exact .of_not_dir root rfl
  | device takes =>
    rw [Tree.scan]
    exact .of_not_dir root rfl
  | dir es =>
    rw [h.scan_dir]
    exact (findsBelow_scanOf h es root _ (fun e he => ht.find? (ht.find?_entry he))).finds ht

theorem findsBelow_scanOf (h : c.Reads s) (es : List (Text × Tree)) (root : Text) (kept : List Text)
    (hes : ∀ e ∈ es, e.2.WellNamed) : c.FindsBelow root kept es (Tree.scanOf s root kept es) := by
  match es with
  | [] =>
    rw [Tree.scanOf]
    exact ⟨rfl, by simp⟩
  | (n, t) :: es =>
    have hfirst := finds_scan h t (joinPath root n) (hes (n, t) mem_cons_self)
    have hrest := findsBelow_scanOf h es root kept (fun e he => hes e (mem_cons_of_mem _ he))
    rw [Tree.scanOf]
    split
    · rename_i hkept
      obtain ⟨hdir, hn⟩ := Bool.and_eq_true_iff.mp hkept
      dsimp only
      rw [hfirst.whole]
      exact hrest.cons hfirst (contains_iff_mem.mp hn)
    · rename_i hkept
      refine hrest.skip (fun hn => ?_)
      rw [contains_iff_mem.mpr hn, Bool.and_true] at hkept
      exact Bool.eq_false_of_not_eq_true hkept

end

end Search

/-! ## the whole project -/

theorem Workspace.locate_of_find? {base : Place} {t : Tree} (h : p.Named)
    (hns : GoDown ns) (hbase : w.locate p.text = .ok base)
    (ht : w.tree.find? (base ++ ns) = some t) :
    w.locate (p.extend ns).text = .ok (base ++ ns) := by
  have hview : w.tree.view (base ++ ns) = some t.bare := by rw [Tree.view, ht, Option.map_some]
  rw [locate_extend h hns.named hbase]
  exact Tree.follow_dirs hns (fun ms hms hne => Tree.view_above hview
    ((prefix_append_right_inj base).mpr hms) (fun he => hne (append_cancel_left he)))

theorem Workspace.item?_extend {base : Place} (h : p.Named) (hns : GoDown ns)
    (hbase : w.locate p.text = .ok base) :
    w.item? (p.extend ns).text = w.tree.find? (base ++ ns) := by
  cases ht : w.tree.find? (base ++ ns) with
  | some t => rw [item?_eq (locate_of_find? h hns hbase ht), ht]
  | none =>
    rw [item?, locate_extend h hns.named hbase]
    cases hfollow : w.tree.follow base ns with
    | ok q =>
      -- if it leads anywhere it leads there
      rw [Tree.follow_eq hfollow, Place.foldl_step_eq (fun n hn => ⟨(hns n hn).1, (hns n hn).2.2⟩)]
      exact ht
    | error cause => rfl

theorem Path.join_eq_extend (p : Path) {d : Text} (h : d.head? ≠ some '/') :
    p.join d = p.extend (Path.ofText d).names := by
  have hroot : (Path.ofText d).root = [] := by
    rcases Path.rootOf_cases d with ⟨-, hroot⟩ | ⟨hhead, -⟩
    · exact hroot
    · exact absurd hhead h
  rw [Path.join, Path.append, hroot]
  rfl

theorem mapM_textItem (ts : List Text) :
    (ts.map Value.plain).mapM Settings.textItem = .ok (ts.map (·.map .char)) := by
  induction ts with
  | nil => rfl
  | cons t ts ih =>
    rw [map_cons, mapM_cons, ih]
    rfl

theorem filterMap_whole? (ts : List Text) : (ts.map (·.map .char)).filterMap whole? = ts := by
  rw [filterMap_map, funext (f := whole? ∘ _) whole?_map, filterMap_some]

theorem Job.exec_mapM {α β : Type} {l : List α} {f : α → Job β} {g : α → β}
    (h : ∀ a ∈ l, exec (f a) w = (.ok (g a), w)) : exec (l.mapM f) w = (.ok (l.map g), w) := by
  induction l with
  | nil => rfl
  | cons a l ih =>
    rw [mapM_cons, exec_bind_ok (h a mem_cons_self),
      exec_bind_ok (ih (fun b hb => h b (mem_cons_of_mem a hb)))]
    rfl

namespace Search

/-- the project is there, and the directories to look in are written as paths below it -/
structure Stands (c : Search) (base : Place) (t : Tree) (w : Workspace) : Prop where
  absolute : c.project.head? = some '/'
  place : w.locate (Path.ofText c.project).text = .ok base
  tree : w.tree.find? base = some t
  named : t.WellNamed
  below : ∀ d ∈ c.dirs, d.head? ≠ some '/' ∧ ['.', '.'] ∉ splitAll '/' d

/-- the paths are those of the files that are looked for -/
structure Lists (c : Search) (base : Place) (t : Tree) (w : Workspace) (paths : List Text) :
    Prop where
  increasing : paths.Pairwise (· < ·)
  mem_iff : ∀ path, path ∈ paths ↔ ∃ ns, c.Wants t ns ∧ path = c.pathOf ns
  /-- each path leads to its file -/
  leads : ∀ ns, c.Wants t ns → w.locate (c.pathOf ns) = .ok (base ++ ns)

variable {c : Search} {s : Settings} {base : Place} {t : Tree} {w : Workspace} {ns : List Text}

theorem pathOf_nil (c : Search) : c.pathOf [] = (Path.ofText c.project).text := by
  rw [pathOf, Path.extend, append_nil]

theorem Stands.rooted (h : c.Stands base t w) : (Path.ofText c.project).Rooted := by
  refine ⟨Path.named_ofText c.project, ?_⟩
  rcases Path.rootOf_cases c.project with ⟨hhead, -⟩ | ⟨-, hroot | hroot⟩
  · exact absurd h.absolute hhead
  · exact fun hnil => nomatch hroot.symm.trans hnil
  · exact fun hnil => nomatch hroot.symm.trans hnil

theorem Stands.item? (h : c.Stands base t w) (hns : GoDown ns) :
    w.item? (c.pathOf ns) = t.find? ns := by
  rw [pathOf, Workspace.item?_extend (Path.named_ofText c.project) hns h.place,
    Tree.find?_append, h.tree]
  rfl

theorem Stands.goDown (h : c.Stands base t w) {d : Text} (hd : d ∈ c.dirs) :
    GoDown (Path.ofText d).names := by
  intro n hn
  obtain ⟨hproper, hno⟩ := (Path.named_ofText d).names n hn
  refine ⟨hproper, hno, ?_⟩
  rintro rfl
  exact (h.below d hd).2 (mem_of_mem_filter hn)

theorem Stands.scanPaths (h : c.Stands base t w) (hc : c.Reads s) :
    s.scanPaths w = .ok ((c.roots t).map c.pathOf) := by
  have hpaths : c.dirs.map (fun d => ((Path.ofText c.project).join d).text)
      = (c.dirs.map (fun d => (Path.ofText d).names)).map c.pathOf := by
    rw [map_map]
    refine map_congr_left (fun d hd => ?_)
    rw [Path.join_eq_extend _ (h.below d hd).1]
    rfl
  have hfound : (c.dirs.map (fun d => ((Path.ofText c.project).join d).text)).filter w.exists?
      = ((c.dirs.map (fun d => (Path.ofText d).names)).filter (fun ns => (t.find? ns).isSome)).map
        c.pathOf := by
    rw [hpaths, filter_map]
    refine congrArg (map c.pathOf) (filter_congr (fun ns hns => ?_))
    obtain ⟨d, hd, rfl⟩ := mem_map.mp hns
    rw [Function.comp_apply, Workspace.exists?, h.item? (h.goDown hd)]
  rw [Settings.scanPaths, hc.usable, hc.project]
  show (s.items .scanDirectories >>= fun vs => vs.mapM Settings.textItem >>= fun dirs => _) = _
  rw [hc.dirs]
  show ((c.dirs.map Value.plain).mapM Settings.textItem >>= fun dirs => _) = _
  rw [mapM_textItem]
  show Except.ok (if (filter w.exists? (map _ (filterMap whole? _))).isEmpty then _ else filter
    w.exists? _) = _
  rw [filterMap_whole?, hfound, isEmpty_map, roots]
  split
  · rw [map_singleton, pathOf_nil]
  · rfl

/-- what a walk from one of the directories to look in gives -/
def walk (c : Search) (s : Settings) (t : Tree) (root : List Text) : List Text :=
  match t.find? root with
  | none => []
  | some dir => (dir.scan s (c.pathOf root)).1

theorem goDown_of_mem_roots (h : c.Stands base t w) (hroot : ns ∈ c.roots t) : GoDown ns := by
  unfold roots at hroot
  dsimp only at hroot
  split at hroot
  · rw [mem_singleton.mp hroot]
    exact fun _ hn => nomatch hn
  · obtain ⟨d, hd, rfl⟩ := mem_map.mp (mem_of_mem_filter hroot)
    exact h.goDown hd

theorem Stands.finds (h : c.Stands base t w) (hc : c.Reads s) {dir : Tree}
    (hdir : t.find? ns = some dir) : c.Finds (c.pathOf ns) dir (dir.scan s (c.pathOf ns)) :=
  finds_scan hc dir _ (h.named.find? hdir)

theorem Stands.exec_scanDir (h : c.Stands base t w) (hc : c.Reads s) (hroot : ns ∈ c.roots t) :
    exec (scanDir s (c.pathOf ns)) w = (.ok (c.walk s t ns), w) := by
  unfold scanDir walk
  rw [exec_bind_ok (exec_get w), h.item? (goDown_of_mem_roots h hroot)]
  cases hdir : t.find? ns with
  | none => rfl
  | some dir =>
    have hwhole := (h.finds hc hdir).whole
    dsimp only
    generalize dir.scan s (c.pathOf ns) = r at hwhole
    obtain ⟨found, stopped⟩ := r
    cases hwhole
    rfl

theorem Stands.mem_walk (h : c.Stands base t w) (hc : c.Reads s) (hroot : ns ∈ c.roots t)
    {path : Text} :
    path ∈ c.walk s t ns ↔ ∃ between name,
      (∃ leaf, t.find? (ns ++ (between ++ [name])) = some leaf ∧ leaf.isDir = false)
      ∧ (∀ n ∈ between, ¬ c.PassesDir n) ∧ c.TakesFile name
        ∧ path = c.pathOf (ns ++ (between ++ [name])) := by
  unfold walk
  cases hdir : t.find? ns with
  | none => simp [Tree.find?_append, hdir]
  | some dir =>
    dsimp only
    rw [(h.finds hc hdir).mem_iff]
    have hpath : ∀ {between name leaf}, dir.find? (between ++ [name]) = some leaf →
        joinNames (c.pathOf ns) (between ++ [name]) = c.pathOf (ns ++ (between ++ [name])) := by
      intro between name leaf hleaf
      have hrooted := h.rooted.extend (goDown_of_mem_roots h hroot)
      rw [pathOf, hrooted.joinNames_text ((h.named.find? hdir).goDown hleaf), Path.extend_extend]
      rfl
    refine exists_congr (fun between => exists_congr (fun name => ?_))
    rw [Tree.find?_append, hdir]
    constructor
    · rintro ⟨⟨⟨leaf, hfind, hleaf⟩, hentered, htaken⟩, rfl⟩
      exact ⟨⟨leaf, hfind, hleaf⟩, hentered, htaken, hpath hfind⟩
    · rintro ⟨⟨leaf, hfind, hleaf⟩, hentered, htaken, rfl⟩
      exact ⟨⟨⟨leaf, hfind, hleaf⟩, hentered, htaken⟩, (hpath hfind).symm⟩

/-- a fresh scanner gives the paths of exactly the files that are looked for, in order and each
once -/
theorem scan_lists (hc : c.Reads s) (h : c.Stands base t w) :
    Gives (Scanner.fresh.scan s) w (fun r u => u = w ∧ c.Lists base t w r.1) := by
  have hscan : exec (scanProject s) w
      = (.ok (sortedSet ((c.roots t).map (c.walk s t)).flatten), w) := by
    unfold scanProject
    rw [exec_bind_ok (exec_get w), exec_bind_ok (a := (c.roots t).map c.pathOf) (u := w) (by
      rw [exec_lift, h.scanPaths hc]), mapM_map]
    exact exec_bind_ok (exec_mapM (fun ns hns => h.exec_scanDir hc hns)) _
  refine ⟨_, w, exec_bind_ok hscan _, rfl, pairwise_sortedSet _, fun path => ?_, fun ns hns => ?_⟩
  · rw [mem_sortedSet, mem_flatten]
    constructor
    · rintro ⟨paths, hpaths, hpath⟩
      obtain ⟨root, hroot, rfl⟩ := mem_map.mp hpaths
      obtain ⟨between, name, hthere, hentered, htaken, rfl⟩ := (h.mem_walk hc hroot).mp hpath
      exact ⟨_, ⟨root, hroot, between, name, rfl, hthere, hentered, htaken⟩, rfl⟩
    · rintro ⟨_, ⟨root, hroot, between, name, rfl, hthere, hentered, htaken⟩, rfl⟩
      exact ⟨_, mem_map_of_mem hroot, (h.mem_walk hc hroot).mpr
        ⟨between, name, hthere, hentered, htaken, rfl⟩⟩
  · obtain ⟨_, -, _, _, -, ⟨leaf, hleaf, -⟩, -, -⟩ := hns
    refine Workspace.locate_of_find? (Path.named_ofText c.project) (h.named.goDown hleaf) h.place
      (t := leaf) ?_
    rw [Tree.find?_append, h.tree]
    exact hleaf

end Search

/-! ## what any scan comes to -/

theorem Workspace.item?_congr (hhere : u.here = w.here) (htree : u.tree = w.tree) (path : Text) :
    u.item? path = w.item? path := by
  unfold Workspace.item? Workspace.locate
  rw [hhere, htree]

/-- what the walk from a written path finds -/
def Workspace.walked (w : Workspace) (s : Settings) (root : Text) : List Text :=
  match w.item? root with
  | none => []
  | some t => (t.scan s root).1

def Workspace.found (w : Workspace) (s : Settings) : Except Fault (List Text) :=
  (s.scanPaths w).map (fun roots => sortedSet (roots.map (w.walked s)).flatten)

theorem Workspace.walked_congr (hhere : u.here = w.here) (htree : u.tree = w.tree) (s : Settings)
    (root : Text) : u.walked s root = w.walked s root := by
  rw [Workspace.walked, Workspace.walked, Workspace.item?_congr hhere htree]

theorem Workspace.found_congr (hhere : u.here = w.here) (htree : u.tree = w.tree) (s : Settings) :
    u.found s = w.found s := by
  have hexists : u.exists? = w.exists? := by
    funext path
    rw [Workspace.exists?, Workspace.exists?, Workspace.item?_congr hhere htree]
  have hwalked : u.walked s = w.walked s := funext (Workspace.walked_congr hhere htree s)
  rw [Workspace.found, Workspace.found, hwalked, Settings.scanPaths, Settings.scanPaths, hexists]

theorem exec_scanDir (s : Settings) (root : Text) (w : Workspace) :
    ∃ u, exec (scanDir s root) w = (.ok (w.walked s root), u) ∧ u.here = w.here
      ∧ u.tree = w.tree := by
  unfold scanDir Workspace.walked
  rw [exec_bind_ok (exec_get w)]
  cases w.item? root with
  | none => exact ⟨w, rfl, rfl, rfl⟩
  | some t =>
    dsimp only
    cases (t.scan s root).2 with
    | none => exact ⟨w, rfl, rfl, rfl⟩
    | some e => exact ⟨_, rfl, rfl, rfl⟩

theorem exec_scanProject (s : Settings) (w : Workspace) :
    ∃ u, exec (scanProject s) w = (w.found s, u) ∧ u.here = w.here ∧ u.tree = w.tree := by
  have hwalks : ∀ (roots : List Text) (v : Workspace), v.here = w.here → v.tree = w.tree →
      ∃ u, exec (roots.mapM (scanDir s)) v = (.ok (roots.map (w.walked s)), u) ∧ u.here = w.here
        ∧ u.tree = w.tree := by
    intro roots
    induction roots with
    | nil => exact fun v hhere htree => ⟨v, rfl, hhere, htree⟩
    | cons root roots ih =>
      intro v hhere htree
      obtain ⟨v₁, hfirst, hhere₁, htree₁⟩ := exec_scanDir s root v
      obtain ⟨u, hrest, hu⟩ := ih v₁ (hhere₁.trans hhere) (htree₁.trans htree)
      refine ⟨u, ?_, hu⟩
      rw [mapM_cons, exec_bind_ok hfirst, exec_bind_ok hrest, Workspace.walked_congr hhere htree]
      rfl
  unfold scanProject Workspace.found
  rw [exec_bind_ok (exec_get w), exec_bind, exec_lift]
  cases s.scanPaths w with
  | error e => exact ⟨w, rfl, rfl, rfl⟩
  | ok roots =>
    obtain ⟨u, hroots, hu⟩ := hwalks roots w rfl rfl
    exact ⟨u, exec_bind_ok hroots _, hu⟩

/-- a project with a directory of made sources -/
def nestedTree : Tree :=
  .dir [("app", .dir [("A.java", .file .empty), ("R.java", .file .empty),
    ("build", .dir [("B.java", .file .empty), ("notes.txt", .file .empty)])])]

def nested : Workspace where
  tree := .dir [("p", nestedTree)]
  here := []
  now := ⟨2024, 1, 1, 0, 0, 0, 0⟩
  output := []
  complaints := []

namespace Search

/-- the sources of `nested` and those that are made from them, although directories called `build`
are passed over -/
def inNested : Search where
  project := "/p"
  dirs := ["app", "app/build"]
  endings := [".java"]
  passedDirs := ["build", ".gradle", ".idea", "bin", "gen"]
  passedFiles := ["R.java", "BuildConfig.java"]

def nestedSettings : Settings :=
  (Settings.default "/p").put .scanDirectories (Settings.textList ["app", "app/build"])

theorem stands_inNested : inNested.Stands ["p"] nestedTree nested where
  absolute := rfl
  place := by decide +kernel
  tree := rfl
  named := by
    have hbuild : Tree.WellNamed (.dir [("B.java", .file .empty), ("notes.txt", .file .empty)]) :=
      Tree.wellNamed_iff.mpr ⟨by decide, by simp [Tree.entries, Tree.wellNamed_file]⟩
    refine Tree.wellNamed_iff.mpr ⟨by decide, ?_⟩
    simp only [nestedTree, Tree.entries, forall_mem_singleton]
    refine Tree.wellNamed_iff.mpr ⟨by decide, ?_⟩
    simp only [Tree.entries, forall_mem_cons, Tree.wellNamed_file, hbuild, not_mem_nil, and_true,
      IsEmpty.forall_iff, implies_true]
  below := by decide

/-- a file is found from the one directory that the walk from the other passes over -/
theorem scan_lists_inNested : Gives (Scanner.fresh.scan nestedSettings) nested (fun r u =>
    u = nested ∧ inNested.Lists ["p"] nestedTree nested r.1 ∧ "/p/app/build/B.java".toList
      ∈ r.1) := by
  have hreads : inNested.Reads nestedSettings := ⟨rfl, rfl, rfl, rfl, rfl, rfl⟩
  have hwants : inNested.Wants nestedTree ["app", "build", "B.java"] :=
    ⟨["app", "build"], by decide +kernel, [], "B.java", rfl, ⟨_, rfl, rfl⟩, by decide, by decide⟩
  refine (scan_lists hreads stands_inNested).mono (fun r u ⟨hu, hlists⟩ => ⟨hu, hlists, ?_⟩)
  exact (hlists.mem_iff _).mpr ⟨_, hwants, by decide +kernel⟩

end Search

end Rebind
