import Mathlib
import Rebind.Project.Writer
import Rebind.Proofs.Project.View

/-!
# The backup directory mirrors the project

The backup of a file stands at the place it has in the project, below the backup directory.  As long
as files are written whose paths stay in the project and out of the backup directory, what stands in
the backup directory stands in the project as well, a file for a file and a directory for a
directory (`Writer.Mirrored`): so every backup finds its directories, and takes the place of an
older backup of the same file only.

* `Writer.Saves`, `Writer.gives_saving`: what one call of a writer does;
* `Writer.Trail`, `Writer.gives_writeAll`: what many calls leave behind;
* `Writer.gives_restore`: what a restored file is.
-/

namespace Rebind

open List Job

variable {old : ByteArray} {p q : Place} {a b : Text} {t u : Tree}

theorem Workspace.Frame.view {S : Place → Prop} {w u : Workspace} (h : w.Frame S u)
    (ht : w.tree.view p = some t) : ∃ t', u.tree.view p = some t' ∧ t'.SameKind t := by
  have hbare : ∀ a b : Tree, a.SameKind b → a.bare.SameKind b.bare := by
    intro a b hab
    cases a <;> cases b <;> simp_all [Tree.SameKind, Tree.bare]
  obtain ⟨t₀, ht₀, rfl⟩ := Option.map_eq_some_iff.mp ht
  obtain ⟨t', ht', hkind, -⟩ := h.kept p t₀ ht₀
  exact ⟨t'.bare, by rw [Tree.view, ht', Option.map_some], hbare t' t₀ hkind⟩

theorem Tree.SameKind.symm (h : t.SameKind u) : u.SameKind t := by
  cases t <;> cases u <;> simp_all [Tree.SameKind]

theorem Tree.view_of_sameKind_dir (h : t.view p = some u) (hdir : u.SameKind (.dir [])) :
    t.view p = some (.dir []) := by
  obtain ⟨v, hv, rfl⟩ := Option.map_eq_some_iff.mp h
  cases v with
  | dir es => exact h
  | _ => cases hdir

theorem Tree.view_of_sameKind_file (h : t.view p = some u)
    (hfile : u.SameKind (.file old)) : ∃ new, t.view p = some (.file new) := by
  obtain ⟨new, rfl⟩ := hfile.file
  exact ⟨new, h⟩

theorem Path.rootOf_joinPath (hb : b.head? ≠ some '/') : rootOf (joinPath a b) = rootOf a := by
  have hstop : ∀ c : Text, c.head? ≠ some '/' → c.takeWhile (· == '/') = [] := by
    intro c hc
    cases c with
    | nil => rfl
    | cons x c => exact takeWhile_cons_of_neg (by simpa using hc)
  have hlead : (joinPath a b).takeWhile (· == '/') = a.takeWhile (· == '/') := by
    unfold joinPath
    rw [if_neg hb]
    by_cases hall : (a.takeWhile (· == '/')).length = a.length
    · -- slashes only: the second path follows them directly
      have hslashes : a.takeWhile (· == '/') = a := (List.takeWhile_prefix _).eq_of_length hall
      have hend : (a.isEmpty || decide (a.getLast? = some '/')) := by
        cases hlast : a.getLast? with
        | none => simp [getLast?_eq_none_iff.mp hlast]
        | some c =>
          have hc := mem_takeWhile_imp (hslashes.symm ▸ mem_of_getLast? hlast)
          simpa using .inr (beq_iff_eq.mp hc)
      rw [if_pos hend, takeWhile_append, if_pos hall, hstop b hb, append_nil, hslashes]
    · split
      · rw [takeWhile_append, if_neg hall]
      · rw [takeWhile_append, if_neg hall]
  rw [rootOf, rootOf, hlead]

theorem Path.names_joinPath (hb : b.head? ≠ some '/') :
    (ofText (joinPath a b)).names = (ofText a).names ++ (ofText b).names := by
  have hsplit : ∀ x : Text, (splitAll '/' (x ++ '/' :: b)).filter isProper = (ofText x).names
      ++ (ofText b).names := by
    intro x
    rw [splitAll_append, filter_append]
    rfl
  unfold joinPath
  rw [if_neg hb]
  split
  · rename_i ha
    rcases Bool.or_eq_true_iff.mp ha with hnil | hlast
    · rw [isEmpty_iff.mp hnil]
      rfl
    · -- the slash at the end of the first path divides them
      obtain ⟨x, rfl⟩ := getLast?_eq_some_iff.mp (of_decide_eq_true hlast)
      have hx : (ofText (x ++ ['/'])).names = (ofText x).names := by
        show (splitAll '/' (x ++ '/' :: [])).filter isProper = _
        rw [splitAll_append, filter_append]
        exact append_nil _
      rw [hx, append_assoc]
      exact hsplit x
  · exact hsplit a

theorem Path.ofText_joinPath (hb : b.head? ≠ some '/') :
    Path.ofText (joinPath a b) = (Path.ofText a).extend (Path.ofText b).names := by
  rw [Path.extend, ← names_joinPath hb, Path.mk.injEq]
  exact ⟨rootOf_joinPath hb, rfl⟩

namespace Writer

def backupName : Text := "butterknife_backup"

abbrev backupAt (base : Place) (ns : List Text) : Place := base ++ backupName :: ns

theorem backupDir_extend (project : Text) :
    backupDir project = (Path.ofText project).extend [backupName] :=
  backupDir_eq project

theorem backupPath_extend (project path : Text) : backupPath (backupDir project) project path
    = (Path.ofText project).extend (backupName :: below project path) := by
  rw [backupPath_eq, backupDir_extend, Path.extend, Path.extend]
  dsimp only
  rw [append_assoc]
  rfl

/-- the path is that of the project, continued by names that stay in it and out of the backup
directory -/
structure Inner (project path : Text) : Prop where
  continues : Path.ofText path = (Path.ofText project).extend (below project path)
  level : ['.', '.'] ∉ below project path
  outside : (below project path).head? ≠ some backupName

theorem inner_joinPath {project rel : Text} (hrel : rel.head? ≠ some '/')
    (hlevel : ['.', '.'] ∉ splitAll '/' rel)
    (houtside : (Path.ofText rel).names.head? ≠ some backupName) :
    Inner project (joinPath project rel) := by
  have hpath := Path.ofText_joinPath (a := project) hrel
  have hrelative : (Path.ofText (joinPath project rel)).relativeTo? (Path.ofText project)
      = some ⟨[], (Path.ofText rel).names⟩ := by
    rw [hpath]
    exact Path.relativeTo?_append _ ⟨[], (Path.ofText rel).names⟩ rfl
  have hbelow : below project (joinPath project rel) = (Path.ofText rel).names := by
    rw [below, hrelative]
  rw [← hbelow] at hpath houtside
  refine ⟨hpath, fun hup => hlevel ?_, houtside⟩
  rw [hbelow] at hup
  exact mem_of_mem_filter hup

/-- the project stands at `base`, and what stands in its backup directory stands in the project
too -/
structure Mirrored (project : Text) (base : Place) (w : Workspace) : Prop where
  found : w.locate (Path.ofText project).text = .ok base
  dir : w.tree.view base = some (.dir [])
  mirror : ∀ ns t, w.tree.view (backupAt base ns) = some t → ∃ t', w.tree.view (base ++ ns)
    = some t' ∧ t'.SameKind t

section
variable {s : Settings} {project path : Text} {base : Place} {ns : List Text} {w u v : Workspace}
  {wr : Writer}

theorem Inner.goDown (h : Inner project path) : GoDown (below project path) := by
  intro n hn
  obtain ⟨hproper, hno⟩ := named_below project path n hn
  exact ⟨hproper, hno, fun hup => h.level (hup ▸ hn)⟩

theorem goDown_backup (h : GoDown ns) : GoDown (backupName :: ns) := by
  intro n hn
  rcases mem_cons.mp hn with rfl | hn
  · exact ⟨by decide, by decide, by decide⟩
  · exact h n hn

theorem Inner.locate (h : Inner project path) (hbase : w.locate (Path.ofText project).text
    = .ok base) (hq : w.locate path = .ok q) : q = base ++ below project path := by
  have hnormal := Workspace.locate_ofText hq
  rw [h.continues, Workspace.locate_extend (Path.named_ofText project) h.goDown.named hbase]
    at hnormal
  rw [Tree.follow_eq hnormal]
  exact Place.foldl_step_eq (fun n hn => ⟨(h.goDown n hn).1, (h.goDown n hn).2.2⟩) base

theorem backupAt_ne (h : ns.head? ≠ some backupName) (ms : List Text) :
    base ++ ns ≠ backupAt base ms := by
  intro he
  apply h
  rw [append_cancel_left he]
  rfl

theorem backupAt_mono {ms : List Text} (h : ms <+: ns) : backupAt base ms <+: backupAt base ns :=
  (prefix_append_right_inj base).mpr (cons_prefix_cons.mpr ⟨rfl, h⟩)

theorem backupAt_inj {ms : List Text} (h : backupAt base ms = backupAt base ns) : ms = ns :=
  (List.cons.inj (append_cancel_left h)).2

/-! ## one call -/

/-- from `w` to `u` the file at names was written, and before that its bytes were put in its
backup -/
structure Saves (base : Place) (ns : List Text) (w u : Workspace) : Prop where
  frame : w.Frame (fun _ => True) u
  saved : ∃ old new, w.tree.view (base ++ ns) = some (.file old) ∧ u.tree.view (base ++ ns)
    = some (.file new) ∧ u.tree.view (backupAt base ns) = some (.file old)
  made : ∀ ms, ms <+: ns → ms ≠ ns → u.tree.view (backupAt base ms) = some (.dir [])
  kept : ∀ p, p ≠ base ++ ns → (∀ ms, ms <+: ns → p ≠ backupAt base ms)
    → u.tree.view p = w.tree.view p

/-- the way to the backup of a file is clear, and what stands at its end is an older backup -/
theorem Mirrored.clear (h : Mirrored project base w)
    (hfile : w.tree.view (base ++ ns) = some (.file old)) :
    (∀ ms, ms <+: ns → ms ≠ ns → w.tree.Clear base (backupName :: ms))
      ∧ (w.tree.view (backupAt base ns) = none ∨ ∃ c, w.tree.view (backupAt base ns)
        = some (.file c)) := by
  constructor
  · intro ms hms hne ls hls
    cases ls with
    | nil => exact .inl (by rw [append_nil]; exact h.dir)
    | cons l ls =>
      obtain ⟨rfl, hle⟩ := cons_prefix_cons.mp hls
      cases hview : w.tree.view (backupAt base ls) with
      | none => exact .inr rfl
      | some t =>
        -- a directory stands there in the project, since the file is below it
        obtain ⟨t', ht', hkind⟩ := h.mirror ls t hview
        have hlt : ls ≠ ns := by
          rintro rfl
          exact hne (hms.eq_of_length (le_antisymm hms.length_le hle.length_le))
        have habove := Tree.view_above hfile ((prefix_append_right_inj base).mpr (hle.trans hms))
          (fun he => hlt (append_cancel_left he))
        rw [Option.some.inj (ht'.symm.trans habove)] at hkind
        exact .inl (hview.symm.trans (Tree.view_of_sameKind_dir hview hkind.symm))
  · cases hview : w.tree.view (backupAt base ns) with
    | none => exact .inl rfl
    | some t =>
      obtain ⟨t', ht', hkind⟩ := h.mirror ns t hview
      rw [Option.some.inj (ht'.symm.trans hfile)] at hkind
      obtain ⟨c, hc⟩ := Tree.view_of_sameKind_file hview hkind.symm
      exact .inr ⟨c, hview.symm.trans hc⟩

/-- from `w` to `v` the file at names was copied to its backup -/
structure Copies (base : Place) (ns : List Text) (old : ByteArray) (w v : Workspace) : Prop where
  frame : w.Frame (fun _ => True) v
  copied : v.tree.view (backupAt base ns) = some (.file old)
  made : ∀ ms, ms <+: ns → ms ≠ ns → v.tree.view (backupAt base ms) = some (.dir [])
  kept : ∀ p, (∀ ms, ms <+: ns → p ≠ backupAt base ms) → v.tree.view p = w.tree.view p

theorem locate_backup (hfound : w.locate (Path.ofText project).text = .ok base) (hdown : GoDown ns)
    (hbase : w.tree.view base = some (.dir []))
    (hdirs : ∀ ms, ms <+: ns → ms ≠ ns → w.tree.view (backupAt base ms) = some (.dir [])) :
    w.locate ((Path.ofText project).extend (backupName :: ns)).text = .ok (backupAt base ns) := by
  rw [Workspace.locate_extend (Path.named_ofText project) (goDown_backup hdown).named hfound]
  refine Tree.follow_dirs (goDown_backup hdown) (fun ms hms hne => ?_)
  cases ms with
  | nil => simpa using hbase
  | cons m ms =>
    obtain ⟨rfl, hrest⟩ := cons_prefix_cons.mp hms
    exact hdirs ms hrest (fun he => hne (by rw [he]))

/-- from `w` to `v` the directories above the backup of the file at names were made -/
structure Opened (base : Place) (ns : List Text) (w v : Workspace) : Prop where
  frame : w.Frame (fun _ => True) v
  made : ∀ ms, ms <+: ns → ms ≠ ns → v.tree.view (backupAt base ms) = some (.dir [])
  kept : ∀ p, (∀ ms, ms <+: ns → ms ≠ ns → p ≠ backupAt base ms) → v.tree.view p = w.tree.view p

theorem gives_opened (hm : Mirrored project base w) (hin : Inner project path)
    (hfile : w.tree.view (base ++ below project path) = some (.file old)) :
    Gives (makeDirs (backupPath (backupDir project) project path).parent) w
      (fun _ v => Opened base (below project path) w v) := by
  have hne : below project path ≠ [] := by
    intro hnil
    rw [hnil, append_nil, hm.dir] at hfile
    cases hfile
  have hdown := hin.goDown
  rw [backupPath_extend]
  generalize below project path = ns at *
  obtain ⟨ms, n, rfl⟩ : ∃ ms n, ns = ms ++ [n] := ⟨_, _, (dropLast_append_getLast hne).symm⟩
  have hms : ms <+: ms ++ [n] := prefix_append ms [n]
  have hparent : ((Path.ofText project).extend (backupName :: (ms ++ [n]))).parent
      = (Path.ofText project).extend (backupName :: ms) := Path.extend_parent _ (backupName :: ms) n
  have hclear := (hm.clear hfile).1 ms hms (ne_concat prefix_rfl n)
  rw [hparent]
  obtain ⟨_, v, hv, hopens⟩ :=
    makes_dirs (Path.named_ofText project) (goDown_backup (hdown.of_prefix hms)) hm.found
    hm.dir hclear
  obtain ⟨hmade, hkept⟩ := hopens.of_cons hm.dir
  refine ⟨(), v, hv, (frames_makeDirs _).of_exec hv, fun ls hls hne => ?_, fun p hp => hkept p
    (fun ls hls => ?_)⟩
  · exact hmade ls ((prefix_concat_iff.mp hls).resolve_left hne)
  · exact hp ls (hls.trans hms) (ne_concat hls n)

theorem Opened.free (h : Opened base ns w v) (hm : Mirrored project base w) (hdown : GoDown ns)
    (hfile : w.tree.view (base ++ ns) = some (.file old)) :
    v.locate ((Path.ofText project).extend (backupName :: ns)).text = .ok (backupAt base ns)
      ∧ (v.tree.view (backupAt base ns) = none ∨ ∃ c, v.tree.view (backupAt base ns)
        = some (.file c)) := by
  refine ⟨locate_backup (h.frame.locate hm.found) hdown ?_ h.made, ?_⟩
  · rw [h.kept base (by simp), hm.dir]
  · rw [h.kept _ (fun ms _ hne he => hne (backupAt_inj he).symm)]
    exact (hm.clear hfile).2

theorem Opened.copies (h : Opened base ns w v) (hreach : v.tree.Reaches (backupAt base ns))
    (hfree : v.tree.view (backupAt base ns) = none ∨ ∃ c, v.tree.view (backupAt base ns)
      = some (.file c)) :
    Copies base ns old w (v.stored (backupAt base ns) (.file old)) := by
  have hview := Workspace.view_stored_file old hreach hfree
  refine ⟨h.frame.trans (Workspace.frame_stored_file hreach hfree), ?_, fun ms hms hne => ?_,
    fun p hp => ?_⟩
  · rw [hview, if_pos rfl]
  · rw [hview, if_neg (fun he => hne (backupAt_inj he))]
    exact h.made ms hms hne
  · rw [hview, if_neg (hp _ prefix_rfl)]
    exact h.kept p (fun ms hms _ => hp ms hms)

theorem gives_makeBackup (hproject : s.project = .ok project) (hm : Mirrored project base w)
    (hin : Inner project path) (hq : w.locate path = .ok (base ++ below project path))
    (hfile : w.tree.view (base ++ below project path) = some (.file old)) :
    Gives (makeBackup (backupDir project) s path) w
      (fun _ v => Copies base (below project path) old w v) := by
  unfold makeBackup
  refine gives_bind_of_exec (a := project) (u := w) (by rw [exec_lift, hproject]) ?_
  dsimp only
  refine (gives_opened hm hin hfile).bind (fun _ v hopened => ?_)
  obtain ⟨htarget, hfree⟩ := hopened.free hm hin.goDown hfile
  -- the file itself is still what it was
  have hsource : v.tree.view (base ++ below project path) = some (.file old) := by
    rw [hopened.kept _ (fun ms _ _ => backupAt_ne hin.outside ms), hfile]
  rw [backupPath_extend]
  refine gives_bind_of_exec (exec_copy _ (hopened.frame.locate hq) hsource htarget hfree
    (backupAt_ne hin.outside _)) (gives_pure ?_)
  exact hopened.copies (Workspace.reaches_of_locate htarget) hfree

/-- the bytes a call leaves in a file: what is no text empties it -/
def written : Value → ByteArray
  | .text t => bytesOf t
  | _ => bytesOf []

theorem exec_replace (hq : w.locate path = .ok q) (hold : w.tree.view q = some (.file old))
    (content : Value) :
    (exec (replace path content) w).2 = w.stored q (.file (written content)) := by
  have hwrite : ∀ t, exec (writeText path t) w = (.ok (), w.stored q (.file (bytesOf t))) :=
    fun t =>
    exec_writeBytes hq (Tree.view_eq_file.mp hold)
  cases content with
  | text t =>
    rw [replace, hwrite]
    rfl
  | _ => exact congrArg Prod.snd (exec_bind_ok (hwrite []) _)

theorem gives_overwriting {R : Writer → Workspace → Prop}
    (hon : (s.value .backupEnabled).truthy) (hq : w.locate path = .ok q)
    (hold : w.tree.find? q = some (.file old)) (hbackUp : Gives (wr.backUp s path) w R)
    (hframe : ∀ wr' v, R wr' v → w.Frame (fun _ => True) v) (content : Value) :
    Gives (wr.write s path content) w (fun r u => ∃ wr' v, R wr' v ∧ r.2.backup = wr'.backup
      ∧ u.here = v.here
      ∧ u.tree = (v.stored q (.file (written content))).tree ∧ v.output <:+ u.output) := by
  have hthere : w.exists? (Path.ofText path).text := by
    rw [Workspace.exists?, Workspace.item?_eq (Workspace.locate_ofText hq), hold]
    rfl
  unfold write
  refine gives_bind_of_exec (a := true) (u := w) (by rw [← hthere]; rfl) ?_
  simp only [Bool.not_true, Bool.false_eq_true, if_false, hon, if_true]
  refine hbackUp.bind (fun wr' v hR => ?_)
  obtain ⟨bytes, hbytes⟩ := (hframe wr' v hR).file hold
  refine gives_bind_of_exec (exec_outcome _ v) ?_
  rw [exec_replace ((hframe wr' v hR).locate hq) (Tree.view_eq_file.mpr hbytes) content]
  cases (exec (replace path content) v).1 with
  | ok _ => exact ⟨_, _, rfl, wr', v, hR, rfl, rfl, rfl, suffix_rfl⟩
  | error e => exact ⟨_, _, rfl, wr', v, hR, rfl, rfl, rfl, suffix_cons _ _⟩

theorem gives_copies (hproject : s.project = .ok project)
    (hwr : wr.backup = some (backupDir project))
    (hm : Mirrored project base w) (hin : Inner project path)
    (hq : w.locate path = .ok (base ++ below project path))
    (hfile : w.tree.view (base ++ below project path) = some (.file old)) :
    Gives (wr.backUp s path) w (fun wr' v =>
      wr'.backup = some (backupDir project) ∧ Copies base (below project path) old w v) := by
  obtain ⟨target, v, hv, hcopies⟩ := gives_makeBackup hproject hm hin hq hfile
  unfold backUp
  rw [hwr]
  refine gives_bind_of_exec (exec_outcome _ w) ?_
  rw [hv]
  exact ⟨_, v, rfl, hwr, hcopies⟩

theorem Copies.saves {new : ByteArray} (h : Copies base ns old w v)
    (houtside : ns.head? ≠ some backupName)
    (hfile : w.tree.view (base ++ ns) = some (.file old)) (hhere : u.here = v.here)
    (htree : u.tree = (v.stored (base ++ ns) (.file new)).tree) : Saves base ns w u := by
  have hsame : v.tree.view (base ++ ns) = some (.file old) := by
    rw [h.kept _ (fun ms _ => backupAt_ne houtside ms), hfile]
  have hreach : v.tree.Reaches (base ++ ns) := Tree.reaches_of_find? (Tree.view_eq_file.mp hsame)
  have hview := Workspace.view_stored_file new hreach (.inr ⟨old, hsame⟩)
  rw [← htree] at hview
  refine ⟨?_, ⟨old, new, hfile, ?_, ?_⟩, fun ms hms hne => ?_, fun p hp hbackup => ?_⟩
  · exact h.frame.trans ((Workspace.frame_stored_file hreach (.inr ⟨old, hsame⟩)).trans
      (Workspace.frame_of_eq hhere htree))
  · rw [hview, if_pos rfl]
  · rw [hview, if_neg (backupAt_ne houtside _).symm, h.copied]
  · rw [hview, if_neg (backupAt_ne houtside _).symm, h.made ms hms hne]
  · rw [hview, if_neg hp, h.kept p hbackup]

theorem gives_saving (hproject : s.project = .ok project) (hon : (s.value .backupEnabled).truthy)
    (hwr : wr.backup = some (backupDir project)) (hm : Mirrored project base w)
    (hin : Inner project path) (hfile : w.isFile path) (content : Value) :
    Gives (wr.write s path content) w (fun r u =>
      r.2.backup = some (backupDir project) ∧ Saves base (below project path) w u) := by
  obtain ⟨q, old, hq, hold⟩ := Workspace.isFile_iff.mp hfile
  obtain rfl := hin.locate hm.found hq
  have hview : w.tree.view (base ++ below project path) = some (.file old) :=
    Tree.view_eq_file.mpr hold
  refine (gives_overwriting hon hq hold (gives_copies hproject hwr hm hin hq hview)
    (fun _ _ h => h.2.frame) content).mono ?_
  rintro r u ⟨wr', v, ⟨hwr', hcopies⟩, hbackup, hhere, htree, -⟩
  exact ⟨hbackup.trans hwr', hcopies.saves hin.outside hview hhere htree⟩

theorem Saves.mirrored (h : Saves base ns w u) (hm : Mirrored project base w)
    (houtside : ns.head? ≠ some backupName) :
    Mirrored project base u where
  found := h.frame.locate hm.found
  dir := by
    obtain ⟨t, ht, hkind⟩ := h.frame.view hm.dir
    exact Tree.view_of_sameKind_dir ht hkind
  mirror := by
    intro ms t ht
    obtain ⟨old, new, -, hnew, hold⟩ := h.saved
    by_cases hms : ms <+: ns
    · by_cases hne : ms = ns
      · subst hne
        rw [hold] at ht
        rw [← Option.some.inj ht]
        exact ⟨_, hnew, trivial⟩
      · rw [h.made ms hms hne] at ht
        rw [← Option.some.inj ht]
        exact ⟨_, Tree.view_above hnew ((prefix_append_right_inj base).mpr hms)
          (fun he => hne (append_cancel_left he)), trivial⟩
    · rw [h.kept _ (backupAt_ne houtside ms).symm (fun ls hls he =>
        hms (backupAt_inj he ▸ hls))] at ht
      obtain ⟨t', ht', hkind⟩ := hm.mirror ms t ht
      obtain ⟨t'', ht'', hkind'⟩ := h.frame.view ht'
      exact ⟨t'', ht'', hkind'.trans hkind⟩

/-! ## many calls -/

/-- from `w` to `u` the files at the names of a list were written, each any number of times: no
other file of the project changed, and no other file lost its backup -/
structure Trail (base : Place) (l : List (List Text)) (w u : Workspace) : Prop where
  frame : w.Frame (fun _ => True) u
  kept : ∀ p, ¬ backupAt base [] <+: p → (∀ ns ∈ l, p ≠ base ++ ns) → u.tree.view p = w.tree.view p
  backups : ∀ ns content, ns ∉ l → w.tree.view (backupAt base ns) = some (.file content) →
    u.tree.view (backupAt base ns) = some (.file content)

theorem Trail.of_eq {l : List (List Text)} (hhere : u.here = w.here) (htree : u.tree = w.tree) :
    Trail base l w u where
  frame := Workspace.frame_of_eq hhere htree
  kept := fun _ _ _ => by rw [htree]
  backups := fun _ _ _ h => by rw [htree]; exact h

theorem Trail.trans {l l' : List (List Text)} (h : Trail base l w v) (h' : Trail base l' v u) :
    Trail base (l ++ l') w u where
  frame := h.frame.trans h'.frame
  kept := by
    intro p hp hl
    rw [h'.kept p hp (fun ns hns => hl ns (mem_append_right l hns)),
      h.kept p hp (fun ns hns => hl ns (mem_append_left l' hns))]
  backups := by
    intro ns content hns hback
    obtain ⟨hl, hl'⟩ := not_or.mp (fun hor => hns (mem_append.mpr hor))
    exact h'.backups ns content hl' (h.backups ns content hl hback)

theorem Saves.trail (h : Saves base ns w u) (hm : Mirrored project base w)
    (houtside : ns.head? ≠ some backupName) :
    Trail base [ns] w u where
  frame := h.frame
  kept := by
    intro p hp hl
    refine h.kept p (hl ns mem_cons_self) (fun ms _ he => hp ?_)
    rw [he]
    exact backupAt_mono nil_prefix
  backups := by
    intro ms content hms hback
    rw [h.kept _ (backupAt_ne houtside ms).symm, hback]
    intro ls hls he
    obtain rfl : ms = ls := backupAt_inj he
    -- a file above another file: there is none in the project, and so none among the backups
    obtain ⟨old, -, hold, -⟩ := h.saved
    obtain ⟨t, ht, hkind⟩ := hm.mirror ms _ hback
    have habove := Tree.view_above hold ((prefix_append_right_inj base).mpr hls)
      (fun he => hms (by rw [append_cancel_left he]; exact mem_cons_self))
    rw [Option.some.inj (ht.symm.trans habove)] at hkind
    cases hkind

/-- calls of one writer, one after the other -/
def writeAll (wr : Writer) (s : Settings) : List (Text × Value) → Job Writer
  | [] => pure wr
  | (path, content) :: calls => do
    let r ← wr.write s path content
    r.2.writeAll s calls

theorem writeAll_append (wr : Writer) (s : Settings) (calls calls' : List (Text × Value)) :
    wr.writeAll s (calls ++ calls') = wr.writeAll s calls >>= fun wr => wr.writeAll s calls' := by
  induction calls generalizing wr with
  | nil => rfl
  | cons c calls ih =>
    show (wr.write s c.1 c.2 >>= fun r => r.2.writeAll s (calls ++ calls')) = _
    simp only [ih, ← bind_assoc]
    rfl

def filesOf (project : Text) (calls : List (Text × Value)) : List (List Text) :=
  calls.map (fun c => below project c.1)

theorem gives_writeAll (hproject : s.project = .ok project) (hon : (s.value .backupEnabled).truthy)
    (hwr : wr.backup = some (backupDir project)) (hm : Mirrored project base w)
    (calls : List (Text × Value)) (hcalls : ∀ c ∈ calls, Inner project c.1 ∧ w.isFile c.1) :
    Gives (wr.writeAll s calls) w (fun wr' u => wr'.backup = some (backupDir project)
      ∧ Mirrored project base u ∧ Trail base (filesOf project calls) w u) := by
  induction calls generalizing wr w with
  | nil => exact gives_pure ⟨hwr, hm, .of_eq rfl rfl⟩
  | cons c calls ih =>
    obtain ⟨hin, hfile⟩ := hcalls c mem_cons_self
    refine (gives_saving hproject hon hwr hm hin hfile c.2).bind (fun r v ⟨hwr', hsaves⟩ => ?_)
    have hm' := hsaves.mirrored hm hin.outside
    refine (ih hwr' hm' (fun c' hc' => ?_)).mono
      (fun wr'' u ⟨hwr'', hmu, htrail⟩ => ⟨hwr'', hmu, ?_⟩)
    · obtain ⟨hin', hfile'⟩ := hcalls c' (mem_cons_of_mem c hc')
      exact ⟨hin', hsaves.frame.isFile hfile'⟩
    · exact (hsaves.trail hm hin.outside).trans htrail

theorem Mirrored.locate_backupDir (hm : Mirrored project base w) :
    w.locate (backupDir project).text = .ok (backupAt base []) := by
  rw [backupDir_extend]
  exact locate_backup hm.found (by decide) hm.dir (fun ms hms hne => absurd (prefix_nil.mp hms) hne)

theorem Mirrored.opened (hm : Mirrored project base w) (hframe : w.Frame (fun _ => True) u)
    (hopens : w.Opens base [backupName] u) (hnone : w.tree.view (backupAt base []) = none) :
    Mirrored project base u ∧ Trail base [] w u := by
  obtain ⟨hmade, hkept⟩ := hopens.of_cons hm.dir
  have hbase : u.tree.view base = some (.dir []) := by rw [hkept base (by simp), hm.dir]
  have hempty : ∀ ns t, w.tree.view (backupAt base ns) ≠ some t := by
    intro ns t ht
    have hsome := Tree.view_isSome_of_prefix ht (backupAt_mono nil_prefix)
    rw [hnone] at hsome
    cases hsome
  refine ⟨⟨hframe.locate hm.found, hbase, fun ns t ht => ?_⟩, hframe, fun p hp _ => ?_,
    fun ns content _ hback => absurd hback (hempty ns _)⟩
  · by_cases hns : ns = []
    · subst hns
      rw [hmade [] prefix_rfl] at ht
      rw [← Option.some.inj ht, append_nil]
      exact ⟨_, hbase, trivial⟩
    · rw [hkept _ (fun ms hms he => hns ((backupAt_inj he).trans (prefix_nil.mp hms)))] at ht
      exact absurd ht (hempty ns t)
  · refine hkept p (fun ms hms he => hp ?_)
    rw [he, prefix_nil.mp hms]

theorem gives_start (hproject : s.project = .ok project) (hon : (s.value .backupEnabled).truthy)
    (hm : Mirrored project base w) : Gives (start s) w (fun wr u =>
      wr.backup = some (backupDir project) ∧ Mirrored project base u ∧ Trail base [] w u) := by
  unfold start
  rw [if_pos hon]
  refine gives_bind_of_exec (a := project) (u := w) (by rw [exec_lift, hproject]) ?_
  dsimp only
  refine gives_bind_of_exec (a := w.exists? (backupDir project).text) (u := w) rfl ?_
  rw [Workspace.exists?, Workspace.item?_eq hm.locate_backupDir]
  cases hfind : w.tree.find? (backupAt base []) with
  | some t => exact gives_pure ⟨rfl, hm, .of_eq rfl rfl⟩
  | none =>
    have hnone : w.tree.view (backupAt base []) = none := Tree.view_eq_none.mpr hfind
    have hclear : w.tree.Clear base [backupName] := by
      intro ms hms
      rcases prefix_cons_iff.mp hms with rfl | ⟨ls, rfl, hls⟩
      · exact .inl (by rw [append_nil]; exact hm.dir)
      · rw [prefix_nil.mp hls]
        exact .inr hnone
    have hdown : GoDown [backupName] := by decide
    obtain ⟨_, u, hu, hopens⟩ := makes_dirs (Path.named_ofText project) hdown hm.found hm.dir hclear
    have hframe : w.Frame (fun _ => True) u := (frames_makeDirs _).of_exec hu
    simp only [Option.isSome_none, Bool.not_false, if_true]
    rw [backupDir_extend]
    exact gives_bind_of_exec hu (gives_pure ⟨rfl, hm.opened hframe hopens hnone⟩)

/-! ## restoring -/

/-- a file whose backup is there gets its bytes back, and nothing else changes -/
theorem gives_restore (hproject : s.project = .ok project)
    (hwr : wr.backup = some (backupDir project)) (hm : Mirrored project base w)
    (hin : Inner project path)
    (hfile : w.isFile path = true) (hback : w.tree.view (backupAt base (below project path))
      = some (.file old)) :
    Gives (wr.restore s path) w (fun r u => r = true ∧ u.here = w.here
      ∧ u.tree = w.tree.put (base ++ below project path) (.file old)) := by
  obtain ⟨q, content, hq, hcontent⟩ := Workspace.isFile_iff.mp hfile
  obtain rfl := hin.locate hm.found hq
  have hdirs : ∀ ms, ms <+: below project path → ms ≠ below project path →
      w.tree.view (backupAt base ms) = some (.dir []) := fun ms hms hne =>
    Tree.view_above hback (backupAt_mono hms) (fun he => hne (backupAt_inj he))
  have hsource : w.locate (backupPath (backupDir project) project path).text
      = .ok (backupAt base (below project path)) := by
    rw [backupPath_extend]
    exact locate_backup hm.found hin.goDown hm.dir hdirs
  have hthere : w.exists? (backupPath (backupDir project) project path).text = true := by
    rw [Workspace.exists?, Workspace.item?_eq hsource, Tree.view_eq_file.mp hback]
    rfl
  have hpresent : exec wr.present? w = (.ok (some (backupDir project)), w) := by
    have hdir : w.exists? (backupDir project).text = true := by
      have hsome := Tree.view_isSome_of_prefix hback (backupAt_mono List.nil_prefix)
      rw [Tree.view, Option.isSome_map] at hsome
      rw [Workspace.exists?, Workspace.item?_eq hm.locate_backupDir, hsome]
    unfold present?
    rw [hwr]
    show exec (pure (if w.exists? (backupDir project).text then some (backupDir project) else none))
      w = _
    rw [hdir]
    rfl
  have hcopy := fun names => exec_copy names hsource hback hq
    (.inr ⟨content, Tree.view_eq_file.mpr hcontent⟩) (backupAt_ne hin.outside _).symm
  unfold restore
  refine gives_bind_of_exec hpresent ?_
  dsimp only
  refine gives_bind_of_exec (exec_outcome _ w) ?_
  rw [exec_bind_ok (a := project) (u := w) (by rw [exec_lift, hproject]),
    exec_bind_ok (a := true) (u := w) (by rw [← hthere]; rfl)]
  simp only [Bool.not_true, Bool.false_eq_true, if_false]
  rw [exec_bind_ok (hcopy _)]
  exact ⟨_, _, rfl, rfl, rfl, rfl⟩

end

end Writer

end Rebind
