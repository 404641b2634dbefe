import Mathlib
import Rebind.Project.Workspace
import Rebind.Proofs.Text.Lines

/-!
# What a job leaves alone

`Job.exec` runs a job from a workspace.  `Workspace.Frame S w u` says that from `w` to `u` no more
than the files at the places in `S` changed: every directory and every other file and device is
still there, and the working directory is the same.  New files and directories may have come up.

* `Frame.locate`, `Frame.find?`: paths lead where they led, and what is not in `S` is the same;
* `Alike S w u`: the same both ways: nothing came up either;
* `locate_eq`: where a path leads, if it leads anywhere, is read off the path alone
  (`Place.ofPath`), so that `S` can be given before a job runs;
* `Job.Frames here S x`: the job `x` is framed by `S` from every workspace;
* `Job.Gives x w R`: the job `x` returns from `w`, with `R`;
* `frames_writeBytes`, `frames_makeDirs`, `frames_copy`: the operations on files.
-/

namespace Rebind

variable {old : ByteArray} {ns : List Text} {p q : Place} {path : Text} {t u : Tree} {w : Workspace}

/-! ## trees -/

namespace Tree

/-- both are files, both devices of the same sort, or both directories -/
def SameKind : Tree → Tree → Prop
  | .file _, .file _ => True
  | .device a, .device b => a = b
  | .dir _, .dir _ => True
  | _, _ => False

theorem SameKind.refl (t : Tree) : t.SameKind t := by
  cases t <;> simp [SameKind]

theorem SameKind.trans {v : Tree} (h : t.SameKind u) (h' : u.SameKind v) : t.SameKind v := by
  cases t <;> cases u <;> cases v <;> simp_all [SameKind]

theorem SameKind.isDir (h : t.SameKind u) : t.isDir = u.isDir := by
  cases t <;> cases u <;> simp_all [SameKind, Tree.isDir]

theorem SameKind.isFile (h : t.SameKind u) : t.isFile = u.isFile := by
  cases t <;> cases u <;> simp_all [SameKind, Tree.isFile]

theorem SameKind.file (h : t.SameKind (.file old)) : ∃ new, t = .file new := by
  cases t <;> simp_all [SameKind]

theorem find?_append (p q : Place) (t : Tree) : find? (p ++ q) t = (find? p t).bind (find? q) := by
  induction p generalizing t with
  | nil => rfl
  | cons n p ih =>
    rw [List.cons_append, find?, find?]
    cases child? n t.entries with
    | none => rfl
    | some u => exact ih u

theorem find?_cons_of_not_dir (h : t.isDir = false) (n : Text) (p : Place) :
    find? (n :: p) t = none := by
  cases t <;> simp_all [find?, entries, child?, Tree.isDir]

def Reaches (t : Tree) (q : Place) : Prop := ∀ p, p <+: q → p ≠ q
    → ∃ u, t.find? p = some u ∧ u.isDir

theorem reaches_of_find? (h : t.find? q = some u) : t.Reaches q := by
  rintro p ⟨r, rfl⟩ hne
  obtain ⟨n, r, rfl⟩ := List.exists_cons_of_ne_nil (fun hr : r = [] => hne (by simp [hr]))
  rw [find?_append] at h
  obtain ⟨v, hv, hr⟩ := Option.bind_eq_some_iff.mp h
  refine ⟨v, hv, ?_⟩
  by_contra hdir
  rw [find?_cons_of_not_dir (by simpa using hdir)] at hr
  cases hr

theorem Reaches.of_prefix (h : t.Reaches q) (hp : p <+: q) : t.Reaches p := by
  intro r hr hne
  refine h r (hr.trans hp) (fun he => ?_)
  subst he
  exact hne (hr.eq_of_length (le_antisymm hr.length_le hp.length_le))

theorem Reaches.snoc (hu : t.find? p = some u) (hdir : u.isDir) (n : Text) :
    t.Reaches (p ++ [n]) := by
  intro r hr hne
  rcases List.prefix_concat_iff.mp hr with he | hp
  · exact absurd he hne
  · by_cases he : r = p
    · exact ⟨u, by rw [he]; exact hu, hdir⟩
    · exact reaches_of_find? hu r hp he

theorem find?_put_above (u t : Tree) (h : p <+: q) (hne : p ≠ q) :
    ∃ v, find? p (put u q t) = some v ∧ v.isDir := by
  induction q generalizing p u with
  | nil => exact absurd (List.prefix_nil.mp h) hne
  | cons n ns ih =>
    cases p with
    | nil => exact ⟨_, rfl, rfl⟩
    | cons m ms =>
      obtain ⟨rfl, hms⟩ := List.cons_prefix_cons.mp h
      obtain ⟨v, hv, hdir⟩ := ih ((child? m u.entries).getD (.dir [])) hms
        (fun he => hne (by rw [he]))
      refine ⟨v, ?_, hdir⟩
      rw [put, find?, entries, child?_putEntry_self]
      exact hv

theorem find?_put_apart (u t : Tree) (h : ¬ q <+: p) (h' : ¬ p <+: q) :
    find? p (put u q t) = find? p u := by
  induction q generalizing p u with
  | nil => exact absurd List.nil_prefix h
  | cons n ns ih =>
    cases p with
    | nil => exact absurd List.nil_prefix h'
    | cons m ms =>
      by_cases hm : m = n
      · subst hm
        rw [List.cons_prefix_cons, not_and] at h h'
        rw [put, find?, entries, child?_putEntry_self, find?]
        cases child? m u.entries with
        | some v => exact ih v (h rfl) (h' rfl)
        | none =>
          -- a directory that is made on the way has nothing in it
          obtain ⟨k, ks, rfl⟩ :=
            List.exists_cons_of_ne_nil (fun hms : ms = [] => h' rfl (by simp [hms]))
          exact ih (.dir []) (h rfl) (h' rfl)
      · rw [put, find?, entries, child?_putEntry_ne hm, find?]

end Tree

/-! ## where paths lead -/

def Place.step (p : Place) (n : Text) : Place :=
  if n.isEmpty || n = ['.'] then p else if n = ['.', '.'] then p.dropLast else p ++ [n]

def Place.ofPath (here : Place) (path : Text) : Place :=
  (splitAll '/' path).foldl Place.step (if path.head? = some '/' then [] else here)

theorem Tree.follow_cons {n : Text} : t.follow p (n :: ns) = .ok q
      ↔ (∃ u, t.find? p = some u ∧ u.isDir) ∧ t.follow (Place.step p n) ns = .ok q := by
  rw [Tree.follow, Place.step]
  cases hu : t.find? p with
  | none => simp
  | some u =>
    cases hdir : u.isDir with
    | false => simp [hdir]
    | true =>
      by_cases hskip : (n.isEmpty || decide (n = ['.']))
      · simp [hdir, hskip]
      · by_cases hup : n = ['.', '.'] <;> simp [hdir, hskip, hup]

theorem Tree.follow_eq (h : t.follow p ns = .ok q) : q = ns.foldl Place.step p := by
  induction ns generalizing p with
  | nil => exact (Except.ok.inj h).symm
  | cons n ns ih => exact ih (Tree.follow_cons.mp h).2

theorem Tree.reaches_follow (hp : t.Reaches p) (h : t.follow p ns = .ok q) : t.Reaches q := by
  induction ns generalizing p with
  | nil => exact Except.ok.inj h ▸ hp
  | cons n ns ih =>
    obtain ⟨⟨u, hu, hdir⟩, hrest⟩ := Tree.follow_cons.mp h
    refine ih ?_ hrest
    unfold Place.step
    split
    · exact hp
    · split
      · exact hp.of_prefix (List.dropLast_prefix p)
      · exact Reaches.snoc hu hdir n

def textOf? (content : ByteArray) : Option Text :=
  (String.fromUTF8? content).map (fun s => Job.newlines s.toList)

theorem textOf?_bytesOf (t : Text) : textOf? (Job.bytesOf t) = some (Job.newlines t) := by
  have hbytes : String.fromUTF8? (Job.bytesOf t) = some (String.ofList t) := by
    rw [Job.bytesOf, String.fromUTF8?, String.toUTF8_eq_toByteArray,
      dif_pos (String.ofList t).isValidUTF8]
    rfl
  rw [textOf?, hbytes, Option.map_some, String.toList_ofList]

namespace Workspace

variable {S : Place → Prop} {w u v : Workspace}

theorem locate_eq (h : w.locate path = .ok q) : q = Place.ofPath w.here path := by
  unfold locate at h
  split at h
  · cases h
  · exact Tree.follow_eq h

theorem reaches_of_locate (h : w.locate path = .ok q) : w.tree.Reaches q := by
  unfold locate at h
  split at h
  · cases h
  · -- the first name is looked up in the directory where the walk starts
    generalize (if path.head? = some '/' then [] else w.here) = p at h
    obtain ⟨n, ns, hns⟩ := List.exists_cons_of_ne_nil (splitAll_ne_nil '/' path)
    rw [hns] at h
    obtain ⟨⟨t, ht, -⟩, -⟩ := Tree.follow_cons.mp h
    exact Tree.reaches_follow (Tree.reaches_of_find? ht) h

theorem item?_eq (h : w.locate path = .ok q) : w.item? path = w.tree.find? q := by
  rw [item?, h]

/-! ## what is read off a path -/

theorem isFile_iff : w.isFile path = true
    ↔ ∃ q content, w.locate path = .ok q ∧ w.tree.find? q = some (.file content) := by
  unfold isFile item?
  cases w.locate path with
  | error c => simp
  | ok q =>
    cases hfind : w.tree.find? q with
    | none => simp [hfind]
    | some t => cases t <;> simp [hfind, Tree.isFile]

/-- the bytes at the end of a path -/
def bytesAt (w : Workspace) (path : Text) : Except Fault ByteArray :=
  match w.locate path with
  | .error cause => .error (.disk cause (some path))
  | .ok q =>
    match w.tree.find? q with
    | none => .error (.disk .noSuchFile (some path))
    | some (.dir _) => .error (.disk .isDirectory (some path))
    | some (.device _) => .ok .empty
    | some (.file content) => .ok content

/-- the text at the end of a path -/
def textAt (w : Workspace) (path : Text) : Except Fault Text :=
  match w.bytesAt path with
  | .error e => .error e
  | .ok content => (textOf? content).elim (.error .notText) .ok

theorem textAt_eq {content : ByteArray} (hq : w.locate path = .ok q)
    (hfile : w.tree.find? q = some (.file content)) :
    w.textAt path = (textOf? content).elim (.error .notText) .ok := by
  rw [textAt, bytesAt, hq]
  dsimp only
  rw [hfile]

theorem textAt_congr (hhere : u.here = w.here) (htree : u.tree = w.tree) (path : Text) :
    u.textAt path = w.textAt path := by
  simp only [textAt, bytesAt, locate, hhere, htree]

theorem locate_of_textAt {code : Text} (h : w.textAt path = .ok code) : ∃ q, w.locate path = .ok q ∧
      ∀ content, w.tree.find? q = some (.file content) → textOf? content = some code := by
  cases hq : w.locate path with
  | error c =>
    rw [textAt, bytesAt, hq] at h
    cases h
  | ok q =>
    refine ⟨q, rfl, fun content hfile => ?_⟩
    rw [textAt_eq hq hfile] at h
    cases htext : textOf? content with
    | none =>
      rw [htext] at h
      cases h
    | some t =>
      rw [htext] at h
      exact congrArg some (Except.ok.inj h)

theorem file_of_textAt {code : Text} (h : w.textAt path = .ok code) (hne : code ≠ []) :
    ∃ q content, w.locate path = .ok q ∧ w.tree.find? q = some (.file content)
      ∧ textOf? content = some code := by
  obtain ⟨q, hq, hcode⟩ := locate_of_textAt h
  rw [textAt, bytesAt, hq] at h
  dsimp only at h
  cases hfind : w.tree.find? q with
  | none =>
    rw [hfind] at h
    cases h
  | some t =>
    cases t with
    | file content => exact ⟨q, content, hq, hfind, hcode content hfind⟩
    | dir es =>
      rw [hfind] at h
      cases h
    | device takes =>
      have hempty : textOf? .empty = some [] := textOf?_bytesOf []
      rw [hfind] at h
      dsimp only at h
      rw [hempty] at h
      exact absurd (Except.ok.inj h).symm hne

/-! ## frames -/

/-- from `w` to `u` nothing went, and no more than the files at the places in `S` changed -/
structure Frame (S : Place → Prop) (w u : Workspace) : Prop where
  here : u.here = w.here
  kept : ∀ p t, w.tree.find? p = some t →
    ∃ t', u.tree.find? p = some t' ∧ t'.SameKind t ∧ (t.isDir = true ∨ S p ∨ t' = t)

theorem Frame.refl (S : Place → Prop) (w : Workspace) : w.Frame S w :=
  ⟨rfl, fun _ t h => ⟨t, h, .refl t, .inr (.inr rfl)⟩⟩

theorem Frame.trans (h : w.Frame S u) (h' : u.Frame S v) : w.Frame S v where
  here := h'.here.trans h.here
  kept := by
    intro p t ht
    obtain ⟨t₁, ht₁, hkind, hsame⟩ := h.kept p t ht
    obtain ⟨t₂, ht₂, hkind', hsame'⟩ := h'.kept p t₁ ht₁
    refine ⟨t₂, ht₂, hkind'.trans hkind, ?_⟩
    rcases hsame with hdir | hS | rfl
    · exact .inl hdir
    · exact .inr (.inl hS)
    · exact hsame'

theorem Frame.mono {T : Place → Prop} (h : w.Frame S u) (hST : ∀ p, S p → T p) : w.Frame T u where
  here := h.here
  kept := by
    intro p t ht
    obtain ⟨t', ht', hkind, hsame⟩ := h.kept p t ht
    exact ⟨t', ht', hkind, hsame.imp_right (Or.imp_left (hST p))⟩

theorem frame_of_eq (hhere : u.here = w.here) (htree : u.tree = w.tree) : w.Frame S u where
  here := hhere
  kept := fun _ t h => ⟨t, by rw [htree]; exact h, .refl t, .inr (.inr rfl)⟩

theorem Frame.find? (h : w.Frame S u) (ht : w.tree.find? p = some t)
    (hdir : t.isDir = false) (hp : ¬ S p) : u.tree.find? p = some t := by
  obtain ⟨t', ht', -, hsame⟩ := h.kept p t ht
  rcases hsame with hd | hS | rfl
  · rw [hdir] at hd
    cases hd
  · exact absurd hS hp
  · exact ht'

theorem Frame.file (h : w.Frame S u) (ht : w.tree.find? p = some (.file old)) :
    ∃ new, u.tree.find? p = some (.file new) := by
  obtain ⟨t', ht', hkind, -⟩ := h.kept p _ ht
  obtain ⟨new, rfl⟩ := hkind.file
  exact ⟨new, ht'⟩

theorem Frame.follow (h : w.Frame S u) (hq : w.tree.follow p ns = .ok q) :
    u.tree.follow p ns = .ok q := by
  induction ns generalizing p with
  | nil => exact hq
  | cons n ns ih =>
    obtain ⟨⟨t, ht, hdir⟩, hrest⟩ := Tree.follow_cons.mp hq
    obtain ⟨t', ht', hkind, -⟩ := h.kept p t ht
    exact Tree.follow_cons.mpr ⟨⟨t', ht', hkind.isDir.trans hdir⟩, ih hrest⟩

theorem Frame.locate (h : w.Frame S u) (hq : w.locate path = .ok q) : u.locate path = .ok q := by
  unfold Workspace.locate at hq ⊢
  split at hq
  · cases hq
  · rename_i hpath
    rw [if_neg hpath, h.here]
    exact h.follow hq

theorem Frame.isFile (h : w.Frame S u) (hf : w.isFile path) : u.isFile path = true := by
  obtain ⟨q, old, hq, hold⟩ := isFile_iff.mp hf
  obtain ⟨new, hnew⟩ := h.file hold
  exact isFile_iff.mpr ⟨q, new, h.locate hq, hnew⟩

def stored (w : Workspace) (q : Place) (t : Tree) : Workspace := { w with tree := w.tree.put q t }

theorem find?_stored (w : Workspace) (q : Place) (t : Tree) :
    (w.stored q t).tree.find? q = some t :=
  Tree.find?_put w.tree q t

theorem frame_stored {new : Tree} (hreach : w.tree.Reaches q)
    (hold : ∀ old, w.tree.find? q = some old → S q ∧ old.isDir = false ∧ new.SameKind old) :
    w.Frame S (w.stored q new) where
  here := rfl
  kept := by
    intro p t ht
    show ∃ t', (w.tree.put q new).find? p = some t' ∧ _
    by_cases hpq : p = q
    · subst hpq
      obtain ⟨hS, -, hkind⟩ := hold t ht
      exact ⟨new, Tree.find?_put w.tree p new, hkind, .inr (.inl hS)⟩
    · by_cases habove : p <+: q
      · obtain ⟨d, hd, hdir⟩ := hreach p habove hpq
        obtain ⟨d', hd', hdir'⟩ := Tree.find?_put_above w.tree new habove hpq
        obtain rfl : t = d := Option.some.inj (ht.symm.trans hd)
        refine ⟨d', hd', ?_, .inl hdir⟩
        cases d' <;> cases t <;> simp_all [Tree.isDir, Tree.SameKind]
      · by_cases hbelow : q <+: p
        · -- what stands at `q` is no directory, so nothing is below it
          obtain ⟨old, hfind, hdir⟩ := Tree.reaches_of_find? ht q hbelow (Ne.symm hpq)
          obtain ⟨-, hnot, -⟩ := hold old hfind
          rw [hdir] at hnot
          cases hnot
        · exact ⟨t, by rw [Tree.find?_put_apart w.tree new hbelow habove]; exact ht, .refl t,
            .inr (.inr rfl)⟩

/-! ## workspaces that are alike -/

/-- the two have the same places, and no more than the files at the places in `S` differ -/
structure Alike (S : Place → Prop) (w u : Workspace) : Prop where
  onward : w.Frame S u
  back : u.Frame S w

theorem Alike.refl (S : Place → Prop) (w : Workspace) : w.Alike S w := ⟨.refl S w, .refl S w⟩

theorem Alike.trans (h : w.Alike S u) (h' : u.Alike S v) : w.Alike S v :=
  ⟨h.onward.trans h'.onward, h'.back.trans h.back⟩

theorem Alike.mono {T : Place → Prop} (h : w.Alike S u) (hST : ∀ p, S p → T p) : w.Alike T u :=
  ⟨h.onward.mono hST, h.back.mono hST⟩

theorem alike_of_eq (hhere : u.here = w.here) (htree : u.tree = w.tree) : w.Alike S u :=
  ⟨frame_of_eq hhere htree, frame_of_eq hhere.symm htree.symm⟩

/-- a file with other bytes -/
theorem alike_stored {new : ByteArray} (hold : w.tree.find? q = some (.file old)) (hS : S q) :
    w.Alike S (w.stored q (.file new)) where
  onward := by
    refine frame_stored (Tree.reaches_of_find? hold) (fun t ht => ?_)
    rw [← Option.some.inj (hold.symm.trans ht)]
    exact ⟨hS, rfl, trivial⟩
  back := by
    refine ⟨rfl, fun p t ht => ?_⟩
    have hput : (w.tree.put q (.file new)).find? p = some t := ht
    by_cases hpq : p = q
    · subst hpq
      rw [Tree.find?_put] at hput
      rw [← Option.some.inj hput]
      exact ⟨.file old, hold, trivial, .inr (.inl hS)⟩
    · by_cases habove : p <+: q
      · obtain ⟨d, hd, hdir⟩ := Tree.reaches_of_find? hold p habove hpq
        obtain ⟨d', hd', hdir'⟩ := Tree.find?_put_above w.tree (.file new) habove hpq
        obtain rfl : d' = t := Option.some.inj (hd'.symm.trans hput)
        refine ⟨d, hd, ?_, .inl hdir'⟩
        cases d <;> cases d' <;> simp_all [Tree.isDir, Tree.SameKind]
      · by_cases hbelow : q <+: p
        · -- what stands at `q` afterwards is a file, so nothing is below it
          obtain ⟨f, hf, hdir⟩ := Tree.reaches_of_find? hput q hbelow (Ne.symm hpq)
          rw [Tree.find?_put] at hf
          rw [← Option.some.inj hf] at hdir
          cases hdir
        · rw [Tree.find?_put_apart w.tree _ hbelow habove] at hput
          exact ⟨t, hput, .refl t, .inr (.inr rfl)⟩

end Workspace

/-! ## running jobs -/

namespace Job

variable {α β : Type} {here : Place} {S : Place → Prop}

def exec (x : Job α) (w : Workspace) : Except Fault α × Workspace := x.run w

@[simp] theorem exec_get (w : Workspace) : exec get w = (.ok w, w) := rfl

@[simp] theorem exec_lift (x : Except Fault α) (w : Workspace) :
    exec (liftM x : Job α) w = (x, w) := rfl

@[simp] theorem exec_outcome (x : Job α) (w : Workspace) :
    exec x.outcome w = (.ok (exec x w).1, (exec x w).2) := rfl

theorem exec_bind (x : Job α) (f : α → Job β) (w : Workspace) :
    exec (x >>= f) w = match exec x w with
      | (.ok a, u) => exec (f a) u
      | (.error e, u) => (.error e, u) := by
  unfold exec
  show (ExceptT.bind x f) w = _
  simp only [ExceptT.bind, ExceptT.mk, ExceptT.bindCont, bind, StateT.bind]
  cases h : x w with
  | mk r u =>
    rw [show x.run w = (r, u) from h]
    cases r <;> rfl

theorem exec_bind_ok {x : Job α} {a : α} {u : Workspace} (h : exec x w = (.ok a, u))
    (f : α → Job β) :
    exec (x >>= f) w = exec (f a) u := by
  rw [exec_bind, h]

def Frames (here : Place) (S : Place → Prop) (x : Job α) : Prop :=
  ∀ w : Workspace, w.here = here → w.Frame S (exec x w).2

def Still (x : Job α) : Prop := ∀ w, (exec x w).2.here = w.here ∧ (exec x w).2.tree = w.tree

theorem still_pure (a : α) : Still (pure a : Job α) := fun _ => ⟨rfl, rfl⟩

theorem still_say (t : Text) : Still (say t) := fun _ => ⟨rfl, rfl⟩

theorem still_bind {x : Job α} {f : α → Job β} (hx : Still x) (hf : ∀ a, Still (f a)) :
    Still (x >>= f) := by
  intro w
  have hfirst := hx w
  rw [exec_bind]
  generalize exec x w = r at hfirst
  obtain ⟨r, u⟩ := r
  cases r with
  | error e => exact hfirst
  | ok a => exact ⟨(hf a u).1.trans hfirst.1, (hf a u).2.trans hfirst.2⟩

theorem still_mapM {l : List α} {f : α → Job β} (h : ∀ a, Still (f a)) : Still (l.mapM f) := by
  induction l with
  | nil => exact still_pure _
  | cons a l ih =>
    rw [List.mapM_cons]
    exact still_bind (h a) (fun _ => still_bind ih (fun _ => still_pure _))

theorem frames_of_same {x : Job α} (h : Still x) : Frames here S x := fun w _ =>
  Workspace.frame_of_eq (h w).1 (h w).2

theorem frames_pure (a : α) : Frames here S (pure a : Job α) := frames_of_same fun _ => ⟨rfl, rfl⟩

theorem frames_throw (e : Fault) : Frames here S (throw e : Job α) := frames_of_same fun _ =>
    ⟨rfl, rfl⟩

theorem frames_get : Frames here S (get : Job Workspace) := frames_of_same fun _ => ⟨rfl, rfl⟩

theorem frames_print (t : Text) : Frames here S (print t) := frames_of_same fun _ => ⟨rfl, rfl⟩

theorem frames_say (t : Text) : Frames here S (say t) := frames_print _

theorem frame_after {x : Job α} {f : α → Job β} (hx : (exec x w).2.here = here)
    (hf : ∀ a, Frames here S (f a)) : (exec x w).2.Frame S (exec (x >>= f) w).2 := by
  rw [exec_bind]
  generalize exec x w = r at hx
  obtain ⟨r, u⟩ := r
  cases r with
  | error e => exact .refl S u
  | ok a => exact hf a u hx

theorem frames_bind {x : Job α} {f : α → Job β} (hx : Frames here S x)
    (hf : ∀ a, Frames here S (f a)) :
    Frames here S (x >>= f) := fun w hw =>
  (hx w hw).trans (frame_after ((hx w hw).here.trans hw) hf)

theorem frames_lift_bind {x : Except Fault α} {f : α → Job β} (h : ∀ a, x = .ok a
    → Frames here S (f a)) :
    Frames here S (liftM x >>= f) := by
  intro w hw
  rw [exec_bind, exec_lift]
  cases x with
  | error e => exact .refl S w
  | ok a => exact h a rfl w hw

theorem ite_bind {c : Prop} [Decidable c] (x y : Job α) (f : α → Job β) :
    (if c then x >>= f else y >>= f) = (if c then x else y) >>= f := by
  split <;> rfl

theorem frames_ite {c : Prop} [Decidable c] {x y : Job α} (hx : Frames here S x)
    (hy : Frames here S y) :
    Frames here S (if c then x else y) := by
  split
  · exact hx
  · exact hy

/-- from the workspace the job returns, and `R` holds of what it gives and leaves -/
def Gives (x : Job α) (w : Workspace) (R : α → Workspace → Prop) : Prop :=
  ∃ a u, exec x w = (.ok a, u) ∧ R a u

theorem gives_pure {a : α} {R : α → Workspace → Prop} (h : R a w) : Gives (pure a) w R :=
  ⟨a, w, rfl, h⟩

theorem Gives.mono {x : Job α} {R R' : α → Workspace → Prop} (h : Gives x w R)
    (hR : ∀ a u, R a u → R' a u) : Gives x w R' := by
  obtain ⟨a, u, hx, ha⟩ := h
  exact ⟨a, u, hx, hR a u ha⟩

theorem Gives.bind {x : Job α} {f : α → Job β} {P : α → Workspace → Prop}
    {R : β → Workspace → Prop} (hx : Gives x w P) (hf : ∀ a u, P a u → Gives (f a) u R) :
    Gives (x >>= f) w R := by
  obtain ⟨a, u, ha, hP⟩ := hx
  obtain ⟨b, v, hb, hR⟩ := hf a u hP
  exact ⟨b, v, by rw [exec_bind_ok ha, hb], hR⟩

theorem gives_bind_of_exec {x : Job α} {f : α → Job β} {a : α} {u : Workspace}
    {R : β → Workspace → Prop}
    (hx : exec x w = (.ok a, u)) (hf : Gives (f a) u R) : Gives (x >>= f) w R := by
  obtain ⟨b, v, hb, hR⟩ := hf
  exact ⟨b, v, by rw [exec_bind_ok hx, hb], hR⟩

theorem gives_outcome {x : Job α} (hx : Frames here S x) (hw : w.here = here) :
    Gives x.outcome w (fun r u => exec x w = (r, u) ∧ w.Frame S u) :=
  ⟨_, _, exec_outcome x w, rfl, hx w hw⟩

theorem gives_say (S : Place → Prop) (t : Text) (w : Workspace) :
    Gives (say t) w (fun _ u => w.Frame S u) :=
  ⟨(), _, rfl, frames_say t w rfl⟩

theorem gives_mapM_along {R : Workspace → Workspace → Prop} (hrefl : ∀ w, R w w)
    (htrans : ∀ {w v u}, R w v → R v u → R w u) {l : List α} {f : α → Job β} {Q : Workspace → α
      → β → Prop}
    (step : ∀ a ∈ l, ∀ v, Gives (f a) v (fun b u => R v u ∧ Q v a b)) (w : Workspace) :
    Gives (l.mapM f) w (fun bs u => R w u
      ∧ List.Forall₂ (fun a b => ∃ v, R w v ∧ R v u ∧ Q v a b) l bs) := by
  induction l generalizing w with
  | nil => exact gives_pure ⟨hrefl w, .nil⟩
  | cons a l ih =>
    rw [List.mapM_cons]
    refine (step a List.mem_cons_self w).bind (fun b v ⟨hv, hQ⟩ => ?_)
    refine (ih (fun a' ha' => step a' (List.mem_cons_of_mem _ ha')) v).bind
      (fun bs u ⟨hu, hall⟩ => ?_)
    refine gives_pure ⟨htrans hv hu, .cons ⟨w, hrefl w, htrans hv hu, hQ⟩ ?_⟩
    exact hall.imp fun _ _ ⟨v', hv', hu', hQ'⟩ => ⟨v', htrans hv hv', hu', hQ'⟩

theorem gives_mapM {l : List α} {f : α → Job β} {Q : Workspace → α → β → Prop}
    (step : ∀ a ∈ l, ∀ v, Gives (f a) v (fun b u => v.Frame S u ∧ Q v a b)) (w : Workspace) :
    Gives (l.mapM f) w (fun bs u => w.Frame S u
      ∧ List.Forall₂ (fun a b => ∃ v, w.Frame S v ∧ v.Frame S u ∧ Q v a b) l bs) :=
  gives_mapM_along (Workspace.Frame.refl S) Workspace.Frame.trans step w

/-! ## files -/

theorem exec_locate (path : Text) (w : Workspace) :
    exec (locate path) w = ((w.locate path).mapError (fun c => .disk c (some path)), w) := by
  unfold locate
  rw [exec_bind_ok (exec_get w)]
  cases w.locate path <;> rfl

theorem writeBytes_cases (path : Text) (content : ByteArray) (w : Workspace) :
    (∃ q, w.locate path = .ok q ∧ (∀ t, w.tree.find? q = some t → t.isFile)
        ∧ exec (writeBytes path content) w = (.ok (), w.stored q (.file content)))
    ∨ (exec (writeBytes path content) w).2 = w
        ∧ ∀ q, w.locate path = .ok q → ∃ t, w.tree.find? q = some t ∧ t.isFile = false := by
  unfold writeBytes
  rw [exec_bind, exec_locate]
  cases hq : w.locate path with
  | error c => exact .inr ⟨rfl, fun q h => by cases h⟩
  | ok q =>
    show (∃ q', _ ∧ _ ∧ exec (get >>= _) w = _) ∨ (exec (get >>= _) w).2 = w ∧ _
    rw [exec_bind_ok (exec_get w)]
    cases hfind : w.tree.find? q with
    | none => exact .inl ⟨q, rfl, by simp [hfind], rfl⟩
    | some t =>
      cases t with
      | file old =>
        exact .inl ⟨q, rfl, fun t ht => by rw [← Option.some.inj (hfind.symm.trans ht)]; rfl, rfl⟩
      | device takes =>
        refine .inr ⟨by cases takes <;> rfl, fun q' h => ⟨_, Except.ok.inj h ▸ hfind, rfl⟩⟩
      | dir es => exact .inr ⟨rfl, fun q' h => ⟨_, Except.ok.inj h ▸ hfind, rfl⟩⟩

theorem exec_writeBytes {new : ByteArray} (hq : w.locate path = .ok q)
    (hold : w.tree.find? q = some (.file old)) :
    exec (writeBytes path new) w = (.ok (), w.stored q (.file new)) := by
  rcases writeBytes_cases path new w with ⟨q', hq', -, he⟩ | ⟨-, hno⟩
  · rw [he, Except.ok.inj (hq.symm.trans hq')]
  · obtain ⟨t, ht, hfile⟩ := hno q hq
    rw [← Option.some.inj (hold.symm.trans ht)] at hfile
    cases hfile

theorem frames_writeBytes (path : Text) (content : ByteArray) (h : S (Place.ofPath here path)) :
    Frames here S (writeBytes path content) := by
  intro w hw
  rcases writeBytes_cases path content w with ⟨q, hq, hfile, he⟩ | ⟨he, -⟩
  · rw [he]
    refine Workspace.frame_stored (Workspace.reaches_of_locate hq) (fun old hold => ⟨?_, ?_, ?_⟩)
    · rw [Workspace.locate_eq hq, hw]
      exact h
    · have := hfile old hold
      cases old <;> simp_all [Tree.isFile, Tree.isDir]
    · have := hfile old hold
      cases old <;> simp_all [Tree.isFile, Tree.SameKind]
  · rw [he]
    exact .refl S w

theorem exec_readBytes (path : Text) (w : Workspace) :
    exec (readBytes path) w = (w.bytesAt path, w) := by
  unfold readBytes Workspace.bytesAt
  rw [exec_bind, exec_locate]
  cases w.locate path with
  | error c => rfl
  | ok q =>
    dsimp only [Except.mapError]
    rw [exec_bind_ok (exec_get w)]
    cases w.tree.find? q with
    | none => rfl
    | some t => cases t <;> rfl

theorem exec_readText (path : Text) (w : Workspace) :
    exec (readText path) w = (w.textAt path, w) := by
  unfold readText Workspace.textAt textOf?
  rw [exec_bind, exec_readBytes]
  cases w.bytesAt path with
  | error e => rfl
  | ok content =>
    dsimp only
    cases String.fromUTF8? content <;> rfl

theorem frames_storeDir {place : Place} (hplace : w.locate path = .ok place)
    (hnone : w.tree.find? place = none) : w.Frame S (exec (store place (.dir [])) w).2 :=
  Workspace.frame_stored (Workspace.reaches_of_locate hplace)
    (fun old hold => by rw [hnone] at hold; cases hold)

/-- directories are made where nothing stands -/
theorem frames_makeDirsFrom (p : Path) (count : Nat) : Frames here S (makeDirsFrom p count) := by
  induction count generalizing p with
  | zero => exact frames_pure _
  | succ count ih =>
    intro w hw
    unfold makeDirsFrom
    rw [exec_bind_ok (exec_get w)]
    cases hlocate : w.locate p.text with
    | ok place =>
      show w.Frame S (exec (get >>= _) w).2
      rw [exec_bind_ok (exec_get w)]
      cases hfind : w.tree.find? place with
      | none => exact frames_storeDir hlocate hfind
      | some t => cases t <;> exact .refl S w
    | error cause =>
      have hrefuse : w.Frame S (exec (refuse cause p.text : Job Unit) w).2 := .refl S w
      cases cause with
      | noSuchFile =>
        refine frames_bind (ih p.parent) (fun _ => ?_) w hw
        intro v hv
        rw [exec_bind_ok (exec_get v)]
        cases hplace : v.locate p.text with
        | error cause => exact .refl S v
        | ok place =>
          show v.Frame S (exec (get >>= _) v).2
          rw [exec_bind_ok (exec_get v)]
          cases hfind : v.tree.find? place with
          | none => exact frames_storeDir hplace hfind
          | some t => exact .refl S v
      | _ => exact hrefuse

theorem frames_makeDirs (p : Path) : Frames here S (makeDirs p) := frames_makeDirsFrom p _

theorem frames_copy {source target names : Text} (h : S (Place.ofPath here target))
    (h' : S (Place.ofPath here (joinPath target (fileName source)))) :
    Frames here S (copy source target names) := by
  unfold copy
  refine frames_bind frames_get (fun v => ?_)
  have hwrite : ∀ t, S (Place.ofPath here t) → Frames here S (readBytes source >>= writeBytes t) :=
    fun t ht =>
    frames_bind (frames_of_same fun w => by rw [exec_readBytes]; exact ⟨rfl, rfl⟩)
      (fun _ => frames_writeBytes _ _ ht)
  have hS : S (Place.ofPath here
      (if v.isDir target then joinPath target (fileName source) else target)) := by
    split
    · exact h'
    · exact h
  refine frames_bind frames_get (fun a => frames_bind frames_get (fun b => ?_))
  dsimp only
  split
  · refine frames_bind frames_get (fun c => frames_ite ?_ (hwrite _ hS))
    exact frames_bind (frames_throw _) (fun _ => hwrite _ hS)
  · exact hwrite _ hS

end Job

end Rebind
