import Mathlib
import Rebind.Proofs.Project.Backups
import Rebind.Proofs.Text.Order

/-!
# What stands where

`Tree.view` is a tree as a function of places: what stands at each of them, directories without what
is in them.  What the operations on files do is said through it, place by place.

* `Tree.view_put`: what is put at a place where no entries are lost changes the view there only;
* `Tree.put_comm`: what is put at two places that are apart may be put in either order;
* `Workspace.locate_extend` a path that goes down from another one is followed from where that one
  leads;
* `Job.makes_dirs`: directories are made where the way down is clear;
* `Job.exec_copy`: a file is copied to a place that is free or holds a file.
-/

namespace Rebind

open List

variable {content : ByteArray} {ms ns : List Text} {base p q : Place} {n : Text} {t : Tree}
  {w : Workspace}

/-! ## trees as functions of places -/

namespace Tree

/-- what stands there without what is in it -/
def bare : Tree → Tree
  | .dir _ => .dir []
  | t => t

def view (t : Tree) (p : Place) : Option Tree := (t.find? p).map bare

theorem view_eq_dir : t.view p = some (.dir []) ↔ ∃ u, t.find? p = some u ∧ u.isDir := by
  rw [view, Option.map_eq_some_iff]
  refine exists_congr fun u => and_congr_right fun _ => ?_
  cases u <;> simp [bare, isDir]

theorem view_eq_file : t.view p = some (.file content) ↔ t.find? p = some (.file content) := by
  rw [view, Option.map_eq_some_iff]
  constructor
  · rintro ⟨u, hu, hbare⟩
    cases u <;> simp_all [bare]
  · exact fun h => ⟨_, h, rfl⟩

theorem view_eq_none : t.view p = none ↔ t.find? p = none := Option.map_eq_none_iff

theorem view_below (h : t.view p ≠ some (.dir [])) (hpq : p <+: q) (hne : p ≠ q) :
    t.view q = none := by
  rw [view_eq_none]
  by_contra hsome
  obtain ⟨u, hu⟩ := Option.ne_none_iff_exists'.mp hsome
  exact h (view_eq_dir.mpr (reaches_of_find? hu p hpq hne))

theorem view_above {u : Tree} (h : t.view q = some u) (hpq : p <+: q) (hne : p ≠ q) :
    t.view p = some (.dir []) := by
  by_contra hdir
  rw [view_below hdir hpq hne] at h
  cases h

theorem view_isSome_of_prefix {u : Tree} (h : t.view q = some u) (hpq : p <+: q) :
    (t.view p).isSome = true := by
  by_cases hne : p = q
  · rw [hne, h]
    rfl
  · rw [view_above h hpq hne]
    rfl

/-- a file, a device or an empty directory, put where no directory with entries stands, changes the
view at its place only -/
theorem view_put (new : Tree) (hreach : t.Reaches q) (hnew : new.entries = [])
    (hold : ∀ old, t.find? q = some old → old.entries = []) (p : Place) :
    (t.put q new).view p = if p = q then some new else t.view p := by
  have hleaf : ∀ u : Tree, u.entries = [] → ∀ n ns, find? (n :: ns) u = none := by
    intro u hu n ns
    rw [find?, hu]
    rfl
  by_cases hpq : p = q
  · subst hpq
    rw [if_pos rfl, view, find?_put]
    cases new with
    | dir es =>
      have hes : es = [] := hnew
      rw [hes]
      rfl
    | _ => rfl
  · rw [if_neg hpq]
    by_cases habove : p <+: q
    · rw [view_eq_dir.mpr (hreach p habove hpq)]
      exact view_eq_dir.mpr (find?_put_above t new habove hpq)
    · by_cases hbelow : q <+: p
      · -- neither before nor afterwards is anything below `q`
        obtain ⟨r, rfl⟩ := hbelow
        obtain ⟨n, ns, rfl⟩ := exists_cons_of_ne_nil (fun hr : r = [] => hpq (by simp [hr]))
        have hbefore : t.find? (q ++ n :: ns) = none := by
          rw [find?_append]
          cases hfind : t.find? q with
          | none => rfl
          | some old => exact hleaf old (hold old hfind) n ns
        have hafter : (t.put q new).find? (q ++ n :: ns) = none := by
          rw [find?_append, find?_put]
          exact hleaf new hnew n ns
        rw [view, view, hbefore, hafter]
      · rw [view, view, find?_put_apart t new hbelow habove]

/-! ### the order of two changes -/

theorem putEntry_putEntry_self (name : Text) (a b : Tree) (es : List (Text × Tree)) :
    putEntry name b (putEntry name a es) = putEntry name b es := by
  induction es with
  | nil => simp [putEntry]
  | cons e es ih =>
    obtain ⟨n, u⟩ := e
    by_cases hn : n = name
    · simp [putEntry, hn]
    · by_cases hle : textLe name n = true <;> simp [putEntry, hn, hle, ih]

theorem putEntry_comm {m : Text} (h : m ≠ n) (a b : Tree) (es : List (Text × Tree)) :
    putEntry m a (putEntry n b es) = putEntry n b (putEntry m a es) := by
  -- of two names one stands before the other
  have horder : ∀ {k l : Text}, k ≠ l → textLe k l → ¬ textLe l k := by
    intro k l hkl hle hge
    exact textLe_iff.mp hge (lt_of_textLe hle hkl)
  induction es with
  | nil =>
    rcases textLe_total m n with hle | hle
    · simp [putEntry, hle, h, Ne.symm h, horder h hle]
    · simp [putEntry, hle, h, Ne.symm h, horder (Ne.symm h) hle]
  | cons e es ih =>
    obtain ⟨k, c⟩ := e
    grind [putEntry, textLe_total, textLe_trans]

theorem put_comm (u a b : Tree) (h : ¬ q <+: p) (h' : ¬ p <+: q) :
    put (put u p a) q b = put (put u q b) p a := by
  induction p generalizing q u with
  | nil => exact absurd nil_prefix h'
  | cons m ms ih =>
    cases q with
    | nil => exact absurd nil_prefix h
    | cons n ns =>
      by_cases hmn : m = n
      · subst hmn
        rw [cons_prefix_cons, not_and] at h h'
        simp only [put, entries, child?_putEntry_self, Option.getD_some, putEntry_putEntry_self]
        rw [ih _ (h rfl) (h' rfl)]
      · simp only [put, entries, child?_putEntry_ne hmn, child?_putEntry_ne (Ne.symm hmn)]
        rw [putEntry_comm (Ne.symm hmn)]

end Tree

/-! ## paths that go down -/

namespace Tree

theorem follow_of_dir (h : t.view p = some (.dir [])) (n : Text) (ns : List Text) :
    t.follow p (n :: ns) = t.follow (Place.step p n) ns := by
  obtain ⟨u, hu, hdir⟩ := view_eq_dir.mp h
  rw [follow, Place.step, hu]
  simp only [hdir, Bool.not_true, Bool.false_eq_true, if_false]
  split
  · rfl
  · split <;> rfl

theorem follow_of_none (h : t.view p = none) (n : Text) (ns : List Text) :
    t.follow p (n :: ns) = .error .noSuchFile := by
  rw [follow, view_eq_none.mp h]

theorem follow_stay (t : Tree) (p : Place) (n : Text) (ns : List Text) :
    t.follow p ([] :: n :: ns) = t.follow p (n :: ns) := by
  conv_lhs => rw [follow]
  cases hfind : t.find? p with
  | none => rw [follow, hfind]
  | some u =>
    cases hdir : u.isDir with
    | false => simp [follow, hfind, hdir]
    | true => simp [hdir]

theorem follow_append (t : Tree) (p : Place) (ns ms : List Text) :
    t.follow p (ns ++ ms) = t.follow p ns >>= fun q => t.follow q ms := by
  induction ns generalizing p with
  | nil => rfl
  | cons n ns ih =>
    rw [cons_append, follow, follow]
    cases t.find? p with
    | none => rfl
    | some u =>
      dsimp only
      split
      · rfl
      · split
        · exact ih p
        · split
          · exact ih p.dropLast
          · exact ih (p ++ [n])

end Tree

def GoDown (ns : List Text) : Prop := ∀ n ∈ ns, Path.isProper n ∧ '/' ∉ n ∧ n ≠ ['.', '.']

instance (ns : List Text) : Decidable (GoDown ns) :=
  inferInstanceAs (Decidable (∀ n ∈ ns, Path.isProper n ∧ '/' ∉ n ∧ n ≠ ['.', '.']))

theorem GoDown.of_prefix (h : GoDown ns) (hms : ms <+: ns) : GoDown ms :=
  fun n hn => h n (hms.subset hn)

theorem GoDown.of_cons (h : GoDown (n :: ns)) : GoDown ns :=
  fun m hm => h m (mem_cons_of_mem n hm)

theorem GoDown.step (h : GoDown (n :: ns)) (p : Place) : Place.step p n = p ++ [n] :=
  Place.step_eq (h n mem_cons_self).1 (h n mem_cons_self).2.2 p

def Tree.Clear (t : Tree) (p : Place) (ns : List Text) : Prop :=
  ∀ ms, ms <+: ns → t.view (p ++ ms) = some (.dir []) ∨ t.view (p ++ ms) = none

theorem Tree.Clear.of_prefix (h : t.Clear p ns) (hms : ms <+: ns) : t.Clear p ms := fun ls hls =>
    h ls (hls.trans hms)

theorem Tree.follow_dirs (hns : GoDown ns)
    (h : ∀ ms, ms <+: ns → ms ≠ ns → t.view (p ++ ms) = some (.dir [])) :
    t.follow p ns = .ok (p ++ ns) := by
  induction ns generalizing p with
  | nil => rw [append_nil]; rfl
  | cons n ns ih =>
    have hp : t.view p = some (.dir []) := by
      simpa using h [] nil_prefix (cons_ne_nil n ns).symm
    have hrest := ih (p := p ++ [n]) (hns.of_cons) (fun ms hms hne => by
      simpa using h (n :: ms) (cons_prefix_cons.mpr ⟨rfl, hms⟩)
        (fun he => hne (List.cons.inj he).2))
    rw [Tree.follow_of_dir hp, hns.step, hrest, append_assoc]
    rfl

theorem Tree.follow_clear (hns : GoDown ns) (h : t.Clear p ns)
    (hlast : ¬ ∀ ms, ms <+: ns → ms ≠ ns → t.view (p ++ ms) = some (.dir [])) :
    t.follow p ns = .error .noSuchFile := by
  induction ns generalizing p with
  | nil => exact absurd (fun ms hms hne => absurd (prefix_nil.mp hms) hne) hlast
  | cons n ns ih =>
    have hp : t.view p = some (.dir []) ∨ t.view p = none := by simpa using h [] nil_prefix
    rcases hp with hp | hp
    · rw [Tree.follow_of_dir hp, hns.step]
      refine ih hns.of_cons (fun ms hms => ?_) (fun hall => hlast ?_)
      · simpa using h (n :: ms) (cons_prefix_cons.mpr ⟨rfl, hms⟩)
      · intro ms hms hne
        cases ms with
        | nil => simpa using hp
        | cons m ms =>
          obtain ⟨rfl, hrest⟩ := cons_prefix_cons.mp hms
          simpa using hall ms hrest (fun he => hne (by rw [he]))
    · exact Tree.follow_of_none hp n ns

def Path.start (p : Path) (here : Place) : Place := if p.root = [] then here else []

namespace Workspace

variable {w : Workspace}

/-- a path in normal form is followed name by name -/
theorem locate_text {p : Path} (h : p.Named) :
    w.locate p.text = w.tree.follow (p.start w.here) ([] :: p.names) := by
  have hslash : ∀ x : Text, splitAll '/' ('/' :: x) = [] :: splitAll '/' x := fun x =>
    splitAll_append '/' [] x
  have habsolute : ∀ x : Text, w.locate ('/' :: x) = w.tree.follow [] ([] :: splitAll '/' x) := by
    intro x
    simp [locate, hslash]
  have hsplit : p.names ≠ [] → splitAll '/' (intercalate ['/'] p.names) = p.names := fun hne =>
    splitAll_intercalate hne (fun n hn => (h.names n hn).2)
  have hnames : ∀ q : Place, w.tree.follow q ([] :: splitAll '/' (intercalate ['/'] p.names))
      = w.tree.follow q ([] :: p.names) := by
    intro q
    by_cases hne : p.names = []
    · rw [hne]
      exact w.tree.follow_stay q [] []
    · rw [hsplit hne]
  rcases h.root with hroot | hroot | hroot
  · rw [Path.start, if_pos hroot]
    by_cases hne : p.names = []
    · rw [Path.text, hroot, hne]
      show w.tree.follow w.here [['.']] = _
      simp [Tree.follow]
    · obtain ⟨n, ns, heq⟩ := exists_cons_of_ne_nil hne
      have hhead : ¬ p.text.head? = some '/' := by
        intro hc
        obtain ⟨hproper, hno⟩ := h.names n (by rw [heq]; exact mem_cons_self)
        obtain ⟨c, n, rfl⟩ := exists_cons_of_ne_nil (Path.ne_nil_of_isProper hproper)
        have hfirst : p.text.head? = some c := by
          rw [Path.text, hroot, heq]
          cases ns <;> simp [intercalate_cons_cons]
        rw [hfirst] at hc
        exact hno (by rw [Option.some.inj hc]; exact mem_cons_self)
      have htext : splitAll '/' p.text = p.names := by
        rw [Path.text, if_neg (by simp [hne]), hroot]
        exact hsplit hne
      rw [locate, if_neg (by simpa using h.text_ne_nil hne), if_neg hhead, htext, heq]
      exact (w.tree.follow_stay w.here n ns).symm
  · rw [Path.start, if_neg (by simp [hroot]), Path.text, if_neg (by simp [hroot]), hroot]
    exact (habsolute _).trans (hnames [])
  · rw [Path.start, if_neg (by simp [hroot]), Path.text, if_neg (by simp [hroot]), hroot]
    show w.locate ('/' :: '/' :: intercalate ['/'] p.names) = _
    rw [habsolute, hslash, Tree.follow_stay]
    exact hnames []

end Workspace

def Path.extend (p : Path) (ns : List Text) : Path := ⟨p.root, p.names ++ ns⟩

theorem Path.Named.extend {p : Path} (h : p.Named) (hns : ∀ n ∈ ns, Path.isProper n ∧ '/' ∉ n) :
    (p.extend ns).Named where
  root := h.root
  names := fun n hn => (mem_append.mp hn).elim (h.names n) (hns n)

theorem Path.extend_parent (p : Path) (ns : List Text) (n : Text) :
    (p.extend (ns ++ [n])).parent = p.extend ns := by
  rw [Path.parent, Path.extend, ← append_assoc, dropLast_concat]
  rfl

/-- a path that continues another one is followed from where that one leads -/
theorem Workspace.locate_extend {p : Path} (h : p.Named)
    (hns : ∀ n ∈ ns, Path.isProper n ∧ '/' ∉ n) (hbase : w.locate p.text = .ok base) :
    w.locate (p.extend ns).text = w.tree.follow base ns := by
  rw [locate_text h] at hbase
  rw [locate_text (h.extend hns)]
  show w.tree.follow (p.start w.here) (([] :: p.names) ++ ns) = _
  rw [Tree.follow_append, hbase]
  rfl

theorem GoDown.named (h : GoDown ns) : ∀ n ∈ ns, Path.isProper n ∧ '/' ∉ n :=
  fun n hn => ⟨(h n hn).1, (h n hn).2.1⟩

/-! ## operations on files -/

theorem ne_concat (h : ms <+: ns) (n : Text) : ms ≠ ns ++ [n] := by
  rintro rfl
  simpa using h.length_le

namespace Workspace

variable {w u : Workspace}

theorem locate_of_item? {path : Text} (h : w.item? path = some t) :
    ∃ q, w.locate path = .ok q ∧ w.tree.find? q = some t := by
  unfold item? at h
  cases hq : w.locate path with
  | error cause =>
    rw [hq] at h
    cases h
  | ok q =>
    rw [hq] at h
    exact ⟨q, rfl, h⟩

theorem view_stored_file (content : ByteArray) (hreach : w.tree.Reaches q)
    (hfree : w.tree.view q = none ∨ ∃ old, w.tree.view q = some (.file old)) (p : Place) :
    (w.stored q (.file content)).tree.view p = if p
      = q then some (.file content) else w.tree.view p := by
  refine Tree.view_put _ hreach rfl (fun old hold => ?_) p
  rcases hfree with hnone | ⟨bytes, hfile⟩
  · rw [Tree.view_eq_none.mp hnone] at hold
    cases hold
  · rw [Tree.view_eq_file.mp hfile] at hold
    rw [← Option.some.inj hold]
    rfl

theorem frame_stored_file (hreach : w.tree.Reaches q)
    (hfree : w.tree.view q = none ∨ ∃ old, w.tree.view q = some (.file old)) :
    w.Frame (fun _ => True) (w.stored q (.file content)) := by
  refine frame_stored hreach (fun t ht => ?_)
  rcases hfree with hnone | ⟨old, hold⟩
  · rw [Tree.view_eq_none.mp hnone] at ht
    cases ht
  · rw [Tree.view_eq_file.mp hold] at ht
    rw [← Option.some.inj ht]
    exact ⟨trivial, rfl, trivial⟩

/-- from `w` to `u` the directories on the way from a place along names were made -/
structure Opens (base : Place) (ns : List Text) (w u : Workspace) : Prop where
  here : u.here = w.here
  made : ∀ ms, ms <+: ns → u.tree.view (base ++ ms) = some (.dir [])
  kept : ∀ p, (∀ ms, ms <+: ns → p ≠ base ++ ms) → u.tree.view p = w.tree.view p

theorem Opens.snoc {v : Workspace} (h : w.Opens base ns v)
    (hnone : v.tree.view (base ++ (ns ++ [n])) = none) :
    w.Opens base (ns ++ [n]) (v.stored (base ++ (ns ++ [n])) (.dir [])) := by
  have hreach : v.tree.Reaches (base ++ (ns ++ [n])) := by
    rw [← append_assoc]
    obtain ⟨t, ht, htdir⟩ := Tree.view_eq_dir.mp (h.made ns prefix_rfl)
    exact Tree.Reaches.snoc ht htdir n
  have hview := Tree.view_put (.dir []) hreach rfl (fun old hold => by
    rw [Tree.view_eq_none.mp hnone] at hold
    cases hold)
  refine ⟨h.here, fun ms hms => ?_, fun q hq => ?_⟩
  · refine (hview _).trans ?_
    rcases prefix_concat_iff.mp hms with rfl | hms
    · rw [if_pos rfl]
    · rw [if_neg (fun he => ne_concat hms n (append_cancel_left he))]
      exact h.made ms hms
  · refine (hview q).trans ?_
    rw [if_neg (hq _ prefix_rfl)]
    exact h.kept q (fun ms hms => hq ms (hms.trans (prefix_append ns [n])))

theorem Opens.of_cons (h : w.Opens base (n :: ns) u) (hdir : w.tree.view base = some (.dir [])) :
    (∀ ms, ms <+: ns → u.tree.view (base ++ n :: ms) = some (.dir []))
      ∧ ∀ p, (∀ ms, ms <+: ns → p ≠ base ++ n :: ms) → u.tree.view p = w.tree.view p := by
  refine ⟨fun ms hms => h.made (n :: ms) (cons_prefix_cons.mpr ⟨rfl, hms⟩), fun p hp => ?_⟩
  by_cases hbase : p = base
  · rw [hbase, hdir]
    simpa using h.made [] nil_prefix
  · refine h.kept p (fun ms hms => ?_)
    cases ms with
    | nil => simpa using hbase
    | cons m ms =>
      obtain ⟨rfl, hrest⟩ := cons_prefix_cons.mp hms
      exact hp ms hrest

end Workspace

namespace Job

theorem Frames.of_exec {α : Type} {x : Job α} {u : Workspace} {S : Place → Prop}
    {r : Except Fault α} (h : Frames w.here S x) (hx : exec x w = (r, u)) : w.Frame S u := by
  have hframe := h w rfl
  rwa [hx] at hframe

section
variable {p : Path} {q : Place} {count : Nat} {w v : Workspace}

theorem exec_makeDirsFrom_there (hq : w.locate p.text = .ok q)
    (hdir : w.tree.view q = some (.dir [])) :
    exec (makeDirsFrom p (count + 1)) w = (.ok (), w) := by
  obtain ⟨t, ht, htdir⟩ := Tree.view_eq_dir.mp hdir
  unfold makeDirsFrom
  rw [exec_bind_ok (exec_get w), hq]
  refine (exec_bind_ok (exec_get w) _).trans ?_
  rw [ht]
  cases t with
  | dir es => rfl
  | _ => cases htdir

theorem exec_makeDirsFrom_free (hq : w.locate p.text = .ok q) (hnone : w.tree.view q = none) :
    exec (makeDirsFrom p (count + 1)) w = (.ok (), w.stored q (.dir [])) := by
  unfold makeDirsFrom
  rw [exec_bind_ok (exec_get w), hq]
  refine (exec_bind_ok (exec_get w) _).trans ?_
  rw [Tree.view_eq_none.mp hnone]
  rfl

theorem exec_makeDirsFrom_missing (hq : w.locate p.text = .error .noSuchFile)
    (hv : exec (makeDirsFrom p.parent count) w = (.ok (), v)) (hq' : v.locate p.text = .ok q)
    (hnone : v.tree.view q = none) :
    exec (makeDirsFrom p (count + 1)) w = (.ok (), v.stored q (.dir [])) := by
  unfold makeDirsFrom
  rw [exec_bind_ok (exec_get w), hq]
  refine (exec_bind_ok hv _).trans ((exec_bind_ok (exec_get v) _).trans ?_)
  rw [hq']
  refine (exec_bind_ok (exec_get v) _).trans ?_
  rw [Tree.view_eq_none.mp hnone]
  rfl

end

theorem makes_dirsFrom {p : Path} {count : Nat} (hp : p.Named)
    (hns : GoDown ns) (hbase : w.locate p.text = .ok base)
    (hdir : w.tree.view base = some (.dir []))
    (hclear : w.tree.Clear base ns) (hcount : ns.length < count) :
    Gives (makeDirsFrom (p.extend ns) count) w (fun _ u => w.Opens base ns u) := by
  obtain ⟨count, rfl⟩ := Nat.exists_eq_add_one_of_ne_zero (Nat.ne_of_gt (Nat.zero_lt_of_lt hcount))
  -- by the last name: the directory it names is made in the one the names before it lead to
  induction ns using reverseRecOn generalizing count with
  | nil =>
    have hlocate : w.locate (p.extend []).text = .ok base := by
      rw [Path.extend, append_nil]
      exact hbase
    refine ⟨(), w, exec_makeDirsFrom_there hlocate hdir, rfl, fun ms hms => ?_, fun _ _ => rfl⟩
    rw [prefix_nil.mp hms, append_nil]
    exact hdir
  | append_singleton ns n ih =>
    have hprefix : ns <+: ns ++ [n] := prefix_append ns [n]
    have hlocate := Workspace.locate_extend hp hns.named hbase
    by_cases hall : ∀ ms, ms <+: ns ++ [n] → ms ≠ ns ++ [n] → w.tree.view (base ++ ms)
      = some (.dir [])
    · rw [Tree.follow_dirs hns hall] at hlocate
      rcases hclear _ prefix_rfl with hthere | hnone
      · refine ⟨(), w, exec_makeDirsFrom_there hlocate hthere, rfl, fun ms hms => ?_,
          fun _ _ => rfl⟩
        by_cases hms' : ms = ns ++ [n]
        · rw [hms', hthere]
        · exact hall ms hms hms'
      · have hopens : w.Opens base ns w :=
          ⟨rfl, fun ms hms => hall ms (hms.trans hprefix) (ne_concat hms n), fun _ _ => rfl⟩
        exact ⟨(), _, exec_makeDirsFrom_free hlocate hnone, hopens.snoc hnone⟩
    · rw [Tree.follow_clear hns hclear hall] at hlocate
      -- a directory above is missing, and so is everything below it
      have hnone : w.tree.view (base ++ (ns ++ [n])) = none := by
        push Not at hall
        obtain ⟨ms, hms, hne, hnot⟩ := hall
        exact Tree.view_below hnot ((prefix_append_right_inj base).mpr hms)
          (fun he => hne (append_cancel_left he))
      rw [length_append, length_singleton] at hcount
      obtain ⟨count, rfl⟩ := Nat.exists_eq_add_one_of_ne_zero (n := count) (by omega)
      obtain ⟨_, v, hv, hopens⟩ := ih (hns.of_prefix hprefix) (hclear.of_prefix hprefix) count
        (by omega)
      have hframe : w.Frame (fun _ => False) v := (frames_makeDirsFrom _ _).of_exec hv
      have hlocate' : v.locate (p.extend (ns ++ [n])).text = .ok (base ++ (ns ++ [n])) := by
        rw [Workspace.locate_extend hp hns.named (hframe.locate hbase)]
        exact Tree.follow_dirs hns
          (fun ms hms hne => hopens.made ms ((prefix_concat_iff.mp hms).resolve_left hne))
      have hnone' : v.tree.view (base ++ (ns ++ [n])) = none := by
        rw [hopens.kept _ (fun ms hms he => ne_concat hms n (append_cancel_left he).symm), hnone]
      rw [← Path.extend_parent p ns n] at hv
      exact ⟨(), _, exec_makeDirsFrom_missing hlocate hv hlocate' hnone', hopens.snoc hnone'⟩

theorem makes_dirs {p : Path} (hp : p.Named) (hns : GoDown ns) (hbase : w.locate p.text = .ok base)
    (hdir : w.tree.view base = some (.dir [])) (hclear : w.tree.Clear base ns) :
    Gives (makeDirs (p.extend ns)) w (fun _ u => w.Opens base ns u) := by
  refine makes_dirsFrom hp hns hbase hdir hclear ?_
  rw [Path.extend, length_append]
  omega

theorem exec_copy_eq {source target : Text} {a : Place} (names : Text)
    (ha : w.locate source = .ok a) (hsource : w.tree.find? a = some (.file content))
    (hnot : w.isDir target = false) (hne : w.locate target ≠ .ok a) :
    exec (copy source target names) w = exec (writeBytes target content) w := by
  have hbytes : exec (readBytes source) w = (.ok content, w) := by
    rw [exec_readBytes, Workspace.bytesAt, ha]
    dsimp only
    rw [hsource]
  unfold copy
  rw [exec_bind_ok (exec_get w), hnot]
  dsimp only [Bool.false_eq_true, if_false]
  rw [exec_bind_ok (exec_get w), exec_bind_ok (exec_get w), ha]
  cases hb : w.locate target with
  | error cause =>
    simp only [Bool.false_eq_true, if_false, hb]
    exact exec_bind_ok hbytes _
  | ok b =>
    have hab : a ≠ b := fun he => hne (by rw [hb, he])
    simp only [Bool.false_eq_true, if_false, hb]
    rw [exec_bind_ok (exec_get w), if_neg (by simp [hab])]
    exact exec_bind_ok hbytes _

theorem exec_copy {source target : Text} {a b : Place} (names : Text)
    (ha : w.locate source = .ok a) (hsource : w.tree.view a = some (.file content))
    (hb : w.locate target = .ok b)
    (hfree : w.tree.view b = none ∨ ∃ old, w.tree.view b = some (.file old)) (hne : a ≠ b) :
    exec (copy source target names) w = (.ok (), w.stored b (.file content)) := by
  have hnot : w.isDir target = false := by
    rw [Workspace.isDir, Workspace.item?_eq hb]
    rcases hfree with hnone | ⟨old, hold⟩
    · rw [Tree.view_eq_none.mp hnone]
    · rw [Tree.view_eq_file.mp hold]
      rfl
  rw [exec_copy_eq names ha (Tree.view_eq_file.mp hsource) hnot
    (fun he => hne (Except.ok.inj (he.symm.trans hb)))]
  rcases writeBytes_cases target content w with ⟨q, hq, -, he⟩ | ⟨-, hno⟩
  · rw [he, Except.ok.inj (hb.symm.trans hq)]
  · obtain ⟨t, ht, hfile⟩ := hno b hb
    rcases hfree with hnone | ⟨old, hold⟩
    · rw [Tree.view_eq_none.mp hnone] at ht
      cases ht
    · rw [Tree.view_eq_file.mp hold] at ht
      rw [← Option.some.inj ht] at hfile
      cases hfile

end Job

end Rebind
