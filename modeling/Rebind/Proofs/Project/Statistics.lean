import Mathlib
import Rebind.Proofs.Project.Scanning

/-!
# Statistics of a scanner in use

A scanner remembers the files it found and, apart from them, their kinds.  It looks for files again
whenever it remembers none, but it does not classify again, not even when there was nothing to
classify.

`Scanner.watch` follows a scanner through any sequence of calls and of other jobs that make and
remove files.  The kinds it remembers are those of the files it remembers unless there are none of
them (`Scanner.coherent_watch`), so that the numbers of a statistics add up (`Agree`) except in one
case, which `Scanner.statistics_agree_iff` tells from what happened before: files were classified
when none was found, nothing was forgotten since, and now there are some.
-/

namespace Rebind

open List Job

namespace Scanner

/-! ## a scanner in use -/

/-- what is asked of a scanner -/
inductive Call where
  | files
  | kinds
  | ofKind (label : Text)
  | statistics
  | forget
  | refresh

namespace Call

def forgets : Call → Bool
  | .forget | .refresh => true
  | _ => false

def classifies : Call → Bool
  | .kinds | .ofKind _ | .statistics => true
  | _ => false

/-- the scanner after a call -/
def run (s : Settings) (sc : Scanner) : Call → Job Scanner
  | .files => do return (← sc.scan s).2
  | .kinds | .ofKind _ => do return (← sc.classify s).2
  | .statistics => do return (← sc.statistics s).2
  | .forget => return fresh
  | .refresh => do return (← fresh.scan s).2

end Call

/-- something is asked of the scanner, or something else is done in the workspace -/
inductive Event where
  | call (c : Call)
  | other (x : Job Unit)

namespace Event

def forgets : Event → Bool
  | .call c => c.forgets
  | .other _ => false

def classifies : Event → Bool
  | .call c => c.classifies
  | .other _ => false

theorem keeps_of_classifies {e : Event} (h : e.classifies) : e.forgets = false := by
  cases e with
  | other y => rfl
  | call c => cases c <;> simp_all [classifies, forgets, Call.classifies, Call.forgets]

end Event

/-- a scanner and the workspace it looks at -/
structure Watch where
  scanner : Scanner
  space : Workspace

/-- a call that stops leaves the scanner as it was, but for what it had already forgotten -/
def Watch.step (s : Settings) (x : Watch) : Event → Watch
  | .call c =>
    let start := if c.forgets then fresh else x.scanner
    let r := exec (c.run s start) x.space
    ⟨r.1.toOption.getD start, r.2⟩
  | .other y => ⟨x.scanner, (exec y x.space).2⟩

def watch (s : Settings) (w : Workspace) (events : List Event) :
    Watch := events.foldl (Watch.step s) ⟨fresh, w⟩

theorem watch_snoc (s : Settings) (w : Workspace) (events : List Event) (e : Event) :
    watch s w (events ++ [e]) = (watch s w events).step s e := by
  rw [watch, foldl_append]
  rfl

/-! ## what the calls do -/

end Scanner

/-- the kind of the file at a path -/
def Workspace.kindAt (w : Workspace) (path : Text) : FileKind :=
  match w.textAt path with
  | .ok content => .ofContent content
  | .error _ => .other

theorem exec_kindAt (path : Text) (w : Workspace) :
    exec (kindAt path) w = (.ok (w.kindAt path), w) := by
  unfold kindAt Workspace.kindAt
  rw [exec_bind_ok (exec_outcome _ w), exec_readText]
  cases w.textAt path <;> rfl

namespace Scanner

variable {s : Settings} {sc : Scanner} {w u : Workspace}

def sees (sc : Scanner) (s : Settings) (w : Workspace) : Except Fault (List Text) :=
  if sc.files.isEmpty then w.found s else .ok sc.files

/-- the scanner after it was asked for the files -/
def looked (sc : Scanner) (s : Settings) (w : Workspace) : Scanner :=
  match sc.sees s w with
  | .ok files => { sc with files }
  | .error _ => sc

/-- the scanner after it was asked for the kinds -/
def sorted (sc : Scanner) (s : Settings) (w : Workspace) : Scanner :=
  match sc.kinds, sc.sees s w with
  | none, .ok files => ⟨files, some (files.map (fun f => (f, w.kindAt f)))⟩
  | _, _ => sc

theorem sees_congr (hhere : u.here = w.here) (htree : u.tree = w.tree) :
    sc.sees s u = sc.sees s w := by
  rw [sees, sees, Workspace.found_congr hhere htree]

theorem exec_scan (sc : Scanner) (s : Settings) (w : Workspace) : ∃ u,
    exec (sc.scan s) w = ((sc.sees s w).map (fun files => (files, { sc with files })), u)
    ∧ u.here = w.here ∧ u.tree = w.tree := by
  unfold scan sees
  split
  · obtain ⟨u, hscan, hu⟩ := exec_scanProject s w
    refine ⟨u, ?_, hu⟩
    rw [exec_bind, hscan]
    cases w.found s <;> rfl
  · exact ⟨w, rfl, rfl, rfl⟩

/-- the kinds come with the scanner that remembers them -/
theorem exec_classify (sc : Scanner) (s : Settings) (w : Workspace) : ∃ u,
    u.here = w.here ∧ u.tree = w.tree ∧
    ((∃ kinds, (sc.sorted s w).kinds = some kinds ∧ exec (sc.classify s) w
      = (.ok (kinds, sc.sorted s w), u))
      ∨ ∃ e, sc.kinds = none ∧ sc.sees s w = .error e ∧ exec (sc.classify s) w
        = (.error e, u)) := by
  unfold classify sorted
  cases hkinds : sc.kinds with
  | some kinds => exact ⟨w, rfl, rfl, .inl ⟨kinds, hkinds, rfl⟩⟩
  | none =>
    obtain ⟨u, hscan, hhere, htree⟩ := exec_scan sc s w
    refine ⟨u, hhere, htree, ?_⟩
    cases hsees : sc.sees s w with
    | error e =>
      rw [hsees] at hscan
      refine .inr ⟨e, rfl, rfl, ?_⟩
      show exec (sc.scan s >>= _) w = _
      rw [exec_bind, hscan]
      rfl
    | ok files =>
      rw [hsees] at hscan
      have hkindAt : ∀ f, u.kindAt f = w.kindAt f := by
        intro f
        rw [Workspace.kindAt, Workspace.kindAt, Workspace.textAt_congr hhere htree]
      have hmapM : exec (files.mapM (fun f => return (f, ← Rebind.kindAt f))) u
          = (.ok (files.map (fun f => (f, w.kindAt f))), u) := by
        refine exec_mapM (fun f _ => ?_)
        rw [exec_bind_ok (exec_kindAt f u), hkindAt]
        rfl
      refine .inl ⟨_, rfl, ?_⟩
      show exec (sc.scan s >>= _) w = _
      rw [exec_bind_ok hscan, exec_bind_ok hmapM]
      rfl

theorem sees_again {sc' : Scanner} {files : List Text} (h : sc.sees s w = .ok files)
    (hfiles : sc'.files = files) :
    sc'.sees s w = .ok files := by
  rw [sees, hfiles]
  split
  · rename_i hempty
    obtain rfl := isEmpty_iff.mp hempty
    rw [sees] at h
    split at h
    · exact h
    · rename_i hne
      rw [Except.ok.inj h] at hne
      exact absurd isEmpty_nil hne
  · rfl

theorem sees_sorted (sc : Scanner) (s : Settings) (w : Workspace) :
    (sc.sorted s w).sees s w = sc.sees s w := by
  unfold sorted
  split
  · rename_i files _ hsees
    rw [hsees]
    exact sees_again hsees rfl
  · rfl

def tally (kinds : List (Text × FileKind)) (files : List Text) : List (Text × Nat) :=
  FileKind.all.map (fun k => (k.label, (ofKind kinds k).length)) ++ [("total".toList, files.length)]

theorem exec_statistics (sc : Scanner) (s : Settings) (w : Workspace) : ∃ u,
    (∃ kinds files, (sc.sorted s w).kinds = some kinds ∧ sc.sees s w = .ok files
        ∧ exec (sc.statistics s) w = (.ok (tally kinds files, (sc.sorted s w).looked s w), u))
      ∨ ∃ e, sc.sees s w = .error e ∧ exec (sc.statistics s) w = (.error e, u) := by
  obtain ⟨v, hhere, htree, ⟨kinds, hkinds, hclassify⟩ | ⟨e, -, hsees, hclassify⟩⟩ :=
    exec_classify sc s w
  · obtain ⟨u, hscan, -, -⟩ := exec_scan (sc.sorted s w) s v
    rw [sees_congr hhere htree, sees_sorted] at hscan
    refine ⟨u, ?_⟩
    unfold statistics
    rw [exec_bind_ok hclassify]
    dsimp only
    rw [exec_bind, hscan, looked, sees_sorted]
    cases sc.sees s w with
    | ok files => exact .inl ⟨kinds, files, hkinds, rfl, rfl⟩
    | error e => exact .inr ⟨e, rfl, rfl⟩
  · refine ⟨v, .inr ⟨e, hsees, ?_⟩⟩
    unfold statistics
    rw [exec_bind, hclassify]

/-- what a call makes of the scanner -/
def Call.leaves (s : Settings) (w : Workspace) (sc : Scanner) : Call → Scanner
  | .files => sc.looked s w
  | .kinds | .ofKind _ => sc.sorted s w
  | .statistics => (sc.sorted s w).looked s w
  | .forget => fresh
  | .refresh => fresh.looked s w

theorem looked_of_error {e : Fault} (h : sc.sees s w = .error e) : sc.looked s w = sc := by
  rw [looked, h]

theorem sorted_of_error {e : Fault} (h : sc.sees s w = .error e) : sc.sorted s w = sc := by
  rw [sorted, h]
  cases sc.kinds <;> rfl

theorem getD_scan (sc : Scanner) (s : Settings) (w : Workspace) :
    (exec (Call.files.run s sc) w).1.toOption.getD sc = sc.looked s w := by
  obtain ⟨u, hscan, -, -⟩ := exec_scan sc s w
  show (exec (sc.scan s >>= _) w).1.toOption.getD sc = _
  rw [exec_bind, hscan, looked]
  cases sc.sees s w <;> rfl

theorem getD_classify (sc : Scanner) (s : Settings) (w : Workspace) :
    (exec (Call.kinds.run s sc) w).1.toOption.getD sc = sc.sorted s w := by
  show (exec (sc.classify s >>= _) w).1.toOption.getD sc = _
  obtain ⟨u, -, -, ⟨kinds, -, hclassify⟩ | ⟨e, -, hsees, hclassify⟩⟩ := exec_classify sc s w
  · rw [exec_bind, hclassify]
    rfl
  · rw [exec_bind, hclassify, sorted_of_error hsees]
    rfl

theorem getD_statistics (sc : Scanner) (s : Settings) (w : Workspace) :
    (exec (Call.statistics.run s sc) w).1.toOption.getD sc = (sc.sorted s w).looked s w := by
  show (exec (sc.statistics s >>= _) w).1.toOption.getD sc = _
  obtain ⟨u, ⟨kinds, files, -, -, hstats⟩ | ⟨e, hsees, hstats⟩⟩ := exec_statistics sc s w
  · rw [exec_bind, hstats]
    rfl
  · rw [exec_bind, hstats, sorted_of_error hsees, looked_of_error hsees]
    rfl

theorem scanner_step_call (s : Settings) (x : Watch) (c : Call) :
    (x.step s (.call c)).scanner = c.leaves s x.space x.scanner := by
  cases c with
  | files => exact getD_scan x.scanner s x.space
  | kinds => exact getD_classify x.scanner s x.space
  | ofKind label => exact getD_classify x.scanner s x.space
  | statistics => exact getD_statistics x.scanner s x.space
  | forget => rfl
  | refresh => exact getD_scan fresh s x.space

/-! ## files and kinds agree -/

def Coherent (sc : Scanner) : Prop := ∀ kinds, sc.kinds = some kinds → kinds = []
    ∨ kinds.map (·.1) = sc.files

theorem coherent_fresh : Coherent fresh := by
  intro kinds h
  cases h

theorem kinds_looked (sc : Scanner) (s : Settings) (w : Workspace) :
    (sc.looked s w).kinds = sc.kinds := by
  unfold looked
  split <;> rfl

theorem Coherent.looked (h : Coherent sc) (s : Settings) (w : Workspace) :
    Coherent (sc.looked s w) := by
  intro kinds hkinds
  rw [kinds_looked] at hkinds
  rcases h kinds hkinds with hnil | hfiles
  · exact .inl hnil
  · by_cases hempty : sc.files = []
    · rw [hempty] at hfiles
      exact .inl (map_eq_nil_iff.mp hfiles)
    · right
      rw [hfiles, Scanner.looked, sees, if_neg (by simpa using hempty)]

theorem Coherent.sorted (h : Coherent sc) (s : Settings) (w : Workspace) :
    Coherent (sc.sorted s w) := by
  unfold Scanner.sorted
  split
  · rintro kinds ⟨⟩
    right
    rw [map_map]
    exact map_id _
  · exact h

theorem Coherent.step {x : Watch} (h : Coherent x.scanner) (s : Settings) (e : Event) :
    Coherent (x.step s e).scanner := by
  cases e with
  | other y => exact h
  | call c =>
    rw [scanner_step_call]
    cases c with
    | files => exact h.looked s x.space
    | kinds => exact h.sorted s x.space
    | ofKind label => exact h.sorted s x.space
    | statistics => exact (h.sorted s x.space).looked s x.space
    | forget => exact coherent_fresh
    | refresh => exact coherent_fresh.looked s x.space

theorem coherent_watch (s : Settings) (w : Workspace) (events : List Event) :
    Coherent (watch s w events).scanner := by
  induction events using reverseRecOn with
  | nil => exact coherent_fresh
  | append_singleton events e ih =>
    rw [watch_snoc]
    exact ih.step s e

/-! ## a classification of nothing -/

theorem files_eq_nil_of_sees (h : sc.sees s w = .ok []) : sc.files = [] := by
  rw [sees] at h
  split at h
  · rename_i hempty
    exact List.isEmpty_iff.mp hempty
  · exact Except.ok.inj h

theorem kinds_sorted_eq_nil_iff (h : Coherent sc) :
    (sc.sorted s w).kinds = some [] ↔ sc.kinds = some [] ∨ sc.sees s w = .ok [] := by
  unfold Scanner.sorted
  split
  · rename_i files hnone hsees
    rw [hnone, hsees]
    simp
  · rename_i hother
    constructor
    · exact .inl
    · rintro (hkinds | hsees)
      · exact hkinds
      · cases hkinds : sc.kinds with
        | none => exact absurd hsees (hother [] hkinds)
        | some kinds =>
          rcases h kinds hkinds with hnil | hfiles
          · rw [hnil]
          · rw [files_eq_nil_of_sees hsees] at hfiles
            rw [map_eq_nil_iff.mp hfiles]

theorem kinds_step_eq_nil_iff {x : Watch} (h : Coherent x.scanner) (e : Event) :
    (x.step s e).scanner.kinds = some [] ↔ e.forgets = false
      ∧ (x.scanner.kinds = some [] ∨ e.classifies ∧ x.scanner.sees s x.space = .ok []) := by
  cases e with
  | other y => simp [Watch.step, Event.forgets, Event.classifies]
  | call c =>
    rw [scanner_step_call]
    cases c with
    | files =>
      simp [Call.leaves, kinds_looked, Event.forgets, Event.classifies, Call.forgets,
        Call.classifies]
    | kinds | ofKind label =>
      simp [Call.leaves, kinds_sorted_eq_nil_iff h, Event.forgets, Event.classifies, Call.forgets,
        Call.classifies]
    | statistics =>
      simp [Call.leaves, kinds_looked, kinds_sorted_eq_nil_iff h, Event.forgets, Event.classifies,
        Call.forgets, Call.classifies]
    | forget => simp [Call.leaves, fresh, Event.forgets, Call.forgets]
    | refresh => simp [Call.leaves, kinds_looked, fresh, Event.forgets, Call.forgets]

/-- files were classified when none was found, and nothing was forgotten since -/
def ClassifiedNothing (s : Settings) (w : Workspace) (events : List Event) : Prop :=
  ∃ before e between, events = before ++ e :: between ∧ e.classifies
    ∧ Gives ((watch s w before).scanner.scan s) (watch s w before).space (fun r _ => r.1 = [])
    ∧ ∀ f ∈ between, f.forgets = false

theorem gives_scan_nil_iff : Gives (sc.scan s) w (fun r _ => r.1 = []) ↔ sc.sees s w = .ok [] := by
  obtain ⟨u, hscan, -, -⟩ := exec_scan sc s w
  unfold Gives
  rw [hscan]
  cases sc.sees s w with
  | error e => simp [Except.map]
  | ok files => simp [Except.map]

theorem kinds_watch_eq_nil_iff (s : Settings) (w : Workspace) (events : List Event) :
    (watch s w events).scanner.kinds = some [] ↔ ClassifiedNothing s w events := by
  -- the last event either is the one that classified or comes after it
  induction events using reverseRecOn with
  | nil =>
    constructor
    · intro h
      cases h
    · rintro ⟨before, e, between, h, -⟩
      simp at h
  | append_singleton events e ih =>
    rw [watch_snoc, kinds_step_eq_nil_iff (coherent_watch s w events), ih]
    constructor
    · rintro ⟨hkept, ⟨before, f, between, rfl, hclassifies, hnone, hbetween⟩ | ⟨hclassifies, hsees⟩⟩
      · refine ⟨before, f, between ++ [e], by simp, hclassifies, hnone, fun g hg => ?_⟩
        rcases mem_append.mp hg with hg | hg
        · exact hbetween g hg
        · rw [mem_singleton.mp hg]
          exact hkept
      · exact ⟨events, e, [], rfl, hclassifies, gives_scan_nil_iff.mpr hsees, by simp⟩
    · rintro ⟨before, f, between, heq, hclassifies, hnone, hbetween⟩
      rcases eq_nil_or_concat between with rfl | ⟨between, g, rfl⟩
      · obtain ⟨rfl, rfl⟩ : events = before ∧ e = f := by simpa using heq
        exact ⟨Event.keeps_of_classifies hclassifies,
          .inr ⟨hclassifies, gives_scan_nil_iff.mp hnone⟩⟩
      · obtain ⟨rfl, rfl⟩ : events = before ++ f :: between ∧ e = g := by
          rw [concat_eq_append, ← cons_append, ← append_assoc] at heq
          exact ⟨append_inj_left' heq rfl, by simpa using append_inj_right' heq rfl⟩
        refine ⟨hbetween e (by simp),
          .inl ⟨before, f, between, rfl, hclassifies, hnone, fun g hg => ?_⟩⟩
        exact hbetween g (by simp [hg])

/-! ## the numbers of a statistics -/

def stated (label : Text) (stats : List (Text × Nat)) : Nat := (stats.lookup label).getD 0

/-- the total is the sum of the numbers of all kinds -/
def Agree (stats : List (Text × Nat)) : Prop :=
  stated "total" stats = (FileKind.all.map (fun k => stated k.label stats)).sum

theorem stated_total (kinds : List (Text × FileKind)) (files : List Text) :
    stated "total" (tally kinds files) = files.length := rfl

theorem stated_label (kinds : List (Text × FileKind)) (files : List Text) (k : FileKind) :
    stated k.label (tally kinds files) = (ofKind kinds k).length := by
  cases k <;> rfl

theorem sum_ofKind (kinds : List (Text × FileKind)) :
    (FileKind.all.map (fun k => (ofKind kinds k).length)).sum = kinds.length := by
  induction kinds with
  | nil => rfl
  | cons e kinds ih =>
    obtain ⟨f, k⟩ := e
    rw [length_cons, ← ih]
    cases k <;> simp [FileKind.all, ofKind, filter_cons] <;> omega

theorem agree_tally_iff (kinds : List (Text × FileKind)) (files : List Text) :
    Agree (tally kinds files) ↔ files.length = kinds.length := by
  unfold Agree
  simp only [stated_total, stated_label, sum_ofKind]

/-- whatever happened before, the numbers of a statistics add up unless there are files now and
there were none when they were classified -/
theorem statistics_agree_iff (s : Settings) (w : Workspace) (events : List Event)
    {stats : List (Text × Nat)} {sc : Scanner} {u : Workspace}
    (h : exec ((watch s w events).scanner.statistics s) (watch s w events).space
      = (.ok (stats, sc), u)) :
    Agree stats ↔ stated "total" stats = 0 ∨ ¬ ClassifiedNothing s w events := by
  rw [← kinds_watch_eq_nil_iff]
  have hco := coherent_watch s w events
  generalize watch s w events = x at h hco
  obtain ⟨v, ⟨kinds, files, hkinds, hsees, hstats⟩ | ⟨e, -, hstats⟩⟩ :=
    exec_statistics x.scanner s x.space
  · rw [hstats] at h
    obtain rfl : tally kinds files = stats := by
      cases h
      rfl
    rw [agree_tally_iff, stated_total]
    have hnil := kinds_sorted_eq_nil_iff (s := s) (w := x.space) hco
    rw [hkinds, hsees, Option.some.injEq, Except.ok.injEq] at hnil
    by_cases hempty : kinds = []
    · subst hempty
      show files.length = 0 ↔ _
      constructor
      · exact .inl
      · rintro (htotal | hother)
        · exact htotal
        · rw [(hnil.mp rfl).resolve_left hother]
          rfl
    · -- the kinds are those of the files that the scanner remembers, which it then gives
      have hfiles := (hco.sorted s x.space kinds hkinds).resolve_left hempty
      have hne : ¬ (x.scanner.sorted s x.space).files.isEmpty := by
        rw [← hfiles, List.isEmpty_map, List.isEmpty_iff]
        exact hempty
      rw [← sees_sorted, sees, if_neg hne, ← hfiles] at hsees
      have hlength : files.length = kinds.length := by rw [← Except.ok.inj hsees, List.length_map]
      exact iff_of_true hlength (.inr fun hx => hempty (hnil.mpr (.inl hx)))
  · rw [hstats] at h
    cases h

/-- a project with one source -/
def solo : Workspace where
  tree := .dir [("p", .dir [("java", .dir [("A.java", .file .empty)])])]
  here := []
  now := ⟨2024, 1, 1, 0, 0, 0, 0⟩
  output := []
  complaints := []

def making (path : Text) : Event := .other (writeText path "class B")

theorem exists_statistics (s : Settings) (x : Watch) (stats : List (Text × Nat))
    (h : (exec (x.scanner.statistics s) x.space).1.toOption.map (·.1) = some stats) :
    ∃ sc u, exec (x.scanner.statistics s) x.space = (.ok (stats, sc), u) := by
  generalize exec (x.scanner.statistics s) x.space = r at h
  obtain ⟨_ | ⟨found, sc⟩, u⟩ := r
  · cases h
  · cases h
    exact ⟨sc, u, rfl⟩

def lateEvents : List Event := [.call .files, making "/p/java/B.java"]

/-- the late source is counted neither by its kind nor in the total -/
theorem statistics_agree_late : ∃ stats sc u,
    exec ((watch (Settings.default "/p") solo lateEvents).scanner.statistics
      (Settings.default "/p"))
      (watch (Settings.default "/p") solo lateEvents).space = (.ok (stats, sc), u)
    ∧ stated "total" stats = 1 ∧ Agree stats := by
  obtain ⟨sc, u, h⟩ := exists_statistics (Settings.default "/p")
    (watch (Settings.default "/p") solo lateEvents)
    (tally [("/p/java/A.java", .other)] ["/p/java/A.java"]) (by decide +kernel)
  refine ⟨_, sc, u, h, rfl, (statistics_agree_iff _ _ _ h).mpr (.inr ?_)⟩
  -- nothing was classified at all
  rintro ⟨before, e, between, hevents, hclassifies, -⟩
  have he : e ∈ lateEvents := hevents ▸ List.mem_append_right before List.mem_cons_self
  simp only [lateEvents, making, List.mem_cons, List.not_mem_nil, or_false] at he
  rcases he with rfl | rfl <;> cases hclassifies

def refilledEvents : List Event :=
  [.other (remove "/p/java/A.java"), .call .kinds, making "/p/java/B.java"]

/-- the new source is counted in the total only -/
theorem statistics_disagree_refilled : ∃ stats sc u,
    exec ((watch (Settings.default "/p") solo refilledEvents).scanner.statistics
      (Settings.default "/p"))
      (watch (Settings.default "/p") solo refilledEvents).space = (.ok (stats, sc), u)
    ∧ ¬ Agree stats := by
  obtain ⟨sc, u, h⟩ := exists_statistics (Settings.default "/p")
    (watch (Settings.default "/p") solo refilledEvents)
    (tally [] ["/p/java/B.java"]) (by decide +kernel)
  refine ⟨_, sc, u, h, ?_⟩
  rw [agree_tally_iff]
  decide

end Scanner

end Rebind
