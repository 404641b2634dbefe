import Mathlib
import Rebind.Proofs.Project.Scanning

/-!
# Two ways to read the exclusions

What a scan is to pass over is told by names.  They can be read in two ways:

* as whole names, which is how `Settings.excluded` writes them down as patterns: a name is excluded
  if it is one of them;
* as parts of names: a name is excluded if one of them stands in it, as `bin` does in `binding`.

A scan goes by the second reading, wherever the project and the directories to look in are
(`Search.mem_found_iff`).  So it never gives what the first one excludes, and
`Search.spared_found_iff` says which of the files that the first one leaves are missing: those to
which every way has a name that an exclusion is a proper part of.  The readings differ as soon as
there is such a name (`Search.agent_skipped`).
-/

namespace Rebind

open List Job

/-- a way to a file: a directory to look in as it is written, the names of the directories between,
and that of the file -/
structure Way where
  root : Text
  between : List Text
  name : Text

namespace Way

def path (x : Way) : Text := joinNames x.root (x.between ++ [x.name])

/-- the way starts at one of the directories and ends at a file -/
def Leads (x : Way) (w : Workspace) (roots : List Text) : Prop :=
  x.root ∈ roots ∧ ∃ dir leaf, w.item? x.root = some dir ∧ dir.find? (x.between ++ [x.name])
    = some leaf ∧ leaf.isDir = false

end Way

/-- a part of a name that is not all of it -/
def Stray (part name : Text) : Prop := part <:+: name ∧ part ≠ name

instance (part name : Text) : Decidable (Stray part name) :=
  inferInstanceAs (Decidable (part <:+: name ∧ part ≠ name))

namespace Search

variable {c : Search} {s : Settings} {w : Workspace} {roots : List Text} {x : Way} {path : Text}

/-- the file at the end of the way has one of the endings, and no exclusion fits a name on the
way -/
structure Spares (c : Search) (fits : Text → Text → Prop) (x : Way) : Prop where
  ending : ∃ ending ∈ c.endings, ending <:+ x.name
  dirs : ∀ n ∈ x.between, ∀ part ∈ c.passedDirs, ¬ fits part n
  file : ∀ part ∈ c.passedFiles, ¬ fits part x.name

theorem Spares.mono {fits fits' : Text → Text → Prop} (h : c.Spares fits x)
    (himp : ∀ part n, fits' part n → fits part n) : c.Spares fits' x where
  ending := h.ending
  dirs := fun n hn part hpart hfits => h.dirs n hn part hpart (himp part n hfits)
  file := fun part hpart hfits => h.file part hpart (himp part x.name hfits)

theorem spares_infix_iff : c.Spares (· <:+: ·) x ↔ c.Spares (· = ·) x ∧ c.Spares Stray x := by
  constructor
  · intro h
    constructor
    · apply h.mono
      rintro part _ rfl
      exact infix_refl part
    · apply h.mono
      intro part n hstray
      exact hstray.1
  · rintro ⟨hwhole, hstray⟩
    have hsplit : ∀ {part n : Text}, ¬ part = n → ¬ Stray part n → ¬ part <:+: n :=
      fun hne hno hpart => hno ⟨hpart, hne⟩
    exact ⟨hwhole.ending, fun n hn part hpart => hsplit (hwhole.dirs n hn part hpart)
      (hstray.dirs n hn part hpart),
      fun part hpart => hsplit (hwhole.file part hpart) (hstray.file part hpart)⟩

theorem takes_iff_spares {dir : Tree} (root : Text) {between : List Text} {name : Text} :
    c.Takes dir between name
    ↔ (∃ leaf, dir.find? (between ++ [name]) = some leaf ∧ leaf.isDir = false)
      ∧ c.Spares (· <:+: ·) ⟨root, between, name⟩ := by
  constructor
  · rintro ⟨hthere, hentered, hending, hparts⟩
    exact ⟨hthere, hending, fun n hn part hpart hfits => hentered n hn ⟨part, hpart, hfits⟩,
      fun part hpart hfits => hparts ⟨part, hpart, hfits⟩⟩
  · rintro ⟨hthere, hending, hdirs, hfile⟩
    exact ⟨hthere, fun n hn ⟨part, hpart, hfits⟩ => hdirs n hn part hpart hfits, hending,
      fun ⟨part, hpart, hfits⟩ => hfile part hpart hfits⟩

theorem mem_walked_iff (hc : c.Reads s) (hw : w.tree.WellNamed) {root : Text} :
    path ∈ w.walked s root
    ↔ ∃ x : Way, x.root = root ∧ x.Leads w [root] ∧ c.Spares (· <:+: ·) x ∧ x.path = path := by
  unfold Workspace.walked
  cases hitem : w.item? root with
  | none =>
    simp only [not_mem_nil, false_iff]
    rintro ⟨x, rfl, ⟨-, dir, leaf, hdir, -⟩, -⟩
    cases hitem.symm.trans hdir
  | some t =>
    have ht : t.WellNamed := by
      obtain ⟨q, -, hq⟩ := Workspace.locate_of_item? hitem
      exact hw.find? hq
    show path ∈ (t.scan s root).1 ↔ _
    rw [(finds_scan hc t root ht).mem_iff]
    constructor
    · rintro ⟨between, name, htakes, rfl⟩
      obtain ⟨⟨leaf, hfind, hleaf⟩, hspares⟩ := (takes_iff_spares root).mp htakes
      exact ⟨⟨root, between, name⟩, rfl, ⟨mem_singleton_self root, t, leaf, hitem, hfind, hleaf⟩,
        hspares, rfl⟩
    · rintro ⟨⟨_, between, name⟩, rfl, ⟨-, dir, leaf, hdir, hfind, hleaf⟩, hspares, rfl⟩
      obtain rfl : t = dir := Option.some.inj (hitem.symm.trans hdir)
      exact ⟨between, name, (takes_iff_spares _).mpr ⟨⟨leaf, hfind, hleaf⟩, hspares⟩, rfl⟩

theorem mem_found_iff (hc : c.Reads s) (hw : w.tree.WellNamed)
    (hroots : s.scanPaths w = .ok roots) :
    ∃ files, w.found s = .ok files
      ∧ ∀ path, path ∈ files ↔ ∃ x : Way, x.Leads w roots ∧ c.Spares (· <:+: ·) x
        ∧ x.path = path := by
  refine ⟨sortedSet (roots.map (w.walked s)).flatten, by rw [Workspace.found, hroots]; rfl,
    fun path => ?_⟩
  rw [mem_sortedSet, mem_flatten]
  constructor
  · rintro ⟨_, hwalk, hpath⟩
    obtain ⟨root, hroot, rfl⟩ := mem_map.mp hwalk
    obtain ⟨x, rfl, ⟨-, hleads⟩, hrest⟩ := (mem_walked_iff hc hw).mp hpath
    exact ⟨x, ⟨hroot, hleads⟩, hrest⟩
  · rintro ⟨x, ⟨hroot, hleads⟩, hrest⟩
    exact ⟨_, mem_map_of_mem hroot,
      (mem_walked_iff hc hw).mpr ⟨x, rfl, ⟨mem_singleton_self x.root, hleads⟩, hrest⟩⟩

/-- what a scan finds is not excluded by whole names; and of the files that are not, it finds those
to which a way leads on which no exclusion is a proper part of a name -/
theorem spared_found_iff (hc : c.Reads s) (hw : w.tree.WellNamed)
    (hroots : s.scanPaths w = .ok roots) :
    Gives (Scanner.fresh.scan s) w (fun r _ =>
      (∀ path ∈ r.1, ∃ x : Way, x.Leads w roots ∧ c.Spares (· = ·) x ∧ x.path = path)
      ∧ ∀ x : Way, x.Leads w roots → c.Spares (· = ·) x →
        (x.path ∈ r.1 ↔ ∃ y : Way, y.path = x.path ∧ y.Leads w roots ∧ c.Spares (· = ·) y
          ∧ c.Spares Stray y)) := by
  obtain ⟨files, hfiles, hmem⟩ := mem_found_iff hc hw hroots
  obtain ⟨u, hscan, -, -⟩ := exec_scanProject s w
  rw [hfiles] at hscan
  refine ⟨_, u, exec_bind_ok hscan _, ?_, ?_⟩
  · intro path hpath
    obtain ⟨x, hleads, hspares, hx⟩ := (hmem path).mp hpath
    exact ⟨x, hleads, (spares_infix_iff.mp hspares).1, hx⟩
  · intro x _ _
    show x.path ∈ files ↔ _
    rw [hmem]
    constructor
    · rintro ⟨y, hleads, hspares, hy⟩
      exact ⟨y, hy, hleads, spares_infix_iff.mp hspares⟩
    · rintro ⟨y, hy, hleads, hspares⟩
      exact ⟨y, hleads, spares_infix_iff.mpr hspares, hy⟩

end Search

/-- a project with a package `agent`, in whose name `gen` stands -/
def agency : Workspace where
  tree := .dir [("p", .dir [("java", .dir [("agent", .dir [("A.java", .file .empty)])])])]
  here := []
  now := ⟨2024, 1, 1, 0, 0, 0, 0⟩
  output := []
  complaints := []

theorem wellNamed_agency : agency.tree.WellNamed := by
  have hagent : Tree.WellNamed (.dir [("A.java", .file .empty)]) :=
    Tree.wellNamed_iff.mpr ⟨by decide, by simp [Tree.entries, Tree.wellNamed_file]⟩
  have hjava : Tree.WellNamed (.dir [("agent", .dir [("A.java", .file .empty)])]) :=
    Tree.wellNamed_iff.mpr ⟨by decide, by simpa [Tree.entries] using hagent⟩
  have hp : Tree.WellNamed (.dir [("java", .dir [("agent", .dir [("A.java", .file .empty)])])]) :=
    Tree.wellNamed_iff.mpr ⟨by decide, by simpa [Tree.entries] using hjava⟩
  exact Tree.wellNamed_iff.mpr ⟨by decide, by simpa [agency, Tree.entries] using hp⟩

namespace Search

/-- the usual exclusions, for sources in some directories of `/p` -/
def usual (dirs : List Text) : Search where
  project := "/p"
  dirs := dirs
  endings := [".java"]
  passedDirs := ["build", ".gradle", ".idea", "bin", "gen"]
  passedFiles := ["R.java", "BuildConfig.java"]

def toAgent : Way := ⟨"/p/java", ["agent"], "A.java"⟩

/-- when the package is a directory to look in as well, its class is found from there -/
theorem spared_found_agency :
    (usual ["java", "java/agent"]).Spares (· = ·) toAgent
      ∧ ¬ (usual ["java", "java/agent"]).Spares Stray toAgent
    ∧ Gives (Scanner.fresh.scan
        ((Settings.default "/p").put .scanDirectories (Settings.textList ["java", "java/agent"])))
      agency (fun r _ => toAgent.path ∈ r.1) := by
  have hreads : (usual ["java", "java/agent"]).Reads
      ((Settings.default "/p").put .scanDirectories (Settings.textList ["java", "java/agent"])) :=
    ⟨rfl, rfl, rfl, rfl, rfl, rfl⟩
  have hspares : (usual ["java", "java/agent"]).Spares (· = ·) toAgent :=
    ⟨by decide, by decide, by decide⟩
  have hleads : toAgent.Leads agency ["/p/java", "/p/java/agent"] :=
    ⟨mem_cons_self, _, _, rfl, rfl, rfl⟩
  refine ⟨hspares, fun h => h.dirs "agent" mem_cons_self "gen" (by decide) (by decide), ?_⟩
  have hroots : ((Settings.default "/p").put .scanDirectories
      (Settings.textList ["java", "java/agent"])).scanPaths agency
        = .ok ["/p/java", "/p/java/agent"] := by decide +kernel
  refine (spared_found_iff hreads wellNamed_agency hroots).mono ?_
  rintro r _ ⟨-, hfound⟩
  refine (hfound toAgent hleads hspares).mpr
    ⟨⟨"/p/java/agent", [], "A.java"⟩, by decide, ?_, ?_, ?_⟩
  · exact ⟨by decide, _, _, rfl, rfl, rfl⟩
  · exact ⟨by decide, by decide, by decide⟩
  · exact ⟨by decide, by decide, by decide⟩

/-- from the directory of all sources alone the class is passed over, although nothing excludes its
package -/
theorem agent_skipped :
    (usual ["app/src/main/java", "src/main/java", "java", "tests"]).Reads (Settings.default "/p")
    ∧ (Settings.default "/p").scanPaths agency = .ok ["/p/java"] ∧ toAgent.Leads agency ["/p/java"]
    ∧ (usual ["app/src/main/java", "src/main/java", "java", "tests"]).Spares (· = ·) toAgent
    ∧ Gives (Scanner.fresh.scan (Settings.default "/p")) agency
      (fun r _ => toAgent.path ∉ r.1) := by
  refine ⟨⟨rfl, rfl, rfl, rfl, rfl, rfl⟩, by decide +kernel, ⟨mem_cons_self, _, _, rfl, rfl, rfl⟩,
    ⟨by decide, by decide, by decide⟩, ?_⟩
  have hfound : agency.found (Settings.default "/p") = .ok [] := by decide +kernel
  obtain ⟨u, hscan, -, -⟩ := exec_scanProject (Settings.default "/p") agency
  rw [hfound] at hscan
  exact ⟨_, u, exec_bind_ok hscan _, not_mem_nil⟩

end Search

end Rebind
