import Mathlib
import Rebind.Migration.Run
import Rebind.Proofs.Migration.Totality
import Rebind.Proofs.Project.Writing

/-!
# The stages of a run

Each stage of a run returns whatever the workspace is, and changes no more than it has to:

* `gives_readSource`, `gives_editSource`, `gives_injectSource`: reading, editing and injecting
  change the log only, and give `Workspace.source?`, `SourceFile.edited` and `SourceFile.finished`;
* `gives_writeSources`: every source is written and counted as written, and a place that is written
  more than once with the same code ends up with that code;
* `publish_leaves`: what stands at the place of the report is the report.

`gives_migrateFiles` puts them together: it says what becomes of the files, in whichever order they
come and however often a place is among them.
-/

namespace Rebind

open List Job

/-! ## sources -/

/-- the file at a path, if it has annotations -/
def Workspace.source? (w : Workspace) (path : Text) : Option SourceFile :=
  match w.textAt path with
  | .ok code => if (Findings.detect code).applies then some ⟨path, .detect code, code⟩ else none
  | .error _ => none

namespace Workspace

variable {S : Place → Prop} {w u : Workspace} {path : Text} {f : SourceFile}

theorem source?_eq_some : w.source? path = some f ↔ f.path = path ∧ f.findings = .detect f.code
    ∧ f.findings.applies ∧ ∃ q content, w.locate path = .ok q
      ∧ w.tree.find? q = some (.file content) ∧ textOf? content = some f.code := by
  constructor
  · intro h
    unfold source? at h
    split at h
    · rename_i code hcode
      split at h
      · rename_i happlies
        cases h
        refine ⟨rfl, rfl, happlies, file_of_textAt hcode ?_⟩
        rintro rfl
        rw [detect_applies] at happlies
        exact absurd happlies (by decide)
      · cases h
    · cases h
  · rintro ⟨rfl, hfindings, happlies, q, content, hq, hfile, hcode⟩
    rw [hfindings] at happlies
    rw [source?, textAt_eq hq hfile, hcode]
    dsimp only [Option.elim]
    rw [if_pos happlies, ← hfindings]

theorem Frame.source? (h : w.Frame S u) (hf : w.source? path = some f)
    (hS : ¬ S (Place.ofPath w.here path)) :
    u.source? path = some f := by
  obtain ⟨hpath, hfindings, happlies, q, content, hq, hfile, hcode⟩ := source?_eq_some.mp hf
  rw [← locate_eq hq] at hS
  exact source?_eq_some.mpr ⟨hpath, hfindings, happlies, q, content, h.locate hq,
    h.find? hfile rfl hS, hcode⟩

theorem Alike.source?_eq (h : w.Alike S u) (hS : ¬ S (Place.ofPath w.here path)) :
    u.source? path = w.source? path := by
  have hS' : ¬ S (Place.ofPath u.here path) := by rwa [h.onward.here]
  apply Option.ext
  intro f
  exact ⟨fun hf => h.back.source? hf hS', fun hf => h.onward.source? hf hS⟩

theorem Frame.source?_unique {path' : Text} {f' : SourceFile} (h : w.Frame S u)
    (hf : w.source? path = some f)
    (hS : ¬ S (Place.ofPath w.here path)) (hf' : u.source? path' = some f')
    (hplace : Place.ofPath w.here path' = Place.ofPath w.here path) : f'.code = f.code := by
  obtain ⟨-, -, -, q, content, hq, hfile, hcode⟩ := source?_eq_some.mp hf
  obtain ⟨-, -, -, q', content', hq', hfile', hcode'⟩ := source?_eq_some.mp hf'
  have hqq : q' = q := by rw [locate_eq hq', locate_eq hq, h.here, hplace]
  rw [← locate_eq hq] at hS
  have hsame := h.find? hfile rfl hS
  rw [hqq] at hfile'
  obtain rfl : content = content' := by
    injection Option.some.inj (hsame.symm.trans hfile')
  exact Option.some.inj (hcode'.symm.trans hcode)

end Workspace

namespace SourceFile

def edited (f : SourceFile) : SourceFile :=
  { f with code := (editAll f.findings f.code).toOption.getD f.code }

def finished (f : SourceFile) : SourceFile :=
  { f with code := (injected f.findings f.code).toOption.getD f.code }

end SourceFile

namespace Run

theorem gives_readSource (log : Log) (path : Text) (w : Workspace) :
    Gives (readSource log path) w (fun r u => w.Alike log.Owns u ∧ r = w.source? path) := by
  unfold readSource Workspace.source?
  refine gives_bind_of_exec (exec_outcome _ w) ?_
  rw [exec_readText]
  cases w.textAt path with
  | ok code =>
    dsimp only
    split
    · exact (log.gives_tell_alike _ _ w).bind (fun _ u hu => gives_pure ⟨hu, rfl⟩)
    · exact gives_pure ⟨.refl _ w, rfl⟩
  | error e => exact (log.gives_tell_alike _ _ w).bind (fun _ u hu => gives_pure ⟨hu, rfl⟩)

theorem gives_editSource (log : Log) {f : SourceFile} (hf : f.findings = .detect f.code)
    (w : Workspace) :
    Gives (editSource log f) w (fun r u => w.Frame log.Owns u ∧ r = some f.edited) := by
  obtain ⟨code, hcode⟩ := editAll_returns f.code
  unfold editSource SourceFile.edited
  rw [hf, hcode]
  exact gives_pure ⟨.refl _ w, rfl⟩

theorem gives_injectSource (log : Log) (f : SourceFile) (w : Workspace) :
    Gives (injectSource log f) w (fun r u => w.Frame log.Owns u ∧ r = f.finished) := by
  unfold injectSource SourceFile.finished
  cases injected f.findings f.code with
  | ok code => exact gives_pure ⟨.refl _ w, rfl⟩
  | error e => exact (log.gives_tell _ _ w).bind (fun _ u hu => gives_pure ⟨hu, rfl⟩)

/-! ## writing -/

def WritesAt (log : Log) (s : Settings) (wr : Writer) (here : Place) (fs : List SourceFile)
    (q : Place) : Prop :=
  log.Owns q ∨ ∃ f ∈ fs, wr.Touches s here f.path q

theorem WritesAt.mono {log : Log} {s : Settings} {wr : Writer} {here : Place}
    {fs gs : List SourceFile} {q : Place} (h : WritesAt log s wr here fs q) (hfs : fs ⊆ gs) :
    WritesAt log s wr here gs q := by
  rcases h with h | ⟨f, hf, hq⟩
  · exact .inl h
  · exact .inr ⟨f, hfs hf, hq⟩

/-- every source is written, and a place that is written with one code only, and is none of the
log's and of the backups, has that code in the end -/
theorem gives_writeSources (log : Log) (s : Settings) {wr : Writer} {r : RunReport}
    {fs : List SourceFile} {w : Workspace} (hfs : ∀ f ∈ fs, w.isFile f.path) :
    Gives (writeSources log s wr r fs) w (fun r' u => r' = fs.foldl (fun r f => r.add f true) r
      ∧ w.Frame (WritesAt log s wr w.here fs) u
      ∧ ∀ q code, ¬ log.Owns q → (∀ f ∈ fs, ¬ wr.BacksUpAt s w.here f.path q) →
          (∀ f ∈ fs, Place.ofPath w.here f.path = q → f.code = code) →
          (∃ f ∈ fs, Place.ofPath w.here f.path = q) →
          u.tree.find? q = some (.file (bytesOf code))) := by
  induction fs generalizing w wr r with
  | nil => exact gives_pure ⟨rfl, .refl _ w, by simp⟩
  | cons f fs ih =>
    obtain ⟨q₀, old, hq₀, hold⟩ := Workspace.isFile_iff.mp (hfs f mem_cons_self)
    rw [writeSources]
    refine (wr.gives_write s f.path f.code w).bind (fun ⟨written, wr'⟩ v ⟨hbackup, hv, hfile⟩ => ?_)
    obtain ⟨hwritten, hplaced⟩ := hfile q₀ old hq₀ hold
    dsimp only at hbackup hwritten
    subst hwritten
    -- the writer that goes on has the same backup directory
    have hbacks : wr'.BacksUpAt s = wr.BacksUpAt s := by
      funext here path q
      rw [Writer.BacksUpAt, Writer.BacksUpAt, hbackup]
    have hwrites : WritesAt log s wr' = WritesAt log s wr := by
      funext here gs q
      simp only [WritesAt, Writer.Touches, hbacks]
    refine (log.gives_tell _ _ v).bind (fun _ v' hv' => ?_)
    have hstart : w.Frame (WritesAt log s wr w.here (f :: fs)) v' :=
      (hv.mono (fun q hq => .inr ⟨f, mem_cons_self, hq⟩)).trans (hv'.mono (fun q hq => .inl hq))
    have hhere : v'.here = w.here := hstart.here
    refine (ih (fun g hg => hstart.isFile (hfs g (mem_cons_of_mem _ hg)))).mono
      (fun r' u ⟨hr, hu, hrest⟩ => ?_)
    rw [hhere, hbacks] at hrest
    rw [hhere, hwrites] at hu
    refine ⟨hr, hstart.trans (hu.mono fun q hq => hq.mono (subset_cons_self f fs)), ?_⟩
    intro q code hlog hbackups hcode hsome
    by_cases hlater : ∃ g ∈ fs, Place.ofPath w.here g.path = q
    · exact hrest q code hlog (fun g hg => hbackups g (mem_cons_of_mem _ hg))
        (fun g hg => hcode g (mem_cons_of_mem _ hg)) hlater
    · -- the file itself was the last one written at `q`
      have hq : Place.ofPath w.here f.path = q := by
        obtain ⟨g, hg, hplace⟩ := hsome
        rcases mem_cons.mp hg with rfl | hg
        · exact hplace
        · exact absurd ⟨g, hg, hplace⟩ hlater
      rw [Workspace.locate_eq hq₀, hq, hcode f mem_cons_self hq] at hplaced
      refine hu.find? (hv'.find? hplaced rfl hlog) rfl ?_
      rintro (hown | ⟨g, hg, hplace | hback⟩)
      · exact hlog hown
      · exact hlater ⟨g, hg, hplace.symm⟩
      · exact hbackups g (mem_cons_of_mem _ hg) hback

end Run

/-! ## the report -/

namespace RunReport

def allWritten (fs : List SourceFile) : RunReport :=
  ⟨fs.length, fs.length, 0, fs.map (·.detail true)⟩

theorem foldl_add (fs : List SourceFile) (r : RunReport) : fs.foldl (fun r f => r.add f true) r
    = ⟨r.total, r.successful + fs.length, r.failed, r.details ++ fs.map (·.detail true)⟩ := by
  induction fs generalizing r with
  | nil => simp
  | cons f fs ih =>
    rw [foldl_cons, ih]
    simp [add, Nat.add_comm, Nat.add_left_comm]

theorem foldl_add_start (fs : List SourceFile) :
    fs.foldl (fun r f => r.add f true) ⟨fs.length, 0, 0, []⟩ = allWritten fs := by
  rw [foldl_add, allWritten, Nat.zero_add, nil_append]

theorem frame_publish (r : RunReport) (log : Log) (path : Text) (w : Workspace) :
    (exec (writeText path r.toValue.toJson) w).2.Frame log.Owns
      (exec (r.publish log path) w).2 := by
  have hwrite : w.Frame (fun _ => True) (exec (writeText path r.toValue.toJson) w).2 :=
    frames_writeBytes path _ trivial w rfl
  unfold publish
  refine frame_after hwrite.here
    (fun _ => frames_bind (Log.frames_tell (fun _ h => h) _ _) (fun _ => ?_))
  iterate 7 refine frames_bind (frames_say _) (fun _ => ?_)
  exact frames_say _

theorem frames_publish (r : RunReport) (log : Log) (path : Text) (here : Place) :
    Frames here (fun q => q = Place.ofPath here path ∨ log.Owns q) (r.publish log path) := by
  intro w hw
  have hwrite : w.Frame (fun q => q = Place.ofPath here path ∨ log.Owns q)
      (exec (writeText path r.toValue.toJson) w).2 :=
    frames_writeBytes path _ (.inl rfl) w hw
  exact hwrite.trans ((frame_publish r log path w).mono (fun _ h => .inr h))

theorem publish_leaves {r : RunReport} {log : Log} {path : Text} {w : Workspace} {q : Place}
    (hq : w.locate path = .ok q) (hlog : ¬ log.Owns q) :
    ∃ t, (exec (r.publish log path) w).2.tree.find? q = some t
      ∧ (t.isFile → t = .file (bytesOf r.toValue.toJson)) := by
  have hframe := frame_publish r log path w
  rw [writeText] at hframe
  rcases writeBytes_cases path (bytesOf r.toValue.toJson) w with ⟨q', hq', -, he⟩ | ⟨he, hno⟩
  · obtain rfl : q = q' := Except.ok.inj (hq.symm.trans hq')
    rw [he] at hframe
    exact ⟨_, hframe.find? (w.find?_stored q _) rfl hlog, fun _ => rfl⟩
  · obtain ⟨t, ht, hfile⟩ := hno q hq
    rw [he] at hframe
    obtain ⟨t', ht', hkind, -⟩ := hframe.kept q t ht
    refine ⟨t', ht', fun hfile' => ?_⟩
    rw [hkind.isFile, hfile] at hfile'
    cases hfile'

end RunReport

/-! ## the run -/

namespace Run

theorem exists_of_forall₂ {α β : Type} {R : α → β → Prop} {as : List α} {bs : List β}
    (h : List.Forall₂ R as bs) : (∀ a ∈ as, ∃ b ∈ bs, R a b) ∧ ∀ b ∈ bs, ∃ a ∈ as, R a b := by
  induction h with
  | nil => simp
  | cons hab _ ih =>
    obtain ⟨hleft, hright⟩ := ih
    constructor
    · intro a ha
      rcases mem_cons.mp ha with rfl | ha
      · exact ⟨_, mem_cons_self, hab⟩
      · obtain ⟨b, hb, hR⟩ := hleft a ha
        exact ⟨b, mem_cons_of_mem _ hb, hR⟩
    · intro b hb
      rcases mem_cons.mp hb with rfl | hb
      · exact ⟨_, mem_cons_self, hab⟩
      · obtain ⟨a, ha, hR⟩ := hright b hb
        exact ⟨a, mem_cons_of_mem _ ha, hR⟩

theorem eq_map_of_forall₂ {α β : Type} {g : α → β} {as : List α} {bs : List β}
    (h : List.Forall₂ (fun a b => b = g a) as bs) : bs = as.map g := by
  induction h with
  | nil => rfl
  | cons hab _ ih => rw [map_cons, ← hab, ← ih]

/-- what a run found at each path, in a workspace that differs from `w` in the log only -/
def Reads (log : Log) (w : Workspace) (paths : List Text) (found : List (Option SourceFile)) :
    Prop :=
  List.Forall₂ (fun path r => ∃ v, w.Alike log.Owns v ∧ r = v.source? path) paths found

/-- what a run over files makes of them -/
structure Handles (log : Log) (s : Settings) (wr : Writer) (project : Text) (paths : List Text)
    (w u : Workspace) (fs : List SourceFile) : Prop where
  sources : ∃ found, Reads log w paths found ∧ fs = found.filterMap id
  frame : w.Frame (fun q => WritesAt log s wr w.here fs q
    ∨ q = Place.ofPath w.here (RunReport.path project)) u
  written : ∀ q code, ¬ log.Owns q → q ≠ Place.ofPath w.here (RunReport.path project) →
    (∀ f ∈ fs, ¬ wr.BacksUpAt s w.here f.path q) →
    (∀ f ∈ fs, Place.ofPath w.here f.path = q → f.edited.finished.code = code) →
    (∃ f ∈ fs, Place.ofPath w.here f.path = q) → u.tree.find? q = some (.file (bytesOf code))
  report : fs ≠ [] → ∀ q, w.locate (RunReport.path project) = .ok q → ¬ log.Owns q →
    ∃ t, u.tree.find? q = some t ∧ (t.isFile →
      t = .file (bytesOf (RunReport.allWritten (fs.map (·.edited.finished))).toValue.toJson))

theorem gives_migrateFiles (log : Log) {s : Settings} (wr : Writer) {project : Text}
    (hproject : s.project = .ok project) (paths : List Text) (w : Workspace) :
    Gives (migrateFiles log s wr paths) w
      (fun _ u => ∃ fs, Handles log s wr project paths w u fs) := by
  unfold migrateFiles
  refine (log.gives_tell_alike _ _ w).bind (fun _ w₁ h₁ => ?_)
  refine (gives_mapM_along (Workspace.Alike.refl log.Owns) Workspace.Alike.trans
    (fun path _ v => gives_readSource log path v) w₁).bind (fun found w₂ ⟨h₂, hfound⟩ => ?_)
  have hreads : Reads log w paths found := hfound.imp fun path r ⟨v, hv, _, hr⟩ =>
    ⟨v, h₁.trans hv, hr⟩
  -- every source comes from a file, and goes on to be one
  have hsources : ∀ f ∈ found.filterMap id, f.findings = .detect f.code ∧ w₂.isFile f.path := by
    intro f hf
    obtain ⟨r, hr, hrf⟩ := mem_filterMap.mp hf
    obtain ⟨path, -, v, -, hv, rfl⟩ := (exists_of_forall₂ hfound).2 r hr
    have hsource : v.source? path = some f := hrf
    obtain ⟨rfl, hfindings, -, q, content, hq, hfile, -⟩ := Workspace.source?_eq_some.mp hsource
    exact ⟨hfindings, hv.onward.isFile (Workspace.isFile_iff.mpr ⟨q, content, hq, hfile⟩)⟩
  generalize hfs : found.filterMap id = fs at hsources
  refine (log.gives_tell _ _ w₂).bind (fun _ w₃ h₃ => ?_)
  have hstart : w.Frame log.Owns w₃ := h₁.onward.trans (h₂.onward.trans h₃)
  split
  · rename_i hempty
    have hnil : fs = [] := isEmpty_iff.mp hempty
    refine (log.gives_tell _ _ w₃).bind (fun _ u hu => gives_pure ⟨fs, ?_⟩)
    exact
      { sources := ⟨found, hreads, hfs.symm⟩
        frame := (hstart.trans hu).mono (fun _ h => .inl (.inl h))
        written := by simp [hnil]
        report := fun h => absurd hnil h }
  · refine (log.gives_tell _ _ w₃).bind (fun _ w₄ h₄ => ?_)
    refine (gives_mapM (fun f hf v => gives_editSource log (hsources f hf).1 v) w₄).bind
      (fun edited w₅ ⟨h₅, hedited⟩ => ?_)
    obtain rfl := eq_map_of_forall₂ (hedited.imp fun _ _ ⟨_, _, _, h⟩ => h)
    rw [filterMap_map, Function.id_comp, filterMap_eq_map']
    refine (log.gives_tell _ _ w₅).bind (fun _ w₆ h₆ => ?_)
    refine (gives_mapM (fun f _ v => gives_injectSource log f v) w₆).bind
      (fun finished w₇ ⟨h₇, hfinished⟩ => ?_)
    obtain rfl := eq_map_of_forall₂ (hfinished.imp fun _ _ ⟨_, _, _, h⟩ => h)
    rw [map_map]
    refine (log.gives_tell _ _ w₇).bind (fun _ w₈ h₈ => ?_)
    have hlater : w₃.Frame log.Owns w₈ := h₄.trans (h₅.trans (h₆.trans (h₇.trans h₈)))
    have hbefore : w.Frame log.Owns w₈ := hstart.trans hlater
    have hfiles : ∀ f ∈ fs.map (SourceFile.finished ∘ SourceFile.edited), w₈.isFile f.path := by
      intro g hg
      obtain ⟨f, hf, rfl⟩ := mem_map.mp hg
      exact (h₃.trans hlater).isFile (hsources f hf).2
    refine (gives_writeSources log s hfiles).bind (fun r w₉ ⟨hr, h₉, hplaced⟩ => ?_)
    rw [RunReport.foldl_add_start] at hr
    subst hr
    refine (log.gives_tell _ _ w₉).bind (fun _ w₁₀ h₁₀ => ?_)
    rw [hproject]
    refine gives_bind_of_exec (exec_lift _ w₁₀) ?_
    have hhere : w₁₀.here = w.here := h₁₀.here.trans (h₉.here.trans hbefore.here)
    refine (gives_outcome (RunReport.frames_publish _ log _ w.here) hhere).bind
      (fun o w₁₁ ⟨ho, h₁₁⟩ => ?_)
    have hpaths : ∀ here q, WritesAt log s wr here
      (fs.map (SourceFile.finished ∘ SourceFile.edited)) q
        ↔ WritesAt log s wr here fs q := fun here q => by
      simp only [WritesAt, mem_map, exists_exists_and_eq_and]
      rfl
    have hend : ∀ u, w₁₁.Frame log.Owns u → Handles log s wr project paths w u fs := by
      intro u hu
      rw [hbefore.here] at h₉ hplaced
      have hafter : w₉.Frame (fun q => q = Place.ofPath w.here (RunReport.path project)
          ∨ log.Owns q) u :=
        (h₁₀.mono fun _ h => .inr h).trans (h₁₁.trans (hu.mono fun _ h => .inr h))
      refine ⟨⟨found, hreads, hfs.symm⟩, ?_, ?_, ?_⟩
      · refine (hbefore.mono fun _ h => .inl (.inl h)).trans
          ((h₉.mono fun q h => .inl ((hpaths _ q).mp h)).trans (hafter.mono fun q h => ?_))
        exact h.elim .inr (fun h => .inl (.inl h))
      · intro q code hlog hreport hback hcode hsome
        have hthere := hplaced q code hlog (forall_mem_map.mpr hback) (forall_mem_map.mpr hcode) (by
          obtain ⟨f, hf, hplace⟩ := hsome
          exact ⟨_, mem_map_of_mem hf, hplace⟩)
        exact hafter.find? hthere rfl (fun h => h.elim hreport hlog)
      · intro _ q hq hlog
        obtain ⟨t, ht, hfile⟩ :=
          RunReport.publish_leaves (h₁₀.locate (h₉.locate (hbefore.locate hq))) hlog
        rw [ho] at ht
        obtain ⟨t', ht', hkind, hsame⟩ := hu.kept q t ht
        refine ⟨t', ht', fun hfile' => ?_⟩
        have htfile := hfile (hkind.isFile.symm.trans hfile')
        rcases hsame with hdir | hown | rfl
        · rw [htfile] at hdir
          cases hdir
        · exact absurd hown hlog
        · exact htfile
    cases o with
    | ok _ => exact (log.gives_tell _ _ w₁₁).mono (fun _ u hu => ⟨fs, hend u hu⟩)
    | error e =>
      refine (log.gives_tell _ _ w₁₁).bind (fun _ v hv => ?_)
      exact (log.gives_tell _ _ v).mono (fun _ u hu => ⟨fs, hend u (hv.trans hu)⟩)

section
variable {log : Log} {s : Settings} {wr : Writer} {project path : Text} {paths : List Text}
  {w v u : Workspace} {fs : List SourceFile} {f : SourceFile}

theorem Handles.of_alike (hv : w.Alike log.Owns v) (h : Handles log s wr project paths v u fs) :
    Handles log s wr project paths w u fs := by
  obtain ⟨⟨found, hreads, hfs⟩, hframe, hwritten, hreport⟩ := h
  rw [hv.onward.here] at hframe hwritten
  refine ⟨⟨found, hreads.imp fun _ _ ⟨z, hz, hr⟩ => ⟨z, hv.trans hz, hr⟩, hfs⟩, ?_, hwritten, ?_⟩
  · exact (hv.onward.mono fun _ h => .inl (.inl h)).trans hframe
  · intro hne q hq hlog
    exact hreport hne q (hv.onward.locate hq) hlog

theorem Handles.mem_sources (h : Handles log s wr project paths w u fs) (hpath : path ∈ paths)
    (hf : w.source? path = some f) (hlog : ¬ log.Owns (Place.ofPath w.here path)) : f ∈ fs := by
  obtain ⟨found, hreads, rfl⟩ := h.sources
  obtain ⟨r, hr, v, hv, rfl⟩ := (exists_of_forall₂ hreads).1 path hpath
  exact mem_filterMap.mpr ⟨_, hr, hv.onward.source? hf hlog⟩

theorem Handles.of_mem_sources (h : Handles log s wr project paths w u fs) (hf : f ∈ fs) :
    f.path ∈ paths ∧ ∃ v, w.Frame log.Owns v ∧ v.source? f.path = some f := by
  obtain ⟨found, hreads, rfl⟩ := h.sources
  obtain ⟨r, hr, hrf⟩ := mem_filterMap.mp hf
  obtain ⟨path, hpath, v, hv, rfl⟩ := (exists_of_forall₂ hreads).2 r hr
  have hsource : v.source? path = some f := hrf
  obtain ⟨rfl, -⟩ := Workspace.source?_eq_some.mp hsource
  exact ⟨hpath, v, hv.onward, hsource⟩

/-- the places besides those of the files that a run may change: the log, the report and the
backups -/
def Aside (log : Log) (s : Settings) (wr : Writer) (project : Text) (here : Place)
    (paths : List Text) (q : Place) : Prop :=
  log.Owns q ∨ q = Place.ofPath here (RunReport.path project)
    ∨ ∃ path ∈ paths, wr.BacksUpAt s here path q

theorem Handles.source_written (h : Handles log s wr project paths w u fs) (hpath : path ∈ paths)
    (hf : w.source? path = some f)
    (haside : ¬ Aside log s wr project w.here paths (Place.ofPath w.here path)) :
    u.tree.find? (Place.ofPath w.here path) = some (.file (bytesOf f.edited.finished.code)) := by
  have hlog : ¬ log.Owns (Place.ofPath w.here path) := fun hown => haside (.inl hown)
  have hmem := h.mem_sources hpath hf hlog
  obtain ⟨rfl, hfindings, -⟩ := Workspace.source?_eq_some.mp hf
  refine h.written _ _ hlog (fun he => haside (.inr (.inl he))) ?_ ?_ ⟨f, hmem, rfl⟩
  · intro g hg hback
    exact haside (.inr (.inr ⟨g.path, (h.of_mem_sources hg).1, hback⟩))
  · intro g hg hplace
    obtain ⟨-, v, hv, hgs⟩ := h.of_mem_sources hg
    have hcode : g.code = f.code := hv.source?_unique hf hlog hgs hplace
    have hfound : g.findings = f.findings := by
      rw [hfindings, (Workspace.source?_eq_some.mp hgs).2.1, hcode]
    simp only [SourceFile.finished, SourceFile.edited, hcode, hfound]

/-- the files that a run finds -/
def found (log : Log) (s : Settings) : Job (List Text) := do
  log.info "开始ButterKnife迁移流程..."
  log.info "步骤1: 扫描项目文件..."
  scanProject s

theorem still_scanProject (s : Settings) : Still (scanProject s) := by
  unfold scanProject
  refine still_bind (fun _ => ⟨rfl, rfl⟩)
    (fun v => still_bind (fun _ => ⟨rfl, rfl⟩) (fun roots => ?_))
  refine still_bind (still_mapM fun root => ?_) (fun _ => still_pure _)
  unfold scanDir
  refine still_bind (fun _ => ⟨rfl, rfl⟩) (fun v => ?_)
  split
  · exact still_pure _
  · dsimp only
    split
    · exact still_bind (still_say _) (fun _ => still_pure _)
    · exact still_pure _

theorem alike_found (log : Log) (s : Settings) (w : Workspace) :
    w.Alike log.Owns (exec (found log s) w).2 := by
  obtain ⟨_, w₁, he₁, h₁⟩ := log.gives_tell_alike .info "开始ButterKnife迁移流程..." w
  obtain ⟨_, w₂, he₂, h₂⟩ := log.gives_tell_alike .info "步骤1: 扫描项目文件..." w₁
  have hscan := still_scanProject s w₂
  unfold found
  rw [Log.info, exec_bind_ok he₁, Log.info, exec_bind_ok he₂]
  exact h₁.trans (h₂.trans (Workspace.alike_of_eq hscan.1 hscan.2))

/-- what follows once the files are found -/
def afterFound (log : Log) (s : Settings) (wr : Writer) (paths : List Text) : Job Unit := do
  log.info ("找到 " ++ natText paths.length ++ " 个Java文件")
  if paths.isEmpty then
    log.warning "未找到任何Java文件，请检查项目路径配置"
    return
  migrateFiles log s wr paths

theorem stages_eq (log : Log) (s : Settings) (wr : Writer) :
    stages log s wr = found log s >>= afterFound log s wr := by
  simp only [stages, found, bind_assoc]
  rfl

theorem gives_stages (wr : Writer) (hproject : s.project = .ok project)
    (hfound : (exec (found log s) w).1 = .ok paths) (hne : paths ≠ []) :
    Gives (stages log s wr) w (fun _ u => ∃ fs, Handles log s wr project paths w u fs) := by
  rw [stages_eq]
  refine gives_bind_of_exec (Prod.ext hfound rfl) ?_
  unfold afterFound
  refine (log.gives_tell_alike _ _ _).bind (fun _ v hv => ?_)
  rw [if_neg (by simpa using hne)]
  refine (gives_migrateFiles log wr hproject paths v).mono
    (fun _ u ⟨fs, hfs⟩ => ⟨fs, hfs.of_alike ?_⟩)
  exact (alike_found log s w).trans hv

end

end Run

end Rebind
