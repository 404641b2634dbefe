import Mathlib
import Rebind.Findings.Summary
import Rebind.Proofs.Findings.Shape
import Rebind.Proofs.Outcome
import Rebind.Proofs.Pattern.Locality
import Rebind.Proofs.Pattern.Preference

/-!
# Summaries that return

The kind of a class is read off the names of its parents.  A class without a parent has none to look
at, and then there is no kind, no statistics and no report.  `FirstClass code rest` and `NamesParent
rest parent after` say where the first class of a source and its parent stand, whatever order of
preference the pattern has; `class_read` says that this is what is read off.

The summaries of an annotated source return exactly if its class `TellsKind`
(`summaries_return_iff`).
-/

namespace Rebind

open List Pattern

/-! ## classes and their parents -/

/-- a class and its name come first, and `rest` follows -/
def OpensClass (t rest : Text) : Prop :=
  ∃ gap name, t = "class".toList ++ (gap ++ (name ++ rest)) ∧ blanks1.Covers gap ∧ word.Covers name
    ∧ StopsRun isWord rest

/-- `rest` follows the name of the first class of the text -/
def FirstClass (code rest : Text) : Prop :=
  ∃ before t, code = before ++ t ∧ OpensClass t rest
    ∧ ∀ u v r, before = u ++ v → v ≠ [] → ¬ OpensClass (v ++ t) r

/-- the parent of a class comes first behind its name, and `after` follows -/
def NamesParent (rest parent after : Text) : Prop :=
  ∃ u v, rest = u ++ ("extends" ++ (v ++ (parent ++ after))) ∧ blanks1.Covers u ∧ blanks1.Covers v
    ∧ word.Covers parent ∧ StopsRun isWord after

def extendsClause : Pattern := seq [blanks1, keyword "extends", .group 2 word]

def implementsClause : Pattern := seq [blanks1, keyword "implements", .group 3 (butNot1 '\x7b')]

def NamesInterfaces (after : Text) : Prop := Starts implementsClause after

theorem OpensClass.inj {t r r' : Text} (h : OpensClass t r) (h' : OpensClass t r') : r = r' := by
  obtain ⟨gap, name, rfl, hgap, hname, hr⟩ := h
  obtain ⟨gap', name', he, hgap', hname', hr'⟩ := h'
  obtain ⟨-, he⟩ := run_inj (covers_run1.mp hgap).2 (covers_run1.mp hgap').2 (stopsRun_word hname)
    (stopsRun_word hname') (append_cancel_left he)
  exact (run_inj (covers_word.mp hname).2 (covers_word.mp hname').2 hr hr' he).2

theorem FirstClass.inj {code r r' : Text} (h : FirstClass code r) (h' : FirstClass code r') :
    r = r' := by
  obtain ⟨a, t, rfl, ht, hfirst⟩ := h
  obtain ⟨a', t', he, ht', hfirst'⟩ := h'
  -- the one that stands further on would not be the first
  rcases append_eq_append_iff.mp he with ⟨v, rfl, rfl⟩ | ⟨v, rfl, rfl⟩
  · by_cases hv : v = []
    · subst hv
      exact ht.inj ht'
    · exact absurd ht (hfirst' a v r rfl hv)
  · by_cases hv : v = []
    · subst hv
      exact ht.inj ht'
    · exact absurd ht' (hfirst a' v r' rfl hv)

theorem NamesParent.inj {rest p p' a a' : Text} (h : NamesParent rest p a)
    (h' : NamesParent rest p' a') :
    p = p' ∧ a = a' := by
  have hkey : ∀ t, StopsRun isBlank ("extends" ++ t) := by
    intro t c hc
    rw [← Option.some.inj hc]
    decide
  obtain ⟨u, v, rfl, hu, hv, hp, ha⟩ := h
  obtain ⟨u', v', he, hu', hv', hp', ha'⟩ := h'
  obtain ⟨-, he⟩ := run_inj (covers_run1.mp hu).2 (covers_run1.mp hu').2 (hkey _) (hkey _) he
  obtain ⟨-, he⟩ := run_inj (covers_run1.mp hv).2 (covers_run1.mp hv').2 (stopsRun_word hp)
    (stopsRun_word hp') (append_cancel_left he)
  exact run_inj (covers_word.mp hp).2 (covers_word.mp hp').2 ha ha' he

theorem OpensClass.starts {t rest : Text} (h : OpensClass t rest) : Starts classHeader t := by
  obtain ⟨gap, name, rfl, hgap, hname, -⟩ := h
  exact ⟨"class" ++ gap ++ name, rest, by simp, "class" ++ gap, name, rfl,
    ⟨_, gap, rfl, rfl, hgap⟩, name, [], by simp, hname, [], [], rfl, .inl rfl, .inl rfl⟩

theorem NamesParent.covers {rest parent after : Text} (h : NamesParent rest parent after) :
    word.Covers parent := by
  obtain ⟨-, -, -, -, -, hp, -⟩ := h
  exact hp

theorem NamesParent.starts {rest parent after : Text} (h : NamesParent rest parent after) :
    Starts extendsClause rest := by
  obtain ⟨u, v, rfl, hu, hv, hp, -⟩ := h
  exact ⟨u ++ ("extends" ++ v ++ parent), after, by simp, u, _, rfl, hu, _, parent, rfl,
    ⟨_, v, rfl, rfl, hv⟩, hp⟩

/-! ## what is read off -/

section
variable {k : Cursor → Option Match} (hk : Total k) (hgroups : ∀ d m, k d = some m
  → m.groups = d.groups) {x : Cursor} {m : Match}
include hk hgroups

theorem interfaces_read (h : (Pattern.maybe implementsClause).tryAt x k = some m) :
    NamesInterfaces x.rest ∧ (∃ c t, m.groups = (3, c :: t) :: x.groups)
      ∨ ¬ NamesInterfaces x.rest ∧ m.groups = x.groups := by
  rcases tryAt_maybe_of_total rfl hk h with h | ⟨hnone, h⟩
  · left
    obtain ⟨s, d, hpass, hd⟩ := tryAt_some _ _ _ _ h
    refine ⟨⟨s, d.rest, hpass.rest, hpass.covers⟩, ?_⟩
    obtain ⟨gs, hgs, u, _, _, _, -, rfl, hu, _, names, _, _, -, rfl, hkey, _, rfl, hnames⟩ :=
      hpass.reads
    obtain rfl := hu.groups_eq_nil rfl
    obtain rfl := hkey.groups_eq_nil rfl
    obtain rfl := hnames.groups_eq_nil rfl
    obtain ⟨c, t, rfl⟩ := exists_cons_of_ne_nil (covers_run1.mp hnames.covers).1
    exact ⟨c, t, by rw [hgroups d m hd, hgs]; rfl⟩
  · exact .inr ⟨hnone, hgroups x m h⟩

theorem parent_read
    (h : (Pattern.maybe extendsClause).tryAt x (fun d => (Pattern.maybe implementsClause).tryAt d k)
      = some m) :
    (∃ parent after, NamesParent x.rest parent after
        ∧ (NamesInterfaces after ∧ (∃ c t, m.groups = (3, c :: t) :: (2, parent) :: x.groups)
          ∨ ¬ NamesInterfaces after ∧ m.groups = (2, parent) :: x.groups))
      ∨ (∀ parent after, ¬ NamesParent x.rest parent after)
        ∧ (m.groups = x.groups ∨ ∃ t, m.groups = (3, t) :: x.groups) := by
  rcases tryAt_maybe_of_total rfl (total_maybe implementsClause hk) h with h | ⟨hnone, h⟩
  · left
    obtain ⟨u, d, hu, hd⟩ := tryAt_some blanks1 _ _ _ h
    obtain ⟨_, e, hkey, he⟩ := tryAt_some (keyword "extends") _ _ _ hd
    change word.tryAt e (fun d => (Pattern.maybe implementsClause).tryAt
      { d with groups := (2, e.upTo d) :: d.groups } k) = some m at he
    obtain ⟨parent, f, hmoved, hparent, hstop, hf⟩ :=
      tryAt_run1_of_total (fun d => total_maybe implementsClause hk _) he
    have hnoted : (2, e.upTo f) :: f.groups = (2, parent) :: x.groups := by
      rw [hmoved.upTo, hmoved.groups, hkey.groups_eq rfl, hu.groups_eq rfl]
    obtain ⟨_, v, rfl, rfl, hv⟩ := hkey.covers
    refine ⟨parent, f.rest, ⟨u, v, ?_, hu.covers, hv, hparent, hstop⟩, ?_⟩
    · rw [hu.rest, hkey.rest, hmoved.rest, append_assoc]
    · have hlast := interfaces_read hk hgroups hf
      rwa [hnoted] at hlast
  · refine .inr ⟨fun parent after hext => hnone hext.starts, ?_⟩
    rcases interfaces_read hk hgroups h with ⟨-, c, t, hm⟩ | ⟨-, hm⟩
    · exact .inr ⟨_, hm⟩
    · exact .inl hm

end

/-- the first match of a class, its parent and its interfaces -/
theorem class_read {code : Text} {m : Match} (h : classHeader.search code = some m) :
    ∃ rest, FirstClass code rest
    ∧ ((∃ parent after, NamesParent rest parent after ∧ m.group? 2 = some parent
          ∧ (NamesInterfaces after ∧ (∃ c t, m.group? 3 = some (c :: t))
            ∨ ¬ NamesInterfaces after ∧ m.group? 3 = none))
      ∨ (∀ parent after, ¬ NamesParent rest parent after) ∧ m.group? 2 = none) := by
  obtain ⟨a, b, prev, rfl, hm, hfirst⟩ := search_first rfl h
  set k : Cursor → Option Match := fun d =>
    some ⟨a.length, d.pos, Cursor.upTo ⟨a.length, prev, b, []⟩ d, d.groups⟩
  have hk : Total k := fun d => rfl
  have hgroups : ∀ d m, k d = some m → m.groups = d.groups :=
    fun d m hd => by rw [← Option.some.inj hd]
  obtain ⟨_, d, hkey, hd⟩ := tryAt_some (keyword "class") _ _ _ hm
  change word.tryAt d (fun e => (Pattern.maybe extendsClause).tryAt { e with groups :=
    (1, d.upTo e) :: e.groups }
    (fun f => (Pattern.maybe implementsClause).tryAt f k)) = some m at hd
  obtain ⟨name, e, hmoved, hname, hstop, he⟩ :=
    tryAt_run1_of_total (fun e => total_maybe extendsClause (total_maybe implementsClause hk) _) hd
  have hbare : e.groups = [] := by rw [hmoved.groups, hkey.groups_eq rfl]
  obtain ⟨_, gap, rfl, rfl, hgap⟩ := hkey.covers
  have hplace : b = "class" ++ (gap ++ (name ++ e.rest)) := by
    rw [← append_assoc, ← hmoved.rest]
    exact hkey.rest
  refine ⟨e.rest, ⟨a, b, rfl, ⟨gap, name, hplace, hgap, hname, hstop⟩, ?_⟩, ?_⟩
  · exact fun u v r huv hv hopens => hfirst u v huv hv hopens.starts
  · rcases parent_read hk hgroups he with ⟨parent, after, hparent, hnoted⟩ | ⟨hnone, hnoted⟩
    · refine .inl ⟨parent, after, hparent, ?_⟩
      rcases hnoted with ⟨hinter, c, t, hg⟩ | ⟨hinter, hg⟩
      · exact ⟨by simp [Match.group?, hg], .inl ⟨hinter, c, t, by simp [Match.group?, hg]⟩⟩
      · exact ⟨by simp [Match.group?, hg], .inr ⟨hinter, by simp [Match.group?, hg, hbare]⟩⟩
    · refine .inr ⟨hnone, ?_⟩
      rcases hnoted with hg | ⟨t, hg⟩ <;> simp [Match.group?, hg, hbare]

/-! ## the kind of a class -/

def KnownParent (parent : Text) : Prop :=
  "Activity".toList <:+: parent ∨ "Fragment".toList <:+: parent ∨ "Adapter".toList <:+: parent

/-- the first class has a parent, and interfaces as well unless the parent tells its kind -/
def TellsKind (code : Text) : Prop := ∀ rest, FirstClass code rest →
  ∃ parent after, NamesParent rest parent after ∧ (KnownParent parent ∨ NamesInterfaces after)

theorem ClassInfo.not_returns_kind {c : ClassInfo} (h : c.parent = .null) : ¬ Returns c.kind := by
  have hsome : c.isEmpty = false := by simp [ClassInfo.isEmpty, h, Slot.isPresent]
  rw [ClassInfo.kind, hsome, h]
  exact not_returns_error _

theorem returns_ite_iff {ε α : Type} {b : Prop} [Decidable b] {a : α} {x : Except ε α} :
    Returns (if b then .ok a else x) ↔ b ∨ Returns x := by
  split
  · next h => exact iff_of_true (returns_ok a) (.inl h)
  · next h => exact (or_iff_right h).symm

theorem returns_orElse_iff {α : Type} {d : α} {fault : Fault} {s : Slot α} :
    Returns (s.orElse d fault) ↔ s ≠ .null := by
  cases s with
  | absent => exact iff_of_true (returns_ok _) (by simp)
  | null => exact iff_of_false (not_returns_error _) (by simp)
  | given a => exact iff_of_true (returns_ok _) (by simp)

theorem ClassInfo.returns_kind_iff {c : ClassInfo} {p : Text} (h : c.parent = .given p) :
    Returns c.kind ↔ KnownParent p ∨ c.interfaces ≠ .null := by
  have hsome : c.isEmpty = false := by simp [ClassInfo.isEmpty, h, Slot.isPresent]
  have hparent : (Slot.given p).orElse [] Fault.wrongKind = .ok p := rfl
  simp only [KnownParent, ← occursIn_iff]
  simp only [ClassInfo.kind, hsome, Bool.false_eq_true, if_false, h, hparent, ok_bind, pure_eq_ok,
    returns_ite_iff, or_assoc]
  -- behind the interfaces every branch returns
  rw [returns_bind_total, returns_orElse_iff]
  intro interfaces
  simp only [returns_ite_iff]
  exact .inr (.inr (returns_ok _))

theorem kind_returns_iff (code : Text) : Returns (detectClass code).kind ↔ TellsKind code := by
  unfold detectClass
  split
  · next hnone =>
    refine iff_of_true (returns_ok _) ?_
    rintro rest ⟨before, t, rfl, hopens, -⟩
    obtain ⟨s, r, rfl, hs⟩ := hopens.starts
    exact absurd ⟨before, r, by simp⟩ ((search_eq_none_iff rfl).mp hnone s hs)
  · next m hm =>
    obtain ⟨rest, hfirst, ⟨parent, after, hparent, hp, hinter⟩ | ⟨hnone, hp⟩⟩ := class_read hm
    · have htells : TellsKind code ↔ KnownParent parent ∨ NamesInterfaces after := by
        constructor
        · intro h
          obtain ⟨parent', after', hparent', hknown⟩ := h rest hfirst
          obtain ⟨rfl, rfl⟩ := hparent.inj hparent'
          exact hknown
        · intro h rest' hfirst'
          obtain rfl := hfirst.inj hfirst'
          exact ⟨parent, after, hparent, h⟩
      have hword : Slot.ofGroup (m.group? 2) = .given parent := by
        obtain ⟨c, t, rfl⟩ := exists_cons_of_ne_nil (covers_word.mp hparent.covers).1
        rw [hp, Slot.ofGroup]
      rw [htells, ClassInfo.returns_kind_iff hword]
      refine or_congr_right ?_
      rcases hinter with ⟨hyes, c, t, hg⟩ | ⟨hno, hg⟩
      · simp [hg, Slot.ofGroup, hyes]
      · simp [hg, Slot.ofGroup, hno]
    · refine iff_of_false (ClassInfo.not_returns_kind (by simp [hp, Slot.ofGroup])) fun htells => ?_
      obtain ⟨parent, after, hparent, -⟩ := htells rest hfirst
      exact hnone parent after hparent

/-! ## the summaries -/

theorem importCount_returns (code : Text) : Returns (Findings.detect code).importCount := by
  have hcount : ∀ e ∈ detectImports code, ∃ n, e.2.count = .ok n := by
    simp [detectImports, Value.count]
  unfold Findings.detect
  split
  · simp only [Findings.importCount, Slot.orElse, ok_bind]
    refine foldlM_returns (fun n e he => ?_) 0
    obtain ⟨i, hi⟩ := hcount e he
    rw [hi]
    exact returns_ok _
  · exact returns_ok _

theorem classKind_returns_iff (code : Text) :
    Returns (Findings.detect code).classKind ↔ (mentionsButterKnife code → TellsKind code) := by
  unfold Findings.detect
  split
  · next h => exact (kind_returns_iff code).trans (imp_iff_right h).symm
  · next h => exact iff_of_true (returns_ok _) (fun h' => absurd h' h)

theorem statistics_returns_iff (code : Text) :
    Returns (Findings.detect code).statistics ↔ Returns (Findings.detect code).classKind := by
  obtain ⟨fs, cs, ls, hlists, -⟩ := detect_lists code
  obtain ⟨n, hn⟩ := importCount_returns code
  have hviews : (Findings.detect code).bindViewCount = .ok fs.length := by
    simp [Findings.bindViewCount, hlists.views, Slot.walked, Slot.orElse]
  have hclicks : (Findings.detect code).clickCount = .ok cs.length := by
    simp [Findings.clickCount, hlists.clicks, Slot.walked, Slot.orElse]
  rw [Findings.statistics, hviews, hclicks, hn, ok_bind, ok_bind, ok_bind]
  exact returns_bind_total fun kind => returns_ok _

/-- **the summaries of a source return exactly if it has no annotations or its first class tells a
kind** -/
theorem summaries_return_iff (code : Text) :
    (Returns (Findings.detect code).classKind ↔ (mentionsButterKnife code = true → TellsKind code))
    ∧ (Returns (Findings.detect code).statistics
      ↔ (mentionsButterKnife code = true → TellsKind code))
    ∧ (Returns (do return (← (Findings.detect code).statistics).report)
        ↔ (mentionsButterKnife code = true → TellsKind code)) := by
  have hkind := classKind_returns_iff code
  have hstatistics := (statistics_returns_iff code).trans hkind
  exact ⟨hkind, hstatistics, (returns_bind_total fun s => returns_ok _).trans hstatistics⟩

/-- a class without a parent has no summary -/
theorem parentless_summaries_stop :
    ¬ Returns (Findings.detect "class A \x7b\n@BindView(R.id.a) A a;\n\x7d\n").classKind
    ∧ ¬ Returns (Findings.detect "class A \x7b\n@BindView(R.id.a) A a;\n\x7d\n").statistics
    ∧ ¬ Returns (do return (← (Findings.detect
      "class A \x7b\n@BindView(R.id.a) A a;\n\x7d\n").statistics).report) := by
  have hkind : (Findings.detect "class A \x7b\n@BindView(R.id.a) A a;\n\x7d\n").classKind
      = .error .wrongKind := by
    decide +kernel
  have hstop := hkind ▸ not_returns_error (ε := Fault) (α := Text) .wrongKind
  have hstatistics := mt (statistics_returns_iff _).mp hstop
  exact ⟨hstop, hstatistics, mt (returns_bind_total fun s => returns_ok _).mp hstatistics⟩

end Rebind
