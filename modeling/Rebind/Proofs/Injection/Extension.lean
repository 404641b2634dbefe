import Mathlib
import Rebind.Proofs.Injection.Insertions

/-!
# Injections that only insert

A class of no special kind is only extended: the code that the injection starts from is a
subsequence of its result.  So is a class whose base calls the initialisers, if it has none of its
own.  On the other two routes annotations are dropped first.

The one step that could go wrong is the second of the base class: where `initListener` is there, a
blank body is replaced.  But a new `initViews` never brings an `initListener` with it
(`hasInitListener_viewsPlaced`).
-/

namespace Rebind

open List

/-! ## single steps -/

theorem otherPlaced_sublist (block code : Text) : code.Sublist (otherPlaced block code) := by
  unfold otherPlaced
  split
  · exact List.Sublist.refl code
  · rcases injectInOnCreate_cases code block with h | h | h
    · rw [h]
    · exact h.sublist
    · exact h.sublist

theorem createOverride_sublist (method code : Text) :
    code.Sublist (createOverride method code).value := by
  rcases createOverride_cases method code with h | h
  · rw [h]
  · exact h.sublist

theorem viewsPlaced_sublist {code : Text} (h : hasInitViews code = false) (lookups : Text) :
    code.Sublist (viewsPlaced lookups code) := by
  unfold viewsPlaced
  rw [h]
  split
  · exact List.Sublist.refl code
  · exact createOverride_sublist _ code

theorem listenersPlaced_sublist {code : Text} (h : hasInitListener code = false)
    (listeners : Text) :
    code.Sublist (listenersPlaced listeners code) := by
  unfold listenersPlaced
  rw [h]
  split
  · exact List.Sublist.refl code
  · exact createOverride_sublist _ code

theorem innerHolders_sublist (fs : List Field) (cls : List InnerClass) (code : Text) :
    code.Sublist (cls.foldl (innerPlaced fs) code) := by
  induction cls generalizing code with
  | nil => exact List.Sublist.refl code
  | cons c cls ih =>
    refine List.Sublist.trans ?_ (ih (innerPlaced fs code c))
    rcases innerPlaced_cases fs code c with h | ⟨own, -, h⟩
    · rw [h]
    · exact h.sublist

/-! ## a new `initViews` brings no `initListener` -/

theorem infix_of_inserted {s ls t t' : Text} (hs : '\n' ∉ s)
    (h : Inserted ('\n' :: ls ++ ['\n']) t t') (hi : s <:+: t') : s <:+: t ∨ s <:+: ls := by
  obtain ⟨pre, post, rfl, rfl, -⟩ := h
  have he : pre ++ ('\n' :: ls ++ ['\n']) ++ post = pre ++ '\n' :: (ls ++ '\n' :: post) := by simp
  rw [he, infix_around_iff hs, infix_around_iff hs] at hi
  rcases hi with hi | hi | hi
  · exact .inl (infix_append_of_infix_left hi)
  · exact .inr hi
  · exact .inl (infix_append_of_infix_right hi)

theorem call_not_infix_lookupLine (F : Field) : ¬ ['(', ')'] <:+: lookupLine F.name F.id := by
  obtain ⟨w, hw, he⟩ := applicationId_eq F.id_covers
  have hname : '(' ∉ F.name := fun hm =>
    absurd ((covers_word.mp F.name_covers).2 '(' hm) (by decide)
  have hword : '(' ∉ w := fun hm => absurd ((covers_word.mp hw).2 '(' hm) (by decide)
  have hline : lookupLine F.name F.id = ("        " ++ (F.name ++ " = findViewById"))
      ++ '(' :: 'R' :: (".id." ++ w ++ ");") := by
    have hcall : " = findViewById(" = " = findViewById" ++ ['('] := by decide
    have hres : "R.id." = 'R' :: ".id." := by decide
    unfold lookupLine indented
    simp only [he, hcall, hres, append_assoc, cons_append, nil_append]
  have hfront : '(' ∉ "        " ++ (F.name ++ " = findViewById") := by
    simp [hname]
  have hback : '(' ∉ 'R' :: (".id." ++ w ++ ");") := by
    simp [hword]
  rw [hline, infix_skip hfront, infix_cons_iff]
  rintro (hp | hi)
  · exact absurd (cons_prefix_cons.mp (cons_prefix_cons.mp hp).2).1 (by decide)
  · exact hback (hi.mem mem_cons_self)

theorem call_not_infix_mainLookupBlock (fs : List Field) :
    ¬ ['(', ')'] <:+: mainLookupBlock fs := by
  rw [mainLookupBlock, infix_unlines_iff (by decide) (by decide)]
  rintro ⟨l, hl, hi⟩
  rcases mem_headed hl with rfl | hl
  · exact absurd hi (by decide)
  · obtain ⟨F, -, rfl⟩ := mem_map.mp hl
    exact call_not_infix_lookupLine F hi

def initListenerHeaders : List Text :=
  ["public void initListener()", "protected void initListener()"]

theorem hasInitListener_eq_false_iff (code : Text) :
    hasInitListener code = false ↔ ∀ s ∈ initListenerHeaders, ¬ s <:+: code := by
  simp [hasInitListener, initListenerHeaders, occursIn_eq_false_iff]

/-- the lines of a new `initViews` -/
def initViewsLines (content : Text) : Text :=
  "    @Override" ++ '\n' :: ("    protected void initViews() \x7b"
    ++ '\n' :: ("        super.initViews();" ++ '\n' :: (content ++ '\n' :: "    \x7d")))

theorem createInitViews_cases (code content : Text) :
    (createInitViews code content).value = code
      ∨ Inserted ('\n' :: initViewsLines content ++ ['\n']) code
        (createInitViews code content).value := by
  have htext : "\n    @Override\n    protected void initViews() \x7b\n        super.initViews();\n"
      ++ content ++ "\n    \x7d" = '\n' :: initViewsLines content := by
    have h : "\n    @Override\n    protected void initViews() \x7b\n        super.initViews();\n"
        = '\n' :: ("    @Override" ++ '\n' :: ("    protected void initViews() \x7b"
          ++ '\n' :: ("        super.initViews();" ++ ['\n']))) := by decide
    have hend : "\n    \x7d" = '\n' :: "    \x7d" := by decide
    unfold initViewsLines
    simp only [h, hend, append_assoc, cons_append, nil_append]
  rw [← htext]
  exact createOverride_cases _ code

theorem headers_one_line {s : Text} (hs : s ∈ initListenerHeaders) : '\n' ∉ s := by
  have h : initListenerHeaders.all (fun s => !s.contains '\n') := by decide
  simpa using all_eq_true.mp h s hs

theorem header_not_infix_initViewsLines (fs : List Field) {s : Text}
    (hs : s ∈ initListenerHeaders) :
    ¬ s <:+: initViewsLines (mainLookupBlock fs) := by
  have hnl := headers_one_line hs
  have hcall : ['(', ')'] <:+: s := by
    have h : initListenerHeaders.all (occursIn "()") := by decide
    exact (occursIn_iff _ _).mp (all_eq_true.mp h s hs)
  have hlines : ∀ l ∈ ["    @Override", "    protected void initViews() \x7b",
      "        super.initViews();", "    \x7d"], ¬ s <:+: l := by
    have h : ["    @Override", "    protected void initViews() \x7b",
        "        super.initViews();", "    \x7d"].all
          (fun l => initListenerHeaders.all (fun s => !occursIn s l)) = true := by decide
    intro l hl hi
    have := all_eq_true.mp (all_eq_true.mp h l hl) s hs
    rw [(occursIn_iff s l).mpr hi] at this
    cases this
  unfold initViewsLines
  rw [infix_around_iff hnl, infix_around_iff hnl, infix_around_iff hnl, infix_around_iff hnl]
  rintro (h | h | h | h | h)
  · exact hlines _ (by simp) h
  · exact hlines _ (by simp) h
  · exact hlines _ (by simp) h
  · exact call_not_infix_mainLookupBlock fs (hcall.trans h)
  · exact hlines _ (by simp) h

theorem hasInitListener_viewsPlaced {code : Text} (fs : List Field)
    (hviews : hasInitViews code = false) (hlistener : hasInitListener code = false) :
    hasInitListener (viewsPlaced (mainLookupBlock fs) code) = false := by
  unfold viewsPlaced
  rw [hviews]
  split
  · exact hlistener
  · rcases createInitViews_cases code (mainLookupBlock fs) with hc | hc
    · rw [hc]
      exact hlistener
    · rw [hasInitListener_eq_false_iff] at hlistener ⊢
      intro s hs hi
      rcases infix_of_inserted (headers_one_line hs) hc hi with hi | hi
      · exact hlistener s hs hi
      · exact header_not_infix_initViewsLines fs hs hi

/-! ## whole injections -/

/-- the headers of overridden initialisers -/
def initialiserHeaders : List Text :=
  ["protected void initViews()".toList, "public void initViews()".toList,
   "protected void initListener()".toList, "public void initListener()".toList]

/-- an injection into a class of no special kind, or into one without initialisers whose base calls
them, only inserts -/
theorem imported_sublist_injected {code out : Text} (happlies : mentionsButterKnife code = true)
    (hroute : Route.of (imported code) = .ok .other ∨ Route.of (imported code) = .ok .newBase
      ∧ ∀ s ∈ initialiserHeaders, ¬ s <:+: imported code)
    (hout : injected (Findings.detect code) code = .ok out) : (imported code).Sublist out := by
  obtain ⟨fs, cs, ls, hl, -⟩ := detect_lists code
  rw [injected_eq ((detect_applies code).trans happlies)] at hout
  rcases hroute with hr | ⟨hr, hnone⟩
  · rw [hr, ok_bind, Route.place_other hl, ok_bind, injectInnerHolders_eq hl] at hout
    rw [← Except.ok.inj hout]
    exact (otherPlaced_sublist _ _).trans (innerHolders_sublist fs _ _)
  · rw [hr, ok_bind, Route.place_newBase hl, ok_bind, injectInnerHolders_eq hl] at hout
    have hviews : hasInitViews (imported code) = false := by
      simp only [hasInitViews, Bool.or_eq_false_iff, occursIn_eq_false_iff]
      exact ⟨hnone _ (by simp [initialiserHeaders]), hnone _ (by simp [initialiserHeaders])⟩
    have hlistener : hasInitListener (imported code) = false := by
      simp only [hasInitListener, Bool.or_eq_false_iff, occursIn_eq_false_iff]
      exact ⟨hnone _ (by simp [initialiserHeaders]), hnone _ (by simp [initialiserHeaders])⟩
    have h1 := viewsPlaced_sublist hviews (mainLookupBlock fs)
    have h2 := listenersPlaced_sublist (hasInitListener_viewsPlaced fs hviews hlistener)
      (mainListenerBlock fs cs ls)
    rw [← Except.ok.inj hout]
    exact (h1.trans h2).trans (innerHolders_sublist fs _ _)

def boundSubclass : Text :=
  "class A extends NewBaseActivity \x7b\n@BindView(R.id.a) A a;\n\x7d"

theorem imported_sublist_injected_subclass :
    mentionsButterKnife boundSubclass = true ∧ Route.of (imported boundSubclass) = .ok .newBase
      ∧ (∀ s ∈ initialiserHeaders, ¬ s <:+: imported boundSubclass)
      ∧ ∃ out, injected (.detect boundSubclass) boundSubclass = .ok out
        ∧ (imported boundSubclass).Sublist out := by
  have happlies : mentionsButterKnife boundSubclass := by decide +kernel
  have hroute : Route.of (imported boundSubclass) = .ok .newBase := by decide +kernel
  have hnone : ∀ s ∈ initialiserHeaders, ¬ s <:+: imported boundSubclass := by decide +kernel
  refine ⟨happlies, hroute, hnone, ?_⟩
  cases hout : injected (.detect boundSubclass) boundSubclass with
  | ok out => exact ⟨out, rfl, imported_sublist_injected happlies (.inr ⟨hroute, hnone⟩) hout⟩
  | error e =>
    have hreturns : (injected (.detect boundSubclass) boundSubclass).toOption.isSome = true := by
      decide +kernel
    rw [hout] at hreturns
    cases hreturns

end Rebind
