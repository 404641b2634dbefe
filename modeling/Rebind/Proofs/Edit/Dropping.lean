import Mathlib
import Rebind.Migration.Round
import Rebind.Proofs.Injection.Insertions

/-!
# What the editors take out

An editor takes the annotations out that have the form it looks for.  `Handled mark ok t` says that
every occurrence of `mark` in `t` is in a comment of the library, or stands behind white space and
has a form that is `ok`.  Each editor makes its own mark quiet if all its occurrences are handled,
and keeps the other marks quiet:

* `FieldLookup.edit_quiet`: declarations of the fields that were found;
* `ClickListener.edit_quiet`: click annotations with resources of the application itself;
* `BindCall.edit_quiet`: bind calls, on whole lines.
-/

namespace Rebind

open List Pattern

variable {F : Field} {f : Findings} {fs : List Field} {cs : List Listener} {k : Nat}
  {a b code l mark s t' : Text}

/-! ## patterns of annotations -/

/-- the pattern describes texts that start with the mark, go on with something else than the sign of
a comment, hold no further mark, and do not end in white space -/
structure MarkedBy (p : Pattern) (mark : Text) : Prop where
  free : p.isFree = true
  shape : ∀ s, p.Covers s → ∃ r c, s = mark ++ (r ++ [c]) ∧ '@' ∉ r ++ [c]
    ∧ (r ++ [c]).head? ≠ some markSign ∧ isBlank c = false

theorem head_ne_markSign (hb : ∀ c ∈ b, isBlank c) (t : Text) :
    (b ++ ("(" ++ t)).head? ≠ some markSign := by
  cases b with
  | nil => simp [markSign]
  | cons c b =>
    have hc := hb c mem_cons_self
    intro he
    rw [Option.some.inj he] at hc
    exact absurd hc (by decide)

def Handled (mark : Text) (ok : Text → Prop) (t : Text) : Prop :=
  ∀ a b, t = a ++ (mark ++ b) → b.head? = some markSign ∨ (IsGap (before none a) ∧ ok (mark ++ b))

instance (mark : Text) (ok : Text → Prop) [DecidablePred ok] (t : Text) :
    Decidable (Handled mark ok t) :=
  decidable_of_iff _ (forall_occurrence_iff (w := mark) (t := t)
    (P := fun a b => b.head? = some markSign ∨ (IsGap (before none a) ∧ ok (mark ++ b)))).symm

/-- the mark of an annotation -/
structure IsAtMark (mark : Text) : Prop where
  known : mark ∈ annotationMarks
  head : ∃ m, mark = '@' :: m

theorem bindView_isAtMark : IsAtMark "@BindView" := ⟨by decide, "BindView", by decide⟩

theorem onClick_isAtMark : IsAtMark "@OnClick" := ⟨by decide, "OnClick", by decide⟩

theorem onLongClick_isAtMark : IsAtMark "@OnLongClick" :=
  ⟨by decide, "OnLongClick", by decide⟩

section
variable {p : Pattern} {new mark t t' : Text} {ok : Text → Prop}

theorem IsAtMark.not_mem (h : IsAtMark mark) (hat : '@' ∉ t) : ∀ c, mark.head? = some c
    → c ∉ t := by
  obtain ⟨m, rfl⟩ := h.head
  intro c hc
  rwa [← Option.some.inj hc]

theorem IsAtMark.quietFor_of_not_mem (h : IsAtMark mark) (hat : '@' ∉ t) : QuietFor mark t := by
  obtain ⟨m, rfl⟩ := h.head
  exact quietFor_of_absent (fun hi => hat (hi.mem mem_cons_self))

theorem quietFor_of_handled (h : Handled mark ok t) (hno : ∀ r, ¬ ok r) : QuietFor mark t :=
  fun a b ht => (h a b ht).resolve_right (fun hb => hno _ hb.2)

theorem MarkedBy.not_covers_nil (hp : MarkedBy p mark) : ¬ p.Covers [] := by
  intro h
  obtain ⟨r, c, hs, -⟩ := hp.shape [] h
  simp at hs

theorem MarkedBy.spaced (hp : MarkedBy p mark) (h : Handled mark ok t) : Spaced p none t := by
  rintro a _ ht ⟨s, v, rfl, hs⟩
  obtain ⟨r, c, rfl, -, hhead, -⟩ := hp.shape s hs
  rcases h a (r ++ [c] ++ v) (by rw [ht]; simp) with hsign | ⟨hgap, -⟩
  · refine absurd ?_ hhead
    cases r <;> simpa using hsign
  · exact hgap

theorem MarkedBy.not_isGap (hp : MarkedBy p mark) (s : Text) (prev : Option Char)
    (hs : p.Covers s) :
    ¬ IsGap (before prev s) := by
  obtain ⟨r, c, rfl, -, -, hc⟩ := hp.shape s hs
  rw [← append_assoc, before_append]
  exact Rebind.not_isGap hc

theorem Replaced.quietFor (h : Replaced p new t t') (hsp : Spaced p none t)
    (hm : mark ∈ annotationMarks) (hnew : new = [] ∨ (∀ c, mark.head? = some c → c ∉ new)
      ∧ ∀ s prev, p.Covers s → ¬ IsGap (before prev s)) (hq : QuietFor mark t) : QuietFor
        mark t' := by
  have hword := isBlank_of_mem_mark hm
  cases mark with
  | nil => exact absurd rfl (mark_ne_nil hm)
  | cons x m =>
    have hx : x ∉ new := by
      rcases hnew with rfl | ⟨hx, -⟩
      · simp
      · exact hx x rfl
    intro a' b' ht'
    obtain ⟨a, b, ht, -, -, hhead, -⟩ := h.occurrence hsp hword hx (hnew.imp_right And.right) id ht'
    rw [← hhead]
    exact hq a b ht

theorem Replaced.handled (h : Replaced p new t t') (hp : MarkedBy p mark) (hm : IsAtMark mark)
    (hat : '@' ∉ new)
    (hok : ∀ r, ok r → ∃ s v, r = mark ++ (s ++ v) ∧ '@' ∉ s ∧ ∀ v', ok (mark ++ (s ++ v')))
    (ht : Handled mark (fun r => Starts p r ∨ ok r) t) : Handled mark ok t' := by
  have hword := isBlank_of_mem_mark hm.known
  obtain ⟨m, rfl⟩ := hm.head
  intro a' b' ht'
  obtain ⟨a, b, he, hno, hrep, hhead, hgap⟩ :=
    h.occurrence (hp.spaced ht) hword hat (.inr hp.not_isGap) id ht'
  rcases ht a b he with hsign | ⟨hg, hstart | hb⟩
  · exact .inl (hhead ▸ hsign)
  · exact absurd hstart hno
  · -- no other annotation starts inside this one, so all of it is kept
    obtain ⟨s, v, hsv, hs, hall⟩ := hok _ hb
    obtain rfl : b = s ++ v := by simpa using hsv
    obtain ⟨v', rfl, -⟩ := hrep.front_kept (fun c d hcd hne hst => by
      obtain ⟨u, w, hd, hu⟩ := hst
      obtain ⟨r, c', rfl, -⟩ := hp.shape u hu
      cases d with
      | nil => exact hne rfl
      | cons y d =>
        have hy : y = '@' := (List.cons.inj hd).1
        exact hs (by rw [hcd, hy]; simp))
    exact .inr ⟨hgap hg, hall v'⟩

theorem Replaced.length_le (h : Replaced p new t t') (hshort : ∀ s, p.Covers s
    → new.length < s.length) :
    t'.length ≤ t.length ∧ (t'.length = t.length → ∀ a b, t = a ++ b → ¬ Starts p b) := by
  induction h with
  | nil =>
    refine ⟨le_rfl, fun _ a b hab => ?_⟩
    rintro ⟨s, r, rfl, hs⟩
    have hnil : s = [] := by
      have := (append_eq_nil_iff.mp hab.symm).2
      exact (append_eq_nil_iff.mp this).1
    exact absurd (hshort s hs) (by simp [hnil])
  | keep hno _ ih =>
    refine ⟨by simpa using ih.1, fun he a b hab => ?_⟩
    cases a with
    | nil =>
      rw [nil_append] at hab
      exact hab ▸ hno
    | cons y a => exact ih.2 (by simpa using he) a b (List.cons.inj hab).2
  | swap hs _ ih =>
    have := hshort _ hs
    refine ⟨?_, fun he => ?_⟩
    · rw [length_append, length_append]
      omega
    · rw [length_append, length_append] at he
      omega

end

/-! ## insertions of the editors -/

/-- the code with a block where an editor puts it: into `onCreate`, unless it is seen there also
into `onViewCreated`, and unless it is seen by then into a method of its own -/
def placedIn (name block code : Text) (seen seen' : Bool) : Text :=
  let tried := if seen then insertInOnCreate code block
    else insertInOnViewCreated (insertInOnCreate code block) block
  if seen' then tried else addMethodAfterClass name tried block

section
variable {code block mark : Text}

theorem placedIn_inv (P : Text → Prop) {name : Text} (hcreate : ∀ c, P c
    → P (insertInOnCreate c block))
    (hview : ∀ c, P c → P (insertInOnViewCreated c block)) (hmethod : ∀ c, P c
      → P (addMethodAfterClass name c block))
    (seen seen' : Bool) (h : P code) : P (placedIn name block code seen seen') := by
  have htried : P (if seen then insertInOnCreate code block
      else insertInOnViewCreated (insertInOnCreate code block) block) := by
    split
    · exact hcreate _ h
    · exact hview _ (hcreate _ h)
  cases seen' with
  | true => exact htried
  | false => exact hmethod _ htried

theorem insertionPoint_some {p : Pattern} (h : insertionPoint p code = some k) :
    code[k]? = some '\x7d' := by
  obtain ⟨m, -, hk⟩ := Option.bind_eq_some_iff.mp h
  obtain ⟨i, hi, rfl⟩ := Option.map_eq_some_iff.mp hk
  have hx := closingBrace_some hi
  rwa [getElem?_drop] at hx

theorem publicClassEnd_some (h : publicClassEnd code = some k) :
    ∃ j, k = j + 1 ∧ (code[j]? = some '\n' ∨ code.length ≤ j) := by
  obtain ⟨start, -, hk⟩ := Option.bind_eq_some_iff.mp h
  obtain ⟨i, -, rfl⟩ := Option.map_eq_some_iff.mp hk
  refine ⟨_, rfl, ?_⟩
  generalize start + i = offset
  rw [← getElem?_drop, ← Nat.sub_le_iff_le_add', ← length_drop]
  generalize code.drop offset = rest
  induction rest with
  | nil => exact .inr (by simp)
  | cons c rest ih =>
    by_cases hc : c = '\n'
    · exact .inl (by simp [hc])
    · have hne : (c != '\n') := by simpa using hc
      simpa [takeWhile_cons, hne] using ih

variable (hm : mark ∈ annotationMarks)
include hm

theorem quietFor_insertAt_brace (hk : code[k]? = some '\x7d')
    (ha : QuietFor mark a) (hb : SettledFor mark b) (h : QuietFor mark code) :
    QuietFor mark (insertAt k ('\n' :: (a ++ '\n' :: b)) code) :=
  (inserted_before hk).quietFor hm (hb.behind hm ha) h

theorem quietFor_insertAt_line {j : Nat} (hj : code[j]? = some '\n' ∨ code.length ≤ j)
    (ha : QuietFor mark a) (hb : SettledFor mark b) (h : QuietFor mark code) :
    QuietFor mark (insertAt (j + 1) ('\n' :: (a ++ '\n' :: b)) code) := by
  have hcut : ∀ u v : Text, QuietFor mark (u ++ '\n' :: v) ↔ QuietFor mark u ∧ QuietFor mark v :=
    fun u v => quietFor_around (not_mem_mark hm (by simp)) (mark_ne_nil hm) (by decide)
  have hblock := hb.behind hm ha
  unfold insertAt
  rcases hj with hj | hj
  · obtain ⟨hlt, hx⟩ := List.getElem?_eq_some_iff.mp hj
    rw [← take_append_drop (j + 1) code, take_succ_eq_append_getElem hlt, hx,
      append_assoc, singleton_append, hcut] at h
    rw [append_assoc, cons_append, hcut, take_succ_eq_append_getElem hlt, hx, hcut]
    exact ⟨⟨h.1, quietFor_nil (mark_ne_nil hm)⟩, hblock _ h.2⟩
  · rw [take_of_length_le (by omega), drop_eq_nil_of_le (by omega), append_assoc,
      cons_append, hcut]
    exact ⟨h, hblock _ (quietFor_nil (mark_ne_nil hm))⟩

theorem settledFor_spaces : SettledFor mark "    " :=
  settled_of_not_mem (by decide) (by decide) mark hm

theorem quietFor_insertInOnCreate (hblock : QuietFor mark block) (h : QuietFor mark code) :
    QuietFor mark (insertInOnCreate code block) := by
  have hstart : "\n        " = '\n' :: "        " := by decide
  have hend : "\n    " = '\n' :: "    " := by decide
  have hspaces : SettledFor mark "        " := settled_of_not_mem (by decide) (by decide) mark hm
  unfold insertInOnCreate
  split
  · next k hk =>
    have := quietFor_insertAt_brace hm (insertionPoint_some hk) (hspaces block hblock)
      (settledFor_spaces hm) h
    simpa only [hstart, hend, append_assoc, cons_append] using this
  · exact h

theorem quietFor_insertInOnViewCreated (hblock : QuietFor mark block) (h : QuietFor mark code) :
    QuietFor mark (insertInOnViewCreated code block) := by
  have hstart : "\n" = ['\n'] := by decide
  have hend : "\n    " = '\n' :: "    " := by decide
  unfold insertInOnViewCreated
  split
  · next k hk =>
    have := quietFor_insertAt_brace hm (insertionPoint_some hk) hblock (settledFor_spaces hm) h
    simpa only [hstart, hend, append_assoc, cons_append, nil_append] using this
  · exact h

theorem quietFor_addMethodAfterClass {name : Text}
    (hname : QuietFor mark ("    private void " ++ (name ++ "() \x7b")))
    (hblock : QuietFor mark block) (h : QuietFor mark code) :
    QuietFor mark (addMethodAfterClass name code block) := by
  have hstart : "\n    private void " = '\n' :: "    private void " := by decide
  have hopen : "() \x7b\n" = "() \x7b" ++ ['\n'] := by decide
  have hend : "\n    \x7d\n" = '\n' :: "    \x7d\n" := by decide
  have hclose : SettledFor mark "    \x7d\n" := settled_of_not_mem (by decide) (by decide) mark hm
  have hbody : QuietFor mark ("    private void " ++ (name ++ "() \x7b") ++ '\n' :: block) :=
    (quietFor_around (not_mem_mark hm (by simp)) (mark_ne_nil hm) (by decide)).mpr ⟨hname, hblock⟩
  unfold addMethodAfterClass
  split
  · next k hk =>
    obtain ⟨j, rfl, hj⟩ := publicClassEnd_some hk
    have := quietFor_insertAt_line hm hj hbody hclose h
    simpa only [hstart, hopen, hend, append_assoc, cons_append, nil_append] using this
  · exact h

theorem quietFor_placedIn {name : Text} (seen seen' : Bool)
    (hname : QuietFor mark ("    private void " ++ (name ++ "() \x7b")))
    (hblock : QuietFor mark block) (h : QuietFor mark code) :
    QuietFor mark (placedIn name block code seen seen') :=
  placedIn_inv (QuietFor mark) (fun _ => quietFor_insertInOnCreate hm hblock)
    (fun _ => quietFor_insertInOnViewCreated hm hblock)
      (fun _ => quietFor_addMethodAfterClass hm hname hblock)
    seen seen' h

end

theorem IsAtMark.quietFor_placed {mark name code t' : Text} {rows : List Text} (hm : IsAtMark mark)
    (hname : '@' ∉ name) (hrows : ∀ l ∈ rows, QuietFor mark l)
    (h : t' = code ∨ ∃ seen seen', t' = placedIn name (unlines rows) code seen seen')
    (hq : QuietFor mark code) :
    QuietFor mark t' := by
  rcases h with rfl | ⟨seen, seen', rfl⟩
  · exact hq
  · refine quietFor_placedIn hm.known seen seen' ?_ ?_ hq
    · exact hm.quietFor_of_not_mem (not_mem_append (by decide) (not_mem_append hname (by decide)))
    · exact (quietFor_unlines_iff (not_mem_mark hm.known (by simp)) (mark_ne_nil hm.known)).mpr
        hrows

/-! ## fields -/

namespace FieldLookup

def annotated (F : Field) : Pattern := declaration blanks1 F.id F.type F.name

def plainDeclaration (F : Field) : Text := F.type ++ ' ' :: F.name ++ [';']

theorem at_not_mem_access (h : (Pattern.maybe accessModifier).Covers s) : '@' ∉ s := by
  rcases h with rfl | ⟨_, b, rfl, rfl, hb⟩ | ⟨_, b, rfl, rfl, hb⟩ | ⟨_, b, rfl, rfl, hb⟩
  · simp
  all_goals
    have hat := at_not_mem_blanks (covers_run1.mp hb).2
    simp [hat]

theorem markedBy_annotated (F : Field) : MarkedBy (annotated F) "@BindView" where
  free := rfl
  shape s hs := by
    obtain ⟨_, _, rfl, rfl, b1, _, rfl, hb1, _, _, rfl, rfl, b2, _, rfl, hb2, _, _, rfl, rfl,
      b3, _, rfl,
      hb3, _, _, rfl, rfl, g, _, rfl, hg, acc, _, rfl, hacc, _, _, rfl, rfl, g', _, rfl, hg',
      _, _, rfl, rfl, b4, _, rfl, hb4, rfl⟩ := hs
    refine ⟨b1 ++ ("(" ++ (b2 ++ (F.id ++ (b3 ++ (")" ++ (g ++ (acc ++ (F.type ++ (g'
      ++ (F.name ++ b4)))))))))), ';', ?_, ?_, ?_, by decide⟩
    · simp only [append_assoc]
      rfl
    · have h1 := at_not_mem_blanks hb1
      have h2 := at_not_mem_blanks hb2
      have h3 := at_not_mem_blanks hb3
      have h4 := at_not_mem_blanks hb4
      have h5 := at_not_mem_blanks (covers_run1.mp hg).2
      have h6 := at_not_mem_blanks (covers_run1.mp hg').2
      simp only [mem_append, not_or]
      exact ⟨⟨h1, by decide, h2, at_not_mem_resource F.id_covers, h3, by decide, h5,
        at_not_mem_access hacc, at_not_mem_word F.type_covers, h6,
        at_not_mem_word F.name_covers, h4⟩, by decide⟩
    · rw [append_assoc, append_assoc]
      exact head_ne_markSign hb1 _

theorem at_not_mem_plain (F : Field) : '@' ∉ plainDeclaration F := by
  simp [plainDeclaration, at_not_mem_word F.type_covers, at_not_mem_word F.name_covers]

theorem annotated_of_break (h : (declaration (seq [blanks, lit "\n", blanks]) F.id F.type
    F.name).Covers s) :
    (annotated F).Covers s := by
  obtain ⟨_, _, rfl, rfl, b1, _, rfl, hb1, _, _, rfl, rfl, b2, _, rfl, hb2, _, _, rfl, rfl,
    b3, _, rfl, hb3, _, _, rfl, rfl, g, _, rfl, ⟨u, _, rfl, hu, _, v, rfl, rfl, hv⟩, hrest⟩ := h
  have hgap : blanks1.Covers (u ++ ("\n" ++ v)) := by
    refine covers_run1.mpr ⟨by simp, fun c hc => ?_⟩
    simp only [mem_append] at hc
    rcases hc with hc | hc | hc
    · exact hu c hc
    · rw [show c = '\n' by simpa using hc]
      exact isBlank_newline
    · exact hv c hc
  exact ⟨_, _, rfl, rfl, b1, _, rfl, hb1, _, _, rfl, rfl, b2, _, rfl, hb2, _, _, rfl, rfl,
    b3, _, rfl, hb3, _, _, rfl, rfl, _, _, rfl, hgap, hrest⟩

theorem plain_length_lt (h : (annotated F).Covers s) : (plainDeclaration F).length < s.length := by
  obtain ⟨_, _, rfl, rfl, b1, _, rfl, -, _, _, rfl, rfl, b2, _, rfl, -, _, _, rfl, rfl, b3, _, rfl,
    -, _, _, rfl, rfl, g, _, rfl, -, acc, _, rfl, -, _, _, rfl, rfl, g', _, rfl, -, _, _, rfl,
    rfl, b4, _, rfl, -, rfl⟩ := h
  simp only [plainDeclaration, length_append, length_cons, length_nil]
  have hmark : "@BindView".toList.length = 9 := by decide
  omega

/-- all annotated declarations are written anew by the first attempt, so none is left for the
second -/
theorem dropMark_eq (F : Field) (code : Text) :
    dropMark code F.view = .ok ((annotated F).replace (fun _ => plainDeclaration F) code) := by
  have hp := markedBy_annotated F
  have hrep := replaced_replace hp.free hp.not_covers_nil (plainDeclaration F) code
  show (if (annotated F).replace (fun _ => plainDeclaration F) code != code then Except.ok _
    else .ok _) = _
  split
  · rfl
  · next hsame =>
    rw [bne_iff_ne, not_not] at hsame
    rw [hsame] at hrep ⊢
    have hnone := (hrep.length_le (fun s => plain_length_lt)).2 rfl
    have hsecond := replaced_replace
        (p := declaration (seq [blanks, lit "\n", blanks]) F.id F.type F.name)
      rfl (fun hc => hp.not_covers_nil (annotated_of_break hc)) (plainDeclaration F) code
    refine congrArg Except.ok (hsecond.eq_of_not_starts (fun a b hab => ?_))
    rintro ⟨s, r, rfl, hs⟩
    exact hnone a _ hab ⟨s, r, rfl, annotated_of_break hs⟩

theorem dropMark_replaced (h : dropMark code F.view = .ok t') :
    Replaced (annotated F) (plainDeclaration F) code t' := by
  obtain rfl := Except.ok.inj ((dropMark_eq F code).symm.trans h)
  have hp := markedBy_annotated F
  exact replaced_replace hp.free hp.not_covers_nil (plainDeclaration F) code

theorem foldlM_dropMark (h : (fs.map Field.view).foldlM dropMark code = .ok t')
    (hfields : Handled "@BindView" (fun r => ∃ F ∈ fs, Starts (annotated F) r) code) :
    QuietFor "@BindView" t' ∧ ∀ mark, IsAtMark mark → QuietFor mark code → QuietFor mark t' := by
  induction fs generalizing code with
  | nil =>
    obtain rfl := Except.ok.inj h
    exact ⟨quietFor_of_handled hfields (by simp), fun _ _ hq => hq⟩
  | cons F fs ih =>
    obtain ⟨code', hdrop, hrest⟩ := bind_eq_ok.mp h
    have hrep := dropMark_replaced hdrop
    have hp := markedBy_annotated F
    have hfirst : Handled "@BindView"
        (fun r => Starts (annotated F) r ∨ ∃ F ∈ fs, Starts (annotated F) r) code := by
      simpa only [mem_cons, exists_eq_or_imp] using hfields
    have hlater := hrep.handled hp bindView_isAtMark (at_not_mem_plain F)
      (fun r hr => by
        obtain ⟨G, hG, s, v, rfl, hs⟩ := hr
        obtain ⟨u, c, rfl, hat, -⟩ := (markedBy_annotated G).shape s hs
        exact ⟨u ++ [c], v, by simp, hat, fun v' => ⟨G, hG, _, v', by simp, hs⟩⟩) hfirst
    obtain ⟨hquiet, hothers⟩ := ih hrest hlater
    refine ⟨hquiet, fun mark hmark hq => hothers mark hmark ?_⟩
    exact hrep.quietFor (hp.spaced hfields) hmark.known
      (.inr ⟨hmark.not_mem (at_not_mem_plain F), hp.not_isGap⟩) hq

def assignmentRow (F : Field) : Text :=
  "        " ++ F.name ++ " = (" ++ F.type ++ ") findViewById(" ++ F.id ++ ");"

theorem assignments_fields (fs : List Field) :
    assignments (fs.map Field.view) = .ok (unlines (fs.map assignmentRow)) := by
  rw [assignments, mapM_map, mapM_ok (g := assignmentRow)]
  · rfl
  · exact fun _ _ => rfl

theorem addAssignments_cases (h : addAssignments code (fs.map Field.view) = .ok t') :
    t' = code ∨ ∃ seen seen', t' = placedIn "initViews" (unlines (fs.map assignmentRow)) code seen
      seen' := by
  unfold addAssignments at h
  split at h
  · exact .inl (Except.ok.inj h).symm
  · rw [assignments_fields, ok_bind] at h
    obtain ⟨seen, -, h⟩ := bind_eq_ok.mp h
    obtain ⟨seen', -, h⟩ := bind_eq_ok.mp h
    refine .inr ⟨seen, seen', ?_⟩
    unfold placedIn
    split at h <;> simp_all

theorem at_not_mem_assignmentRow (F : Field) : '@' ∉ assignmentRow F := by
  have hname := not_mem_append (by decide : '@' ∉ "        ".toList) (at_not_mem_word F.name_covers)
  have htype := not_mem_append (not_mem_append hname (by decide : '@' ∉ " = (".toList))
    (at_not_mem_word F.type_covers)
  have hid := not_mem_append
    (not_mem_append htype (by decide : '@' ∉ ") findViewById(".toList))
    (at_not_mem_resource F.id_covers)
  exact not_mem_append hid (by decide)

theorem quietFor_addAssignments (hm : IsAtMark mark)
    (h : addAssignments code (fs.map Field.view) = .ok t') (hq : QuietFor mark code) :
    QuietFor mark t' := by
  refine hm.quietFor_placed (by decide) (fun l hl => ?_) (addAssignments_cases h) hq
  obtain ⟨F, -, rfl⟩ := mem_map.mp hl
  exact hm.quietFor_of_not_mem (at_not_mem_assignmentRow F)

theorem edit_parts {ls : List Listener} (hl : f.Lists fs cs ls) (h : edit f code = .ok t') : ∃ bare,
    (fs.map Field.view).foldlM dropMark code = .ok bare ∧ addAssignments bare (fs.map Field.view)
      = .ok t' := by
  simp only [edit, applies, hl.views, Slot.walked, Slot.orElse, ok_bind, pure_eq_ok] at h
  split at h
  · next hempty =>
    obtain rfl : fs = [] := by simpa using hempty
    exact ⟨code, rfl, h⟩
  · exact bind_eq_ok.mp h

theorem edit_quiet {ls : List Listener} (hl : f.Lists fs cs ls) (h : edit f code = .ok t')
    (hfields : Handled "@BindView" (fun r => ∃ F ∈ fs, Starts (annotated F) r) code) :
    QuietFor "@BindView" t' ∧ ∀ mark, IsAtMark mark → QuietFor mark code → QuietFor mark t' := by
  obtain ⟨bare, hfold, hadd⟩ := edit_parts hl h
  obtain ⟨hquiet, hothers⟩ := foldlM_dropMark hfold hfields
  exact ⟨quietFor_addAssignments bindView_isAtMark hadd hquiet,
    fun mark hm hq => quietFor_addAssignments hm hadd (hothers mark hm hq)⟩

end FieldLookup

/-! ## click handlers -/

namespace ClickListener

theorem at_not_mem_plainId (h : plainId.Covers s) : '@' ∉ s := by
  obtain ⟨_, w, rfl, rfl, hw⟩ := h
  exact not_mem_append (by decide) (at_not_mem_word hw)

theorem at_not_mem_plainIds
    (h : (Pattern.maybe (seq [plainId, .many (seq [blanks, lit ",", blanks, plainId])])).Covers s) :
    '@' ∉ s := by
  rcases h with rfl | ⟨first, _, rfl, hfirst, parts, rfl, hparts⟩
  · simp
  · refine not_mem_append (at_not_mem_plainId hfirst) (fun hm => ?_)
    obtain ⟨t, ht, hm⟩ := mem_flatten.mp hm
    obtain ⟨b, _, rfl, hb, _, _, rfl, rfl, b', id, rfl, hb', hid⟩ := hparts t ht
    exact not_mem_append (at_not_mem_blanks hb) (not_mem_append (by decide)
      (not_mem_append (at_not_mem_blanks hb') (at_not_mem_plainId hid))) hm

theorem markedBy_clickMark : MarkedBy clickMark "@OnClick" where
  free := rfl
  shape s hs := by
    obtain ⟨_, _, rfl, rfl, b1, _, rfl, hb1, _, _, rfl, rfl, b2, _, rfl, hb2, o, _, rfl, ho,
      i, _, rfl, hi, c, _, rfl, hc, b3, _, rfl, hb3, rfl⟩ := hs
    refine ⟨b1 ++ ("(" ++ (b2 ++ (o ++ (i ++ (c ++ b3))))), ')', ?_, ?_, ?_, by decide⟩
    · simp only [append_assoc]
      rfl
    · have hopen : '@' ∉ o := by
        rcases ho with rfl | ⟨_, b, rfl, rfl, hb⟩
        · simp
        · exact not_mem_append (by decide) (at_not_mem_blanks hb)
      have hclose : '@' ∉ c := by
        rcases hc with rfl | ⟨b, _, rfl, hb, rfl⟩
        · simp
        · exact not_mem_append (at_not_mem_blanks hb) (by decide)
      simp only [mem_append, not_or]
      exact ⟨⟨at_not_mem_blanks hb1, by decide, at_not_mem_blanks hb2, hopen,
        at_not_mem_plainIds hi, hclose, at_not_mem_blanks hb3⟩, by decide⟩
    · rw [append_assoc, append_assoc]
      exact head_ne_markSign hb1 _

/-- a handler at a time: all click annotations go with the first that has a resource -/
theorem foldlM_dropMark (h : (cs.map Listener.handler).foldlM dropMark code = .ok t')
    (hclicks : Handled "@OnClick" (fun r => (∃ L ∈ cs, L.ids ≠ []) ∧ Starts clickMark r) code) :
    QuietFor "@OnClick" t' ∧ ∀ mark, IsAtMark mark → QuietFor mark code → QuietFor mark t' := by
  induction cs generalizing code with
  | nil =>
    obtain rfl := Except.ok.inj h
    exact ⟨quietFor_of_handled hclicks (by simp), fun _ _ hq => hq⟩
  | cons L cs ih =>
    obtain ⟨code', hdrop, hrest⟩ := bind_eq_ok.mp h
    have hstep : (if L.ids.isEmpty then Except.ok code else .ok (clickMark.erase code))
        = (.ok code' : Except Fault Text) := hdrop
    split at hstep
    · next hempty =>
      obtain rfl := Except.ok.inj hstep
      refine ih hrest (fun a b hab => (hclicks a b hab).imp_right (fun hb => ⟨hb.1, ?_, hb.2.2⟩))
      obtain ⟨L', hL', hids⟩ := hb.2.1
      rcases mem_cons.mp hL' with rfl | hL'
      · exact absurd (isEmpty_iff.mp hempty) hids
      · exact ⟨L', hL', hids⟩
    · have hp := markedBy_clickMark
      have hrep : Replaced clickMark [] code code' := by
        rw [← Except.ok.inj hstep]
        exact replaced_replace hp.free hp.not_covers_nil [] code
      have hnone : Handled "@OnClick" (fun _ => False) code' :=
        hrep.handled hp onClick_isAtMark (by simp) (by simp)
          (fun a b hab => (hclicks a b hab).imp_right (fun hb => ⟨hb.1, .inl hb.2.2⟩))
      obtain ⟨hquiet, hothers⟩ := ih hrest
        (fun a b hab => (hnone a b hab).imp_right (fun hb => hb.2.elim))
      exact ⟨hquiet, fun mark hm hq =>
        hothers mark hm (hrep.quietFor (hp.spaced hclicks) hm.known (.inl rfl) hq)⟩

theorem listenerBlock_listeners (cs : List Listener) : listenerBlock (cs.map Listener.handler)
    = .ok (unlines (cs.flatMap (fun L => L.ids.flatMap (listener L.method)))) := by
  rw [listenerBlock, mapM_map,
    mapM_ok (g := fun L : Listener => L.ids.flatMap (listener L.method))]
  · rw [ok_bind, flatMap_def]
    rfl
  · exact fun _ _ => rfl

theorem addListeners_cases (h : addListeners code (cs.map Listener.handler) = .ok t') :
    t' = code ∨ ∃ seen seen', t' = placedIn "initListener"
      (unlines (cs.flatMap (fun L => L.ids.flatMap (listener L.method)))) code seen seen' := by
  unfold addListeners at h
  split at h
  · exact .inl (Except.ok.inj h).symm
  · rw [listenerBlock_listeners, ok_bind] at h
    obtain ⟨seen, -, h⟩ := bind_eq_ok.mp h
    obtain ⟨seen', -, h⟩ := bind_eq_ok.mp h
    refine .inr ⟨seen, seen', ?_⟩
    unfold placedIn
    split at h <;> simp_all

theorem quietFor_listener {method id : Text} (hm : IsAtMark mark) (hmethod : word.Covers method)
    (hid : resourceId.Covers id) (hl : l ∈ listener method id) : QuietFor mark l := by
  have hview : '@' ∉ viewName id := not_mem_append (by decide)
    (fun h => at_not_mem_resource hid (mem_of_mem_afterLast h))
  have hover : Quiet "            @Override" := by decide +kernel
  simp only [listener, mem_cons, not_mem_nil, or_false] at hl
  rcases hl with rfl | rfl | rfl | rfl | rfl | rfl | rfl
  · exact hm.quietFor_of_not_mem
      (not_mem_append (not_mem_append (by decide) hview) (by decide))
  · exact hover mark hm.known
  · exact hm.quietFor_of_not_mem (by decide)
  · exact hm.quietFor_of_not_mem
      (not_mem_append (not_mem_append (by decide) (at_not_mem_word hmethod)) (by decide))
  · exact hm.quietFor_of_not_mem (by decide)
  · exact hm.quietFor_of_not_mem (by decide)
  · exact hm.quietFor_of_not_mem (by decide)

theorem quietFor_addListeners (hm : IsAtMark mark)
    (hcs : ResourcesOnly cs) (h : addListeners code (cs.map Listener.handler) = .ok t')
    (hq : QuietFor mark code) : QuietFor mark t' := by
  refine hm.quietFor_placed (by decide) (fun l hl => ?_) (addListeners_cases h) hq
  obtain ⟨L, hL, hl⟩ := mem_flatMap.mp hl
  obtain ⟨id, hid, hl⟩ := mem_flatMap.mp hl
  exact quietFor_listener hm L.method_covers (hcs L hL id hid) hl

theorem edit_parts {ls : List Listener} (hl : f.Lists fs cs ls) (h : edit f code = .ok t') : ∃ bare,
    (cs.map Listener.handler).foldlM dropMark code = .ok bare
      ∧ addListeners bare (cs.map Listener.handler) = .ok t' := by
  simp only [edit, applies, hl.clicks, Slot.walked, Slot.orElse, ok_bind, pure_eq_ok] at h
  split at h
  · next hempty =>
    obtain rfl : cs = [] := by simpa using hempty
    exact ⟨code, rfl, h⟩
  · exact bind_eq_ok.mp h

theorem edit_quiet {ls : List Listener} (hl : f.Lists fs cs ls) (hcs : ResourcesOnly cs)
    (h : edit f code = .ok t')
    (hclicks : Handled "@OnClick" (fun r => (∃ L ∈ cs, L.ids ≠ []) ∧ Starts clickMark r) code) :
    QuietFor "@OnClick" t' ∧ ∀ mark, IsAtMark mark → QuietFor mark code → QuietFor mark t' := by
  obtain ⟨bare, hfold, hadd⟩ := edit_parts hl h
  obtain ⟨hquiet, hothers⟩ := foldlM_dropMark hfold hclicks
  exact ⟨quietFor_addListeners onClick_isAtMark hcs hadd hquiet,
    fun mark hm hq => quietFor_addListeners hm hcs hadd (hothers mark hm hq)⟩

end ClickListener

/-! ## bind calls -/

def WordStart (w t : Text) : Prop := ∀ a b, t = a ++ (w ++ b) → IsGap (before none a)

instance (w t : Text) : Decidable (WordStart w t) :=
  decidable_of_iff _ (forall_occurrence_iff (w := w) (t := t)
    (P := fun a _ => IsGap (before none a))).symm

theorem wordStart_around {x : Char} {w : Text} (hx : x ∉ w) (hne : w ≠ [])
    (hblank : isBlank x) : WordStart w (a ++ x :: b) ↔ WordStart w a ∧ WordStart w b := by
  have hgap : IsGap (some x) := fun y hy => by rwa [← Option.some.inj hy]
  have hbehind : ∀ u, before none (a ++ x :: u) = before (some x) u := fun u => before_append ..
  -- behind the character a word starts as it does at the very start
  have hsame : ∀ u, IsGap (before (some x) u) ↔ IsGap (before none u) := by
    intro u
    cases u with
    | nil => exact ⟨fun _ y hy => (nomatch hy), fun _ => hgap⟩
    | cons c u => exact Iff.rfl
  constructor
  · refine fun h => ⟨fun u v ha => ?_, fun u v hb => ?_⟩
    · exact h u (v ++ x :: b) (by rw [ha]; simp)
    · have := h (a ++ x :: u) v (by rw [hb]; simp)
      rwa [hbehind, hsame] at this
  · rintro ⟨ha, hb⟩ u v h
    rcases occurrence_around hx hne h with ⟨r, hr, -⟩ | ⟨r, rfl, hr⟩
    · exact ha u r hr
    · rw [hbehind, hsame]
      exact hb r v hr

theorem wordStart_unlines_iff {w : Text} {ls : List Text} (hn : '\n' ∉ w) (hne : w ≠ []) :
    WordStart w (unlines ls) ↔ ∀ l ∈ ls, WordStart w l := by
  have hnil : WordStart w [] := by
    intro a b h
    have := (append_eq_nil_iff.mp (append_eq_nil_iff.mp h.symm).2).1
    exact absurd this hne
  induction ls with
  | nil => simpa [unlines] using hnil
  | cons l ls ih =>
    cases ls with
    | nil => simp [unlines]
    | cons l' ls =>
      rw [unlines_cons (by simp), wordStart_around hn hne isBlank_newline, forall_mem_cons]
      exact and_congr_right' ih

namespace BindCall

def importWord : Text := "import"

section
variable {code t' mark : Text}

theorem importLine_covers {cls : String} (h : (importLine cls).Covers s) :
    ∃ r, s = importWord ++ r := by
  obtain ⟨_, _, rfl, ⟨_, _, rfl, rfl, -⟩, -⟩ := h
  exact ⟨_, append_assoc ..⟩

theorem erase_import (cls : String) (hstart : WordStart importWord code) :
    WordStart importWord ((importLine cls).erase code)
      ∧ ∀ mark ∈ annotationMarks, QuietFor mark code
        → QuietFor mark ((importLine cls).erase code) := by
  have hempty : ¬ (importLine cls).Covers [] := by
    intro h
    obtain ⟨r, hr⟩ := importLine_covers h
    simp [importWord] at hr
  have hrep : Replaced (importLine cls) [] code ((importLine cls).erase code) :=
    replaced_replace rfl hempty [] code
  have hsp : Spaced (importLine cls) none code := by
    rintro a _ hab ⟨s, v, rfl, hs⟩
    obtain ⟨r, rfl⟩ := importLine_covers hs
    exact hstart a (r ++ v) (by rw [hab, append_assoc])
  refine ⟨?_, fun mark hm hq => hrep.quietFor hsp hm (.inl rfl) hq⟩
  have hhead : importWord = 'i' :: "mport" := by decide
  have hword : importWord.all (fun c => !isBlank c) = true := by decide
  have hblank : ∀ c ∈ importWord, isBlank c = false := fun c hc => by
    simpa using all_eq_true.mp hword c hc
  rw [hhead] at hblank
  intro a' b' ht'
  rw [hhead] at ht'
  obtain ⟨a, b, hab, -, -, -, hgap⟩ := hrep.occurrence hsp hblank (by simp) (.inl rfl) id ht'
  exact hgap (hstart a b (by rw [hhead]; exact hab))

theorem mem_dropped {call : Text}
    (h : l ∈ (lines code).filter (fun l => !occursIn call l && !isEmptyLine l)) :
    l ∈ lines code ∧ ¬ call <:+: l := by
  obtain ⟨hl, hkeep⟩ := mem_filter.mp h
  rw [← occursIn_eq_false_iff]
  simp only [Bool.and_eq_true, Bool.not_eq_true'] at hkeep
  exact ⟨hl, hkeep.1⟩

theorem quietFor_dropLines (hm : mark ∈ annotationMarks) (call : Text) (h : QuietFor mark code) :
    QuietFor mark (dropLines call code) := by
  have hn := not_mem_mark hm (x := '\n') (by simp)
  rw [quietFor_iff_lines hn (mark_ne_nil hm)] at h
  exact (quietFor_unlines_iff hn (mark_ne_nil hm)).mpr (fun l hl => h l (mem_dropped hl).1)

theorem wordStart_dropLines (call : Text) (h : WordStart importWord code) :
    WordStart importWord (dropLines call code) := by
  rw [← unlines_lines code, wordStart_unlines_iff (by decide) (by decide)] at h
  exact (wordStart_unlines_iff (by decide) (by decide)).mpr (fun l hl => h l (mem_dropped hl).1)

theorem mem_squeezeFrom {kept ls : List Text} {blank : Bool}
    (h : l ∈ squeezeFrom kept blank ls) : l ∈ kept ∨ l ∈ ls := by
  induction ls generalizing kept blank with
  | nil => exact .inl (mem_reverse.mp h)
  | cons l' ls ih =>
    rw [squeezeFrom] at h
    split at h
    · exact (ih h).imp_right (mem_cons_of_mem _)
    · rcases ih h with h | h
      · rcases mem_cons.mp h with rfl | h
        · exact .inr mem_cons_self
        · exact .inl h
      · exact .inr (mem_cons_of_mem _ h)

theorem quietFor_squeezeBlankLines (hm : mark ∈ annotationMarks) (h : QuietFor mark code) :
    QuietFor mark (squeezeBlankLines code) := by
  have hn := not_mem_mark hm (x := '\n') (by simp)
  rw [quietFor_iff_lines hn (mark_ne_nil hm)] at h
  refine (quietFor_unlines_iff hn (mark_ne_nil hm)).mpr (fun l hl => h l ?_)
  have hdrop := (dropWhile_subset _) (mem_reverse.mp hl)
  exact (mem_squeezeFrom ((dropWhile_subset _) (mem_reverse.mp hdrop))).resolve_left (by simp)

theorem quietFor_dropImports (hm : mark ∈ annotationMarks) (hstart : WordStart importWord code)
    (h : QuietFor mark code) : QuietFor mark (dropImports code) := by
  obtain ⟨hstart₁, hquiet₁⟩ := erase_import "ButterKnife" hstart
  obtain ⟨hstart₂, hquiet₂⟩ := erase_import "BindView" hstart₁
  obtain ⟨-, hquiet₃⟩ := erase_import "OnClick" hstart₂
  exact hquiet₃ mark hm (hquiet₂ mark hm (hquiet₁ mark hm h))

theorem edit_quiet (h : edit f code = .ok t')
    (hcall : (∃ v, applies f = .ok v ∧ v.truthy) ∨ QuietFor "ButterKnife.bind".toList code)
    (hstart : WordStart importWord code) :
    QuietFor "ButterKnife.bind".toList t' ∧ ∀ mark ∈ annotationMarks, QuietFor mark code
      → QuietFor mark t' := by
  obtain ⟨v, hv, h⟩ := bind_eq_ok.mp h
  split at h
  · next hidle =>
    obtain rfl := Except.ok.inj h
    refine ⟨hcall.resolve_left ?_, fun _ _ hq => hq⟩
    rintro ⟨v', hv', htrue⟩
    rw [hv] at hv'
    rw [← Except.ok.inj hv'] at htrue
    simp [htrue] at hidle
  · rw [← Except.ok.inj h]
    have hstart' := wordStart_dropLines "ButterKnife.unbind".toList
      (wordStart_dropLines "ButterKnife.bind".toList hstart)
    have hrest : ∀ mark ∈ annotationMarks, QuietFor mark (dropBind code) →
        QuietFor mark (squeezeBlankLines (dropImports (dropUnbind (dropBind code)))) :=
      fun mark hm hq => quietFor_squeezeBlankLines hm
        (quietFor_dropImports hm hstart' (quietFor_dropLines hm _ hq))
    have hbind : "ButterKnife.bind".toList ∈ annotationMarks := by decide
    refine ⟨hrest _ hbind ?_, fun mark hm hq => hrest mark hm (quietFor_dropLines hm _ hq)⟩
    exact (quietFor_unlines_iff (not_mem_mark hbind (by simp)) (mark_ne_nil hbind)).mpr
      (fun l hl => quietFor_of_absent (mem_dropped hl).2)

end

end BindCall

end Rebind
