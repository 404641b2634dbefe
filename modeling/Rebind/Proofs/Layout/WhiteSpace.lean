import Mathlib
import Rebind.Layout
import Rebind.Proofs.Findings.Shape
import Rebind.Proofs.Pattern.Tiling

/-!
# What the layout of annotations leaves alone

`visible t` is the text without its white space.  Moving the annotation of a field to a line of its
own changes white space only (`visible_splitFields`).  The annotation of a handler is put in front
of the header that `wholeHeader` reads off whole lines, in the place of the match, and the two need
not be the same text: the line may hold the annotation once more, and it goes on to the opening
brace.

* `signature m`: what stands behind the annotation in a match;
* `Faithful p code`: every header that is found shows what the signature in its place shows;
* `Ample p code`: none of them shows less characters.

`visible_splitHandlers_iff` says that faithful headers are what it takes, and
`visible_splitAnnotations_iff` puts the three steps together.
-/

namespace Rebind

open List Pattern

def visible (t : Text) : Text := t.filter (fun c => !isBlank c)

theorem visible_append (a b : Text) : visible (a ++ b) = visible a ++ visible b := filter_append ..

theorem visible_blanks {t : Text} (h : ∀ c ∈ t, isBlank c) : visible t = [] :=
  filter_eq_nil_iff.mpr (fun c hc => by simp [h c hc])

theorem visible_cons {c : Char} (hc : isBlank c = false) (t : Text) :
    visible (c :: t) = c :: visible t := by simp [visible, hc]

theorem visible_trimLeft (t : Text) : visible (trimLeft t) = visible t := by
  conv_rhs => rw [← takeWhile_append_dropWhile (p := isBlank) (l := t), visible_append,
    visible_blanks (fun c hc => mem_takeWhile_imp hc), nil_append]
  rfl

theorem visible_trimRight (t : Text) : visible (trimRight t) = visible t := by
  rw [trimRight, visible, filter_reverse]
  show (visible (trimLeft t.reverse)).reverse = _
  rw [visible_trimLeft, visible, ← filter_reverse, reverse_reverse]
  rfl

theorem visible_trim (t : Text) : visible (trim t) = visible t := by
  rw [trim, visible_trimRight, visible_trimLeft]

theorem not_mem_of_visible_nil {c : Char} {t : Text} (hc : isBlank c = false) (h : visible t = []) :
    c ∉ t := by
  intro hm
  have hshown : c ∈ visible t := mem_filter.mpr ⟨hm, by rw [hc]; rfl⟩
  rw [h] at hshown
  cases hshown

/-! ## annotations in a match -/

/-- an annotation with its resources, and the pattern `q` behind it: the two groups hold the
indentation and the resources, and the first closing parenthesis is that of the annotation -/
theorem reads_annotation {name : String} {q : Pattern} {ps : List Pattern} {s : Text}
    {gs : List (Nat × Text)} (hname : ')' ∉ name.toList)
    (h : (seq (.group 1 blanks :: lit name :: blanks :: lit "(" :: blanks :: .group 2 (butNot1 ')')
      :: blanks :: lit ")" :: blanks1 :: q :: ps)).Reads s gs) :
    ∃ front indent ids gap r gr, s = front ++ ')' :: (gap ++ r) ∧ gs = gr ++ [(2, ids), (1, indent)]
      ∧ ')' ∉ front ∧ visible indent = [] ∧ visible front = visible (name.toList ++ '(' :: ids)
      ∧ visible gap = [] ∧ (seq (q :: ps)).Reads r gr := by
  obtain ⟨indent, s₁, _, g₁, rfl, rfl, ⟨_, rfl, hindent, rfl⟩, h⟩ := h
  obtain ⟨_, s₂, _, g₂, rfl, rfl, ⟨rfl, rfl⟩, h⟩ := h
  obtain ⟨b₁, s₃, _, g₃, rfl, rfl, ⟨hb₁, rfl⟩, h⟩ := h
  obtain ⟨_, s₄, _, g₄, rfl, rfl, ⟨rfl, rfl⟩, h⟩ := h
  obtain ⟨b₂, s₅, _, g₅, rfl, rfl, ⟨hb₂, rfl⟩, h⟩ := h
  obtain ⟨ids, s₆, _, g₆, rfl, rfl, ⟨g, rfl, hids⟩, h⟩ := h
  obtain ⟨b₃, s₇, _, g₇, rfl, rfl, ⟨hb₃, rfl⟩, h⟩ := h
  obtain ⟨_, s₈, _, g₈, rfl, rfl, ⟨rfl, rfl⟩, h⟩ := h
  obtain ⟨gap, r, _, gr, rfl, rfl, hgap, h⟩ := h
  obtain rfl := hids.groups_eq_nil rfl
  obtain rfl := hgap.groups_eq_nil rfl
  -- no character of the front closes a parenthesis
  have hclose : isBlank ')' = false := by decide
  have hblank : ∀ b : Text, (∀ c ∈ b, isBlank c = true) → ')' ∉ b := fun b hb hmem => by
    rw [hb ')' hmem] at hclose
    cases hclose
  have hopen : ')' ∉ "(".toList := by decide
  have hinside : ')' ∉ ids := fun hmem => by simpa using (covers_run1.mp hids.covers).2 ')' hmem
  refine ⟨indent ++ (name.toList ++ (b₁ ++ ("(".toList ++ (b₂ ++ (ids ++ b₃))))), indent, ids,
    gap, r, gr,
    ?_, ?_, ?_, visible_blanks hindent, ?_, visible_blanks (covers_run1.mp hgap.covers).2, h⟩
  · simp only [append_assoc]
    rfl
  · simp
  · simp only [mem_append, not_or]
    exact ⟨hblank _ hindent, hname, hblank _ hb₁, hopen, hblank _ hb₂, hinside, hblank _ hb₃⟩
  · simp only [visible_append, visible_blanks hindent, visible_blanks hb₁, visible_blanks hb₂,
      visible_blanks hb₃, visible_cons (c := '(') (by decide), nil_append, append_nil]
    rfl

/-! ## fields -/

theorem visible_fieldOnLine {code : Text} {m : Match} (hm : m.Of fieldOnLine 0 code) :
    visible (m.group 1 ++ "@BindView(".toList ++ m.group 2 ++ ")\n".toList ++ m.group 1
      ++ m.group 3 ++ ' ' :: m.group 4 ++ [';']) = visible m.text := by
  obtain ⟨front, indent, ids, gap, r, gr, htext, hgroups, -, hindent, hfront, hgap, h⟩ :=
    reads_annotation (by decide) hm.reads
  obtain ⟨type, r₁, _, g₁, rfl, rfl, ⟨_, rfl, htype⟩, h⟩ := h
  obtain ⟨b₁, r₂, _, g₂, rfl, rfl, hb₁, h⟩ := h
  obtain ⟨name, r₃, _, g₃, rfl, rfl, ⟨_, rfl, hname⟩, h⟩ := h
  obtain ⟨b₂, _, _, g₄, rfl, rfl, ⟨hb₂, rfl⟩, rfl, rfl⟩ := h
  have hb₁' : visible b₁ = [] := visible_blanks (covers_run1.mp hb₁.covers).2
  obtain rfl := htype.groups_eq_nil rfl
  obtain rfl := hb₁.groups_eq_nil rfl
  obtain rfl := hname.groups_eq_nil rfl
  have h₁ : m.group 1 = indent := by simp [Match.group, Match.group?, hgroups]
  have h₂ : m.group 2 = ids := by simp [Match.group, Match.group?, hgroups]
  have h₃ : m.group 3 = type := by simp [Match.group, Match.group?, hgroups]
  have h₄ : m.group 4 = name := by simp [Match.group, Match.group?, hgroups]
  have hmark : visible "@BindView".toList = "@BindView".toList := by decide
  have hopen : visible "@BindView(".toList = "@BindView(".toList := by decide
  have hclose : visible ")\n".toList = [')'] := by decide
  have hspace : visible (' ' :: name) = visible name := rfl
  have hend : visible [';'] = [';'] := by decide
  rw [h₁, h₂, h₃, h₄, htext]
  simp only [visible_append, visible_cons (c := ')') (by decide), visible_cons (c := '(')
    (by decide),
    hfront, hindent, hgap, hb₁', visible_blanks hb₂, hmark, hopen, hclose, hspace, hend]
  simp [hend]

theorem visible_splitFields (code : Text) : visible (splitFields code) = visible code :=
  filter_replace (fun _ hm => visible_fieldOnLine (of_mem_findAll hm))

/-! ## handlers -/

def signature (m : Match) : Text := (m.text.dropWhile (· != ')')).tail

/-- the headers of the handlers that the pattern finds show what stands in their places -/
def Faithful (p : Pattern) (code : Text) : Prop :=
  ∀ m ∈ p.findAll code, ∀ header ∈ wholeHeader code m.start (m.group 3),
    visible header = visible (signature m)

/-- the headers of the handlers that the pattern finds show no less than what stands in their
places -/
def Ample (p : Pattern) (code : Text) : Prop :=
  ∀ m ∈ p.findAll code, ∀ header ∈ wholeHeader code m.start (m.group 3),
    (visible (signature m)).length ≤ (visible header).length

instance (p : Pattern) (code : Text) : Decidable (Faithful p code) :=
  inferInstanceAs (Decidable (∀ m ∈ p.findAll code, ∀ header ∈ wholeHeader code m.start (m.group 3),
    visible header = visible (signature m)))

theorem dropWhile_of_not_mem {c : Char} {a b : Text} (h : c ∉ a) :
    (a ++ c :: b).dropWhile (· != c) = c :: b := by
  induction a with
  | nil => simp
  | cons x a ih =>
    have hx : x ≠ c := fun he => h (he ▸ mem_cons_self)
    rw [cons_append, dropWhile_cons_of_pos (by simpa using hx)]
    exact ih (fun hc => h (mem_cons_of_mem _ hc))

theorem takeWhile_of_not_mem {c : Char} {a b : Text} (h : c ∉ a) :
    (a ++ c :: b).takeWhile (· != c) = a := by
  have hsplit := takeWhile_append_dropWhile (p := (· != c)) (l := a ++ c :: b)
  rw [dropWhile_of_not_mem h] at hsplit
  exact append_cancel_right hsplit

theorem visible_handlerOnLine {name result : String} (hname : ')' ∉ name.toList) {code : Text}
    {m : Match} (hm : m.Of (handlerOnLine name result) 0 code) (header : Text) :
    ∃ front, visible m.text = front ++ visible (signature m)
      ∧ visible (m.group 1 ++ name.toList ++ '(' :: m.group 2 ++ ")\n" ++ header)
        = front ++ visible header := by
  obtain ⟨front, indent, ids, gap, r, gr, htext, hgroups, hnot, hindent, hfront, hgap, h⟩ :=
    reads_annotation hname hm.reads
  obtain ⟨_, r₁, _, g₁, rfl, rfl, hpublic, h⟩ := h
  obtain ⟨_, r₂, _, g₂, rfl, rfl, hresult, h⟩ := h
  obtain ⟨_, r₃, _, g₃, rfl, rfl, ⟨_, rfl, hword⟩, h⟩ := h
  obtain ⟨_, _, _, g₄, rfl, rfl, ⟨-, rfl⟩, hparams⟩ := h
  obtain rfl := hpublic.groups_eq_nil rfl
  obtain rfl := hresult.groups_eq_nil rfl
  obtain rfl := hword.groups_eq_nil rfl
  obtain rfl := hparams.groups_eq_nil rfl
  have h₁ : m.group 1 = indent := by simp [Match.group, Match.group?, hgroups]
  have h₂ : m.group 2 = ids := by simp [Match.group, Match.group?, hgroups]
  have hclose : visible ")\n" = [')'] := by decide
  refine ⟨visible front ++ [')'], ?_, ?_⟩
  · rw [signature, htext, dropWhile_of_not_mem hnot, tail_cons, visible_append,
      visible_cons (by decide), append_assoc]
    rfl
  · rw [h₁, h₂, visible_append, visible_append, hclose, append_assoc indent, visible_append indent,
      hindent, hfront]
    rfl

section
variable {name result : String} (hname : ')' ∉ name.toList) {code : Text}
include hname

/-- where the headers show no less than what they replace, a step that puts the annotations of
handlers on lines of their own changes white space only exactly when the headers are faithful -/
theorem visible_splitHandlers_iff (hample : Ample (handlerOnLine name result) code) :
    visible (splitHandlers (handlerOnLine name result) name code) = visible code
      ↔ Faithful (handlerOnLine name result) code := by
  rw [visible, visible, splitHandlers, filter_replace_iff]
  · refine forall₂_congr (fun m hm => ?_)
    cases hhead : wholeHeader code m.start (m.group 3) with
    | none => simp
    | some header =>
      obtain ⟨front, htext, hnew⟩ := visible_handlerOnLine hname (of_mem_findAll hm) header
      simp only [Option.mem_def, Option.some.injEq, forall_eq']
      show visible _ = visible m.text ↔ _
      rw [htext, hnew, append_cancel_left_eq]
  · intro m hm
    cases hhead : wholeHeader code m.start (m.group 3) with
    | none => exact le_rfl
    | some header =>
      obtain ⟨front, htext, hnew⟩ := visible_handlerOnLine hname (of_mem_findAll hm) header
      have hle := hample m hm header hhead
      show (visible m.text).length ≤ (visible _).length
      rw [htext, hnew, length_append, length_append]
      omega

end

/-! ## all annotations -/

/-- the headers of all handlers show what stands in their places when they are put there -/
def FaithfulHeaders (code : Text) : Prop :=
  Faithful clickOnLine (splitFields code)
    ∧ Faithful longClickOnLine (splitClicks (splitFields code))

/-- the headers of all handlers show no less than what stands in their places -/
def AmpleHeaders (code : Text) : Prop :=
  Ample clickOnLine (splitFields code) ∧ Ample longClickOnLine (splitClicks (splitFields code))

instance (code : Text) : Decidable (FaithfulHeaders code) := inferInstanceAs (Decidable (_ ∧ _))

theorem FaithfulHeaders.ample {code : Text} (h : FaithfulHeaders code) : AmpleHeaders code :=
  ⟨fun m hm header hh => (congrArg length (h.1 m hm header hh)).ge,
    fun m hm header hh => (congrArg length (h.2 m hm header hh)).ge⟩

/-- putting annotations on lines of their own changes white space only, at each of its steps,
exactly when the headers are faithful.  The text after the clicks is named too, since the last step
might undo what the one before it changed -/
theorem visible_splitAnnotations_iff {code : Text} (hample : AmpleHeaders code) :
    (visible (splitClicks (splitFields code)) = visible code
      ∧ visible (splitAnnotations code) = visible code) ↔ FaithfulHeaders code := by
  have hfields : visible (splitFields code) = visible code := visible_splitFields code
  have hclicks : visible (splitClicks (splitFields code)) = visible (splitFields code)
      ↔ Faithful clickOnLine (splitFields code) :=
    visible_splitHandlers_iff (by decide) hample.1
  have hlong : visible (splitAnnotations code) = visible (splitClicks (splitFields code))
      ↔ Faithful longClickOnLine (splitClicks (splitFields code)) :=
    visible_splitHandlers_iff (by decide) hample.2
  constructor
  · rintro ⟨hc, hl⟩
    exact ⟨hclicks.mp (hc.trans hfields.symm), hlong.mp (hl.trans hc.symm)⟩
  · rintro ⟨hc, hl⟩
    have hc' : visible (splitClicks (splitFields code)) = visible code :=
      (hclicks.mpr hc).trans hfields
    exact ⟨hc', (hlong.mpr hl).trans hc'⟩

/-- a field that shares its line with its annotation, a handler whose name and parameters stand on
different lines, and a handler at the end of the text -/
def spreadHandlers : Text :=
  "class A \x7b\n@BindView(R.id.a) View a;\n@OnClick(R.id.b)\nvoid m\n(View v) \x7b\n\x7d\n"
    ++ "@OnLongClick(R.id.c)\nboolean z()"

theorem visible_splitAnnotations_spreadHandlers :
    FaithfulHeaders spreadHandlers ∧ splitAnnotations spreadHandlers ≠ spreadHandlers
      ∧ visible (splitAnnotations spreadHandlers) = visible spreadHandlers := by
  have hfaithful : FaithfulHeaders spreadHandlers := by decide +kernel
  exact ⟨hfaithful, by decide +kernel,
    ((visible_splitAnnotations_iff hfaithful.ample).mpr hfaithful).2⟩

def handlerInLine : Text := "class A \x7b\n@OnClick(R.id.a) void m() \x7b\n\x7d\n\x7d\n"

/-- the whole line is put behind the annotation, and the brace behind the match stays -/
theorem splitAnnotations_repeats :
    splitAnnotations handlerInLine
      = "class A \x7b\n@OnClick(R.id.a)\n@OnClick(R.id.a) void m() \x7b \x7b\n\x7d\n\x7d\n".toList
    ∧ visible (splitAnnotations handlerInLine) ≠ visible handlerInLine := by
  decide +kernel

end Rebind
