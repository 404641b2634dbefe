import Mathlib
import Rebind.Proofs.Layout.WhiteSpace
import Rebind.Proofs.Pattern.Preference

/-!
# Annotated fields in normal form

A `FieldOnLine` is a field with its annotation in front, part by part: the texts that `fieldOnLine`
covers are the texts of such fields (`starts_fieldOnLine_iff`), and what a match notes can be read
off the parts (`FieldOnLine.prefers`).  Its `normal` form has the annotation on a line of its own
and no more white space than needed.

`Relaid t t'` says that `t'` is `t` with every field in normal form, from the left.  This is what
`splitFields` does (`relaid_splitFields`).  No new field comes about in front of a field that was
put in normal form (`Relaid.starts`), so the result is laid out already (`Relaid.again`).
-/

namespace Rebind

open List Pattern

/-! ## what is kept of the resources -/

def keptInner (inner : Text) :
    Text := if isBlankText inner then inner.getLast?.toList else trimLeft inner

section
variable {inner : Text}

theorem keptInner_isSuffix (inner : Text) : keptInner inner <:+ inner := by
  unfold keptInner
  split
  · rcases eq_nil_or_concat inner with rfl | ⟨front, x, rfl⟩
    · exact suffix_rfl
    · simp
  · exact trimLeft_isSuffix inner

theorem trimLeft_eq_nil_iff {t : Text} : trimLeft t = [] ↔ isBlankText t := by
  rw [trimLeft, dropWhile_eq_nil_iff, isBlankText, all_eq_true]

theorem keptInner_ne_nil (hne : inner ≠ []) : keptInner inner ≠ [] := by
  unfold keptInner
  split
  · rcases eq_nil_or_concat inner with rfl | ⟨front, x, rfl⟩
    · exact absurd rfl hne
    · simp
  · next h => exact fun hnil => h (trimLeft_eq_nil_iff.mp hnil)

theorem keptInner_keptInner (inner : Text) : keptInner (keptInner inner) = keptInner inner := by
  cases h : isBlankText inner with
  | true =>
    have hkept : keptInner inner = inner.getLast?.toList := if_pos h
    rw [hkept]
    cases hlast : inner.getLast? with
    | none => rfl
    | some x =>
      have hx : isBlank x = true := all_eq_true.mp h x (mem_of_getLast? hlast)
      simp [keptInner, isBlankText, hx]
  | false =>
    have hkept : keptInner inner = trimLeft inner := if_neg (by simp [h])
    have htrim : trimLeft (trimLeft inner) = trimLeft inner := dropWhile_idempotent isBlank inner
    have hshows : isBlankText (trimLeft inner) = false := by
      rw [← Bool.not_eq_true, ← trimLeft_eq_nil_iff, htrim, trimLeft_eq_nil_iff, h]
      exact Bool.false_ne_true
    rw [hkept, keptInner, if_neg (by simp [hshows]), htrim]

/-- the blanks in front are left out, unless nothing would be left -/
theorem prefers_keptInner (hne : inner ≠ []) (hopen : ')' ∉ inner) (r : Text) :
    (Pattern.andThen blanks (.group 2 (butNot1 ')'))).Prefers inner [(2, keptInner inner)]
      (')' :: r) := by
  have hstop : StopsRun (· != ')') (')' :: r) := StopsRun.cons (by simp) r
  have hkept : ∀ core : Text, core ≠ [] → core <:+ inner →
      (Pattern.group 2 (butNot1 ')')).Prefers core [(2, core)] (')' :: r) :=
        fun core hcore hsuffix =>
    (prefers_run1 (covers_run1.mpr ⟨hcore, fun c hc => by
      simpa using fun he : c = ')' => hopen (he ▸ hsuffix.subset hc)⟩) hstop).group 2
  have hcore := hkept _ (keptInner_ne_nil hne) (keptInner_isSuffix inner)
  cases h : isBlankText inner with
  | false =>
    have htrim : keptInner inner = trimLeft inner := if_neg (by simp [h])
    have hlead : (Pattern.run isBlank).Prefers (inner.takeWhile isBlank) []
        (keptInner inner ++ ')' :: r) := by
      refine prefers_run (fun c hc => mem_takeWhile_imp hc) ?_
      obtain ⟨x, core, hx⟩ := exists_cons_of_ne_nil (keptInner_ne_nil hne)
      rw [hx]
      refine StopsRun.cons ?_ _
      have hhead := head?_dropWhile_not isBlank inner
      rw [htrim, trimLeft] at hx
      simpa [hx] using hhead
    have hboth := hlead.andThen hcore
    rw [htrim, trimLeft, takeWhile_append_dropWhile] at hboth
    rwa [htrim]
  | true =>
    -- the longest run of blanks leaves nothing to keep, so one blank is given back
    rcases eq_nil_or_concat inner with rfl | ⟨front, x, rfl⟩
    · exact absurd rfl hne
    · have hlast : keptInner (front.concat x) = [x] := by
        rw [keptInner, if_pos h]
        simp
      rw [hlast] at hcore ⊢
      rw [concat_eq_append] at h ⊢
      have hblank : ∀ c ∈ front ++ [x], isBlank c := all_eq_true.mp h
      refine hcore.behind_run (fun c hc => hblank c (mem_append_left _ hc))
        (fun u v huv hu hub β d k hd => ?_)
      obtain ⟨y, u, rfl⟩ := exists_cons_of_ne_nil hu
      obtain ⟨rfl, hrest⟩ := List.cons.inj huv
      cases u with
      | nil =>
        rw [← show ')' :: r = v from hrest] at hd
        simp [tryAt, butNot1, run1, hd]
      | cons z u =>
        have hz := hub z (by simp)
        rw [← (List.cons.inj hrest).1] at hz
        exact absurd hz (by decide)

end

/-! ## fields, part by part -/

/-- a field with its annotation in front -/
structure FieldOnLine where
  indent : Text
  /-- what stands between the annotation and the parenthesis -/
  room : Text
  inner : Text
  gap : Text
  type : Text
  between : Text
  name : Text
  tail : Text
  indent_blank : ∀ c ∈ indent, isBlank c = true
  room_blank : ∀ c ∈ room, isBlank c = true
  inner_ne : inner ≠ []
  inner_open : ')' ∉ inner
  gap_covers : blanks1.Covers gap
  type_covers : word.Covers type
  between_covers : blanks1.Covers between
  name_covers : word.Covers name
  tail_blank : ∀ c ∈ tail, isBlank c = true

namespace FieldOnLine

def head (f : FieldOnLine) : Text := "BindView" ++ (f.room ++ ['('])

def rear (f : FieldOnLine) : Text :=
  ')' :: (f.gap ++ (f.type ++ (f.between ++ (f.name ++ (f.tail ++ [';'])))))

def text (f : FieldOnLine) : Text := f.indent ++ '@' :: (f.head ++ (f.inner ++ f.rear))

/-- the annotation on a line of its own, and no more white space than needed -/
def normal (f : FieldOnLine) : FieldOnLine where
  indent := f.indent
  room := []
  inner := keptInner f.inner
  gap := '\n' :: f.indent
  type := f.type
  between := [' ']
  name := f.name
  tail := []
  indent_blank := f.indent_blank
  room_blank := no_room_blank
  inner_ne := keptInner_ne_nil f.inner_ne
  inner_open h := f.inner_open ((keptInner_isSuffix f.inner).subset h)
  gap_covers := covers_run1.mpr ⟨by simp, by simpa [isBlank_newline] using f.indent_blank⟩
  type_covers := f.type_covers
  between_covers := covers_run1.mpr one_space_blank
  name_covers := f.name_covers
  tail_blank := no_room_blank

theorem normal_normal (f : FieldOnLine) : f.normal.normal = f.normal := by
  have h := keptInner_keptInner f.inner
  simp only [normal, h]

theorem notMem_head (f : FieldOnLine) {c : Char} (hc : isBlank c = false)
    (hname : c ∉ "BindView" ++ ['(']) : c ∉ f.head := by
  have hroom : c ∉ f.room := fun hm => by
    rw [f.room_blank c hm] at hc
    cases hc
  unfold head
  rw [mem_append, not_or] at hname
  rw [mem_append, mem_append, not_or, not_or]
  exact ⟨hname.1, hroom, hname.2⟩

theorem at_notMem_rear (f : FieldOnLine) : '@' ∉ f.rear := by
  simp only [rear, mem_cons, mem_append, not_mem_nil, or_false, not_or]
  exact ⟨by decide, at_not_mem_blanks (covers_run1.mp f.gap_covers).2,
    at_not_mem_word f.type_covers,
    at_not_mem_blanks (covers_run1.mp f.between_covers).2, at_not_mem_word f.name_covers,
    at_not_mem_blanks f.tail_blank, by decide⟩

/-! ## what a match notes -/

theorem stopsRun_blank {c : Char} (hc : isBlank c = true) (r : Text) :
    StopsRun isWord (c :: r) := by
  refine StopsRun.cons ?_ r
  by_contra hword
  have hblank := isBlank_of_isWord (by simpa using hword)
  rw [hc] at hblank
  cases hblank

theorem stopsRun_blanks {b r : Text} (hb : ∀ c ∈ b, isBlank c) (hr : StopsRun isWord r) :
    StopsRun isWord (b ++ r) := by
  cases b with
  | nil => exact hr
  | cons c b => exact stopsRun_blank (hb c mem_cons_self) _

theorem text_eq (f : FieldOnLine) :
    f.text = f.indent ++ ("@BindView" ++ (f.room ++ (['('] ++ (f.inner ++ f.rear)))) := by
  have hmark : "@BindView" = '@' :: "BindView" := by decide
  unfold text head
  rw [hmark]
  simp only [append_assoc, cons_append]

/-- what stands behind the resources is matched as a whole -/
theorem prefers_rear (f : FieldOnLine) (r : Text) :
    (seq [blanks, lit ")", blanks1, .group 3 word, blanks1, .group 4 word, blanks, lit ";"]).Prefers
      f.rear [(4, f.name), (3, f.type)] r := by
  have hend : (lit ";").Prefers [';'] [] r := prefers_text [';'] r
  have htail : (seq [blanks, lit ";"]).Prefers (f.tail ++ [';']) [] r :=
    (prefers_run f.tail_blank (StopsRun.cons (by decide) r)).andThen hend
  have hname : (seq [.group 4 word, blanks, lit ";"]).Prefers (f.name ++ (f.tail ++ [';']))
      [(4, f.name)] r := by
    refine Prefers.andThen ((prefers_run1 f.name_covers ?_).group 4) htail
    rw [append_assoc]
    exact stopsRun_blanks f.tail_blank (StopsRun.cons (by decide) r)
  have hbetween : (seq [blanks1, .group 4 word, blanks, lit ";"]).Prefers
      (f.between ++ (f.name ++ (f.tail ++ [';']))) [(4, f.name)] r := by
    refine Prefers.andThen (prefers_run1 f.between_covers ?_) hname
    rw [append_assoc]
    exact stopsRun_word f.name_covers
  have htype : (seq [.group 3 word, blanks1, .group 4 word, blanks, lit ";"]).Prefers
      (f.type ++ (f.between ++ (f.name ++ (f.tail ++ [';'])))) [(4, f.name), (3, f.type)] r := by
    refine Prefers.andThen ((prefers_run1 f.type_covers ?_).group 3) hbetween
    obtain ⟨hne, hblank⟩ := covers_run1.mp f.between_covers
    obtain ⟨c, b, hb⟩ := exists_cons_of_ne_nil hne
    rw [hb] at hblank ⊢
    exact stopsRun_blank (hblank c mem_cons_self) _
  have hgap : (seq [blanks1, .group 3 word, blanks1, .group 4 word, blanks, lit ";"]).Prefers
      (f.gap ++ (f.type ++ (f.between ++ (f.name ++ (f.tail ++ [';'])))))
        [(4, f.name), (3, f.type)] r := by
    refine Prefers.andThen (prefers_run1 f.gap_covers ?_) htype
    rw [append_assoc]
    exact stopsRun_word f.type_covers
  have hclose := (prefers_text [')'] _).andThen hgap
  have hblanks : blanks.Prefers [] [] (f.rear ++ r) :=
    prefers_run (by simp) (StopsRun.cons (by decide) _)
  exact hblanks.andThen hclose

theorem prefers (f : FieldOnLine) (r : Text) : fieldOnLine.Prefers f.text
    [(4, f.name), (3, f.type), (2, keptInner f.inner), (1, f.indent)] r := by
  have hinner := (prefers_keptInner f.inner_ne f.inner_open _).andThen (f.prefers_rear r)
  have hopen := (prefers_text ['('] _).andThen hinner
  have hroom := (prefers_run f.room_blank (StopsRun.cons (by decide) _)).andThen hopen
  have hmark := (prefers_text "@BindView" _).andThen hroom
  have hindent := ((prefers_run f.indent_blank (StopsRun.cons (by decide) _)).group 1).andThen hmark
  rw [text_eq]
  exact hindent

end FieldOnLine

/-! ## where a field starts -/

theorem starts_fieldOnLine_iff {t : Text} : Starts fieldOnLine t ↔ ∃ (f : FieldOnLine) (r : Text), t
    = f.text ++ r := by
  constructor
  · rintro ⟨s, r, rfl, hs⟩
    obtain ⟨indent, _, rfl, hindent, _, _, rfl, rfl, room, _, rfl, hroom, _, _, rfl, rfl, lead, _,
      rfl, hlead,
      core, _, rfl, hcore, trail, _, rfl, htrail, _, _, rfl, rfl, gap, _, rfl, hgap, type, _,
      rfl, htype, between, _, rfl, hbetween, name, _, rfl, hname, tail, _, rfl, htail, rfl⟩ := hs
    have hclosed : ∀ b : Text, (∀ c ∈ b, isBlank c = true) → ')' ∉ b := fun b hb hm =>
      absurd (hb _ hm) (by decide)
    obtain ⟨hne, hopen⟩ := covers_run1.mp hcore
    refine ⟨⟨indent, room, lead ++ core ++ trail, gap, type, between, name, tail, hindent,
      hroom, by simp [hne], ?_, hgap, htype, hbetween, hname, htail⟩, r, ?_⟩
    · simp only [mem_append, not_or]
      exact ⟨⟨hclosed lead hlead, fun hm => by simpa using hopen _ hm⟩, hclosed trail htrail⟩
    · rw [FieldOnLine.text_eq]
      unfold FieldOnLine.rear
      simp only [append_assoc, cons_append]
      rfl
  · rintro ⟨f, r, rfl⟩
    exact ⟨f.text, r, rfl, (matchAt_front ((f.prefers r).matchAt 0 none)).1⟩

/-- what starts in front of a field in normal form, and may reach into it, starts in front of the
field as well -/
theorem FieldOnLine.starts_behind (f : FieldOnLine) {u t' : Text}
    (h : Starts fieldOnLine (u ++ (f.normal.text ++ t'))) (t : Text) :
    Starts fieldOnLine (u ++ (f.text ++ t)) := by
  obtain ⟨g, r, hg⟩ := starts_fieldOnLine_iff.mp h
  have htext : u ++ (f.text ++ t) = (u ++ f.indent) ++ '@'
      :: (f.head ++ (f.inner ++ (f.rear ++ t))) := by
    simp only [text, append_assoc, cons_append]
  rw [starts_fieldOnLine_iff, htext]
  -- the sign of the annotation of `f` is that of `g`, or stands among the resources of `g`, or
  -- behind `g`
  have hplace : g.indent ++ '@' :: (g.head ++ (g.inner ++ (g.rear ++ r)))
      = (u ++ f.normal.indent) ++ '@'
        :: (f.normal.head ++ (f.normal.inner ++ (f.normal.rear ++ t'))) := by
    simpa only [text, append_assoc, cons_append] using hg.symm
  obtain ⟨a, ha, hrest⟩ := append_eq_of_not_mem (at_not_mem_blanks g.indent_blank) hplace
  rw [show u ++ f.indent = g.indent ++ a from ha]
  cases a with
  | nil =>
    refine ⟨{ f with indent := g.indent, indent_blank := g.indent_blank }, t, ?_⟩
    simp only [text, append_assoc, cons_append, nil_append]
    rfl
  | cons x a =>
    obtain ⟨rfl, hhead⟩ := List.cons.inj hrest
    obtain ⟨b, rfl, hinner⟩ := append_eq_of_not_mem (g.notMem_head (by decide) (by decide)) hhead
    rcases append_eq_append_iff.mp hinner with ⟨y, rfl, hrear⟩ | ⟨y, hy, hrear⟩
    · obtain ⟨z, rfl, -⟩ := append_eq_of_not_mem g.at_notMem_rear hrear
      exact ⟨g, z ++ '@' :: (f.head ++ (f.inner ++ (f.rear ++ t))), by
        simp only [text, append_assoc, cons_append]⟩
    · cases y with
      | nil => exact absurd (List.cons.inj hrear).1 (by decide)
      | cons x y =>
        obtain ⟨rfl, -⟩ := List.cons.inj hrear
        refine ⟨{ f with
          indent := g.indent, indent_blank := g.indent_blank, room := g.room, room_blank :=
            g.room_blank,
          inner := b ++ '@' :: (f.head ++ f.inner), inner_ne := by simp, inner_open := ?_ }, t, ?_⟩
        · have hb : ')' ∉ b := fun hm => g.inner_open (by rw [hy]; exact mem_append_left _ hm)
          simp only [mem_append, mem_cons, not_or]
          exact ⟨hb, by decide, f.notMem_head (by decide) (by decide), f.inner_open⟩
        · simp only [text, append_assoc, cons_append]
          rfl

/-! ## texts with their fields in normal form -/

def fieldAbove (m : Match) : Text :=
  m.group 1 ++ "@BindView(".toList ++ m.group 2 ++ ")\n".toList ++ m.group 1 ++ m.group 3 ++ ' '
    :: m.group 4 ++ [';']

theorem FieldOnLine.fieldAbove_eq (f : FieldOnLine) (pos stop : Nat) :
    fieldAbove ⟨pos, stop, f.text,
      [(4, f.name), (3, f.type), (2, keptInner f.inner), (1, f.indent)]⟩ = f.normal.text := by
  have hmark : "@BindView(" = '@' :: ("BindView" ++ ['(']) := by decide
  have hclose : ")\n" = [')', '\n'] := by decide
  show f.indent ++ "@BindView(" ++ keptInner f.inner ++ ")\n" ++ f.indent ++ f.type
    ++ ' ' :: f.name ++ [';'] = _
  unfold text head rear normal
  rw [hmark, hclose]
  simp only [append_assoc, cons_append, nil_append]

/-- the second text is the first with its fields in normal form, found from the left -/
inductive Relaid : Text → Text → Prop
  | nil : Relaid [] []
  | keep {c : Char} {t t' : Text} (h : ¬ Starts fieldOnLine (c :: t)) (ht : Relaid t t') :
    Relaid (c :: t) (c :: t')
  | field (f : FieldOnLine) {t t' : Text} (ht : Relaid t t') :
    Relaid (f.text ++ t) (f.normal.text ++ t')

theorem Rewritten.relaid {t t' : Text} (h : Rewritten fieldOnLine fieldAbove t t') :
    Relaid t t' := by
  induction h with
  | nil => exact .nil
  | keep hno _ ih => exact .keep hno ih
  | @swap m pos prev t t' hm _ ih =>
    obtain ⟨f, r, hf⟩ := starts_fieldOnLine_iff.mp ⟨m.text, t, rfl, (matchAt_front hm).1⟩
    -- the match is the one that the field prefers
    rw [hf] at hm
    obtain rfl := Option.some.inj (((f.prefers r).matchAt pos prev).symm.trans hm)
    obtain rfl := append_cancel_left hf
    rw [f.fieldAbove_eq]
    exact .field f ih

theorem relaid_splitFields (t : Text) : Relaid t (splitFields t) := by
  have hempty : ¬ fieldOnLine.Covers [] := fun h => by
    obtain ⟨f, r, hf⟩ := starts_fieldOnLine_iff.mp ⟨[], [], rfl, h⟩
    simp [FieldOnLine.text] at hf
  exact (rewritten_replace rfl hempty fieldAbove t).relaid

namespace Relaid

variable {t t' t₁ t₂ : Text}

/-- there is one way to put the fields in normal form -/
theorem unique (h₁ : Relaid t t₁) (h₂ : Relaid t t₂) : t₁ = t₂ := by
  induction h₁ generalizing t₂ with
  | nil =>
    generalize ht : ([] : Text) = t at h₂
    cases h₂ with
    | nil => rfl
    | keep => cases ht
    | field f => simp [FieldOnLine.text] at ht
  | @keep c t t₁ hno _ ih =>
    generalize ht : c :: t = u at h₂
    cases h₂ with
    | nil => cases ht
    | keep _ h₂ =>
      obtain ⟨rfl, rfl⟩ := List.cons.inj ht
      rw [ih h₂]
    | field f h₂ => exact absurd (starts_fieldOnLine_iff.mpr ⟨f, _, ht⟩) hno
  | @field f t t₁ _ ih =>
    generalize ht : f.text ++ t = u at h₂
    cases h₂ with
    | nil => simp [FieldOnLine.text] at ht
    | keep hno _ => exact absurd (starts_fieldOnLine_iff.mpr ⟨f, t, ht.symm⟩) hno
    | @field g u u' h₂ =>
      -- both fields are what the pattern prefers here
      have hf := (f.prefers t).matchAt 0 none
      rw [ht, (g.prefers u).matchAt 0 none] at hf
      have hmatch := Option.some.inj hf
      have htext : g.text = f.text := congrArg Match.text hmatch
      have hnormal := congrArg fieldAbove hmatch
      rw [g.fieldAbove_eq, f.fieldAbove_eq] at hnormal
      rw [htext] at ht
      obtain rfl := append_cancel_left ht
      rw [hnormal, ih h₂]

theorem starts (h : Relaid t t') (u : Text) (hs : Starts fieldOnLine (u ++ t')) :
    Starts fieldOnLine (u ++ t) := by
  induction h generalizing u with
  | nil => exact hs
  | @keep c t t' _ _ ih =>
    have hnext := ih (u ++ [c]) (by simpa using hs)
    simpa using hnext
  | field f _ _ => exact f.starts_behind hs _

theorem again (h : Relaid t t') : Relaid t' t' := by
  induction h with
  | nil => exact .nil
  | @keep c t t' hno ht ih => exact .keep (fun hs => hno (ht.starts [c] hs)) ih
  | field f _ ih =>
    have hnormal := Relaid.field f.normal ih
    rwa [f.normal_normal] at hnormal

end Relaid

/-- putting the annotations of fields on lines of their own changes white space only, and doing it
twice is doing it once -/
theorem splitFields_normal (code : Text) :
    splitFields (splitFields code) = splitFields code ∧ visible (splitFields code) = visible code :=
  ⟨(relaid_splitFields (splitFields code)).unique (relaid_splitFields code).again,
    visible_splitFields code⟩

end Rebind
