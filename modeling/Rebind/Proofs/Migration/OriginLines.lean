import Mathlib
import Rebind.Proofs.Findings.Commented
import Rebind.Proofs.Injection.Standing
import Rebind.Proofs.Migration.Totality
import Rebind.Proofs.Source.LineSpans

/-!
# The lines that annotations are dropped by

A finding notes the line that it was read from, but the line is found again: it is the first line of
the source that holds its resources, comments and all.  It is the line of the annotation exactly if
that first line shows the annotation too (`ShownFirst`).

All occurrences of such a line are taken out of the code.  This changes annotated lines only, and no
other line of any text, exactly if each line that was noted is an annotated one or empty
(`dropInTurn_iff`).
-/

namespace Rebind

open List Pattern

variable {ls : List (Slot Text)} {line : Slot Text} {code old v w : Text}

/-- the line of a finding is a line of the text with the mark, trimmed -/
def PointsAt (mark code : Text) (line : Slot Text) : Prop := ∃ l ∈ lines code, mark <:+: l
    ∧ line = .given (trim l)

/-- the first line that holds the part holds the mark as well -/
def ShownFirst (mark code part : Text) : Prop :=
  ∃ front l back, lines code = front ++ l :: back ∧ part <:+: l ∧ mark <:+: l
    ∧ ∀ x ∈ front, ¬ part <:+: x

/-! ## the line that is noted -/

theorem lineWith_eq_given_iff {part x : Text} : lineWith code part = .given x
    ↔ ∃ front l back, lines code = front ++ l :: back ∧ part <:+: l ∧ (∀ y ∈ front, ¬ part <:+: y)
      ∧ x = trim l := by
  have hfind : ∀ l, (lines code).find? (occursIn part) = some l
      ↔ ∃ front back, lines code = front ++ l :: back ∧ part <:+: l
        ∧ ∀ y ∈ front, ¬ part <:+: y := by
    intro l
    simp only [find?_eq_some_iff_append, Bool.not_eq_true', occursIn_eq_false_iff, occursIn_iff]
    exact ⟨fun ⟨hl, front, back, hlines, hfirst⟩ => ⟨front, back, hlines, hl, hfirst⟩,
      fun ⟨front, back, hlines, hl, hfirst⟩ => ⟨hl, front, back, hlines, hfirst⟩⟩
  unfold lineWith
  split
  · next l hl =>
    obtain ⟨front, back, hlines, hpart, hfirst⟩ := (hfind l).mp hl
    constructor
    · intro h
      exact ⟨front, l, back, hlines, hpart, hfirst, (Slot.given.inj h).symm⟩
    · rintro ⟨front', l', back', hlines', hpart', hfirst', rfl⟩
      have hsame := hl.symm.trans ((hfind l').mpr ⟨front', back', hlines', hpart', hfirst'⟩)
      rw [Option.some.inj hsame]
  · next hnone =>
    refine iff_of_false (by simp) ?_
    rintro ⟨front, l, back, hlines, hpart, hfirst, -⟩
    rw [(hfind l).mpr ⟨front, back, hlines, hpart, hfirst⟩] at hnone
    cases hnone

theorem pointsAt_iff {mark part : Text} (hmark : ∀ c ∈ mark, isBlank c = false) :
    PointsAt mark code (lineWith code part) ↔ ShownFirst mark code part := by
  constructor
  · rintro ⟨l, -, hin, hline⟩
    obtain ⟨front, l', back, hlines, hpart, hfirst, htrim⟩ := lineWith_eq_given_iff.mp hline
    refine ⟨front, l', back, hlines, hpart, ?_, hfirst⟩
    -- the two lines have the same visible part
    rw [← infix_trim_iff hmark, ← htrim, infix_trim_iff hmark]
    exact hin
  · rintro ⟨front, l, back, hlines, hpart, hin, hfirst⟩
    exact ⟨l, by simp [hlines], hin, lineWith_eq_given_iff.mpr
      ⟨front, l, back, hlines, hpart, hfirst, rfl⟩⟩

/-! ## lines that are taken out -/

def IsAnnotated (l : Text) : Prop := fieldMark <:+: l ∨ handlerMark <:+: l

/-- line by line, nothing is put in, and only annotated lines change -/
def OnlyAnnotated (w v : Text) : Prop :=
  List.Forall₂ (fun x y => List.Sublist y x ∧ (¬ IsAnnotated x → y = x)) (lines w) (lines v)

theorem OnlyAnnotated.refl (w : Text) : OnlyAnnotated w w :=
  forall₂_same.mpr fun _ _ => ⟨.refl _, fun _ => rfl⟩

theorem OnlyAnnotated.trans {u : Text} (h : OnlyAnnotated u w) (h' : OnlyAnnotated w v) :
    OnlyAnnotated u v := by
  unfold OnlyAnnotated at *
  generalize lines u = xs, lines w = ys, lines v = zs at *
  induction h generalizing zs with
  | nil => exact h'
  | @cons x y xs ys hxy _ ih =>
    obtain ⟨z, zs, hyz, hrest, rfl⟩ := forall₂_cons_left_iff.mp h'
    refine .cons ⟨hyz.1.trans hxy.1, fun hx => ?_⟩ (ih zs hrest)
    obtain rfl := hxy.2 hx
    exact hyz.2 hx

theorem forall₂_consLine {R : Text → Text → Prop} (hnil : R [] []) (hcons : ∀ c x y, R x y
    → R (c :: x) (c :: y))
    (c : Char) {ls ms : List Text} (h : List.Forall₂ R ls ms) :
    List.Forall₂ R (consLine c ls) (consLine c ms) := by
  by_cases hc : c = '\n'
  · cases h with
    | nil => simpa [consLine, hc] using hnil
    | cons hxy h => simpa [consLine, hc] using ⟨hnil, hxy, h⟩
  · cases h with
    | nil => simpa [consLine, hc] using hcons c _ _ hnil
    | cons hxy h => simpa [consLine, hc] using ⟨hcons c _ _ hxy, h⟩

theorem Replaced.forall₂_lines {t t' : Text} (hold : '\n' ∉ old)
    (h : Replaced (.text old) [] t t') :
    List.Forall₂ (fun x y => List.Sublist y x ∧ (¬ old <:+: x → y = x)) (lines t) (lines t') := by
  induction h with
  | nil => exact forall₂_same.mpr fun _ _ => ⟨.refl _, fun _ => rfl⟩
  | @keep c t t' _ _ ih =>
    rw [lines_cons, lines_cons]
    refine forall₂_consLine ⟨.refl _, fun _ => rfl⟩ (fun c x y hxy => ?_) c ih
    exact ⟨hxy.1.cons_cons c, fun hx => by rw [hxy.2 fun hin => hx (infix_cons hin)]⟩
  | @swap s t t' hs _ ih =>
    obtain rfl : s = old := hs
    obtain ⟨x, xs, hx⟩ := exists_cons_of_ne_nil (lines_ne_nil t)
    have hfirst : lines s = [] ++ [s] := by
      rw [lines_eq_splitAll, splitAll_of_not_mem hold]
      rfl
    rw [hx] at ih
    obtain ⟨y, ys, hxy, hrest, hy⟩ := forall₂_cons_left_iff.mp ih
    rw [nil_append, lines_append hfirst hx, hy, nil_append]
    refine .cons ⟨hxy.1.trans (sublist_append_right _ _), fun hno => ?_⟩ hrest
    exact absurd (prefix_append s x).isInfix hno

theorem Replaced.sublist {p : Pattern} {t t' : Text} (h : Replaced p [] t t') :
    List.Sublist t' t := by
  induction h with
  | nil => exact .refl _
  | @keep c _ _ _ _ ih => exact ih.cons_cons c
  | @swap s _ _ _ _ ih => exact ih.trans (sublist_append_right _ _)

theorem replaced_replaceAll (hold : old ≠ []) (t : Text) :
    Replaced (.text old) [] t (replaceAll old [] t) := by
  have hempty : ¬ (Pattern.text old).Covers [] := fun h => hold (show [] = old from h).symm
  rw [replaceAll_eq_replace hold]
  exact replaced_replace rfl hempty [] t

theorem replaceAll_nil (t : Text) : replaceAll [] [] t = t := rfl

theorem replaceAll_self (hold : old ≠ []) : replaceAll old [] old = [] := by
  obtain ⟨c, t, rfl⟩ := exists_cons_of_ne_nil hold
  have hfirst : (c :: t).isPrefixOf (c :: t) := isPrefixOf_iff_prefix.mpr (prefix_refl _)
  rw [replaceAll, if_neg (by simp), replaceFrom, hfirst, if_pos rfl, replaceFrom_skip, length_cons,
    Nat.add_sub_cancel, drop_length]
  rfl

theorem replaceAll_sublist (old t : Text) : List.Sublist (replaceAll old [] t) t := by
  by_cases hold : old = []
  · rw [hold, replaceAll_nil]
  · exact (replaced_replaceAll hold t).sublist

theorem onlyAnnotated_replaceAll {x : Text} (hflat : '\n' ∉ x) (hx : x = [] ∨ IsAnnotated x)
    (w : Text) :
    OnlyAnnotated w (replaceAll x [] w) := by
  by_cases hne : x = []
  · rw [hne, replaceAll_nil]
    exact .refl w
  · refine ((replaced_replaceAll hne w).forall₂_lines hflat).imp fun l y hly =>
      ⟨hly.1, fun hl => hly.2 fun hin => hl ?_⟩
    exact (hx.resolve_left hne).imp (·.trans hin) (·.trans hin)

def dropInTurn (ls : List (Slot Text)) (code : Text) : Except Fault Text :=
  ls.foldlM (fun code line => dropLine line code) code

theorem dropInTurn_onlyAnnotated
    (h : ∀ line ∈ ls, ∃ x, line = .given x ∧ '\n' ∉ x ∧ (x = [] ∨ IsAnnotated x)) (w : Text) :
    ∃ v, dropInTurn ls w = .ok v ∧ OnlyAnnotated w v := by
  induction ls generalizing w with
  | nil => exact ⟨w, rfl, .refl w⟩
  | cons line ls ih =>
    obtain ⟨⟨x, rfl, hflat, hx⟩, hls⟩ := forall_mem_cons.mp h
    obtain ⟨v, hv, hsafe⟩ := ih hls (replaceAll x [] w)
    exact ⟨v, hv, (onlyAnnotated_replaceAll hflat hx w).trans hsafe⟩

theorem dropLine_sublist (h : dropLine line w = .ok v) : List.Sublist v w := by
  cases line with
  | absent => exact Except.ok.inj h ▸ replaceAll_sublist [] w
  | null => cases h
  | given x => exact Except.ok.inj h ▸ replaceAll_sublist x w

theorem dropInTurn_sublist (h : dropInTurn ls w = .ok v) : List.Sublist v w :=
  foldlM_inv (fun code => List.Sublist code w)
    (fun _ _ _ _ hb hstep => (dropLine_sublist hstep).trans hb) (.refl w) h

theorem dropLine_of_dropInTurn (h : dropInTurn ls w = .ok w) :
    ∀ line ∈ ls, dropLine line w = .ok w := by
  induction ls with
  | nil => simp
  | cons line ls ih =>
    obtain ⟨v, hv, hrest⟩ := bind_eq_ok.mp h
    obtain rfl : v = w := (dropLine_sublist hv).antisymm (dropInTurn_sublist hrest)
    exact forall_mem_cons.mpr ⟨hv, ih hrest⟩

/-- only annotated lines change, in every text, exactly if each line that is dropped is annotated or
empty -/
theorem dropInTurn_iff (hflat : ∀ x, Slot.given x ∈ ls → '\n' ∉ x) (hknown : Slot.absent ∉ ls) :
    (∀ w, ∃ v, dropInTurn ls w = .ok v ∧ OnlyAnnotated w v)
      ↔ ∀ line ∈ ls, ∃ x, line = .given x ∧ (x = [] ∨ IsAnnotated x) := by
  constructor
  · intro h line hline
    cases line with
    | absent => exact absurd hline hknown
    | null =>
      obtain ⟨v, hv, -⟩ := h []
      have hreturns := (foldlM_returns_iff (fun code line _ => dropLine_returns_iff line code)
        []).mp ⟨v, hv⟩
      exact absurd rfl (hreturns _ hline)
    | given x =>
      refine ⟨x, rfl, ?_⟩
      by_contra hno
      obtain ⟨hne, hplain⟩ := not_or.mp hno
      -- dropped from itself, a line that is not annotated would have to stay
      obtain ⟨v, hv, hsafe⟩ := h x
      have hone : lines x = [x] := by rw [lines_eq_splitAll, splitAll_of_not_mem (hflat x hline)]
      rw [OnlyAnnotated, hone] at hsafe
      obtain ⟨y, ys, hy, hnil, hlines⟩ := forall₂_cons_left_iff.mp hsafe
      rw [forall₂_nil_left_iff.mp hnil, hy.2 hplain] at hlines
      obtain rfl : v = x := by rw [← unlines_lines v, hlines, ← hone, unlines_lines]
      have hself := Except.ok.inj (dropLine_of_dropInTurn hv _ hline)
      exact hne ((replaceAll_self hne).symm.trans hself).symm
  · intro h
    refine dropInTurn_onlyAnnotated fun line hline => ?_
    obtain ⟨x, rfl, hx⟩ := h line hline
    exact ⟨x, rfl, hflat x hline, hx⟩

/-! ## the lines of a source -/

def Findings.originLines (f : Findings) : List (Slot Text) :=
  f.bindViews.items.map BindView.line ++ f.clicks.items.map Handler.line

theorem dropAnnotations_originLines {f : Findings} {bs : List BindView} {hs : List Handler}
    (hviews : f.bindViews = .given bs) (hclicks : f.clicks = .given hs) (w : Text) :
    dropAnnotations { f with longClicks := .given [] } w = dropInTurn f.originLines w := by
  simp only [dropAnnotations, dropInTurn, Findings.originLines, hviews, hclicks, Slot.walked,
    Slot.orElse, Slot.items, ok_bind, foldlM_append, foldlM_map, foldlM_nil, bind_pure]

theorem exists_lineWith (h : line ∈ (Findings.detect code).originLines) :
    ∃ part, line = lineWith code part := by
  rw [Findings.originLines, detect_bindViews, detect_clicks, Slot.items, Slot.items,
    detectBindViews, detectClicks, map_map, map_map, mem_append, mem_map, mem_map] at h
  rcases h with ⟨m, -, rfl⟩ | ⟨m, -, rfl⟩
  · exact ⟨m.group 1, rfl⟩
  · exact ⟨m.group 1, rfl⟩

theorem dropAnnotations_iff (code : Text) :
    (∀ w, ∃ v, dropAnnotations { Findings.detect code with longClicks := .given [] } w = .ok v
      ∧ OnlyAnnotated w v)
      ↔ ∀ line ∈ (Findings.detect code).originLines, ∃ x, line = .given x
        ∧ (x = [] ∨ IsAnnotated x) := by
  simp only [dropAnnotations_originLines (detect_bindViews code) (detect_clicks code)]
  refine dropInTurn_iff (fun x hx => ?_) fun habsent => ?_
  · obtain ⟨part, hline⟩ := exists_lineWith hx
    obtain ⟨front, l, back, hlines, -, -, rfl⟩ := lineWith_eq_given_iff.mp hline.symm
    have hflat : '\n' ∉ l := not_mem_of_mem_lines (t := code) (by simp [hlines])
    exact fun hm => hflat ((trim_isInfix l).mem hm)
  · obtain ⟨part, hline⟩ := exists_lineWith habsent
    unfold lineWith at hline
    split at hline <;> cases hline

theorem PointsAt.annotated {mark : Text} (hmark : mark = fieldMark ∨ mark = handlerMark)
    (h : PointsAt mark code line) : ∃ x, line = .given x ∧ (x = [] ∨ IsAnnotated x) := by
  obtain ⟨l, -, hin, rfl⟩ := h
  refine ⟨trim l, rfl, .inr ?_⟩
  rcases hmark with rfl | rfl
  · exact .inl ((infix_trim_iff (isBlank_of_mem_mark (by decide))).mpr hin)
  · exact .inr ((infix_trim_iff (isBlank_of_mem_mark (by decide))).mpr hin)

/-- **a noted line is the line of its annotation exactly if no line above it, without the
annotation, holds the same resources.**  A field always has a line; a handler has none if its
resources are on several lines.  If all noted lines are those of annotations, then dropping them
changes annotated lines only, in whatever text they are dropped from. -/
theorem origin_lines_iff (code : Text) : ∃ bs hs, (Findings.detect code).bindViews = .given bs
    ∧ (Findings.detect code).clicks = .given hs
    ∧ (∀ b ∈ bs, b.line ≠ .null)
    ∧ ((∀ b ∈ bs, PointsAt fieldMark code b.line)
      ↔ ∀ m ∈ annotatedField.findAll (withoutComments code), ShownFirst fieldMark code (m.group 1))
    ∧ ((∀ h ∈ hs, h.line ≠ .null) ↔ ∀ m ∈ annotatedClick.findAll (withoutComments code), '\n'
      ∉ m.group 1)
    ∧ ((∀ h ∈ hs, PointsAt handlerMark code h.line)
      ↔ ∀ m ∈ annotatedClick.findAll (withoutComments code), ShownFirst handlerMark code
        (m.group 1))
    ∧ ((∀ b ∈ bs, PointsAt fieldMark code b.line) → (∀ h ∈ hs, PointsAt handlerMark code h.line) →
      ∀ w, ∃ v, dropAnnotations { Findings.detect code with longClicks := .given [] } w = .ok v
        ∧ OnlyAnnotated w v) := by
  refine ⟨detectBindViews code, detectClicks code, detect_bindViews code, detect_clicks code, ?_,
    ?_, ?_, ?_, ?_⟩
  · obtain ⟨fs, hfs⟩ := exists_fields code
    rw [hfs, forall_mem_map]
    exact fun F _ => by simp [Field.view]
  · rw [detectBindViews, forall_mem_map]
    exact forall₂_congr fun m _ => pointsAt_iff (isBlank_of_mem_mark (by decide))
  · rw [detectClicks, forall_mem_map]
    refine forall₂_congr fun m hm => not_congr (lineWith_eq_null_iff_mem fun hflat => ?_)
    exact line_withoutComments hflat (annotatedClick_group hm).2.2
  · rw [detectClicks, forall_mem_map]
    exact forall₂_congr fun m _ => pointsAt_iff (isBlank_of_mem_mark (by decide))
  · intro hviews hclicks
    rw [dropAnnotations_iff, Findings.originLines, detect_bindViews, detect_clicks, Slot.items,
      Slot.items]
    intro line hline
    rcases mem_append.mp hline with hline | hline
    · obtain ⟨b, hb, rfl⟩ := mem_map.mp hline
      exact (hviews b hb).annotated (.inl rfl)
    · obtain ⟨h, hh, rfl⟩ := mem_map.mp hline
      exact (hclicks h hh).annotated (.inr rfl)

/-- a field and a handler of two views, whose resources are used below only -/
def shownSource : Text :=
  ("class A \x7b\n@BindView(R.id.a) A a;\n@OnClick(\x7bR.id.b, R.id.c\x7d)\nvoid m() \x7b\n"
    ++ "int x = R.id.a;\n\x7d\n\x7d\n")

theorem shown_lines_dropped : ∃ bs hs, (Findings.detect shownSource).bindViews = .given bs
    ∧ (Findings.detect shownSource).clicks = .given hs
    ∧ bs.map BindView.line = [.given "@BindView(R.id.a) A a;".toList]
    ∧ hs.map Handler.line = [.given "@OnClick(\x7bR.id.b, R.id.c\x7d)".toList]
    ∧ ∀ w, ∃ v, dropAnnotations { Findings.detect shownSource with longClicks := .given [] } w
      = .ok v ∧ OnlyAnnotated w v := by
  obtain ⟨bs, hs, hviews, hclicks, -, -, -, -, hdrop⟩ := origin_lines_iff shownSource
  have hlines : (Findings.detect shownSource).bindViews.items.map BindView.line
        = [.given "@BindView(R.id.a) A a;"]
      ∧ (Findings.detect shownSource).clicks.items.map Handler.line
        = [.given "@OnClick(\x7bR.id.b, R.id.c\x7d)"] := by decide +kernel
  rw [hviews, hclicks, Slot.items, Slot.items] at hlines
  obtain ⟨hfields, hhandlers⟩ := hlines
  refine ⟨bs, hs, hviews, hclicks, hfields, hhandlers, hdrop (fun b hb => ?_) (fun h hh => ?_)⟩
  · have hmem := mem_map_of_mem (f := BindView.line) hb
    rw [hfields, mem_singleton] at hmem
    rw [hmem]
    exact ⟨"@BindView(R.id.a) A a;", by decide +kernel⟩
  · have hmem := mem_map_of_mem (f := Handler.line) hh
    rw [hhandlers, mem_singleton] at hmem
    rw [hmem]
    exact ⟨"@OnClick(\x7bR.id.b, R.id.c\x7d)", by decide +kernel⟩

/-- another use of a resource above its annotation, a longer one too, is taken for the line of the
field, and dropped; resources on several lines have no line, and for no resources it is the first
line of the source -/
theorem other_lines_noted :
    ["class A \x7b\nint x = R.id.ab;\n@BindView(R.id.a) A a;\n\x7d\n".toList,
      "class A \x7b\n@OnClick(\x7bR.id.a,\nR.id.b\x7d)\nvoid m() \x7b\n\x7d\n\x7d\n".toList,
      "class A \x7b\n@OnClick()\nvoid m() \x7b\n\x7d\n\x7d\n".toList].map
        (fun code => (Findings.detect code).originLines)
      = [[.given "int x = R.id.ab;".toList], [.null], [.given "class A \x7b".toList]]
    ∧ dropAnnotations (Findings.detect
      "class A \x7b\nint x = R.id.ab;\n@BindView(R.id.a) A a;\n\x7d\n".toList)
        "class A \x7b\nint x = R.id.ab;\n@BindView(R.id.a) A a;\n\x7d\n".toList
      = .ok "class A \x7b\n\n@BindView(R.id.a) A a;\n\x7d\n".toList := by
  decide +kernel

end Rebind
