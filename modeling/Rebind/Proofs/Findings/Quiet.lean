import Mathlib
import Rebind.Proofs.Findings.Shape
import Rebind.Proofs.Pattern.Rewriting

/-!
# Texts with nothing left to migrate

The library writes the names of annotations into its comments, always with `markSign` behind them.
A text is `Quiet` if the marks of the library stand nowhere else: then nothing is found in it
(`detect_of_quiet`).

A mark holds no newline and no brace, so a text is quiet iff the parts on both sides of such a
character are (`quietFor_around`), and iff its lines are (`quietFor_iff_lines`).  A quiet text stays
quiet without its comments (`quietFor_withoutComments`).
-/

namespace Rebind

open List Pattern

def markSign : Char := '注'

def QuietFor (mark t : Text) : Prop := ∀ a b, t = a ++ (mark ++ b) → b.head? = some markSign

def Quiet (t : Text) : Prop := ∀ mark ∈ annotationMarks, QuietFor mark t

theorem forall_occurrence_iff {w t : Text} {P : Text → Text → Prop} :
    (∀ a b, t = a ++ (w ++ b) → P a b) ↔
      ∀ i < t.length + 1, w <+: t.drop i → P (t.take i) ((t.drop i).drop w.length) := by
  constructor
  · intro h i _ hw
    obtain ⟨b, hb⟩ := hw
    rw [← hb, drop_left]
    exact h _ b (by rw [hb, take_append_drop])
  · rintro h a b rfl
    have := h a.length (by simp) (by rw [drop_left]; exact prefix_append _ _)
    rwa [take_left, drop_left, drop_left] at this

instance (mark t : Text) : Decidable (QuietFor mark t) :=
  decidable_of_iff _ forall_occurrence_iff.symm

instance (t : Text) : Decidable (Quiet t) :=
  inferInstanceAs (Decidable (∀ mark ∈ annotationMarks, QuietFor mark t))

/-! ## both sides of a character -/

section
variable {x : Char} {mark a b t : Text}

theorem occurrence_around {u v : Text} (hx : x ∉ mark) (hne : mark ≠ [])
    (h : a ++ x :: b = u ++ (mark ++ v)) :
    (∃ w, a = u ++ (mark ++ w) ∧ v = w ++ x :: b) ∨ ∃ w, u = a ++ x :: w
      ∧ b = w ++ (mark ++ v) := by
  rcases append_eq_append_iff.mp h with ⟨w, rfl, hw⟩ | ⟨w, rfl, hw⟩
  · cases w with
    | nil =>
      cases mark with
      | nil => exact absurd rfl hne
      | cons y mark =>
        have hy : x = y := (List.cons.inj hw).1
        exact absurd (hy ▸ mem_cons_self) hx
    | cons y w =>
      obtain ⟨rfl, hb⟩ := List.cons.inj hw
      exact .inr ⟨w, rfl, hb⟩
  · rcases append_eq_append_iff.mp hw with ⟨r, rfl, hr⟩ | ⟨r, rfl, hr⟩
    · exact .inl ⟨r, rfl, hr⟩
    · cases r with
      | nil => exact .inl ⟨[], by simp, hr.symm⟩
      | cons y r =>
        have hy : x = y := (List.cons.inj hr).1
        exact absurd (by rw [hy]; simp) hx

/-- a text is quiet iff both sides of a character are that is in no mark -/
theorem quietFor_around (hx : x ∉ mark) (hne : mark ≠ []) (hsign : x ≠ markSign) :
    QuietFor mark (a ++ x :: b) ↔ QuietFor mark a ∧ QuietFor mark b := by
  constructor
  · refine fun h => ⟨fun u v ha => ?_, fun u v hb => ?_⟩
    · have hv := h u (v ++ x :: b) (by rw [ha]; simp)
      cases v with
      | nil => exact absurd (Option.some.inj hv) hsign
      | cons y v => exact hv
    · exact h (a ++ x :: u) v (by rw [hb]; simp)
  · rintro ⟨ha, hb⟩ u v h
    rcases occurrence_around hx hne h with ⟨w, hw, rfl⟩ | ⟨w, -, hw⟩
    · have hhead := ha u w hw
      cases w with
      | nil => cases hhead
      | cons y w => exact hhead
    · exact hb w v hw

theorem quietFor_nil (hne : mark ≠ []) : QuietFor mark [] := by
  intro a b h
  have := (append_eq_nil_iff.mp (append_eq_nil_iff.mp h.symm).2).1
  exact absurd this hne

theorem quietFor_skip {m : Text} (hx : x ∉ a) : QuietFor (x :: m) (a ++ b)
    ↔ QuietFor (x :: m) b := by
  constructor
  · exact fun h u v hb => h (a ++ u) v (by rw [hb, append_assoc])
  · intro h u v hab
    obtain ⟨w, rfl, hw⟩ := append_eq_of_not_mem hx hab
    exact h w v hw

theorem quietFor_of_absent (h : ¬ mark <:+: t) : QuietFor mark t :=
  fun a b ht => absurd ⟨a, b, by rw [ht, append_assoc]⟩ h

theorem QuietFor.absent {c : Char} (h : QuietFor mark t) (hc : c ≠ markSign) :
    ¬ mark ++ [c] <:+: t := by
  rintro ⟨a, b, rfl⟩
  have := h a (c :: b) (by simp)
  exact hc (Option.some.inj this)

end

/-! ## lines -/

section
variable {mark t : Text} (hn : '\n' ∉ mark) (hne : mark ≠ [])
include hn hne

theorem quietFor_unlines_iff {ls : List Text} :
    QuietFor mark (unlines ls) ↔ ∀ l ∈ ls, QuietFor mark l := by
  induction ls with
  | nil => simpa [unlines] using quietFor_nil hne
  | cons l ls ih =>
    cases ls with
    | nil => simp [unlines]
    | cons l' ls =>
      rw [unlines_cons (by simp), quietFor_around hn hne (by decide), ih]
      simp

/-- a text is quiet iff its lines are -/
theorem quietFor_iff_lines : QuietFor mark t ↔ ∀ l ∈ lines t, QuietFor mark l := by
  conv_lhs => rw [← unlines_lines t]
  exact quietFor_unlines_iff hn hne

/-- what is kept of a quiet line is quiet: no comment starts or ends at the sign behind a mark -/
theorem quietFor_withoutComments (h : QuietFor mark t) : QuietFor mark (withoutComments t) := by
  rw [quietFor_iff_lines hn hne] at h
  refine (quietFor_unlines_iff hn hne).mpr (fun k hk => ?_)
  obtain ⟨l, hl, b, hkl⟩ := mem_keptLines hk
  obtain ⟨x, y, rfl, hend⟩ := commentStep_place hkl
  intro u v hv
  have hhead : (v ++ y).head? = some markSign := h _ hl (x ++ u) (v ++ y) (by rw [hv]; simp)
  cases v with
  | cons c v => exact hhead
  | nil =>
    rcases hend with rfl | ⟨z, rfl⟩ | ⟨z, rfl⟩ | ⟨z, rfl⟩
    · cases hhead
    all_goals simp [markSign] at hhead

end

/-! ## the marks of the library -/

theorem at_not_mem_resource {id : Text} (h : resourceId.Covers id) : '@' ∉ id := by
  obtain ⟨two, w, rfl, h2, hw⟩ := covers_resourceId.mp h
  have hat : '@' ∉ w := at_not_mem_word hw
  rcases h2 with rfl | rfl <;> simp [hat]

section
variable {mark t : Text}

def fieldMark : Text := "@BindView"

def handlerMark : Text := "@OnClick"

theorem not_mem_mark (h : mark ∈ annotationMarks) {x : Char}
    (hx : x ∈ ['\n', '\x7b', '\x7d', ';']) : x ∉ mark := by
  have hall : annotationMarks.all
    (fun m => ['\n', '\x7b', '\x7d', ';'].all (fun c => !m.contains c))
      = true := by decide
  simpa using all_eq_true.mp (all_eq_true.mp hall mark h) x hx

theorem mark_ne_nil (h : mark ∈ annotationMarks) : mark ≠ [] := by
  rintro rfl
  exact absurd h (by decide)

theorem isBlank_of_mem_mark (h : mark ∈ annotationMarks) : ∀ c ∈ mark, isBlank c = false := by
  have hall : annotationMarks.all (fun m => m.all (fun c => !isBlank c)) = true := by decide
  intro c hc
  simpa using all_eq_true.mp (all_eq_true.mp hall mark h) c hc

theorem quiet_around {x : Char} {a b : Text} (hx : x ∈ ['\n', '\x7b', '\x7d', ';']) :
    Quiet (a ++ x :: b) ↔ Quiet a ∧ Quiet b := by
  have hsign : x ≠ markSign := by
    rintro rfl
    exact absurd hx (by decide)
  constructor
  · intro h
    have hboth := fun mark hm =>
      (quietFor_around (not_mem_mark hm hx) (mark_ne_nil hm) hsign).mp (h mark hm)
    exact ⟨fun mark hm => (hboth mark hm).1, fun mark hm => (hboth mark hm).2⟩
  · rintro ⟨ha, hb⟩ mark hm
    exact (quietFor_around (not_mem_mark hm hx) (mark_ne_nil hm) hsign).mpr ⟨ha mark hm, hb mark hm⟩

theorem quiet_nil : Quiet [] := fun _ hm => quietFor_nil (mark_ne_nil hm)

theorem quiet_unlines_iff {ls : List Text} : Quiet (unlines ls) ↔ ∀ l ∈ ls, Quiet l := by
  have heach : ∀ mark ∈ annotationMarks, QuietFor mark (unlines ls) ↔ ∀ l ∈ ls, QuietFor mark l :=
    fun mark hm => quietFor_unlines_iff (not_mem_mark hm (by simp)) (mark_ne_nil hm)
  exact ⟨fun h l hl mark hm => (heach mark hm).mp (h mark hm) l hl,
    fun h mark hm => (heach mark hm).mpr (fun l hl => h l hl mark hm)⟩

theorem quiet_iff_lines : Quiet t ↔ ∀ l ∈ lines t, Quiet l := by
  conv_lhs => rw [← unlines_lines t]
  exact quiet_unlines_iff

theorem quiet_withoutComments (h : Quiet t) : Quiet (withoutComments t) := fun mark hm =>
  quietFor_withoutComments (not_mem_mark hm (by simp)) (mark_ne_nil hm) (h mark hm)

theorem QuietFor.not_covers {q : Pattern} {m : Match} {pos : Nat} (h : QuietFor mark t)
    (hm : m.Of (.andThen (.text mark) (.andThen blanks (.andThen (.text ['(']) q))) pos t) :
    False := by
  obtain ⟨u, v, ht, -⟩ := hm.place
  obtain ⟨_, _, he, rfl, w, _, rfl, hw, _, _, rfl, rfl, -⟩ := hm.covers
  rw [he] at ht
  have hhead := h u _ (by rw [ht]; simp only [append_assoc]; rfl)
  cases w with
  | nil => exact absurd hhead (by simp [markSign])
  | cons c w =>
    have hc : c = markSign := by simpa using hhead
    have := hw c mem_cons_self
    rw [hc] at this
    exact absurd this (by decide)

/-- nothing is found in a quiet text -/
theorem detect_of_quiet (h : Quiet t) :
    (Findings.detect t).bindViews = .given [] ∧ (Findings.detect t).clicks = .given []
      ∧ (Findings.detect t).longClicks = .given []
      ∧ (Findings.detect t).bindCall = .given (.bool false) := by
  have hbare := quiet_withoutComments h
  have hviews : detectBindViews t = [] := by
    rw [detectBindViews, map_eq_nil_iff, eq_nil_iff_forall_not_mem]
    exact fun m hm => (hbare _ (by decide)).not_covers (of_mem_findAll hm)
  have hclicks : detectClicks t = [] := by
    rw [detectClicks, map_eq_nil_iff, eq_nil_iff_forall_not_mem]
    exact fun m hm => (hbare _ (by decide)).not_covers (of_mem_findAll hm)
  have hlong : detectLongClicks t = [] := by
    rw [detectLongClicks, map_eq_nil_iff, eq_nil_iff_forall_not_mem]
    exact fun m hm => (h _ (by decide)).not_covers (of_mem_findAll hm)
  have hcall : bindCallStatement.found t = false := by
    unfold Pattern.found
    cases hm : bindCallStatement.search t with
    | none => rfl
    | some m => exact ((h _ (by decide)).not_covers (search_some hm)).elim
  unfold Findings.detect
  split
  · exact ⟨by rw [hviews], by rw [hclicks], by rw [hlong], by rw [hcall]⟩
  · exact ⟨rfl, rfl, rfl, rfl⟩

end

end Rebind
