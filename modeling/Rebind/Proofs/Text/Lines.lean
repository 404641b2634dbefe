import Mathlib
import Rebind.Source.Comments

/-!
# Occurrences and lines

A text occurs in another one iff it is an infix of it (`occursIn_iff`).  A text that lacks a
character cannot reach over that character: it lies on one of its two sides (`infix_around_iff`).
With the newline as that character this ties occurrences to lines:

* `lines_unlines`: lines without newlines are cut again as they were;
* `infix_of_mem_lines`, `exists_line`: a text without newlines occurs iff it occurs in a line;
* `line_withoutComments`: what is left without comments lies inside lines of the source.
-/

namespace Rebind

open List

variable {c x : Char} {ls ps : List Text} {a b k l p s t : Text}

/-! ## occurrences -/

theorem occursIn_iff (needle t : Text) : occursIn needle t = true ↔ needle <:+: t := by
  induction t with
  | nil => simp [occursIn]
  | cons c t ih =>
    rw [occursIn, Bool.or_eq_true, ih, List.isPrefixOf_iff_prefix, infix_cons_iff]

theorem occursIn_eq_false_iff (needle t : Text) : occursIn needle t = false ↔ ¬ needle <:+: t := by
  rw [← occursIn_iff, Bool.not_eq_true]

/-- what lacks a character lies on one side of it -/
theorem infix_around_iff (hx : x ∉ s) : s <:+: a ++ x :: b ↔ s <:+: a ∨ s <:+: b := by
  constructor
  · intro h
    rcases infix_append_iff.mp h with ha | hb | ⟨l, r, hs, hl, hr⟩
    · exact .inl ha
    · rcases infix_cons_iff.mp hb with hp | hb'
      · cases s with
        | nil => exact .inl nil_infix
        | cons y s =>
          have hy : y = x := (cons_prefix_cons.mp hp).1
          exact absurd (hy ▸ mem_cons_self) hx
      · exact .inr hb'
    · cases r with
      | nil =>
        rw [append_nil] at hs
        exact .inl (hs ▸ hl.isInfix)
      | cons y r =>
        have hy : y = x := (cons_prefix_cons.mp hr).1
        exact absurd (by rw [hs, hy]; simp) hx
  · rintro (h | h)
    · exact infix_append_of_infix_left h
    · exact infix_append_of_infix_right (infix_cons h)

theorem infix_skip (hx : x ∉ a) : x :: s <:+: a ++ b ↔ x :: s <:+: b := by
  constructor
  · intro h
    rcases infix_append_iff.mp h with ha | hb | ⟨l, r, hs, hl, hr⟩
    · exact absurd (ha.mem mem_cons_self) hx
    · exact hb
    · cases l with
      | nil =>
        rw [nil_append] at hs
        exact hs ▸ hr.isInfix
      | cons y l =>
        have hy : x = y := (List.cons.inj hs).1
        exact absurd (hl.mem (hy ▸ mem_cons_self)) hx
  · exact infix_append_of_infix_right

theorem trimLeft_isSuffix (t : Text) : trimLeft t <:+ t := dropWhile_suffix _

theorem trimRight_isPrefix (t : Text) : trimRight t <+: t := by
  have h : (t.reverse.dropWhile isBlank).reverse <+: t.reverse.reverse :=
    reverse_prefix.mpr (dropWhile_suffix _)
  rwa [reverse_reverse] at h

theorem trim_isInfix (t : Text) : trim t <:+: t :=
  (trimRight_isPrefix _).isInfix.trans (trimLeft_isSuffix t).isInfix

/-- the code points of white space -/
def blankPoints : List Nat :=
  [9, 10, 11, 12, 13, 28, 29, 30, 31, 32, 0x85, 0xA0, 0x1680, 0x2000, 0x2001, 0x2002,
    0x2003, 0x2004,
   0x2005, 0x2006, 0x2007, 0x2008, 0x2009, 0x200A, 0x2028, 0x2029, 0x202F, 0x205F, 0x3000]

theorem toNat_mem_blankPoints {c : Char} (h : isBlank c) : c.toNat ∈ blankPoints := by
  unfold isBlank at h
  simp only at h
  split at h <;> simp [blankPoints] at h ⊢ <;> omega

theorem isBlank_of_isWord {c : Char} (h : isWord c) : isBlank c = false := by
  have apart : ∀ n ∈ blankPoints, isWord (Char.ofNat n) = false := by decide +kernel
  by_contra hb
  have hw := apart c.toNat (toNat_mem_blankPoints (by simpa using hb))
  rw [Char.ofNat_toNat] at hw
  rw [hw] at h
  cases h

theorem one_space_blank : [' '] ≠ [] ∧ ∀ c ∈ [' '], isBlank c :=
  ⟨cons_ne_nil _ _, fun _ hc => mem_singleton.mp hc ▸ isBlank_space⟩

theorem no_room_blank : ∀ c ∈ ([] : Text), isBlank c := forall_mem_nil _

theorem trim_blanks_append {u : Text} (hu : ∀ c ∈ u, isBlank c) (t : Text) :
    trim (u ++ t) = trim t := by
  rw [trim, trim, trimLeft, trimLeft, dropWhile_append_of_pos hu]

theorem trim_append_blanks {v : Text} (hv : ∀ c ∈ v, isBlank c) (t : Text) :
    trim (t ++ v) = trim t := by
  have hright : ∀ s : Text, trimRight (s ++ v) = trimRight s := fun s => by
    rw [trimRight, trimRight, reverse_append,
      dropWhile_append_of_pos (fun c hc => hv c (mem_reverse.mp hc))]
  have hempty : v.dropWhile isBlank = [] := dropWhile_eq_nil_iff.mpr hv
  rw [trim, trim, trimLeft, trimLeft, dropWhile_append, hempty]
  split
  · next h => rw [isEmpty_iff.mp h]
  · exact hright _

theorem exists_trim (t : Text) : ∃ u v, t = u ++ trim t ++ v
    ∧ (∀ c ∈ u, isBlank c) ∧ ∀ c ∈ v, isBlank c := by
  refine ⟨t.takeWhile isBlank, ((trimLeft t).reverse.takeWhile isBlank).reverse, ?_,
    fun c hc => mem_takeWhile_imp hc, fun c hc => mem_takeWhile_imp (mem_reverse.mp hc)⟩
  have hback : trim t ++ ((trimLeft t).reverse.takeWhile isBlank).reverse = trimLeft t := by
    rw [trim, trimRight, ← reverse_append, takeWhile_append_dropWhile, reverse_reverse]
  rw [append_assoc, hback, trimLeft, takeWhile_append_dropWhile]

theorem infix_around_blanks_iff {w : Text} (hs : ∀ c ∈ s, isBlank c = false) (hne : w ≠ [])
    (hw : ∀ c ∈ w, isBlank c) : s <:+: a ++ w ++ b ↔ s <:+: a ∨ s <:+: b := by
  induction w generalizing a with
  | nil => exact absurd rfl hne
  | cons x w ih =>
    obtain ⟨hx, hw⟩ := forall_mem_cons.mp hw
    have hmem : x ∉ s := fun hm => by
      rw [hs x hm] at hx
      cases hx
    rw [append_assoc, cons_append, infix_around_iff hmem]
    by_cases hnil : w = []
    · rw [hnil, nil_append]
    · rw [← nil_append (w ++ b), ← append_assoc, ih hnil hw]
      refine or_congr_right (or_iff_right_of_imp fun h => ?_)
      rw [infix_nil.mp h]
      exact nil_infix

theorem infix_trim_iff (hs : ∀ c ∈ s, isBlank c = false) : s <:+: trim t ↔ s <:+: t := by
  have hfront : ∀ {u t : Text}, (∀ c ∈ u, isBlank c) → s <:+: u ++ t → s <:+: t := by
    intro u t hu h
    by_cases hnil : u = []
    · rwa [hnil] at h
    · rcases (infix_around_blanks_iff (a := []) hs hnil hu).mp h with h | h
      · rw [infix_nil.mp h]
        exact nil_infix
      · exact h
  have hback : ∀ {t v : Text}, (∀ c ∈ v, isBlank c) → s <:+: t ++ v → s <:+: t := by
    intro t v hv h
    by_cases hnil : v = []
    · rwa [hnil, append_nil] at h
    · rw [← append_nil (t ++ v)] at h
      rcases (infix_around_blanks_iff hs hnil hv).mp h with h | h
      · exact h
      · rw [infix_nil.mp h]
        exact nil_infix
  refine ⟨fun h => h.trans (trim_isInfix t), fun h => ?_⟩
  obtain ⟨u, v, ht, hu, hv⟩ := exists_trim t
  rw [ht] at h
  exact hfront hu (hback hv h)

theorem not_mem_afterLast (x : Char) (t : Text) : x ∉ afterLast x t := by
  intro hm
  have := mem_takeWhile_imp (mem_reverse.mp hm)
  simp at this

theorem mem_of_mem_afterLast (h : c ∈ afterLast x t) : c ∈ t := by
  have := (takeWhile_subset _) (mem_reverse.mp h)
  simpa using this

/-! ## pieces between separators -/

section
variable (x : Char)

theorem splitAll_cons (c : Char) (t : Text) (h : splitAll x t = p :: ps) :
    splitAll x (c :: t) = if c = x then [] :: p :: ps else (c :: p) :: ps := by
  rw [splitAll] at h
  rw [splitAll, foldr_cons, h]

theorem splitAll_ne_nil (t : Text) : splitAll x t ≠ [] := by
  induction t with
  | nil => simp [splitAll]
  | cons c t ih =>
    obtain ⟨p, ps, e⟩ := exists_cons_of_ne_nil ih
    rw [splitAll_cons x c t e]
    split <;> simp

theorem splitAll_append (a b : Text) : splitAll x (a ++ x :: b) = splitAll x a ++ splitAll x b := by
  induction a with
  | nil =>
    obtain ⟨p, ps, e⟩ := exists_cons_of_ne_nil (splitAll_ne_nil x b)
    rw [nil_append, splitAll_cons x x b e, if_pos rfl, e]
    rfl
  | cons c a ih =>
    obtain ⟨p, ps, e⟩ := exists_cons_of_ne_nil (splitAll_ne_nil x a)
    rw [e, cons_append] at ih
    rw [cons_append, splitAll_cons x c _ ih, splitAll_cons x c a e]
    split <;> rfl

variable {x}

theorem splitAll_of_not_mem (h : x ∉ t) : splitAll x t = [t] := by
  induction t with
  | nil => rfl
  | cons c t ih =>
    have hc : c ≠ x := fun e => h (e ▸ mem_cons_self)
    rw [splitAll_cons x c t (ih (fun hm => h (mem_cons_of_mem _ hm))), if_neg hc]

theorem splitAll_append_left {u : Text} (hu : x ∉ u) (h : splitAll x t = p :: ps) :
    splitAll x (u ++ t) = (u ++ p) :: ps := by
  induction u with
  | nil => exact h
  | cons c u ih =>
    rw [mem_cons, not_or] at hu
    rw [cons_append, splitAll_cons x c _ (ih hu.2), if_neg (Ne.symm hu.1), cons_append]

theorem splitAll_append_right {v : Text} (hv : x ∉ v) (t : Text) : ∃ ps p,
    splitAll x t = ps ++ [p] ∧ splitAll x (t ++ v) = ps ++ [p ++ v] := by
  induction t with
  | nil => exact ⟨[], [], rfl, splitAll_of_not_mem hv⟩
  | cons c t ih =>
    obtain ⟨ps, p, ht, htv⟩ := ih
    cases ps with
    | nil =>
      rw [cons_append, splitAll_cons x c t ht, splitAll_cons x c (t ++ v) htv]
      split
      · exact ⟨[[]], p, rfl, rfl⟩
      · exact ⟨[], c :: p, rfl, rfl⟩
    | cons q qs =>
      rw [cons_append, splitAll_cons x c t ht, splitAll_cons x c (t ++ v) htv]
      split
      · exact ⟨[] :: q :: qs, p, rfl, rfl⟩
      · exact ⟨(c :: q) :: qs, p, rfl, rfl⟩

theorem not_mem_of_mem_splitAll (h : p ∈ splitAll x t) : x ∉ p := by
  induction t generalizing p with
  | nil =>
    have hp : p = [] := by simpa [splitAll] using h
    simp [hp]
  | cons c t ih =>
    obtain ⟨q, qs, e⟩ := exists_cons_of_ne_nil (splitAll_ne_nil x t)
    rw [e] at ih
    rw [splitAll_cons x c t e] at h
    split at h
    · rcases mem_cons.mp h with rfl | h
      · simp
      · exact ih h
    · next hc =>
      rcases mem_cons.mp h with rfl | h
      · have hq : x ∉ q := ih mem_cons_self
        simp [Ne.symm hc, hq]
      · exact ih (mem_cons_of_mem _ h)

theorem intercalate_splitAll (x : Char) (t : Text) : intercalate [x] (splitAll x t) = t := by
  induction t with
  | nil => rfl
  | cons c t ih =>
    obtain ⟨p, ps, h⟩ := exists_cons_of_ne_nil (splitAll_ne_nil x t)
    rw [h] at ih
    rw [splitAll_cons x c t h]
    split
    · next hc => rw [intercalate_cons_cons, ih, hc, nil_append, singleton_append]
    · cases ps with
      | nil =>
        rw [intercalate_singleton] at ih
        rw [intercalate_singleton, ih]
      | cons q qs =>
        rw [intercalate_cons_cons] at ih
        rw [intercalate_cons_cons, cons_append, cons_append, ih]

theorem splitAll_intercalate (hne : ps ≠ []) (h : ∀ p ∈ ps, x ∉ p) :
    splitAll x (intercalate [x] ps) = ps := by
  induction ps with
  | nil => exact absurd rfl hne
  | cons p ps ih =>
    have hp := splitAll_of_not_mem (h p mem_cons_self)
    cases ps with
    | nil => rw [intercalate_singleton, hp]
    | cons q ps =>
      rw [intercalate_cons_cons, append_assoc, singleton_append, splitAll_append, hp,
        ih (by simp) (fun r hr => h r (mem_cons_of_mem _ hr))]
      rfl

end

/-! ## lines -/

theorem lines_eq_splitAll (t : Text) : lines t = splitAll '\n' t := rfl

theorem not_mem_of_mem_lines (h : l ∈ lines t) : '\n' ∉ l := by
  rw [lines_eq_splitAll] at h
  exact not_mem_of_mem_splitAll h

theorem unlines_cons (h : ls ≠ []) : unlines (l :: ls) = l ++ '\n' :: unlines ls := by
  simp [unlines, intercalate_cons_of_ne_nil h]

theorem unlines_append {r s : List Text} (hr : r ≠ []) (hs : s ≠ []) :
    unlines (r ++ s) = unlines r ++ '\n' :: unlines s := by
  induction r with
  | nil => exact absurd rfl hr
  | cons x r ih =>
    cases r with
    | nil => simpa [unlines] using unlines_cons (l := x) hs
    | cons y r =>
      rw [cons_append, unlines_cons (by simp), unlines_cons (by simp), ih (by simp)]
      simp

theorem unlines_behind (front : List Text) {back : List Text} (h : back ≠ []) :
    unlines (front ++ back) = front.flatMap (· ++ ['\n']) ++ unlines back := by
  induction front with
  | nil => rfl
  | cons l front ih =>
    rw [cons_append, unlines_cons (by simp [h]), ih, flatMap_cons]
    simp

theorem lines_unlines (hne : ls ≠ []) (h : ∀ l ∈ ls, '\n' ∉ l) : lines (unlines ls) = ls := by
  rw [lines_eq_splitAll, unlines, splitAll_intercalate hne h]

theorem infix_unlines_iff (hs : '\n' ∉ s) (hne : s ≠ []) :
    s <:+: unlines ls ↔ ∃ l ∈ ls, s <:+: l := by
  induction ls with
  | nil => simp [unlines, hne]
  | cons l ls ih =>
    cases ls with
    | nil => simp [unlines]
    | cons l' ls =>
      rw [unlines_cons (by simp), infix_around_iff hs, ih]
      simp

theorem not_mem_unlines (hx : x ≠ '\n') (h : ∀ l ∈ ls, x ∉ l) : x ∉ unlines ls := by
  intro hm
  obtain ⟨u, v, huv⟩ := append_of_mem hm
  have hi : [x] <:+: unlines ls := ⟨u, v, by rw [huv]; simp⟩
  obtain ⟨l, hl, hi⟩ := (infix_unlines_iff (by simpa using hx.symm) (by simp)).mp hi
  exact h l hl (hi.mem (by simp))

theorem infix_unlines_of_mem (h : l ∈ ls) : l <:+: unlines ls := by
  induction ls with
  | nil => simp at h
  | cons l' ls ih =>
    cases ls with
    | nil =>
      rw [mem_singleton.mp h]
      simp [unlines]
    | cons l'' ls =>
      rw [unlines_cons (by simp)]
      rcases mem_cons.mp h with rfl | h
      · exact infix_append_of_infix_left (infix_refl l)
      · exact infix_append_of_infix_right (infix_cons (ih h))

theorem infix_of_mem_lines (h : l ∈ lines t) : l <:+: t := by
  by_cases hl : l = []
  · rw [hl]
    exact nil_infix
  · rw [← unlines_lines t, infix_unlines_iff (not_mem_of_mem_lines h) hl]
    exact ⟨l, h, infix_refl l⟩

/-- a text without newlines that occurs in `t` occurs in a line of it -/
theorem exists_line (hs : '\n' ∉ s) (h : s <:+: t) : ∃ l ∈ lines t, s <:+: l := by
  by_cases hne : s = []
  · obtain ⟨l, hl⟩ := exists_mem_of_ne_nil _ (lines_ne_nil t)
    exact ⟨l, hl, hne ▸ nil_infix⟩
  · rw [← unlines_lines t] at h
    exact (infix_unlines_iff hs hne).mp h

/-! ## cuts -/

theorem cutFrom_eq_some {needle seen before after : Text}
    (h : cutFrom needle seen t = some (before, after)) :
    seen.reverse ++ t = before ++ needle ++ after := by
  induction t generalizing seen with
  | nil =>
    by_cases hn : needle.isEmpty
    · simp only [cutFrom, hn, if_true, Option.some.injEq, Prod.mk.injEq] at h
      rw [← h.1, ← h.2, List.isEmpty_iff.mp hn]
      simp
    · simp [cutFrom, hn] at h
  | cons c t ih =>
    by_cases hp : needle.isPrefixOf (c :: t)
    · simp only [cutFrom, hp, if_true, Option.some.injEq, Prod.mk.injEq] at h
      obtain ⟨r, hr⟩ := List.isPrefixOf_iff_prefix.mp hp
      rw [← h.1, ← h.2, ← hr]
      simp
    · rw [cutFrom, if_neg hp] at h
      have := ih h
      simpa using this

theorem cut_eq_some {needle before after : Text} (h : cut needle t = some (before, after)) :
    t = before ++ needle ++ after := cutFrom_eq_some h

theorem upTo_followed (needle t : Text) : ∃ y, t = upTo needle t ++ y
    ∧ (y = [] ∨ needle <+: y) := by
  unfold upTo
  split
  · next before after h =>
    exact ⟨needle ++ after, by rw [cut_eq_some h, append_assoc], .inr (prefix_append _ _)⟩
  · exact ⟨[], by simp, .inl rfl⟩

theorem betweenMarks_followed (mark t : Text) :
    ∃ x y, t = x ++ betweenMarks mark t ++ y ∧ (y = [] ∨ mark <+: y) := by
  unfold betweenMarks
  split
  · next before after h =>
    obtain ⟨y, hy, hend⟩ := upTo_followed mark after
    refine ⟨before ++ mark, y, ?_, hend⟩
    rw [append_assoc (before ++ mark), ← hy]
    exact cut_eq_some h
  · exact ⟨t, [], by simp, .inl rfl⟩

/-! ## lines without comments -/

theorem eq_of_mem_keptPart (h : k ∈ keptPart t) : k = t := by
  unfold keptPart at h
  split at h
  · simp at h
  · simpa using h

theorem commentStep_place {inBlock : Bool} {line : Text} (h : k ∈ (commentStep inBlock line).1) :
    ∃ x y, line = x ++ k ++ y ∧ (y = [] ∨ "/*" <+: y ∨ "*/" <+: y ∨ "//" <+: y) := by
  unfold commentStep at h
  simp only at h
  split_ifs at h
  · simp at h
  · obtain rfl := eq_of_mem_keptPart h
    obtain ⟨y, hy, hend⟩ := upTo_followed "/*" line
    exact ⟨[], y, hy, hend.imp_right .inl⟩
  · obtain rfl := eq_of_mem_keptPart h
    obtain ⟨x, y, hy, hend⟩ := betweenMarks_followed "*/" line
    exact ⟨x, y, hy, hend.imp_right (fun h => .inr (.inl h))⟩
  · simp at h
  · obtain rfl := eq_of_mem_keptPart h
    obtain ⟨y, hy, hend⟩ := upTo_followed "//" line
    exact ⟨[], y, hy, hend.imp_right (fun h => .inr (.inr h))⟩
  · simp at h
  · exact ⟨[], [], by rw [mem_singleton.mp h]; simp, .inl rfl⟩

theorem mem_keptLines {inBlock : Bool} (h : k ∈ keptLines inBlock ls) :
    ∃ l ∈ ls, ∃ b, k ∈ (commentStep b l).1 := by
  -- the fold carries the lines kept so far
  have step : ∀ (ls : List Text) (s : List Text × Bool),
      k ∈ (ls.foldl (fun (s : List Text × Bool) line =>
        ((commentStep s.2 line).1 ++ s.1, (commentStep s.2 line).2)) s).1 →
      k ∈ s.1 ∨ ∃ l ∈ ls, ∃ b, k ∈ (commentStep b l).1 := by
    intro ls
    induction ls with
    | nil => intro s hs; exact .inl hs
    | cons l ls ih =>
      intro s hs
      rcases ih _ hs with hk | ⟨l', hl', hk⟩
      · rcases mem_append.mp hk with hk | hk
        · exact .inr ⟨l, mem_cons_self, s.2, hk⟩
        · exact .inl hk
      · exact .inr ⟨l', mem_cons_of_mem _ hl', hk⟩
  unfold keptLines at h
  rcases step ls ([], inBlock) (mem_reverse.mp h) with hk | hk
  · simp at hk
  · exact hk

/-- a text without newlines that is left without comments stands in a line of the source -/
theorem line_withoutComments (hs : '\n' ∉ s) (h : s <:+: withoutComments t) :
    ∃ l ∈ lines t, s <:+: l := by
  by_cases hne : s = []
  · exact exists_line hs (hne ▸ nil_infix)
  · obtain ⟨k, hk, hsk⟩ := (infix_unlines_iff hs hne).mp h
    obtain ⟨l, hl, b, hkl⟩ := mem_keptLines hk
    obtain ⟨x, y, rfl, -⟩ := commentStep_place hkl
    exact ⟨_, hl, hsk.trans ⟨x, y, rfl⟩⟩

/-! ## numerals -/

theorem digit_of_mem_natText {n : Nat} (h : c ∈ natText n) : c.isDigit = true :=
  Nat.isDigit_of_mem_toDigits (by decide) (by decide) h

theorem ofDigitChars_natText (n : Nat) : Nat.ofDigitChars 10 (natText n) 0 = n :=
  Nat.ofDigitChars_ten_toDigits

theorem natText_inj {i j : Nat} (h : natText i = natText j) : i = j := by
  rw [← ofDigitChars_natText i, h, ofDigitChars_natText]

theorem le_of_natText_append {i j : Nat} (h : natText j = natText i ++ t) : i ≤ j := by
  have hvalue := ofDigitChars_natText j
  rw [h, Nat.ofDigitChars_append, ofDigitChars_natText,
    Nat.ofDigitChars_eq_ofDigitChars_zero] at hvalue
  have := Nat.le_mul_of_pos_left i (Nat.pow_pos (n := t.length) (show 0 < 10 by decide))
  omega

theorem isWord_of_mem_natText {n : Nat} (h : c ∈ natText n) : isWord c := by
  have hdigit := digit_of_mem_natText h
  have hascii : c.toNat < 128 := by
    have hle : c.val ≤ 57 := by
      simp only [Char.isDigit, Bool.and_eq_true, decide_eq_true_eq] at hdigit
      exact hdigit.2
    exact Nat.lt_of_le_of_lt (UInt32.le_iff_toNat_le.mp hle) (by decide)
  rw [isWord, if_pos hascii, Char.isAlphanum, hdigit, Bool.or_true, Bool.true_or]

end Rebind
