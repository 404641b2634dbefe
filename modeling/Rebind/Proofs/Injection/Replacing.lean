import Mathlib
import Rebind.Proofs.Injection.Standing
import Rebind.Proofs.Source.Matching

/-!
# The lines around a replaced `initListener`

The body of `initListener` is replaced between two lines: that of its declaration and the one on
which a count of braces comes to zero.  On a line that declares the method only opening braces are
counted (`counted`), on the others both kinds, and a later declaration starts the method anew.

* `methodSpanFrom_stop`: the method ends on the line where the braces that are counted close;
* `methodSpan_plain`: it is the line of the brace that matches, if no closing brace is passed over;
* `updateMethod_keepsAround_iff`: the lines around the method are kept iff it does not end too late.

A body on the line of the declaration is closed there, but not for the count, so the end is found
too late and what follows the method is lost.
-/

namespace Rebind

open List

/-- the lines up to `s` come first and, behind these, the lines below `j` come last -/
def KeepsAround (ls : List Text) (s j : Nat) (out : List Text) : Prop :=
  ls.take (s + 1) <+: out ∧ ls.drop (j + 1) <:+ out.drop (s + 1)

instance (ls : List Text) (s j : Nat) (out : List Text) : Decidable (KeepsAround ls s j out) :=
  inferInstanceAs (Decidable (_ ∧ _))

def codeFrom (code : Text) (s : Nat) : Text := unlines ((lines code).drop s)

def counted (p : Pattern) (l : Text) : Text := if p.found l then l.filter (· != '\x7d') else l

/-! ## where the count ends -/

section
variable {p : Pattern} {d : Int} {i k s u e : Nat} {l : Text} {ls : List Text}

theorem not_mem_counted (h : '\n' ∉ l) : '\n' ∉ counted p l := by
  unfold counted
  split
  · exact fun hm => h (mem_of_mem_filter hm)
  · exact h

theorem methodSpanFrom_cons : methodSpanFrom p i (some s) d (l :: ls)
    = if (closingBrace d (counted p l)).isSome then some (s, i)
      else methodSpanFrom p (i + 1) (some (if p.found l then i else s))
        (d + braceBalance (counted p l)) ls := by
  rw [methodSpanFrom]
  by_cases hp : p.found l
  · have hclose : '\x7d' ∉ l.filter (· != '\x7d') := by simp
    have hopen : countOf '\x7b' (l.filter (· != '\x7d')) = countOf '\x7b' l := by
      rw [countOf, countOf, count_filter (by decide)]
    rw [counted, if_pos hp, if_pos hp, if_pos hp, closingBrace_none_of_not_mem hclose,
      braceBalance_of_not_mem hclose, hopen]
    rfl
  · rw [counted, if_neg hp, if_neg hp, if_neg hp]

theorem methodSpanFrom_stop (h : ∀ l ∈ ls, '\n' ∉ l) :
    (methodSpanFrom p i (some s) d ls).map (·.2) = (closingLine d (ls.map (counted p))).map
      (i + ·) := by
  induction ls generalizing i s d with
  | nil => rfl
  | cons l ls ih =>
    have hl : '\n' ∉ counted p l := not_mem_counted (h l mem_cons_self)
    rw [methodSpanFrom_cons, map_cons, closingLine_cons d hl]
    split
    · rfl
    · rw [ih fun l hl => h l (mem_cons_of_mem _ hl), Option.map_map]
      refine congrArg (fun f => Option.map f _) (funext fun n => ?_)
      show i + 1 + n = i + (1 + n)
      omega

theorem le_of_methodSpanFrom (hs : s < i) (h : methodSpanFrom p i (some s) d ls = some (u, e)) :
    s ≤ u := by
  induction ls generalizing i s d with
  | nil => cases h
  | cons l ls ih =>
    rw [methodSpanFrom_cons] at h
    split at h
    · have := (Prod.mk.inj (Option.some.inj h)).1
      omega
    · have hle := ih (by split <;> omega) h
      split at hle <;> omega

theorem methodSpanFrom_of_closingLine (h : ∀ l ∈ ls, '\n' ∉ l)
    (hp : ∀ j ≤ k, p.found (lineAt ls j) = false) (hk : closingLine d ls = some k) :
    methodSpanFrom p i (some s) d ls = some (s, i + k) := by
  induction ls generalizing i d k with
  | nil => cases hk
  | cons l ls ih =>
    have hl : p.found l = false := hp 0 (Nat.zero_le k)
    have hcount : counted p l = l := by
      rw [counted, hl]
      rfl
    rw [closingLine_cons d (h l mem_cons_self)] at hk
    rw [methodSpanFrom_cons, hcount, hl]
    split at hk
    · next hc =>
      obtain rfl := Option.some.inj hk
      rw [if_pos hc]
      rfl
    · next hc =>
      obtain ⟨n, hn, rfl⟩ := Option.map_eq_some_iff.mp hk
      have hrest := ih (i := i + 1) (fun l hl => h l (mem_cons_of_mem _ hl))
        (fun j hj => hp (j + 1) (by omega)) hn
      rw [if_neg hc, if_neg (by simp), hrest, Nat.add_assoc]

theorem methodSpanFrom_first (h : ls.findIdx? p.found = some s) :
    methodSpanFrom p i none 0 ls
      = methodSpanFrom p (i + s + 1) (some (i + s)) (countOf '\x7b' (lineAt ls s))
        (ls.drop (s + 1)) := by
  induction ls generalizing i s with
  | nil => cases h
  | cons l ls ih =>
    rw [findIdx?_cons] at h
    rw [methodSpanFrom]
    split at h
    · next hp =>
      obtain rfl := Option.some.inj h
      rw [if_pos hp, zero_add]
      rfl
    · next hp =>
      obtain ⟨n, hn, rfl⟩ := Option.map_eq_some_iff.mp h
      rw [if_neg hp, ih hn, Nat.add_right_comm i 1 n]
      rfl

end

/-! ## the brace that matches -/

theorem closingBrace_later {t : Text} {m n : Nat} (hmn : m ≤ n) (h : '\x7d' ∉ (t.take n).drop m) :
    (closingBrace (countOf '\x7b' (t.take m)) (t.drop m)).map (m + ·)
      = (closingBrace (countOf '\x7b' (t.take n)) (t.drop n)).map (n + ·) := by
  by_cases hn : n ≤ t.length
  · have hsplit : t.drop m = (t.take n).drop m ++ t.drop n := by
      conv_lhs => rw [← take_append_drop n t]
      rw [drop_append_of_le_length (by rw [length_take]; omega)]
    have hcount : countOf '\x7b' (t.take n)
        = countOf '\x7b' (t.take m) + countOf '\x7b' ((t.take n).drop m) := by
      have htake : t.take m = (t.take n).take m := by rw [take_take, Nat.min_eq_left hmn]
      rw [htake, countOf, countOf, countOf, ← Nat.cast_add, ← count_append, take_append_drop]
    rw [hsplit, closingBrace_append_right (closingBrace_none_of_not_mem h),
      braceBalance_of_not_mem h, ← hcount, Option.map_map]
    refine congrArg (fun f => Option.map f _) (funext fun k => ?_)
    show m + (((t.take n).drop m).length + k) = n + k
    rw [length_drop, length_take]
    omega
  · have htake : t.take n = t := take_of_length_le (by omega)
    rw [htake] at h
    rw [closingBrace_none_of_not_mem h, drop_eq_nil_of_le (by omega)]
    rfl

theorem not_mem_between {x : Char} {t : Text} {m n : Nat} (h : ∀ i, m ≤ i → i < n
    → t[i]? ≠ some x) :
    x ∉ (t.take n).drop m := by
  intro hx
  obtain ⟨k, hk⟩ := mem_iff_getElem?.mp hx
  rw [getElem?_drop, getElem?_take] at hk
  split at hk
  · exact h (m + k) (by omega) (by omega) hk
  · cases hk

/-- behind a first line the braces that it opens are closed by the brace that matches its first
one -/
theorem Matched.closingBrace_behind {t l u : Text} {a e : Nat} (heq : t = l ++ '\n' :: u)
    (ha : '\x7b' ∉ t.take a) (hm : Matched t a e)
    (hfree : ∀ i < max a l.length, min a l.length < i → t[i]? ≠ some '\x7d') :
    ∃ n, Rebind.closingBrace (countOf '\x7b' l) u = some n ∧ l.length + 1 + n = e := by
  have hbreak : t[l.length]? = some '\n' := by rw [heq]; simp
  have hbrace := hm.1
  have hpass : ∀ i, min a l.length < i → i ≤ max a l.length → t[i]? ≠ some '\x7d' := by
    intro i hlo hhi
    by_cases hi : i < max a l.length
    · exact hfree i hi hlo
    · rcases (show i = a ∨ i = l.length by omega) with rfl | rfl
      · simp [hbrace]
      · simp [hbreak]
  -- the two counts agree behind the later of their starts
  have hsame : (Rebind.closingBrace (countOf '\x7b' (t.take (a + 1))) (t.drop (a + 1))).map
    (a + 1 + ·)
      = (Rebind.closingBrace (countOf '\x7b' (t.take (l.length + 1))) (t.drop (l.length + 1))).map
        (l.length + 1 + ·) := by
    rw [closingBrace_later (n := max a l.length + 1) (by omega)
        (not_mem_between fun i hlo hhi => hpass i (by omega) (by omega)),
      closingBrace_later (m := l.length + 1) (n := max a l.length + 1) (by omega)
        (not_mem_between fun i hlo hhi => hpass i (by omega) (by omega))]
  have hone : countOf '\x7b' (t.take (a + 1)) = 1 := by
    rw [take_add_one, hbrace, countOf, count_append, count_eq_zero_of_not_mem ha]
    rfl
  have hline : countOf '\x7b' (t.take (l.length + 1)) = countOf '\x7b' l := by
    rw [heq, take_length_add_append, countOf, countOf, count_append]
    rfl
  have hrest : t.drop (l.length + 1) = u := by
    rw [heq, drop_length_add_append]
    rfl
  rw [hone, ((matched_iff t a e).mp hm).2, hline, hrest] at hsame
  exact Option.map_eq_some_iff.mp hsame.symm

/-- no declaration follows on the lines up to that of the brace at `e`, and no closing brace stands
between the end of the first line and the brace at `a`, whichever of them comes first -/
def PlainBody (code : Text) (s a e : Nat) : Prop :=
  (∀ i ≤ s + lineOf (codeFrom code s) e, s < i →
      (methodDeclaration "initListener").found (lineAt (lines code) i) = false)
    ∧ ∀ i < max a (lineAt (lines code) s).length, min a (lineAt (lines code) s).length < i →
      (codeFrom code s)[i]? ≠ some '\x7d'

instance (code : Text) (s a e : Nat) : Decidable (PlainBody code s a e) :=
  inferInstanceAs (Decidable (_ ∧ _))

section
variable {code : Text} {s a e : Nat}

theorem PlainBody.codeFrom_eq (h : PlainBody code s a e) (hs : s < (lines code).length)
    (hm : Matched (codeFrom code s) a e) :
    codeFrom code s = lineAt (lines code) s ++ '\n' :: codeFrom code (s + 1) := by
  have hne : (lines code).drop (s + 1) ≠ [] := by
    intro hnil
    have hone : codeFrom code s = lineAt (lines code) s := by
      rw [codeFrom, drop_eq_lineAt_cons hs, hnil]
      simp [unlines]
    have hlt : e < (lineAt (lines code) s).length := by
      rw [← hone]
      exact (List.getElem?_eq_some_iff.mp hm.2.2.1).1
    have := hm.2.1
    exact h.2 e (by omega) (by omega) hm.2.2.1
  rw [codeFrom, drop_eq_lineAt_cons hs, unlines_cons hne]
  rfl

theorem PlainBody.closingLine_eq (h : PlainBody code s a e) (hs : s < (lines code).length)
    (ha : '\x7b' ∉ (codeFrom code s).take a) (hm : Matched (codeFrom code s) a e) :
    ∃ k, closingLine (countOf '\x7b' (lineAt (lines code) s)) ((lines code).drop (s + 1)) = some k
      ∧ lineOf (codeFrom code s) e = 1 + k := by
  have heq := h.codeFrom_eq hs hm
  have hflat : '\n' ∉ lineAt (lines code) s := not_mem_of_mem_lines (lineAt_mem hs)
  obtain ⟨n, hn, rfl⟩ := hm.closingBrace_behind heq ha h.2
  refine ⟨lineOf (codeFrom code (s + 1)) n, ?_, ?_⟩
  · rw [closingLine, ← codeFrom, hn]
    rfl
  · rw [heq, Nat.add_assoc, lineOf_append_right hflat]

theorem methodSpan_plain (hs : (lines code).findIdx? (methodDeclaration "initListener").found
    = some s) (ha : '\x7b' ∉ (codeFrom code s).take a) (hm : Matched (codeFrom code s) a e)
    (h : PlainBody code s a e) :
    methodSpan "initListener" (lines code) = some (s, s + lineOf (codeFrom code s) e) := by
  have hlt : s < (lines code).length := (findIdx?_eq_some_iff_getElem.mp hs).1
  obtain ⟨k, hk, hline⟩ := h.closingLine_eq hlt ha hm
  have hlines : ∀ l ∈ (lines code).drop (s + 1), '\n' ∉ l := fun l hl =>
    not_mem_of_mem_lines (mem_of_mem_drop hl)
  have hfound : ∀ j ≤ k, (methodDeclaration "initListener").found
      (lineAt ((lines code).drop (s + 1)) j) = false := by
    intro j hj
    rw [lineAt_drop]
    exact h.1 (s + 1 + j) (by omega) (by omega)
  rw [methodSpan, methodSpanFrom_first hs, Nat.zero_add, methodSpanFrom_of_closingLine hlines
    hfound hk, hline, Nat.add_assoc]

/-! ## the lines around -/

/-- the line on which the count of braces comes to zero that starts with the declaration on line
`s` -/
def countedEnd (code : Text) (s : Nat) : Option Nat :=
  (closingLine (countOf '\x7b' (lineAt (lines code) s))
    (((lines code).drop (s + 1)).map (counted (methodDeclaration "initListener")))).map (s + 1 + ·)

theorem methodSpan_stop (hs : (lines code).findIdx? (methodDeclaration "initListener").found
    = some s) :
    (methodSpan "initListener" (lines code)).map (·.2) = countedEnd code s := by
  rw [methodSpan, methodSpanFrom_first hs, Nat.zero_add, countedEnd]
  exact methodSpanFrom_stop fun l hl => not_mem_of_mem_lines (mem_of_mem_drop hl)

theorem methodSpan_bounds {u t : Nat}
    (hs : (lines code).findIdx? (methodDeclaration "initListener").found = some s)
    (h : methodSpan "initListener" (lines code) = some (u, t)) :
    s ≤ u ∧ u < t ∧ t < (lines code).length := by
  obtain ⟨hlt, hlen⟩ := methodSpanFrom_some h fun k hk => by cases hk
  rw [methodSpan, methodSpanFrom_first hs, Nat.zero_add] at h
  exact ⟨le_of_methodSpanFrom (Nat.lt_succ_self s) h, hlt, by omega⟩

theorem updateMethod_of_none (h : methodSpan "initListener" (lines code) = none) (content : Text) :
    (updateMethod code "initListener" content).value = code := by
  unfold updateMethod
  simp only [h]
  rfl

theorem lines_updateMethod {u t : Nat} (h : methodSpan "initListener" (lines code) = some (u, t))
    (content : Text) : lines (updateMethod code "initListener" content).value
      = (lines code).take (u + 1) ++ lines content ++ (lines code).drop t := by
  have hvalue : (updateMethod code "initListener" content).value
      = unlines ((lines code).take (u + 1) ++ lines content ++ (lines code).drop t) := by
    unfold updateMethod
    simp only [h]
    rw [if_pos trivial, Traced.value_note_bind, Traced.value_pure]
  rw [hvalue, lines_unlines (by simp [lines_ne_nil])]
  intro l hl
  rw [mem_append, mem_append] at hl
  rcases hl with (hl | hl) | hl
  · exact not_mem_of_mem_lines (mem_of_mem_take hl)
  · exact not_mem_of_mem_lines hl
  · exact not_mem_of_mem_lines (mem_of_mem_drop hl)

end

theorem take_prefix_around {ls : List Text} {s u : Nat} (hu : s ≤ u) (out : List Text) :
    ls.take (s + 1) <+: ls.take (u + 1) ++ out :=
  (take_prefix_take_left (by omega)).trans (prefix_append _ _)

/-- what is put between two lines keeps the lines around others iff it ends with them at the
latest -/
theorem keepsAround_iff {ls : List Text} {s u t j : Nat} (hu : s ≤ u) (hut : u < t)
    (ht : t < ls.length) :
    (∀ content, KeepsAround ls s j (ls.take (u + 1) ++ lines content ++ ls.drop t))
      ↔ t ≤ j + 1 := by
  constructor
  · intro h
    by_contra hlate
    -- a line other than the one it stands in for
    obtain ⟨x, hx, hflat⟩ : ∃ x : Text, x ≠ lineAt ls (t - 1) ∧ lines x = [x] := by
      by_cases hnil : lineAt ls (t - 1) = []
      · exact ⟨['x'], by simp [hnil], rfl⟩
      · exact ⟨[], fun he => hnil he.symm, rfl⟩
    have hnew : x :: ls.drop t <:+ ls.take (u + 1) ++ lines x ++ ls.drop t := by
      rw [hflat]
      exact ⟨ls.take (u + 1), by simp⟩
    have hold : lineAt ls (t - 1) :: ls.drop t <:+ ls.take (u + 1) ++ lines x ++ ls.drop t := by
      have hcons : lineAt ls (t - 1) :: ls.drop t = ls.drop (t - 1) := by
        rw [drop_eq_lineAt_cons (by omega : t - 1 < ls.length), show t - 1 + 1 = t by omega]
      rw [hcons]
      have hlast : ls.drop (t - 1) <:+ ls.drop (j + 1) := by
        rw [show t - 1 = j + 1 + (t - 1 - (j + 1)) by omega, ← drop_drop]
        exact drop_suffix _ _
      exact hlast.trans ((h x).2.trans (drop_suffix _ _))
    have hsame := (suffix_of_suffix_length_le hnew hold (by simp)).eq_of_length (by simp)
    exact hx (List.cons.inj hsame).1
  · intro h content
    rw [append_assoc]
    refine ⟨take_prefix_around hu _, ?_⟩
    have hlast : ls.drop (j + 1) <:+ ls.drop t := by
      rw [show j + 1 = t + (j + 1 - t) by omega, ← drop_drop]
      exact drop_suffix _ _
    rw [drop_append_of_le_length (by rw [length_take]; omega)]
    exact hlast.trans ((suffix_append _ _).trans (suffix_append _ _))

theorem keepsAround_self {ls : List Text} {s j : Nat} (hj : s ≤ j) : KeepsAround ls s j ls := by
  refine ⟨List.take_prefix _ _, ?_⟩
  rw [show j + 1 = s + 1 + (j - s) by omega, ← drop_drop]
  exact drop_suffix _ _

section
variable {code : Text} {s j : Nat}

theorem updateMethod_keeps_front
    (hs : (lines code).findIdx? (methodDeclaration "initListener").found = some s)
    (content : Text) :
    (lines code).take (s + 1) <+: lines (updateMethod code "initListener" content).value := by
  cases hspan : methodSpan "initListener" (lines code) with
  | none =>
    rw [updateMethod_of_none hspan]
    exact take_prefix _ _
  | some span =>
    rw [lines_updateMethod hspan, append_assoc]
    exact take_prefix_around (methodSpan_bounds hs hspan).1 _

theorem updateMethod_keepsAround_iff
    (hs : (lines code).findIdx? (methodDeclaration "initListener").found = some s) (hj : s ≤ j) :
    (∀ content, KeepsAround (lines code) s j
      (lines (updateMethod code "initListener" content).value))
      ↔ ∀ t, countedEnd code s = some t → t ≤ j + 1 := by
  have hstop := methodSpan_stop hs
  cases hspan : methodSpan "initListener" (lines code) with
  | none =>
    rw [hspan, Option.map_none] at hstop
    refine iff_of_true (fun content => ?_) (fun t ht => ?_)
    · rw [updateMethod_of_none hspan]
      exact keepsAround_self hj
    · rw [← hstop] at ht
      cases ht
  | some span =>
    obtain ⟨hu, hut, ht⟩ := methodSpan_bounds hs hspan
    rw [hspan, Option.map_some] at hstop
    simp only [lines_updateMethod hspan]
    rw [keepsAround_iff hu hut ht, ← hstop]
    exact ⟨fun h t ht => Option.some.inj ht ▸ h, fun h => h _ rfl⟩

end

/-- The lines up to the declaration are always kept.  Those below the line of the brace that matches
are kept for all contents iff the count of braces ends at most one line below that line; and in a
plain body exactly the lines between the declaration and the brace are replaced. -/
theorem updateMethod_initListener_around {code : Text} {s a e : Nat}
    (hs : (lines code).findIdx? (methodDeclaration "initListener").found = some s)
    (ha : '\x7b' ∉ (codeFrom code s).take a) (hm : Matched (codeFrom code s) a e) :
    (∀ content, (lines code).take (s + 1)
      <+: lines (updateMethod code "initListener" content).value)
    ∧ ((∀ content, KeepsAround (lines code) s (s + lineOf (codeFrom code s) e)
          (lines (updateMethod code "initListener" content).value))
        ↔ ∀ t, countedEnd code s = some t → t ≤ s + lineOf (codeFrom code s) e + 1)
    ∧ (PlainBody code s a e → ∀ content, lines (updateMethod code "initListener" content).value
        = (lines code).take (s + 1) ++ lines content
          ++ (lines code).drop (s + lineOf (codeFrom code s) e)) := by
  refine ⟨updateMethod_keeps_front hs, ?_, fun hplain content => ?_⟩
  · exact updateMethod_keepsAround_iff hs (Nat.le_add_right s _)
  · exact lines_updateMethod (methodSpan_plain hs ha hm hplain) content

/-- a method whose brace stands on a line of its own, with a block in it and a method behind it -/
def spacedListener : Text :=
  "class A \x7b\npublic void initListener()\n\x7b\nif (x) \x7b\ny();\n\x7d\n\x7d\n"
    ++ "void n() \x7b\n\x7d\n\x7d\n"

theorem updateMethod_initListener_around_spacedListener :
    (lines spacedListener).findIdx? (methodDeclaration "initListener").found = some 1
      ∧ '\x7b' ∉ (codeFrom spacedListener 1).take 27 ∧ Matched (codeFrom spacedListener 1) 27 45
      ∧ lineOf (codeFrom spacedListener 1) 45 = 5
      ∧ PlainBody spacedListener 1 27 45
      ∧ ∀ content, lines (updateMethod spacedListener "initListener" content).value
        = (lines spacedListener).take 2 ++ lines content ++ (lines spacedListener).drop 6 := by
  have hfacts : (lines spacedListener).findIdx? (methodDeclaration "initListener").found = some 1
      ∧ '\x7b' ∉ (codeFrom spacedListener 1).take 27 ∧ Matched (codeFrom spacedListener 1) 27 45
      ∧ lineOf (codeFrom spacedListener 1) 45 = 5
      ∧ PlainBody spacedListener 1 27 45 := by
    decide +kernel
  obtain ⟨hs, ha, hm, hline, hplain⟩ := hfacts
  have hlines := (updateMethod_initListener_around hs ha hm).2.2 hplain
  rw [hline] at hlines
  exact ⟨hs, ha, hm, hline, hplain, hlines⟩

def flatListener : Text :=
  "class A \x7b\npublic void initListener() \x7b\x7d\nvoid n() \x7b\n\x7d\n\x7d\n"

/-- the brace that matches is on the line of the declaration, but the count goes on to the brace
that ends the class, and the method before that brace is lost -/
theorem flatListener_neighbour_lost :
    (lines flatListener).findIdx? (methodDeclaration "initListener").found = some 1
      ∧ '\x7b' ∉ (codeFrom flatListener 1).take 27 ∧ Matched (codeFrom flatListener 1) 27 28
      ∧ lineOf (codeFrom flatListener 1) 28 = 0
      ∧ countedEnd flatListener 1 = some 4
      ∧ (updateMethod flatListener "initListener" "x").value
        = "class A \x7b\npublic void initListener() \x7b\x7d\nx\n\x7d\n".toList
      ∧ ¬ KeepsAround (lines flatListener) 1 1
        (lines (updateMethod flatListener "initListener" "x").value) := by
  decide +kernel

end Rebind
