import Mathlib
import Rebind.Proofs.Source.Matching

/-!
# Lines and the places in them

Offsets count the characters of a text, and functions that work on lines count lines.  `lineOf`
leads from the one to the other, `lineEnd` back, and `lineOf_le_iff` says that the two fit together;
`lines_cut` cuts a text inside one of its lines.

Net counts of braces on whole lines end a block on the first line at which they are balanced
(`BalancedEnd`). `OwnLines.balancedEnd` says when that is the line of the brace that matches: if the
two braces stand on different lines and all else on these lines is balanced.
-/

namespace Rebind

open List

/-! ## lines and offsets -/

theorem length_lines (t : Text) : (lines t).length = t.count '\n' + 1 := by
  induction t with
  | nil => rfl
  | cons c t ih =>
    rw [lines_cons]
    cases hl : lines t with
    | nil => exact absurd hl (lines_ne_nil t)
    | cons l ls =>
      rw [hl] at ih
      by_cases hc : c = '\n'
      · subst hc
        rw [consLine, if_pos rfl, length_cons, ih, count_cons_self]
      · rw [consLine, if_neg hc, count_cons_of_ne hc]
        exact ih

theorem exists_first_line (t : Text) : ∃ back, lines t = t.takeWhile (· != '\n') :: back := by
  induction t with
  | nil => exact ⟨[], rfl⟩
  | cons c t ih =>
    obtain ⟨back, hb⟩ := ih
    rw [lines_cons, hb, consLine]
    by_cases hc : c = '\n'
    · subst hc
      exact ⟨t.takeWhile (· != '\n') :: back, by simp⟩
    · exact ⟨back, by simp [hc]⟩

theorem unlines_join (last first : Text) (front back : List Text) :
    unlines (front ++ [last]) ++ unlines (first :: back)
      = unlines (front ++ (last ++ first) :: back) := by
  induction front with
  | nil =>
    rw [nil_append, nil_append, show unlines [last] = last by simp [unlines]]
    cases back with
    | nil => simp [unlines]
    | cons l back =>
      have hne : l :: back ≠ [] := cons_ne_nil l back
      rw [unlines_cons hne, unlines_cons hne, append_assoc]
  | cons l front ih =>
    have hlast : front ++ [last] ≠ [] := by simp
    have hrest : front ++ (last ++ first) :: back ≠ [] := by simp
    rw [cons_append, cons_append, unlines_cons hlast, unlines_cons hrest, ← ih]
    simp

theorem lines_append {u v last first : Text} {front back : List Text}
    (hu : lines u = front ++ [last])
    (hv : lines v = first :: back) : lines (u ++ v) = front ++ (last ++ first) :: back := by
  have hjoin : u ++ v = unlines (front ++ (last ++ first) :: back) := by
    rw [← unlines_join, ← hu, ← hv, unlines_lines, unlines_lines]
  have huflat : ∀ l ∈ front ++ [last], '\n' ∉ l := fun l hl => not_mem_of_mem_lines (hu ▸ hl)
  have hvflat : ∀ l ∈ first :: back, '\n' ∉ l := fun l hl => not_mem_of_mem_lines (hv ▸ hl)
  rw [hjoin, lines_unlines (by simp)]
  intro l hl
  rcases mem_append.mp hl with hl | hl
  · exact huflat l (mem_append_left _ hl)
  · rcases mem_cons.mp hl with rfl | hl
    · exact fun hm => (mem_append.mp hm).elim (huflat last (by simp)) (hvflat first (by simp))
    · exact hvflat l (mem_cons_of_mem _ hl)

theorem lines_append_break {u m r : Text} (h : m = '\n' :: r) (v : Text) :
    lines (u ++ m ++ v) = lines u ++ lines (r ++ v) := by
  subst h
  rw [append_assoc, cons_append, lines_eq_splitAll, splitAll_append]
  rfl

/-- a text cut inside one of its lines -/
theorem lines_cut (code : Text) (n : Nat) : ∃ front last back, lines (code.take n) = front ++ [last]
    ∧ lines code = front ++ (last ++ (code.drop n).takeWhile (· != '\n')) :: back
    ∧ front.length = lineOf code n := by
  obtain ⟨back, hback⟩ := exists_first_line (code.drop n)
  have hfront := (dropLast_append_getLast (lines_ne_nil (code.take n))).symm
  have hall := lines_append hfront hback
  rw [take_append_drop] at hall
  refine ⟨_, _, back, hfront, hall, ?_⟩
  rw [length_dropLast, length_lines, lineOf, Nat.add_sub_cancel]

def lineEnd (code : Text) (i : Nat) : Nat := (unlines ((lines code).take (i + 1))).length

section
variable {code : Text} {a e i n : Nat}

theorem lineOf_lt (code : Text) (n : Nat) : lineOf code n < (lines code).length := by
  rw [length_lines, lineOf]
  exact Nat.lt_succ_of_le ((take_sublist n code).count_le _)

theorem lineOf_mono (code : Text) (h : a ≤ e) : lineOf code a ≤ lineOf code e :=
  (take_sublist_take_left h).count_le _

theorem code_at_lineEnd (h : i + 1 < (lines code).length) :
    code = unlines ((lines code).take (i + 1)) ++ '\n' :: unlines ((lines code).drop (i + 1)) := by
  have hfront : (lines code).take (i + 1) ≠ [] := by
    rw [← length_pos_iff, length_take]
    omega
  have hback : (lines code).drop (i + 1) ≠ [] := by
    rw [← length_pos_iff, length_drop]
    omega
  rw [← unlines_append hfront hback, take_append_drop, unlines_lines]

theorem take_lineEnd (h : i + 1 < (lines code).length) :
    code.take (lineEnd code i) = unlines ((lines code).take (i + 1)) :=
  (congrArg (take _) (code_at_lineEnd h)).trans take_left

theorem drop_lineEnd (h : i + 1 < (lines code).length) :
    code.drop (lineEnd code i) = '\n' :: unlines ((lines code).drop (i + 1)) :=
  (congrArg (drop _) (code_at_lineEnd h)).trans drop_left

theorem getElem?_lineEnd (h : i + 1 < (lines code).length) : code[lineEnd code i]? = some '\n' := by
  rw [← head?_drop, drop_lineEnd h]
  rfl

theorem lineOf_le_iff (h : i + 1 < (lines code).length) :
    lineOf code n ≤ i ↔ n ≤ lineEnd code i := by
  have hcount : lineOf code (lineEnd code i) = i := by
    have hlines : lines (code.take (lineEnd code i)) = (lines code).take (i + 1) := by
      rw [take_lineEnd h, lines_unlines]
      · rw [← length_pos_iff, length_take]
        omega
      · exact fun l hl => not_mem_of_mem_lines (mem_of_mem_take hl)
    have hlen := length_lines (code.take (lineEnd code i))
    rw [hlines, length_take] at hlen
    rw [lineOf]
    omega
  constructor
  · intro hle
    by_contra hlt
    have hnext : lineOf code (lineEnd code i + 1) = i + 1 := by
      rw [lineOf, take_add_one, getElem?_lineEnd h, count_append, ← lineOf, hcount]
      rfl
    have := lineOf_mono code (show lineEnd code i + 1 ≤ n by omega)
    omega
  · intro hle
    exact (lineOf_mono code hle).trans hcount.le

theorem lt_lineEnd_iff {c : Char} (hc : code[n]? = some c) (hbreak : c ≠ '\n')
    (h : i + 1 < (lines code).length) :
    n < lineEnd code i ↔ lineOf code n ≤ i := by
  rw [lineOf_le_iff h, Nat.lt_iff_le_and_ne, and_iff_left_iff_imp]
  rintro - rfl
  rw [getElem?_lineEnd h] at hc
  exact hbreak (Option.some.inj hc).symm

theorem lineOf_succ {c : Char} (hc : code[n]? = some c) (hbreak : c ≠ '\n') :
    lineOf code (n + 1) = lineOf code n := by
  rw [lineOf, take_add_one, hc, Option.toList_some, count_append, count_singleton,
    if_neg (by simpa using hbreak), Nat.add_zero, lineOf]

end

/-! ## blocks of lines -/

def netBraces (ls : List Text) (s t : Nat) : Int := linesBalance ((ls.take (t + 1)).drop s)

/-- `t` is the first line below `s` at which the braces of the lines from `s` on are balanced -/
def BalancedEnd (ls : List Text) (s t : Nat) : Prop :=
  s < t ∧ t < ls.length ∧ netBraces ls s t = 0 ∧ ∀ j < t, s < j → netBraces ls s j ≠ 0

instance (ls : List Text) (s t : Nat) : Decidable (BalancedEnd ls s t) :=
  inferInstanceAs (Decidable (_ ∧ _))

theorem BalancedEnd.unique {ls : List Text} {s t t' : Nat} (h : BalancedEnd ls s t)
    (h' : BalancedEnd ls s t') : t = t' := by
  rcases Nat.lt_trichotomy t t' with hlt | heq | hlt
  · exact absurd h.2.2.1 (h'.2.2.2 t hlt h.1)
  · exact heq
  · exact absurd h'.2.2.1 (h.2.2.2 t' hlt h'.1)

/-- the two braces stand on different lines, and what stands before the one and behind the other on
its line is balanced -/
def OwnLines (code : Text) (a e : Nat) : Prop :=
  lineOf code a < lineOf code e ∧ braceBalance (afterLast '\n' (code.take a)) = 0
    ∧ braceBalance ((code.drop (e + 1)).takeWhile (· != '\n')) = 0

instance (code : Text) (a e : Nat) : Decidable (OwnLines code a e) :=
  inferInstanceAs (Decidable (_ ∧ _))

theorem linesBalance_lines (t : Text) : linesBalance (lines t) = braceBalance t := by
  rw [← braceBalance_unlines, unlines_lines]

theorem add_netBraces (ls : List Text) {s t : Nat} (h : s ≤ t + 1) :
    linesBalance (ls.take s) + netBraces ls s t = linesBalance (ls.take (t + 1)) := by
  have hfront : ls.take s = (ls.take (t + 1)).take s := by rw [take_take, Nat.min_eq_left h]
  rw [hfront, netBraces, ← linesBalance_append, take_append_drop]

theorem eq_afterLast_of_lines {t last : Text} {front : List Text} (h : lines t = front ++ [last]) :
    last = afterLast '\n' t := by
  have hflat : ∀ c ∈ last.reverse, (c != '\n') := by
    intro c hc
    rw [bne_iff_ne]
    rintro rfl
    exact not_mem_of_mem_lines (h ▸ mem_append_right front (mem_singleton_self last))
      (mem_reverse.mp hc)
  rcases front with _ | ⟨l, front⟩
  · have ht : t = last := by rw [← unlines_lines t, h]; simp [unlines]
    rw [afterLast, ht, takeWhile_eq_self_iff.mpr hflat, reverse_reverse]
  · have ht : t = unlines (l :: front) ++ '\n' :: last := by
      rw [← unlines_lines t, h, unlines_append (cons_ne_nil l front) (cons_ne_nil last [])]
      simp [unlines]
    rw [afterLast, ht, reverse_append, reverse_cons, append_assoc,
      takeWhile_append_of_pos hflat]
    simp

section
variable {code : Text} {a e n : Nat}

theorem braceBalance_take_succ {c : Char} (h : code[n]? = some c) :
    braceBalance (code.take (n + 1)) = braceBalance (code.take n) + braceStep c := by
  rw [take_add_one, h, braceBalance_append, Option.toList_some, braceBalance_cons]
  exact congrArg (_ + ·) (add_zero _)

theorem Matched.balance_take (h : Matched code a e) (hn : a < n) :
    braceBalance (code.take n) = braceBalance (code.take a) + 1
      + braceBalance ((code.take n).drop (a + 1)) := by
  have hfront : code.take (a + 1) = (code.take n).take (a + 1) := by
    rw [take_take, Nat.min_eq_left (by omega)]
  have hopen : braceStep '\x7b' = 1 := by decide
  rw [← hopen, ← braceBalance_take_succ h.1, hfront, ← braceBalance_append, take_append_drop]

theorem Matched.balance_lt (h : Matched code a e) (hn : a < n) (hne : n ≤ e) :
    braceBalance (code.take a) < braceBalance (code.take n) := by
  induction n, (show a + 1 ≤ n from hn) using Nat.le_induction with
  | base =>
    have hopen : braceStep '\x7b' = 1 := by decide
    rw [braceBalance_take_succ h.1, hopen]
    omega
  | succ n hle ih =>
    have hbefore := ih (by omega) (by omega)
    have hlen : e < code.length := (List.getElem?_eq_some_iff.mp h.2.2.1).1
    obtain ⟨c, hc⟩ : ∃ c, code[n]? = some c := ⟨_, getElem?_eq_getElem (by omega)⟩
    rw [braceBalance_take_succ hc]
    by_cases hclose : c = '\x7d'
    · -- a closing brace before `e` leaves one open
      subst hclose
      have hopen := h.2.2.2.2 n (by omega) (by omega) hc
      have htake := h.balance_take (n := n) (by omega)
      have hstep : braceStep '\x7d' = -1 := by decide
      omega
    · have hstep : 0 ≤ braceStep c := by
        unfold braceStep
        rw [if_neg hclose]
        split <;> decide
      omega

theorem Matched.balance_after (h : Matched code a e) :
    braceBalance (code.take (e + 1)) = braceBalance (code.take a) := by
  have hstep : braceStep '\x7d' = -1 := by decide
  have hbetween := h.2.2.2.1
  rw [braceBalance_take_succ h.2.2.1, h.balance_take h.2.1, hbetween, hstep]
  omega

/-- in a method with braces on lines of their own the lines end with the brace that matches -/
theorem OwnLines.balancedEnd (h : OwnLines code a e) (hm : Matched code a e) :
    BalancedEnd (lines code) (lineOf code a) (lineOf code e) := by
  obtain ⟨hlt, hbefore, hbehind⟩ := h
  have hfront : linesBalance ((lines code).take (lineOf code a)) = braceBalance (code.take a) := by
    obtain ⟨front, last, back, hlast, hall, hlen⟩ := lines_cut code a
    rw [← linesBalance_lines (code.take a), hlast, hall, ← hlen, take_left, linesBalance_append,
      linesBalance_cons, eq_afterLast_of_lines hlast, hbefore]
    simp [linesBalance]
  have hback : linesBalance ((lines code).take (lineOf code e + 1))
      = braceBalance (code.take (e + 1)) := by
    obtain ⟨front, last, back, hlast, hall, hlen⟩ := lines_cut code (e + 1)
    rw [lineOf_succ hm.2.2.1 (by decide)] at hlen
    rw [← linesBalance_lines (code.take (e + 1)), hlast, hall, ← hlen, take_length_add_append,
      linesBalance_append, linesBalance_append, take_succ_cons, linesBalance_cons,
      braceBalance_append, hbehind]
    simp [linesBalance]
  refine ⟨hlt, lineOf_lt code e, ?_, fun j hj hs => ?_⟩
  · have hadd := add_netBraces (lines code) (show lineOf code a ≤ lineOf code e + 1 by omega)
    rw [hfront, hback, hm.balance_after] at hadd
    omega
  · have hlen : j + 1 < (lines code).length := by
      have := lineOf_lt code e
      omega
    have hadd := add_netBraces (lines code) (show lineOf code a ≤ j + 1 by omega)
    rw [hfront, ← braceBalance_unlines ((lines code).take (j + 1)), ← take_lineEnd hlen] at hadd
    have hlow : a < lineEnd code j := (lt_lineEnd_iff hm.1 (by decide) hlen).mpr hs.le
    have hhigh : lineEnd code j ≤ e := by
      by_contra hover
      have := (lt_lineEnd_iff hm.2.2.1 (by decide) hlen).mp (show e < lineEnd code j by omega)
      omega
    have := hm.balance_lt hlow hhigh
    omega

end

end Rebind
