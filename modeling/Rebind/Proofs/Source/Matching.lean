import Mathlib
import Rebind.Proofs.Source.Counting
import Rebind.Proofs.Text.Lines

/-!
# Braces that match

Several functions look for the brace that closes a block: they walk on from its opening brace with a
count of open braces, comments and quotes not respected.  `Matched t a e` says which brace that is
without the walk: as many braces of either kind stand between `a` and `e`, and this is so at no
closing brace before `e`.  `closingBrace_eq_some_iff` ties the walk to the counts, `matched_iff` to
the two places.

A walk over lines that are put together can be cut at their ends: `closingLine d ls` is the line on
which it stops, and `closingLine_cons` goes on from one line to the next.
-/

namespace Rebind

open List

variable {ls : List Text} {i : Nat} {l t : Text}

/-- the braces at `a` and `e` belong together by plain counting -/
def Matched (t : Text) (a e : Nat) : Prop :=
  t[a]? = some '\x7b' ∧ a < e ∧ t[e]? = some '\x7d' ∧ braceBalance ((t.take e).drop (a + 1)) = 0
    ∧ ∀ j, a < j → j < e → t[j]? = some '\x7d' → braceBalance ((t.take j).drop (a + 1)) ≠ 0

theorem braceBalance_append (a b : Text) :
    braceBalance (a ++ b) = braceBalance a + braceBalance b := by
  simp only [braceBalance, countOf, count_append]
  push_cast
  omega

def ClosesAt (d : Int) (t : Text) (n : Nat) : Prop := t[n]? = some '\x7d'
    ∧ d + braceBalance (t.take n) = 1

section
variable {d : Int} {c : Char} {t : Text} {n : Nat}

theorem closesAt_zero : ClosesAt d (c :: t) 0 ↔ c = '\x7d' ∧ d = 1 := by
  have hzero : braceBalance [] = 0 := rfl
  simp [ClosesAt, hzero]

theorem closesAt_succ : ClosesAt d (c :: t) (n + 1) ↔ ClosesAt (d + braceStep c) t n := by
  rw [ClosesAt, ClosesAt, getElem?_cons_succ, take_succ_cons, braceBalance_cons, add_assoc]

end

/-- the brace that is found is the first that closes the last open one -/
theorem closingBrace_eq_some_iff (d : Int) (t : Text) (n : Nat) :
    closingBrace d t = some n ↔ ClosesAt d t n ∧ ∀ j < n, ¬ ClosesAt d t j := by
  induction t generalizing d n with
  | nil => simp [closingBrace, closingBraceFrom, ClosesAt]
  | cons c t ih =>
    rw [closingBrace_cons]
    split
    · next hc =>
      have hend : ClosesAt d (c :: t) 0 := closesAt_zero.mpr hc
      cases n with
      | zero => simp [hend]
      | succ n => exact iff_of_false (by simp) fun h => h.2 0 (Nat.succ_pos n) hend
    · next hc =>
      have hend : ¬ ClosesAt d (c :: t) 0 := fun h => hc (closesAt_zero.mp h)
      cases n with
      | zero => exact iff_of_false (by simp) fun h => hend h.1
      | succ n =>
        have hmap : (closingBrace (d + braceStep c) t).map (1 + ·) = some (n + 1)
            ↔ closingBrace (d + braceStep c) t = some n := by
          rw [Option.map_eq_some_iff]
          constructor
          · rintro ⟨k, hk, he⟩
            rwa [show n = k by omega]
          · exact fun h => ⟨n, h, by omega⟩
        rw [hmap, ih, closesAt_succ]
        refine and_congr_right fun _ => ?_
        constructor
        · intro h j hj
          cases j with
          | zero => exact hend
          | succ j =>
            rw [closesAt_succ]
            exact h j (by omega)
        · intro h j hj
          rw [← closesAt_succ]
          exact h (j + 1) (by omega)

theorem closingBrace_eq_none_iff (d : Int) (t : Text) : closingBrace d t = none
    ↔ ∀ n, ¬ ClosesAt d t n := by
  constructor
  · intro h n hn
    have hex : ∃ n, ClosesAt d t n := ⟨n, hn⟩
    classical
    have hfirst := (closingBrace_eq_some_iff d t (Nat.find hex)).mpr
      ⟨Nat.find_spec hex, fun _ hj => Nat.find_min hex hj⟩
    rw [h] at hfirst
    cases hfirst
  · intro h
    cases hn : closingBrace d t with
    | none => rfl
    | some n => exact absurd ((closingBrace_eq_some_iff d t n).mp hn).1 (h n)

theorem closingBrace_none_of_not_mem {d : Int} (h : '\x7d' ∉ t) : closingBrace d t = none := by
  cases hn : closingBrace d t with
  | none => rfl
  | some n =>
    obtain ⟨hx, -⟩ := ((closingBrace_eq_some_iff d t n).mp hn).1
    exact absurd (mem_of_getElem? hx) h

theorem braceBalance_of_not_mem (h : '\x7d' ∉ t) : braceBalance t = countOf '\x7b' t := by
  rw [braceBalance, countOf, countOf, count_eq_zero_of_not_mem h]
  omega

theorem matched_iff (t : Text) (a e : Nat) : Matched t a e
    ↔ t[a]? = some '\x7b' ∧ (closingBrace 1 (t.drop (a + 1))).map (a + 1 + ·) = some e := by
  have hcloses : ∀ k, ClosesAt 1 (t.drop (a + 1)) k
      ↔ t[a + 1 + k]? = some '\x7d' ∧ braceBalance ((t.take (a + 1 + k)).drop (a + 1)) = 0 := by
    intro k
    rw [ClosesAt, getElem?_drop, drop_take, show a + 1 + k - (a + 1) = k by omega]
    refine and_congr_right fun _ => ?_
    omega
  rw [Option.map_eq_some_iff]
  refine and_congr_right fun _ => ?_
  constructor
  · rintro ⟨hlt, hx, hzero, hbefore⟩
    have he : a + 1 + (e - (a + 1)) = e := by omega
    refine ⟨e - (a + 1), (closingBrace_eq_some_iff _ _ _).mpr ⟨?_, fun j hj => ?_⟩, he⟩
    · rw [hcloses, he]
      exact ⟨hx, hzero⟩
    · rw [hcloses]
      exact fun h => hbefore (a + 1 + j) (by omega) (by omega) h.1 h.2
  · rintro ⟨n, hn, rfl⟩
    obtain ⟨hn, hbefore⟩ := (closingBrace_eq_some_iff _ _ _).mp hn
    rw [hcloses] at hn
    refine ⟨by omega, hn.1, hn.2, fun j hj hjn hy hzero => ?_⟩
    have he : a + 1 + (j - (a + 1)) = j := by omega
    apply hbefore (j - (a + 1)) (by omega)
    rw [hcloses, he]
    exact ⟨hy, hzero⟩

instance (t : Text) (a e : Nat) : Decidable (Matched t a e) :=
  decidable_of_iff _ (matched_iff t a e).symm

/-- the first header that `p` finds ends with the character at `a` -/
def HeaderEnds (p : Pattern) (code : Text) (a : Nat) : Prop :=
  (p.search code).map (·.stop) = some (a + 1)

instance (p : Pattern) (code : Text) (a : Nat) : Decidable (HeaderEnds p code a) :=
  inferInstanceAs (Decidable (_ = _))

theorem Matched.closingBrace {a e : Nat} (h : Matched t a e) :
    ∃ n, Rebind.closingBrace 1 (t.drop (a + 1)) = some n ∧ a + 1 + n = e :=
  Option.map_eq_some_iff.mp ((matched_iff t a e).mp h).2

/-! ## braces on lines -/

def lineAt (ls : List Text) (i : Nat) : Text := ls.getD i []

theorem lineAt_of_getElem? (h : ls[i]? = some l) : lineAt ls i = l := by
  rw [lineAt, getD_eq_getElem?_getD, h]
  rfl

theorem getElem?_lineAt (h : i < ls.length) : ls[i]? = some (lineAt ls i) := by
  rw [lineAt, getElem?_eq_getElem h, getD_eq_getElem _ _ h]

theorem lineAt_mem (h : i < ls.length) : lineAt ls i ∈ ls :=
  mem_of_getElem? (getElem?_lineAt h)

theorem lineAt_drop (ls : List Text) (n i : Nat) : lineAt (ls.drop n) i = lineAt ls (n + i) := by
  rw [lineAt, lineAt, getD_eq_getElem?_getD, getD_eq_getElem?_getD, getElem?_drop]

theorem drop_eq_lineAt_cons (h : i < ls.length) : ls.drop i = lineAt ls i :: ls.drop (i + 1) := by
  rw [drop_eq_getElem_cons h, lineAt, getD_eq_getElem _ _ h]

def linesBalance (ls : List Text) : Int := (ls.map braceBalance).sum

theorem linesBalance_cons (l : Text) (ls : List Text) :
    linesBalance (l :: ls) = braceBalance l + linesBalance ls := by
  rw [linesBalance, map_cons, sum_cons]
  rfl

theorem linesBalance_append (r s : List Text) :
    linesBalance (r ++ s) = linesBalance r + linesBalance s := by
  rw [linesBalance, map_append, sum_append]
  rfl

theorem braceBalance_unlines (ls : List Text) : braceBalance (unlines ls) = linesBalance ls := by
  induction ls with
  | nil => rfl
  | cons l ls ih =>
    cases ls with
    | nil => simp [unlines, linesBalance]
    | cons l' ls =>
      have hbreak : braceStep '\n' = 0 := by decide
      rw [unlines_cons (by simp), braceBalance_append, braceBalance_cons, ih, hbreak, zero_add,
        linesBalance_cons l]

def lineOf (t : Text) (n : Nat) : Nat := (t.take n).count '\n'

def closingLine (d : Int) (ls : List Text) : Option Nat :=
  (closingBrace d (unlines ls)).map (lineOf (unlines ls))

theorem lineOf_eq_zero (h : '\n' ∉ l) (n : Nat) : lineOf l n = 0 :=
  count_eq_zero.mpr fun hm => h (mem_of_mem_take hm)

theorem lineOf_append_right (h : '\n' ∉ l) (t : Text) (n : Nat) :
    lineOf (l ++ '\n' :: t) (l.length + (1 + n)) = 1 + lineOf t n := by
  rw [lineOf, take_length_add_append, count_append, count_eq_zero_of_not_mem h,
    Nat.add_comm 1 n, take_succ_cons, count_cons_self, lineOf]
  omega

/-- the brace is on the first line, or the count goes on behind it -/
theorem closingLine_cons (d : Int) (h : '\n' ∉ l) (ls : List Text) :
    closingLine d (l :: ls) = if (closingBrace d l).isSome then some 0
      else (closingLine (d + braceBalance l) ls).map (1 + ·) := by
  cases ls with
  | nil =>
    have hone : unlines [l] = l := by simp [unlines]
    rw [closingLine, hone]
    cases hl : closingBrace d l with
    | none => rfl
    | some n => simp [lineOf_eq_zero h]
  | cons l' ls =>
    rw [closingLine, unlines_cons (by simp)]
    cases hl : closingBrace d l with
    | some n =>
      have hlt := closingBrace_lt hl
      have hline : lineOf (l ++ '\n' :: unlines (l' :: ls)) n = 0 := by
        rw [lineOf, take_append_of_le_length (by omega)]
        exact lineOf_eq_zero h n
      rw [closingBrace_append_left hl, Option.map_some, hline]
      rfl
    | none =>
      have hbreak : closingBrace (d + braceBalance l) ('\n' :: unlines (l' :: ls))
          = (closingBrace (d + braceBalance l) (unlines (l' :: ls))).map (1 + ·) := by
        rw [closingBrace_cons, if_neg (by simp), show braceStep '\n' = 0 by decide, add_zero]
      rw [closingBrace_append_right hl, hbreak, Option.map_map, Option.map_map, closingLine,
        Option.map_map]
      refine congrArg (fun f => Option.map f _) (funext fun n => ?_)
      exact lineOf_append_right h _ n

end Rebind
