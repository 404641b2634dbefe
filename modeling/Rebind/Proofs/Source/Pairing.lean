import Mathlib
import Rebind.Proofs.Source.LineSpans

/-!
# Paired braces

A text that is put into code may hold braces of its own.  It does no harm to the braces around it if
it is `Paired`: it closes no brace that it has not opened, and leaves none open.

* `enough_append`: how many braces have to be open before a text, so that it closes no more;
* `paired_of_flat`, `Paired.append`, `Paired.braced`, `paired_unlines_flatMap`: how paired texts are
  made;
* `Paired.closingBrace_none`: a brace that is open before a paired text is not closed in it.
-/

namespace Rebind

open List

def Enough (d : Int) (t : Text) : Prop := ∀ n, 0 ≤ d + braceBalance (t.take n)

section
variable {d : Int} {c : Char} {a b t w : Text}

theorem Enough.nonneg (h : Enough d t) : 0 ≤ d := by
  have hzero : braceBalance [] = 0 := rfl
  have := h 0
  rwa [take_zero, hzero, add_zero] at this

theorem enough_nil : Enough d [] ↔ 0 ≤ d := by
  have hzero : braceBalance [] = 0 := rfl
  simp [Enough, hzero]

theorem enough_cons : Enough d (c :: t) ↔ 0 ≤ d ∧ Enough (d + braceStep c) t := by
  constructor
  · refine fun h => ⟨h.nonneg, fun n => ?_⟩
    have := h (n + 1)
    rwa [take_succ_cons, braceBalance_cons, ← add_assoc] at this
  · rintro ⟨hd, h⟩ n
    cases n with
    | zero => exact enough_nil.mpr hd 0
    | succ n =>
      rw [take_succ_cons, braceBalance_cons, ← add_assoc]
      exact h n

theorem enough_append : Enough d (a ++ b) ↔ Enough d a ∧ Enough (d + braceBalance a) b := by
  induction a generalizing d with
  | nil =>
    have hzero : braceBalance [] = 0 := rfl
    rw [nil_append, enough_nil, hzero, add_zero]
    exact (and_iff_right_of_imp Enough.nonneg).symm
  | cons c a ih =>
    rw [cons_append, enough_cons, enough_cons, ih, braceBalance_cons, and_assoc, add_assoc]

theorem Enough.mono {e : Int} (h : Enough d t) (hde : d ≤ e) : Enough e t := fun n => by
  have := h n
  omega

theorem enough_of_flat (hopen : '\x7b' ∉ w) (hclose : '\x7d' ∉ w) : Enough d w ↔ 0 ≤ d := by
  refine ⟨Enough.nonneg, fun hd n => ?_⟩
  have hflat := braceBalance_of_flat (fun hm => hopen (mem_of_mem_take (i := n) hm))
    (fun hm => hclose (mem_of_mem_take hm))
  rwa [hflat, add_zero]

end

instance instDecidableEnough : (d : Int) → (t : Text) → Decidable (Enough d t)
  | d, [] => decidable_of_iff (0 ≤ d) enough_nil.symm
  | d, c :: t =>
    have := instDecidableEnough (d + braceStep c) t
    decidable_of_iff (0 ≤ d ∧ Enough (d + braceStep c) t) enough_cons.symm

/-- every brace of the text has its partner in the text -/
structure Paired (t : Text) : Prop where
  enough : Enough 0 t
  balance : braceBalance t = 0

section
variable {d : Int} {s t w : Text}

theorem paired_of_flat (hopen : '\x7b' ∉ w) (hclose : '\x7d' ∉ w) : Paired w where
  enough := (enough_of_flat hopen hclose).mpr le_rfl
  balance := braceBalance_of_flat hopen hclose

theorem Paired.append (hs : Paired s) (ht : Paired t) : Paired (s ++ t) where
  enough := enough_append.mpr ⟨hs.enough, by rw [hs.balance]; exact ht.enough⟩
  balance := by rw [braceBalance_append, hs.balance, ht.balance, add_zero]

theorem Paired.braced (h : Paired t) : Paired ('\x7b' :: (t ++ ['\x7d'])) := by
  have hopen : braceStep '\x7b' = 1 := by decide
  have hclose : braceStep '\x7d' = -1 := by decide
  have hlast : braceBalance ['\x7d'] = -1 := by decide
  constructor
  · rw [enough_cons, enough_append, hopen, h.balance, add_zero, zero_add, enough_cons,
      enough_nil, hclose]
    exact ⟨le_rfl, h.enough.mono (by decide), by decide, by decide⟩
  · rw [braceBalance_cons, braceBalance_append, h.balance, hopen, hlast]
    decide

theorem paired_newline : Paired ['\n'] := paired_of_flat (by decide) (by decide)

theorem paired_unlines {ls : List Text} (h : ∀ l ∈ ls, Paired l) : Paired (unlines ls) := by
  induction ls with
  | nil => exact paired_of_flat (by simp [unlines]) (by simp [unlines])
  | cons l ls ih =>
    have hl := h l mem_cons_self
    cases ls with
    | nil => rwa [show unlines [l] = l by simp [unlines]]
    | cons l' ls =>
      rw [unlines_cons (by simp)]
      exact hl.append (paired_newline.append (ih fun x hx => h x (mem_cons_of_mem _ hx)))

/-- the lines come in parts, each of which is paired as a whole -/
theorem paired_unlines_flatMap {α : Type} {xs : List α} {part : α → List Text}
    (h : ∀ x ∈ xs, Paired (unlines (part x))) : Paired (unlines (xs.flatMap part)) := by
  induction xs with
  | nil => exact paired_unlines (by simp)
  | cons x xs ih =>
    have hfirst := h x mem_cons_self
    have hrest := ih fun y hy => h y (mem_cons_of_mem _ hy)
    rw [flatMap_cons]
    by_cases hx : part x = []
    · rwa [hx, nil_append]
    · by_cases hxs : xs.flatMap part = []
      · rwa [hxs, append_nil]
      · rw [unlines_append hx hxs]
        exact hfirst.append (paired_newline.append hrest)

/-- a brace that is open before a paired text is not closed in it -/
theorem Paired.closingBrace_none (h : Paired w) (hd : 1 ≤ d) : closingBrace d w = none := by
  cases hn : closingBrace d w with
  | none => rfl
  | some n =>
    obtain ⟨hx, hone⟩ := ((closingBrace_eq_some_iff d w n).mp hn).1
    have hclose : braceStep '\x7d' = -1 := by decide
    have hnext := h.enough (n + 1)
    rw [braceBalance_take_succ hx, hclose] at hnext
    omega

end

end Rebind
