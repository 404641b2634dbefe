import Mathlib
import Rebind.Text.Order

/-!
# The order of texts is the order of lists

`textLe` is the lexicographic order of the characters (`textLe_iff`), so that it is a linear order.
`sortedSet` lists the texts it is given strictly increasing (`pairwise_sortedSet`), and no others
(`mem_sortedSet`).
-/

namespace Rebind

theorem textLe_iff {s t : Text} : textLe s t ↔ ¬ t < s := by
  induction s generalizing t with
  | nil => simp [textLe]
  | cons a s ih =>
    cases t with
    | nil => simp [textLe]
    | cons b t =>
      rw [List.cons_lt_cons_iff]
      by_cases hab : a = b
      · subst hab
        simp [textLe, ih]
      · have hle : a.toNat ≤ b.toNat ↔ ¬ b < a := not_lt.symm
        simp [textLe, hab, Ne.symm hab, hle]

theorem textLe_total (s t : Text) : textLe s t ∨ textLe t s := by
  rw [textLe_iff, textLe_iff]
  exact not_and_or.mp (fun h => lt_asymm h.1 h.2)

theorem textLe_trans {s t u : Text} (hst : textLe s t) (htu : textLe t u) : textLe s u = true := by
  rw [textLe_iff, not_lt] at *
  exact hst.trans htu

theorem lt_of_textLe {s t : Text} (h : textLe s t) (hne : s ≠ t) : s < t :=
  lt_of_le_of_ne (not_lt.mp (textLe_iff.mp h)) hne

theorem mem_dropRepeats {x : Text} {ts : List Text} : x ∈ dropRepeats ts ↔ x ∈ ts := by
  fun_induction dropRepeats ts with
  | case1 => rfl
  | case2 t => rfl
  | case3 t ts ih => simp [ih]
  | case4 t u ts hne ih => rw [List.mem_cons, List.mem_cons, ih]

theorem pairwise_dropRepeats {ts : List Text} (h : ts.Pairwise (fun s t => textLe s t = true)) :
    (dropRepeats ts).Pairwise (· < ·) := by
  fun_induction dropRepeats ts with
  | case1 => exact .nil
  | case2 t => exact List.pairwise_singleton _ t
  | case3 t ts ih => exact ih h.of_cons
  | case4 t u ts hne ih =>
    obtain ⟨hfirst, hrest⟩ := List.pairwise_cons.mp h
    have htu : t < u := lt_of_textLe (hfirst u List.mem_cons_self) hne
    refine List.pairwise_cons.mpr ⟨fun x hx => ?_, ih hrest⟩
    rcases List.mem_cons.mp (mem_dropRepeats.mp hx) with rfl | hx
    · exact htu
    · exact htu.trans_le (not_lt.mp (textLe_iff.mp ((List.pairwise_cons.mp hrest).1 x hx)))

theorem pairwise_sortedSet (ts : List Text) : (sortedSet ts).Pairwise (· < ·) := by
  apply pairwise_dropRepeats
  apply List.pairwise_mergeSort
  · intro s t u
    exact textLe_trans
  · intro s t
    rw [Bool.or_eq_true]
    exact textLe_total s t

theorem mem_sortedSet {x : Text} {ts : List Text} : x ∈ sortedSet ts ↔ x ∈ ts := by
  rw [sortedSet, mem_dropRepeats, sortTexts, List.mem_mergeSort]

end Rebind
