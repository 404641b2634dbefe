import Mathlib
import Rebind.Proofs.Source.ClassEnd
import Rebind.Proofs.Source.MethodEnds

/-!
# Where the brace scanners stop

Every scanner stops at a closing brace of the text it was asked about, also when it looked at a
masked form of it.

* `closingBrace_some`, `blockEnd_some`: on the text itself;
* `classEnd_some`: the end of the first class is just past a closing brace;
* `onCreateEnd_cases`, `bodyEnd_cases`: the ends of method bodies.
-/

namespace Rebind

theorem closingBrace_some {d : Int} {t : Text} {i : Nat} (h : closingBrace d t = some i) :
    t[i]? = some '\x7d' := ((closingBrace_eq_some_iff d t i).mp h).1.1

/-- the end of a block is just past a closing brace, or at one -/
theorem blockEnd_some {t : Text} {i : Nat} (h : blockEnd t = some i) :
    t[i]? = some '\x7d' ∨ ∃ j, i = j + 1 ∧ t[j]? = some '\x7d' := by
  by_cases hopen : ∀ k : Nat, t[k]? = some '\x7d' → ∃ j < k, t[j]? = some '\x7b'
    ∨ t[j]? = some '\x7d'
  · rw [blockEnd, blockEndFrom_eq_closingBraceFrom 0 hopen] at h
    obtain ⟨j, hj, rfl⟩ := Option.map_eq_some_iff.mp h
    exact .inr ⟨j, rfl, closingBrace_some hj⟩
  · -- the first brace is a closing one, and the scan stops there
    push Not at hopen
    obtain ⟨k, hk, hfirst⟩ := hopen
    rw [(closesFirst_masked hk hfirst).1] at h
    exact .inl (Option.some.inj h ▸ hk)

/-- the end of the first class is just past a closing brace -/
theorem classEnd_some {code : Text} {k : Nat} (h : (classEnd code).value = some k) :
    ∃ j, k = j + 1 ∧ code[j]? = some '\x7d' := by
  obtain ⟨q, n, -, hend, rfl⟩ := (classEnd_eq_some_iff code k).mp h
  obtain ⟨⟨⟨hx, -⟩, -⟩, -⟩ := hend
  rw [List.getElem?_drop] at hx
  exact ⟨q + 1 + n, rfl, hx⟩

theorem lastIndexOf_some {x : Char} {t : Text} {k : Nat} (h : lastIndexOf x t = some k) :
    t[k]? = some x := by
  obtain ⟨i, hi, rfl⟩ := Option.map_eq_some_iff.mp h
  obtain ⟨hlt, hx, -⟩ := List.findIdx?_eq_some_iff_getElem.mp hi
  rw [List.length_reverse] at hlt
  have hrev : t.reverse[i]? = some x := by
    rw [List.getElem?_eq_getElem (by simpa using hlt)]
    simpa using hx
  rwa [List.getElem?_reverse hlt] at hrev

/-! ## method bodies -/

/-- a body ends at its closing brace, or where it starts -/
theorem bodyEnd_cases (code : Text) (start : Nat) :
    bodyEnd code start = start ∨ code[bodyEnd code start]? = some '\x7d' := by
  unfold bodyEnd
  split
  · next i hi =>
    have := closingBrace_some hi
    rw [List.getElem?_drop] at this
    exact .inr this
  · exact .inl rfl

/-- the end of `onCreate` is just past a closing brace, at one, or the end of the code -/
theorem onCreateEnd_cases {code : Text} {start : Nat} (hs : start ≤ code.length) :
    code[(onCreateEnd code start).toNat]? = some '\x7d'
      ∨ (∃ j, (onCreateEnd code start).toNat = j + 1 ∧ code[j]? = some '\x7d')
      ∨ (onCreateEnd code start).toNat = code.length := by
  have hclamp : clampIndex code.length start = start := by
    rw [clampIndex, if_neg (by omega)]
    omega
  have hslice : sliceFrom code start = code.drop start := by rw [sliceFrom, hclamp]
  unfold onCreateEnd
  rw [hslice]
  split
  · next i hi =>
    have hnat : ((start : Int) + (i : Int)).toNat = start + i := by omega
    rw [hnat]
    -- a mask shows no brace that the text does not hold
    have shown : ∀ j : Nat, (maskQuotes (code.drop start))[j]? = some '\x7d'
        → code[start + j]? = some '\x7d' := by
      intro j hj
      have hx := ((getElem?_maskQuotesFrom (by decide) .code _ j).mp hj).1
      rwa [List.getElem?_drop] at hx
    rcases blockEnd_some hi with hb | ⟨j, rfl, hb⟩
    · exact .inl (shown i hb)
    · exact .inr (.inl ⟨start + j, by omega, shown j hb⟩)
  · exact .inr (.inr (by simp))

end Rebind
