import Mathlib
import Rebind.Proofs.Source.Pairing
import Rebind.Proofs.Source.Scanning

/-!
# Two scanners for the end of a method

`methodEnd` and `onCreateEnd` read the code from the same place on and leave out the same quoted
stretches.  They part where a closing brace finds no brace open: the first goes on with a count
below zero, the second stops there.

* `Unquoted t c n`: the character at `n` is a `c` outside of quotes;
* `openCount t k`: how many more braces the first `k` characters open than they close, quotes left
  out;
* `ClosesFirst t k`: the first brace outside of quotes is a closing one, at `k`.

As long as a brace is open the two scanners take the same steps (`blockEndFrom_of_open`), so all
depends on the first brace (`blockEndFrom_eq_closingBraceFrom`).  The second scanner stops before
the count falls below zero (`enough_of_blockEndFrom_none`, `enough_of_blockEndFrom_some`), and so
never passes the brace that closes the block around it (`onCreateEnd_related`).
-/

namespace Rebind

open List

/-! ## braces outside of quotes -/

/-- the character at `n` is a `c` outside of quotes -/
def Unquoted (t : Text) (c : Char) (n : Nat) : Prop := t[n]? = some c
    ∧ Zone.code.over (t.take n) = .code

instance (t : Text) (c : Char) : DecidablePred (Unquoted t c) := fun n =>
  inferInstanceAs (Decidable (t[n]? = some c ∧ Zone.code.over (t.take n) = .code))

def openCount (t : Text) (k : Nat) : Int :=
  (Nat.count (Unquoted t '\x7b') k : Int) - Nat.count (Unquoted t '\x7d') k

/-- the first brace outside of quotes is a closing one, at `k` -/
def ClosesFirst (t : Text) (k : Nat) : Prop :=
  Unquoted t '\x7d' k ∧ ∀ j < k, ¬ Unquoted t '\x7b' j ∧ ¬ Unquoted t '\x7d' j

instance (t : Text) (k : Nat) : Decidable (ClosesFirst t k) :=
  inferInstanceAs (Decidable (_ ∧ ∀ j < k, _ ∧ _))

theorem over_code_cases (t : Text) : Zone.code.over t = .code ∨ ∃ q, Zone.code.over t
    = .quotes q := by
  induction t using reverseRecOn with
  | nil => exact .inl rfl
  | append_singleton t c ih =>
    have hstep : Zone.code.over (t ++ [c]) = (Zone.code.over t).afterQuotes c := by
      rw [Zone.over, foldl_append]
      rfl
    rw [hstep]
    rcases ih with h | ⟨q, h⟩
    · rw [h, Zone.afterQuotes]
      split
      · exact .inr ⟨c, rfl⟩
      · exact .inl rfl
      · intro q hq
        cases hq
    · rw [h, Zone.afterQuotes]
      split
      · exact .inl rfl
      · exact .inr ⟨q, rfl⟩

theorem unquoted_iff {c : Char} (hc : c ≠ ' ') (hquote : isQuote c = false) (t : Text) (n : Nat) :
    Unquoted t c n ↔ (maskQuotes t)[n]? = some c := by
  rw [maskQuotes, getElem?_maskQuotesFrom hc, Unquoted]
  refine and_congr_right fun _ => ?_
  rcases over_code_cases (t.take n) with h | ⟨q, h⟩
  · simp [h, Zone.liveQuotes, hquote]
  · simp [h, Zone.liveQuotes]

theorem unquoted_open_iff (t : Text) (n : Nat) : Unquoted t '\x7b' n
    ↔ (maskQuotes t)[n]? = some '\x7b' :=
  unquoted_iff (by decide) (by decide) t n

theorem unquoted_close_iff (t : Text) (n : Nat) : Unquoted t '\x7d' n
    ↔ (maskQuotes t)[n]? = some '\x7d' :=
  unquoted_iff (by decide) (by decide) t n

theorem count_take {l : Text} {c : Char} {p : Nat → Prop} [DecidablePred p] (hp : ∀ n, p n
    ↔ l[n]? = some c) (k : Nat) :
    (l.take k).count c = Nat.count p k := by
  induction k with
  | zero => simp
  | succ k ih =>
    rw [take_add_one, count_append, ih, Nat.count_succ, if_congr (hp k) rfl rfl]
    congr 1
    cases l[k]? with
    | none => simp
    | some x => simp [count_singleton]

theorem openCount_eq (t : Text) (k : Nat) :
    openCount t k = braceBalance ((maskQuotes t).take k) := by
  rw [openCount, braceBalance, countOf, countOf, count_take (unquoted_open_iff t),
    count_take (unquoted_close_iff t)]

/-! ## the two scanners on a masked text -/

section
variable {i k : Nat} {d : Int} {l : Text}

/-- where a brace is open, the scanners take the same steps -/
theorem blockEndFrom_of_open (i : Nat) (hd : 1 ≤ d) (l : Text) :
    blockEndFrom i d l = (closingBraceFrom i d l).map (· + 1) := by
  induction l generalizing i d with
  | nil => rfl
  | cons c l ih =>
    rw [blockEndFrom, closingBraceFrom]
    split
    · exact ih (i + 1) (by omega)
    · split
      · split
        · rfl
        · next hlast =>
          rw [if_neg (by omega)]
          exact ih (i + 1) (by omega)
      · exact ih (i + 1) hd

/-- the scanners agree on a text whose first brace is no closing one -/
theorem blockEndFrom_eq_closingBraceFrom (i : Nat) {l : Text}
    (h : ∀ k : Nat, l[k]? = some '\x7d' → ∃ j < k, l[j]? = some '\x7b' ∨ l[j]? = some '\x7d') :
    blockEndFrom i 0 l = (closingBraceFrom i 0 l).map (· + 1) := by
  induction l generalizing i with
  | nil => rfl
  | cons c l ih =>
    rw [blockEndFrom, closingBraceFrom]
    split
    · exact blockEndFrom_of_open (i + 1) (by omega) l
    · next hopen =>
      split
      · next hclose =>
        obtain ⟨j, hj, -⟩ := h 0 (by simp [hclose])
        exact absurd hj (Nat.not_lt_zero j)
      · next hclose =>
        refine ih (i + 1) fun k hk => ?_
        -- the brace before the one at `k` is not the first character
        obtain ⟨j, hj, hbrace⟩ := h (k + 1) hk
        cases j with
        | zero => simp [hopen, hclose] at hbrace
        | succ j => exact ⟨j, by omega, hbrace⟩

theorem closesFirst_masked (hk : l[k]? = some '\x7d') (hfirst : ∀ j < k, l[j]? ≠ some '\x7b'
    ∧ l[j]? ≠ some '\x7d') :
    blockEnd l = some k ∧ ∀ n, closingBrace 0 l = some n → k < n := by
  obtain ⟨hlt, hget⟩ := List.getElem?_eq_some_iff.mp hk
  have hflat : ∀ n ≤ k, '\x7b' ∉ l.take n ∧ '\x7d' ∉ l.take n := by
    intro n hn
    refine ⟨fun hm => ?_, fun hm => ?_⟩
    · obtain ⟨j, hj, hx⟩ := mem_take_iff_getElem.mp hm
      exact (hfirst j (by omega)).1 (by rw [getElem?_eq_getElem (by omega), hx])
    · obtain ⟨j, hj, hx⟩ := mem_take_iff_getElem.mp hm
      exact (hfirst j (by omega)).2 (by rw [getElem?_eq_getElem (by omega), hx])
  constructor
  · have hsplit : l = l.take k ++ '\x7d' :: l.drop (k + 1) := by
      rw [← hget, ← drop_eq_getElem_cons hlt, take_append_drop]
    obtain ⟨hopen, hclose⟩ := hflat k le_rfl
    have hend := blockEnd_flat hopen hclose (l.drop (k + 1))
    rw [← hsplit, length_take, Nat.min_eq_left hlt.le] at hend
    exact hend
  · intro n hn
    obtain ⟨-, hone⟩ := ((closingBrace_eq_some_iff 0 l n).mp hn).1
    by_contra hle
    obtain ⟨hopen, hclose⟩ := hflat n (by omega)
    rw [braceBalance_of_flat hopen hclose] at hone
    omega

/-- a scan that finds no end has met no brace that closes more than is open -/
theorem enough_of_blockEndFrom_none (hd : 0 ≤ d) (h : blockEndFrom i d l = none) : Enough d l := by
  induction l generalizing i d with
  | nil => exact enough_nil.mpr hd
  | cons c l ih =>
    rw [blockEndFrom] at h
    refine enough_cons.mpr ⟨hd, ?_⟩
    unfold braceStep
    split at h
    · next hopen =>
      rw [if_pos hopen]
      exact ih (by omega) h
    · next hopen =>
      rw [if_neg hopen]
      split at h
      · next hclose =>
        rw [if_pos hclose]
        split at h
        · cases h
        · split at h
          · cases h
          · exact ih (by omega) h
      · next hclose =>
        rw [if_neg hclose, add_zero]
        exact ih hd h

/-- up to the end that is found all that is closed was open, and all that was open is closed -/
theorem enough_of_blockEndFrom_some (hd : 0 ≤ d) (h : blockEndFrom i d l = some k) :
    ∃ n, k = i + n ∧ Enough d (l.take n) ∧ d + braceBalance (l.take n) = 0 := by
  have hzero : braceBalance [] = 0 := rfl
  induction l generalizing i d with
  | nil => cases h
  | cons c l ih =>
    -- the end lies behind this character, which leaves `d'` braces open
    have further : 0 ≤ d + braceStep c → blockEndFrom (i + 1) (d + braceStep c) l = some k →
        ∃ n, k = i + n ∧ Enough d ((c :: l).take n) ∧ d + braceBalance ((c :: l).take n) = 0 := by
      intro hd' h'
      obtain ⟨n, hk, henough, hbalance⟩ := ih hd' h'
      refine ⟨n + 1, by omega, ?_, ?_⟩
      · exact enough_cons.mpr ⟨hd, henough⟩
      · rw [take_succ_cons, braceBalance_cons]
        omega
    have hstep : braceStep c = if c = '\x7b' then 1 else if c = '\x7d' then -1 else 0 := rfl
    rw [blockEndFrom] at h
    split at h
    · next hopen =>
      rw [if_pos hopen] at hstep
      exact further (by omega) (by rw [hstep]; exact h)
    · next hopen =>
      rw [if_neg hopen] at hstep
      split at h
      · next hclose =>
        rw [if_pos hclose] at hstep
        split at h
        · next hlast =>
          -- the brace closes the last one that is open and belongs to the block
          have hone : Enough (d + braceStep c) [] := enough_nil.mpr (by omega)
          refine ⟨1, (Option.some.inj h).symm, enough_cons.mpr ⟨hd, hone⟩, ?_⟩
          rw [take_succ_cons, take_zero, braceBalance_cons, hzero]
          omega
        · split at h
          · next hneg =>
            have hnone : Enough d ((c :: l).take 0) := enough_nil.mpr hd
            refine ⟨0, (Option.some.inj h).symm, hnone, ?_⟩
            rw [take_zero, hzero]
            omega
          · exact further (by omega) (by rw [hstep]; exact h)
      · next hclose =>
        rw [if_neg hclose] at hstep
        exact further (by omega) (by rw [hstep, add_zero]; exact h)

end

/-! ## the ends of methods -/

section
variable {code : Text} {s : Nat}

theorem sliceFrom_nat (hs : s ≤ code.length) : sliceFrom code s = code.drop s := by
  have hclamp : clampIndex code.length s = s := by
    rw [clampIndex, if_neg (by omega)]
    omega
  rw [sliceFrom, hclamp]

theorem length_maskQuotes_drop (hs : s ≤ code.length) :
    s + (maskQuotes (code.drop s)).length = code.length := by
  rw [maskQuotes, length_maskQuotesFrom, length_drop]
  omega

theorem onCreateEnd_eq_elim (hs : s ≤ code.length) :
    onCreateEnd code s = s + ((blockEnd (maskQuotes (code.drop s))).getD
      (maskQuotes (code.drop s)).length : Nat) := by
  have hlen := length_maskQuotes_drop hs
  rw [onCreateEnd, sliceFrom_nat hs]
  cases blockEnd (maskQuotes (code.drop s)) with
  | none =>
    show (code.length : Int) = s + ((maskQuotes (code.drop s)).length : Nat)
    omega
  | some i => rfl

theorem methodEnd_eq_elim (hs : s ≤ code.length) : methodEnd code s
    = s + (((closingBrace 0 (maskQuotes (code.drop s))).map (· + 1)).getD
      (maskQuotes (code.drop s)).length : Nat) := by
  have hlen := length_maskQuotes_drop hs
  rw [methodEnd, sliceFrom_nat hs]
  cases closingBrace 0 (maskQuotes (code.drop s)) with
  | none =>
    show (code.length : Int) = s + ((maskQuotes (code.drop s)).length : Nat)
    omega
  | some i =>
    show (s : Int) + i + 1 = s + ((i + 1 : Nat) : Int)
    omega

theorem ends_of_closesFirst (hs : s ≤ code.length) {k : Nat} (h : ClosesFirst (code.drop s) k) :
    onCreateEnd code s = s + k ∧ onCreateEnd code s < methodEnd code s := by
  obtain ⟨hclose, hfirst⟩ := h
  rw [unquoted_close_iff] at hclose
  simp only [unquoted_close_iff, unquoted_open_iff] at hfirst
  obtain ⟨hend, hlater⟩ := closesFirst_masked hclose hfirst
  obtain ⟨hlt, -⟩ := List.getElem?_eq_some_iff.mp hclose
  have he : onCreateEnd code s = s + k := by
    rw [onCreateEnd_eq_elim hs, hend]
    rfl
  refine ⟨he, ?_⟩
  rw [he, methodEnd_eq_elim hs]
  cases hn : closingBrace 0 (maskQuotes (code.drop s)) with
  | none =>
    show (s : Int) + k < s + ((maskQuotes (code.drop s)).length : Nat)
    omega
  | some n =>
    have := hlater n hn
    show (s : Int) + k < s + ((n + 1 : Nat) : Int)
    omega

theorem ends_agree (hs : s ≤ code.length) (h : ∀ k, ¬ ClosesFirst (code.drop s) k) :
    onCreateEnd code s = methodEnd code s := by
  rw [onCreateEnd_eq_elim hs, methodEnd_eq_elim hs, blockEnd, closingBrace,
    blockEndFrom_eq_closingBraceFrom]
  intro k hk
  by_contra hnone
  push Not at hnone
  refine h k ⟨(unquoted_close_iff _ k).mpr hk, fun j hj => ?_⟩
  rw [unquoted_open_iff, unquoted_close_iff]
  exact hnone j hj

theorem openCount_upTo (hs : s ≤ code.length) :
    (∀ k : Nat, s + k ≤ onCreateEnd code s → 0 ≤ openCount (code.drop s) k)
      ∧ (onCreateEnd code s = code.length ∨ ∃ k : Nat, onCreateEnd code s = s + k
        ∧ openCount (code.drop s) k = 0) := by
  have hlen := length_maskQuotes_drop hs
  simp only [openCount_eq]
  rw [onCreateEnd_eq_elim hs]
  generalize maskQuotes (code.drop s) = l at hlen
  cases he : blockEnd l with
  | none =>
    have henough := enough_of_blockEndFrom_none le_rfl he
    refine ⟨fun k _ => ?_, .inl ?_⟩
    · have := henough k
      omega
    · show (s : Int) + (l.length : Nat) = code.length
      omega
  | some n =>
    obtain ⟨m, hm, henough, hbalance⟩ := enough_of_blockEndFrom_some le_rfl he
    obtain rfl : n = m := by omega
    refine ⟨fun k hk => ?_, .inr ⟨n, rfl, by omega⟩⟩
    have hle : k ≤ n := by
      have hk' : (s : Int) + k ≤ s + (n : Nat) := hk
      omega
    have := henough k
    rw [take_take, Nat.min_eq_left hle] at this
    omega

end

/-- **the end of `onCreate` is that of any method unless the first brace that counts is a closing
one, at which it stops while the other scanner goes on; up to it no more braces are closed than
opened, and as many unless the code ends; so it does not pass a brace that closes what was open
before** -/
theorem onCreateEnd_related (code : Text) (s : Nat) (hs : s ≤ code.length) :
    onCreateEnd code s ≤ methodEnd code s
    ∧ ((∀ k, ¬ ClosesFirst (code.drop s) k) → onCreateEnd code s = methodEnd code s)
    ∧ (∀ k, ClosesFirst (code.drop s) k → onCreateEnd code s = s + k
      ∧ onCreateEnd code s < methodEnd code s)
    ∧ (∀ k : Nat, s + k ≤ onCreateEnd code s → 0 ≤ openCount (code.drop s) k)
    ∧ (onCreateEnd code s = code.length ∨ ∃ k : Nat, onCreateEnd code s = s + k
      ∧ openCount (code.drop s) k = 0)
    ∧ ∀ k, Unquoted (code.drop s) '\x7d' k → openCount (code.drop s) k ≤ 0
      → onCreateEnd code s ≤ s + k := by
  obtain ⟨hcounts, hbalanced⟩ := openCount_upTo hs
  refine ⟨?_, ends_agree hs, fun k => ends_of_closesFirst hs, hcounts, hbalanced,
    fun k hclose hcount => ?_⟩
  · by_cases h : ∃ k, ClosesFirst (code.drop s) k
    · obtain ⟨k, hk⟩ := h
      exact (ends_of_closesFirst hs hk).2.le
    · exact (ends_agree hs (not_exists.mp h)).le
  · -- behind the brace the count would be below zero
    by_contra hlt
    have hnext := hcounts (k + 1) (by push_cast; omega)
    have hstep : braceStep '\x7d' = -1 := by decide
    rw [openCount_eq] at hnext hcount
    rw [braceBalance_take_succ ((unquoted_close_iff _ k).mp hclose), hstep] at hnext
    omega

def twoMethods : Text := "f() \x7b s = \"\x7b\"; \x7d void g() \x7b \x7d \x7d"

/-- inside the first method the one scanner stops at its end, the other runs on into the second -/
theorem twoMethods_ends : 5 ≤ twoMethods.length ∧ ClosesFirst (twoMethods.drop 5) 10
    ∧ onCreateEnd twoMethods (5 : Nat) = (5 : Nat) + (10 : Nat)
    ∧ onCreateEnd twoMethods (5 : Nat) < methodEnd twoMethods (5 : Nat) := by
  have hlen : 5 ≤ twoMethods.length := by decide
  have hfirst : ClosesFirst (twoMethods.drop 5) 10 := by decide
  obtain ⟨-, -, hends, -⟩ := onCreateEnd_related twoMethods 5 hlen
  obtain ⟨he, hlt⟩ := hends 10 hfirst
  exact ⟨hlen, hfirst, he, hlt⟩

end Rebind
