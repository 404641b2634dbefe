import Mathlib
import Rebind.Injection.OnCreate

/-!
# Scanners on a text in two parts

What a scanner for the end of a block says depends on the text up to there: on the masked text
`blockEnd` stops at a closing brace with no brace before it, or just past one, and then it does not
look at what follows (`blockEnd_cases`).  A mask goes over a text in two parts with the zone in
which the first part ends (`maskQuotesFrom_append`).

A text is `Plain` if it holds neither braces nor quotes: scanners pass over it.
-/

namespace Rebind

open List

/-! ## plain texts -/

def isPlainChar (c : Char) : Bool := c != '\x7b' && c != '\x7d' && !isQuote c

/-- no brace and no quote -/
def Plain (t : Text) : Prop := ∀ c ∈ t, isPlainChar c

instance (t : Text) : Decidable (Plain t) :=
  inferInstanceAs (Decidable (∀ c ∈ t, isPlainChar c))

theorem plain_append {a b : Text} : Plain (a ++ b) ↔ Plain a ∧ Plain b := by
  simp only [Plain, mem_append, or_imp, forall_and]

theorem Plain.open_not_mem {t : Text} (h : Plain t) : '\x7b' ∉ t := fun hm =>
  absurd (h _ hm) (by decide)

theorem Plain.close_not_mem {t : Text} (h : Plain t) : '\x7d' ∉ t := fun hm =>
  absurd (h _ hm) (by decide)

theorem isQuote_of_plain {c : Char} (h : isPlainChar c) : isQuote c = false := by
  simp only [isPlainChar, Bool.and_eq_true, Bool.not_eq_true'] at h
  exact h.2

/-! ## masks -/

def Zone.over (z : Zone) (t : Text) : Zone := t.foldl Zone.afterQuotes z

theorem maskQuotesFrom_done (done : Text) (z : Zone) (t : Text) :
    maskQuotesFrom done z t = done.reverse ++ maskQuotesFrom [] z t := by
  induction t generalizing done z with
  | nil => simp [maskQuotesFrom]
  | cons c t ih =>
    rw [maskQuotesFrom, maskQuotesFrom, ih, ih [_]]
    simp

theorem maskQuotesFrom_cons (z : Zone) (c : Char) (t : Text) :
    maskQuotesFrom [] z (c :: t)
      = (if z.liveQuotes c then c else ' ') :: maskQuotesFrom [] (z.afterQuotes c) t := by
  rw [maskQuotesFrom, maskQuotesFrom_done]
  rfl

theorem maskQuotesFrom_append (z : Zone) (a b : Text) :
    maskQuotesFrom [] z (a ++ b) = maskQuotesFrom [] z a ++ maskQuotesFrom [] (z.over a) b := by
  induction a generalizing z with
  | nil => rfl
  | cons c a ih =>
    rw [cons_append, maskQuotesFrom_cons, maskQuotesFrom_cons, ih, cons_append]
    rfl

theorem length_maskQuotesFrom (z : Zone) (t : Text) :
    (maskQuotesFrom [] z t).length = t.length := by
  induction t generalizing z with
  | nil => rfl
  | cons c t ih => rw [maskQuotesFrom_cons, length_cons, ih, length_cons]

theorem getElem?_maskQuotesFrom {c : Char} (hc : c ≠ ' ') (z : Zone) (t : Text) (n : Nat) :
    (maskQuotesFrom [] z t)[n]? = some c ↔ t[n]? = some c ∧ (z.over (t.take n)).liveQuotes c := by
  induction t generalizing z n with
  | nil => simp [maskQuotesFrom]
  | cons x t ih =>
    rw [maskQuotesFrom_cons]
    cases n with
    | succ n => exact ih (z.afterQuotes x) n
    | zero =>
      show some (if z.liveQuotes x then x else ' ') = some c ↔ some x = some c ∧ z.liveQuotes c
      rw [Option.some.injEq, Option.some.injEq]
      split
      · next hlive => exact ⟨fun h => ⟨h, h ▸ hlive⟩, And.left⟩
      · next hlive =>
        constructor
        · intro h
          exact absurd h.symm hc
        · rintro ⟨rfl, h⟩
          exact absurd h hlive

theorem mem_maskQuotesFrom {z : Zone} {t : Text} {c : Char} (h : c ∈ maskQuotesFrom [] z t) :
    c = ' ' ∨ c ∈ t := by
  by_cases hc : c = ' '
  · exact .inl hc
  · obtain ⟨n, hn⟩ := mem_iff_getElem?.mp h
    exact .inr (mem_of_getElem? ((getElem?_maskQuotesFrom hc z t n).mp hn).1)

theorem Plain.live_over {t : Text} (h : Plain t) {z : Zone} (hz : z.liveQuotes '\x7d') :
    (z.over t).liveQuotes '\x7d' := by
  induction t generalizing z with
  | nil => exact hz
  | cons c t ih =>
    refine ih (fun x hx => h x (mem_cons_of_mem _ hx)) ?_
    have hc := isQuote_of_plain (h c mem_cons_self)
    cases z with
    | quotes q => cases hz
    | _ =>
      show (if isQuote c then Zone.quotes c else .code).liveQuotes '\x7d'
      rw [hc]
      rfl

/-! ## ends of blocks -/

theorem blockEndFrom_skip {a : Text} (hopen : '\x7b' ∉ a) (hclose : '\x7d' ∉ a) (i : Nat) (d : Int)
    (b : Text) : blockEndFrom i d (a ++ b) = blockEndFrom (i + a.length) d b := by
  induction a generalizing i with
  | nil => rfl
  | cons c a ih =>
    rw [mem_cons, not_or] at hopen hclose
    rw [cons_append, blockEndFrom, if_neg (Ne.symm hopen.1), if_neg (Ne.symm hclose.1),
      ih hopen.2 hclose.2, length_cons]
    congr 1
    omega

theorem blockEndFrom_none {a b : Text} (hopen : '\x7b' ∉ b) (hclose : '\x7d' ∉ b)
    {i : Nat} {d : Int} (h : blockEndFrom i d a = none) : blockEndFrom i d (a ++ b) = none := by
  induction a generalizing i d with
  | nil =>
    have hskip := blockEndFrom_skip hopen hclose i d []
    rw [append_nil] at hskip
    rw [nil_append, hskip, blockEndFrom]
  | cons c a ih =>
    rw [blockEndFrom] at h
    rw [cons_append, blockEndFrom]
    split at h
    · next hc => rw [if_pos hc, ih h]
    · next hc =>
      rw [if_neg hc]
      split at h
      · next hc' =>
        rw [if_pos hc']
        split at h
        · cases h
        · next hd =>
          rw [if_neg hd]
          split at h
          · cases h
          · next hd' => rw [if_neg hd', ih h]
      · next hc' => rw [if_neg hc', ih h]

/-- the end of a block lies at a closing brace with no brace before it, or just past one; then what
follows does not matter -/
theorem blockEndFrom_cases {t : Text} {i k : Nat} {d : Int} (hd : 0 ≤ d)
    (h : blockEndFrom i d t = some k) : ∃ n, k = i + n ∧ n ≤ t.length
      ∧ ((d = 0 ∧ '\x7b' ∉ t.take n ∧ '\x7d' ∉ t.take n ∧ t[n]? = some '\x7d')
        ∨ ((0 < d ∨ '\x7b' ∈ t.take n) ∧ ∀ b, blockEndFrom i d (t.take n ++ b) = some k)) := by
  induction t generalizing i d with
  | nil => simp [blockEndFrom] at h
  | cons c t ih =>
    rw [blockEndFrom] at h
    split at h
    · next hc =>
      obtain ⟨n, hk, hn, ⟨h0, -⟩ | ⟨-, hlocal⟩⟩ := ih (by omega) h
      · omega
      · refine ⟨n + 1, by omega, by simpa using hn, .inr ⟨.inr (by simp [hc]), fun b => ?_⟩⟩
        rw [take_succ_cons, cons_append, blockEndFrom, if_pos hc, hlocal]
    · next hc =>
      split at h
      · next hc' =>
        split at h
        · next hone =>
          refine ⟨1, (Option.some.inj h).symm, by simp, .inr ⟨.inl (by omega), fun b => ?_⟩⟩
          rw [take_succ_cons, cons_append, blockEndFrom, if_neg hc, if_pos hc', if_pos hone, h]
        · next hone =>
          split at h
          · next hneg =>
            exact ⟨0, (Option.some.inj h).symm, by simp,
              .inl ⟨by omega, by simp, by simp, by simp [hc']⟩⟩
          · next hneg =>
            obtain ⟨n, hk, hn, ⟨h0, -⟩ | ⟨-, hlocal⟩⟩ := ih (by omega) h
            · omega
            · refine ⟨n + 1, by omega, by simpa using hn, .inr ⟨.inl (by omega), fun b => ?_⟩⟩
              rw [take_succ_cons, cons_append, blockEndFrom, if_neg hc, if_pos hc',
                if_neg hone, if_neg hneg, hlocal]
      · next hc' =>
        obtain ⟨n, hk, hn, ⟨h0, hopen, hclose, hx⟩ | ⟨hin, hlocal⟩⟩ := ih hd h
        · refine ⟨n + 1, by omega, by simpa using hn, .inl ⟨h0, ?_, ?_, by simpa using hx⟩⟩
          · rw [take_succ_cons, mem_cons, not_or]
            exact ⟨Ne.symm hc, hopen⟩
          · rw [take_succ_cons, mem_cons, not_or]
            exact ⟨Ne.symm hc', hclose⟩
        · refine ⟨n + 1, by omega, by simpa using hn,
            .inr ⟨hin.imp id (fun hm => by simp [hm]), fun b => ?_⟩⟩
          rw [take_succ_cons, cons_append, blockEndFrom, if_neg hc, if_neg hc', hlocal]

theorem blockEnd_cases {t : Text} {k : Nat} (h : blockEnd t = some k) : k ≤ t.length
    ∧ (('\x7b' ∉ t.take k ∧ '\x7d' ∉ t.take k ∧ t[k]? = some '\x7d')
      ∨ ('\x7b' ∈ t.take k ∧ ∀ b, blockEnd (t.take k ++ b) = some k)) := by
  obtain ⟨n, hk, hn, hcases⟩ := blockEndFrom_cases le_rfl h
  obtain rfl : k = n := by omega
  refine ⟨hn, hcases.imp (fun hflat => hflat.2) (fun hin => ⟨?_, hin.2⟩)⟩
  exact hin.1.resolve_left (lt_irrefl 0)

theorem blockEnd_flat {a : Text} (hopen : '\x7b' ∉ a) (hclose : '\x7d' ∉ a) (b : Text) :
    blockEnd (a ++ '\x7d' :: b) = some a.length := by
  rw [blockEnd, blockEndFrom_skip hopen hclose, blockEndFrom]
  simp

end Rebind
