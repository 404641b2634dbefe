import Mathlib
import Rebind.Proofs.Layout.WhiteSpace
import Rebind.Proofs.Source.LineSpans
import Rebind.Source.Method

/-!
# Where methods start and end

A method is looked for line by line, and its end by a count of braces from the start of its first
line on. Here both places are told by offsets of the text alone:

* `LineOpens p t i`: a line starts at `i`, with a text that `p` covers;
* `ClosesFrom t s e`: a closing brace ends the part from `s` to `e`, which has as many braces of
  either kind and had exactly one open behind an opening brace before.

`firstLineOffset` gives the least offset of the first kind (`firstLineOffset_eq_some_iff`).  The
walk over braces does not ask whether a brace was opened before: a count that is one at a closing
brace went from zero to one at an opening brace (`exists_opening`).  `methodExtent_exact` puts the
two together.
-/

namespace Rebind

open List Pattern

variable {i n s : Nat} {P : Nat → Prop} {p : Pattern} {t : Text}

/-! ## lines that begin with a pattern -/

/-- a line of the text starts at an offset: at the first one, and behind every newline -/
def BeginsLine (t : Text) : Nat → Prop
  | 0 => True
  | i + 1 => t[i]? = some '\n'

def lineFrom (t : Text) (i : Nat) : Text := (t.drop i).takeWhile (· != '\n')

/-- a line starts at `i`, with a text that the pattern covers -/
def LineOpens (p : Pattern) (t : Text) (i : Nat) : Prop := BeginsLine t i ∧ Starts p (lineFrom t i)

theorem lineFrom_behind (l t : Text) (j : Nat) : lineFrom (l ++ '\n' :: t) (l.length + 1 + j)
    = lineFrom t j := by
  have hdrop : (l ++ '\n' :: t).drop (l.length + 1 + j) = t.drop j := by
    rw [← drop_drop, ← drop_drop, drop_left, drop_one, tail_cons]
  rw [lineFrom, hdrop, lineFrom]

section
variable {l t : Text} (hl : '\n' ∉ l)
include hl

theorem beginsLine_line : BeginsLine l i ↔ i = 0 := by
  cases i with
  | zero => exact iff_of_true trivial rfl
  | succ i => exact iff_of_false (fun h => hl (mem_of_getElem? h)) (Nat.succ_ne_zero i)

theorem lineFrom_line : lineFrom l 0 = l := by
  rw [lineFrom, drop_zero, takeWhile_eq_self_iff]
  intro c hc
  rw [bne_iff_ne]
  rintro rfl
  exact hl hc

theorem beginsLine_behind : BeginsLine (l ++ '\n' :: t) i ↔ i = 0 ∨ ∃ j, i = l.length + 1 + j
    ∧ BeginsLine t j := by
  cases i with
  | zero => exact iff_of_true trivial (.inl rfl)
  | succ i =>
    have hshift : (∃ j, i + 1 = l.length + 1 + j ∧ BeginsLine t j)
        ↔ l.length ≤ i ∧ BeginsLine t (i - l.length) := by
      constructor
      · rintro ⟨j, hj, hbegins⟩
        exact ⟨by omega, (show i - l.length = j by omega) ▸ hbegins⟩
      · rintro ⟨hle, hbegins⟩
        exact ⟨i - l.length, by omega, hbegins⟩
    rw [or_iff_right (Nat.succ_ne_zero i), hshift, BeginsLine]
    by_cases hle : l.length ≤ i
    · rw [getElem?_append_right hle, and_iff_right hle]
      cases i - l.length with
      | zero => exact iff_of_true rfl trivial
      | succ j => rfl
    · rw [getElem?_append_left (by omega)]
      exact iff_of_false (fun h => hl (mem_of_getElem? h)) (fun h => hle h.1)

variable {p : Pattern} {i : Nat}

theorem lineOpens_behind : LineOpens p (l ++ '\n' :: t) i
    ↔ (i = 0 ∧ Starts p l) ∨ ∃ j, i = l.length + 1 + j ∧ LineOpens p t j := by
  rw [LineOpens, beginsLine_behind hl, or_and_right]
  refine or_congr (and_congr_right ?_) ?_
  · rintro rfl
    rw [lineFrom, drop_zero, takeWhile_of_not_mem hl]
  · constructor
    · rintro ⟨⟨j, rfl, hbegins⟩, hstarts⟩
      rw [lineFrom_behind] at hstarts
      exact ⟨j, rfl, hbegins, hstarts⟩
    · rintro ⟨j, rfl, hbegins, hstarts⟩
      rw [lineFrom_behind]
      exact ⟨⟨j, rfl, hbegins⟩, hstarts⟩

theorem lineOpens_unlines_cons {ls : List Text} : LineOpens p (unlines (l :: ls)) i
    ↔ (i = 0 ∧ Starts p l) ∨ ls ≠ [] ∧ ∃ j, i = l.length + 1 + j ∧ LineOpens p (unlines ls) j := by
  cases ls with
  | nil =>
    rw [show unlines [l] = l by simp [unlines], LineOpens, beginsLine_line hl]
    simp only [ne_eq, not_true_eq_false, false_and, or_false]
    refine and_congr_right ?_
    rintro rfl
    rw [lineFrom_line hl]
  | cons l' ls =>
    rw [unlines_cons (cons_ne_nil l' ls), lineOpens_behind hl, and_iff_right (cons_ne_nil l' ls)]

end

theorem exists_lineOpens_iff : (∃ i, LineOpens p t i) ↔ ∃ l ∈ lines t, Starts p l := by
  have hall : ∀ ls : List Text, (∀ l ∈ ls, '\n' ∉ l) →
      ((ls ≠ [] ∧ ∃ i, LineOpens p (unlines ls) i) ↔ ∃ l ∈ ls, Starts p l) := by
    intro ls
    induction ls with
    | nil => simp
    | cons l ls ih =>
      intro hls
      rw [exists_mem_cons_iff, ← ih (fun x hx => hls x (mem_cons_of_mem _ hx)),
        and_iff_right (cons_ne_nil l ls)]
      constructor
      · rintro ⟨i, h⟩
        rcases (lineOpens_unlines_cons (hls l mem_cons_self)).mp h with ⟨-, h⟩ | ⟨hne, j, -, hj⟩
        · exact .inl h
        · exact .inr ⟨hne, j, hj⟩
      · rintro (h | ⟨hne, j, hj⟩)
        · exact ⟨0, (lineOpens_unlines_cons (hls l mem_cons_self)).mpr (.inl ⟨rfl, h⟩)⟩
        · exact ⟨_, (lineOpens_unlines_cons (hls l mem_cons_self)).mpr (.inr ⟨hne, j, rfl, hj⟩)⟩
  have ht := hall (lines t) (fun l hl => not_mem_of_mem_lines hl)
  rwa [unlines_lines, and_iff_right (lines_ne_nil t)] at ht

theorem beginsLine_iff : BeginsLine t i
    ↔ ∃ a b, t = a ++ b ∧ i = a.length ∧ (a = [] ∨ ∃ front, a = front ++ ['\n']) := by
  cases i with
  | zero => exact iff_of_true trivial ⟨[], t, rfl, rfl, .inl rfl⟩
  | succ i =>
    constructor
    · intro h
      obtain ⟨hlt, hget⟩ := List.getElem?_eq_some_iff.mp h
      refine ⟨t.take (i + 1), t.drop (i + 1), (take_append_drop _ t).symm, ?_, .inr ⟨t.take i, ?_⟩⟩
      · rw [length_take]
        omega
      · rw [take_add_one, h, Option.toList_some]
    · rintro ⟨_, b, rfl, hi, rfl | ⟨front, rfl⟩⟩
      · cases hi
      · have hlen : i = front.length := by simpa using hi
        simp [BeginsLine, hlen]

theorem lineOpens_iff : LineOpens p t i
    ↔ ∃ a s r, t = a ++ (s ++ r) ∧ i = a.length ∧ (a = [] ∨ ∃ front, a = front ++ ['\n']) ∧ '\n' ∉ s
      ∧ p.Covers s := by
  rw [LineOpens, beginsLine_iff]
  constructor
  · rintro ⟨⟨a, b, rfl, rfl, ha⟩, s, r, hline, hs⟩
    rw [lineFrom, drop_left] at hline
    refine ⟨a, s, r ++ b.dropWhile (· != '\n'), ?_, rfl, ha, fun hm => ?_, hs⟩
    · rw [← append_assoc s, ← hline, takeWhile_append_dropWhile]
    · have hmem : '\n' ∈ b.takeWhile (· != '\n') := by
        rw [hline]
        exact mem_append_left _ hm
      simpa using mem_takeWhile_imp hmem
  · rintro ⟨a, s, r, rfl, rfl, ha, hflat, hs⟩
    refine ⟨⟨a, s ++ r, rfl, rfl, ha⟩, s, r.takeWhile (· != '\n'), ?_, hs⟩
    rw [lineFrom, drop_left, takeWhile_append_of_pos]
    intro c hc
    rw [bne_iff_ne]
    rintro rfl
    exact hflat hc

theorem matchStart_isSome_iff (hfree : p.isFree) : (p.matchStart t).isSome = true ↔ Starts p t := by
  refine ⟨starts_of_matchStart, fun h => ?_⟩
  by_contra hnone
  exact not_starts_of_matchAt hfree (Option.not_isSome_iff_eq_none.mp hnone) h

theorem isLeast_shift {k : Nat} : IsLeast {i | ∃ j, i = k + j ∧ P j} n ↔ k ≤ n
    ∧ IsLeast {j | P j} (n - k) := by
  constructor
  · rintro ⟨⟨j, rfl, hj⟩, hleast⟩
    refine ⟨by omega, by simpa using hj, fun i hi => ?_⟩
    have := hleast ⟨i, rfl, hi⟩
    omega
  · rintro ⟨hle, hmem, hleast⟩
    refine ⟨⟨n - k, by omega, hmem⟩, ?_⟩
    rintro _ ⟨j, rfl, hj⟩
    have := hleast hj
    omega

/-- the offset that is found is the least one at which a line opens with the pattern -/
theorem firstLineOffset_eq_some_iff (hfree : p.isFree) :
    firstLineOffset p 0 (lines t) = some s ↔ IsLeast {i | LineOpens p t i} s := by
  -- the lines that are left start at `offset`
  have hall : ∀ (ls : List Text) (offset : Nat), (∀ l ∈ ls, '\n' ∉ l)
    → (firstLineOffset p offset ls = some s
      ↔ ls ≠ [] ∧ offset ≤ s ∧ IsLeast {i | LineOpens p (unlines ls) i} (s - offset)) := by
    intro ls
    induction ls with
    | nil => simp [firstLineOffset]
    | cons l ls ih =>
      intro offset hls
      have hcons : ∀ i, LineOpens p (unlines (l :: ls)) i ↔ (i = 0 ∧ Starts p l)
          ∨ ls ≠ [] ∧ ∃ j, i = l.length + 1 + j ∧ LineOpens p (unlines ls) j :=
        fun i => lineOpens_unlines_cons (hls l mem_cons_self)
      rw [firstLineOffset, and_iff_right (cons_ne_nil l ls)]
      split
      · next hmatch =>
        have hzero := (hcons 0).mpr (.inl ⟨rfl, (matchStart_isSome_iff hfree).mp hmatch⟩)
        constructor
        · intro h
          obtain rfl := Option.some.inj h
          rw [Nat.sub_self]
          exact ⟨le_rfl, hzero, fun i _ => Nat.zero_le i⟩
        · rintro ⟨hle, -, hleast⟩
          have := hleast hzero
          rw [show s = offset by omega]
      · next hmatch =>
        rw [matchStart_isSome_iff hfree] at hmatch
        rw [ih _ (fun x hx => hls x (mem_cons_of_mem _ hx))]
        by_cases hne : ls = []
        · refine iff_of_false (fun h => h.1 hne) fun h => ?_
          exact ((hcons _).mp h.2.1).elim (fun h => hmatch h.2) (fun h => h.1 hne)
        · have hset : {i | LineOpens p (unlines (l :: ls)) i}
              = {i | ∃ j, i = l.length + 1 + j ∧ LineOpens p (unlines ls) j} :=
            Set.ext fun i => (hcons i).trans
              (by rw [or_iff_right fun h => hmatch h.2, and_iff_right hne]; rfl)
          rw [hset, isLeast_shift, show s - offset - (l.length + 1) = s
            - (offset + l.length + 1) by omega, and_iff_right hne, ← and_assoc]
          refine and_congr_left fun _ => ?_
          omega
  have ht := hall (lines t) 0 (fun l hl => not_mem_of_mem_lines hl)
  rwa [unlines_lines, and_iff_right (lines_ne_nil t), and_iff_right (Nat.zero_le s),
    Nat.sub_zero] at ht

/-! ## ends of blocks -/

/-- a count above zero has got from zero to one at an opening brace -/
theorem exists_opening (h : 1 ≤ braceBalance t) :
    ∃ j < t.length, t[j]? = some '\x7b' ∧ braceBalance (t.take j) = 0 := by
  induction t using List.reverseRecOn with
  | nil => exact absurd h (by decide)
  | append_singleton t c ih =>
    by_cases hbefore : 1 ≤ braceBalance t
    · obtain ⟨j, hj, hopen, hzero⟩ := ih hbefore
      refine ⟨j, by simp; omega, by rw [getElem?_append_left hj, hopen], ?_⟩
      rw [take_append_of_le_length hj.le, hzero]
    · -- the last character is the brace
      have hstep : braceBalance (t ++ [c]) = braceBalance t + braceStep c := by
        rw [braceBalance_append, braceBalance_cons]
        exact congrArg _ (add_zero _)
      have hc : c = '\x7b' := by
        by_contra hne
        have hle : braceStep c ≤ 0 := by
          rw [braceStep, if_neg hne]
          split <;> decide
        omega
      have hone : braceStep c = 1 := by rw [hc]; decide
      exact ⟨t.length, by simp, by simp [hc], by rw [take_left]; omega⟩

/-- the part of the text from `s` to `e` ends with a closing brace and has as many braces of either
kind, and somewhere in it an opening brace left exactly one open -/
structure ClosesFrom (t : Text) (s e : Nat) : Prop where
  last : ∃ i, e = i + 1 ∧ t[i]? = some '\x7d'
  even : ((t.take e).drop s).count '\x7b' = ((t.take e).drop s).count '\x7d'
  opened : ∃ j, j + 1 < e ∧ t[j]? = some '\x7b' ∧ braceBalance ((t.take (j + 1)).drop s) = 1

theorem braceBalance_eq_zero_iff : braceBalance t = 0 ↔ t.count '\x7b' = t.count '\x7d' := by
  rw [braceBalance, countOf, countOf]
  omega

theorem braceBalance_part_succ {c : Char} (h : t[s + n]? = some c) :
    braceBalance ((t.take (s + n + 1)).drop s) = braceBalance ((t.drop s).take n)
      + braceStep c := by
  rw [drop_take, show s + n + 1 - s = n + 1 by omega]
  exact braceBalance_take_succ (by rw [getElem?_drop, h])

/-- that a brace was opened before is no further condition for the brace that closes the last open
one -/
theorem closesFrom_iff {e : Nat} : ClosesFrom t s e ↔ ∃ n, e = s + n + 1
    ∧ ClosesAt 0 (t.drop s) n := by
  have hclose : braceStep '\x7d' = -1 := by decide
  have hopen : braceStep '\x7b' = 1 := by decide
  constructor
  · rintro ⟨⟨i, rfl, hi⟩, heven, j, hj, -, hone⟩
    have hs : s ≤ j := by
      by_contra hlt
      have hnil : (t.take (j + 1)).drop s = [] := by
        rw [drop_eq_nil_iff, length_take]
        omega
      rw [hnil] at hone
      exact absurd hone (by decide)
    obtain ⟨n, rfl⟩ := Nat.exists_eq_add_of_le (show s ≤ i by omega)
    rw [← braceBalance_eq_zero_iff, braceBalance_part_succ hi, hclose] at heven
    exact ⟨n, rfl, by rw [getElem?_drop, hi], by omega⟩
  · rintro ⟨n, rfl, hn, hone⟩
    rw [getElem?_drop] at hn
    rw [zero_add] at hone
    refine ⟨⟨s + n, rfl, hn⟩, ?_, ?_⟩
    · rw [← braceBalance_eq_zero_iff, braceBalance_part_succ hn, hone, hclose]
      rfl
    · obtain ⟨j, hj, hbrace, hzero⟩ := exists_opening hone.ge
      have hjn : j < n := lt_of_lt_of_le hj (length_take_le n _)
      rw [getElem?_take_of_lt hjn, getElem?_drop] at hbrace
      rw [take_take, Nat.min_eq_left hjn.le] at hzero
      exact ⟨s + j, by omega, hbrace, by rw [braceBalance_part_succ hbrace, hzero, hopen]; rfl⟩

theorem closingBrace_eq_some_iff_isLeast {d : Int} : closingBrace d t = some n
    ↔ IsLeast {n | ClosesAt d t n} n := by
  rw [closingBrace_eq_some_iff]
  refine and_congr_right fun _ => ⟨fun h j hj => ?_, fun h j hlt hj => ?_⟩
  · by_contra hlt
    exact h j (by omega) hj
  · have := h hj
    omega

theorem closingBrace_drop_eq_some_iff :
    (closingBrace 0 (t.drop s)).map (s + · + 1) = some n ↔ IsLeast {e | ClosesFrom t s e} n := by
  have hset : {e | ClosesFrom t s e} = {e | ∃ n, e = s + 1 + n ∧ ClosesAt 0 (t.drop s) n} := by
    ext e
    refine closesFrom_iff.trans (exists_congr fun n => and_congr_left fun _ => ?_)
    omega
  rw [hset, isLeast_shift, ← closingBrace_eq_some_iff_isLeast, Option.map_eq_some_iff]
  constructor
  · rintro ⟨k, hk, rfl⟩
    exact ⟨by omega, by rw [hk, show s + k + 1 - (s + 1) = k by omega]⟩
  · rintro ⟨hle, hk⟩
    exact ⟨_, hk, by omega⟩

theorem exists_isLeast_iff : (∃ n, IsLeast {n | P n} n) ↔ ∃ n, P n := by
  constructor
  · rintro ⟨n, h, -⟩
    exact ⟨n, h⟩
  · rintro h
    classical
    exact ⟨Nat.find h, Nat.find_spec h, fun _ hm => Nat.find_min' h hm⟩

theorem eq_none_iff_of_isLeast {o : Option Nat} (h : ∀ n, o = some n ↔ IsLeast {n | P n} n) :
    o = none ↔ ∀ n, ¬ P n := by
  rw [← not_exists, ← exists_isLeast_iff, ← exists_congr h, Option.eq_none_iff_forall_ne_some,
    not_exists]

/-! ## methods -/

theorem methodLine_free (name : Text) : (methodLine name).isFree = true := rfl

theorem methodExtent_eq_some_iff {code name : Text} {e : Option Nat} :
    methodExtent code name = some (s, e) ↔ IsLeast {i | LineOpens (methodLine name) code i} s
      ∧ ∀ n, e = some n ↔ IsLeast {n | ClosesFrom code s n} n := by
  rw [methodExtent, Option.map_eq_some_iff]
  constructor
  · rintro ⟨s', hs, he⟩
    obtain ⟨rfl, rfl⟩ := Prod.mk.inj he
    exact ⟨(firstLineOffset_eq_some_iff (methodLine_free name)).mp hs,
      fun n => closingBrace_drop_eq_some_iff⟩
  · rintro ⟨hs, he⟩
    refine ⟨s, (firstLineOffset_eq_some_iff (methodLine_free name)).mpr hs,
      Prod.ext rfl (Option.ext fun n => ?_)⟩
    exact closingBrace_drop_eq_some_iff.trans (he n).symm

theorem methodExtent_eq_none_iff {code name : Text} :
    methodExtent code name = none ↔ ∀ i, ¬ LineOpens (methodLine name) code i := by
  rw [methodExtent, Option.map_eq_none_iff]
  exact eq_none_iff_of_isLeast fun s => firstLineOffset_eq_some_iff (methodLine_free name)

/-- a method is not found exactly if no line opens with its header.  Otherwise it starts with the
first line that does, and ends behind the first closing brace that leaves as many braces of either
kind, once an opening brace has left one open; it has no end exactly if there is no such brace. -/
theorem methodExtent_exact (code name : Text) :
    (methodExtent code name = none ↔ ∀ l ∈ lines code, ¬ Starts (methodLine name) l)
    ∧ ∀ s e, methodExtent code name = some (s, e)
      ↔ IsLeast {i | LineOpens (methodLine name) code i} s
      ∧ (∀ n, e = some n ↔ IsLeast {n | ClosesFrom code s n} n)
        ∧ (e = none ↔ ∀ n, ¬ ClosesFrom code s n) := by
  constructor
  · rw [methodExtent_eq_none_iff, ← not_exists, exists_lineOpens_iff]
    push Not
    rfl
  · intro s e
    rw [methodExtent_eq_some_iff]
    exact and_congr_right fun _ => ⟨fun h => ⟨h, eq_none_iff_of_isLeast h⟩, fun h => h.1⟩

end Rebind
