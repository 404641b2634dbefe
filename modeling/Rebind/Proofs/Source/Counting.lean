import Mathlib
import Rebind.Proofs.Pattern.Reading
import Rebind.Source.ClassBody

/-!
# Counting braces

`closingBrace d t` walks over `t` with a count of open braces that starts at `d`.  Each character
adds its `braceStep`, and the walk stops at the first closing brace that finds one brace open
(`closingBrace_cons`). From this equation follows how a count behaves on a text that is put
together:

* `closingBrace_append_left`: what comes behind the brace that was found does not matter;
* `closingBrace_append_right`: a text without such a brace hands its balance on to what follows;
* `closingBrace_insert`: a text without braces, put in before the brace that is found, moves it, and
  so does one that closes only what it opens (`closingBrace_insert_of_none`).
-/

namespace Rebind

open List Pattern

def braceStep (c : Char) : Int := if c = '\x7b' then 1 else if c = '\x7d' then -1 else 0

theorem braceBalance_cons (c : Char) (t : Text) :
    braceBalance (c :: t) = braceStep c + braceBalance t := by
  have hne : ('\x7b' : Char) ≠ '\x7d' := by decide
  unfold braceBalance braceStep countOf
  by_cases ho : c = '\x7b'
  · subst ho
    rw [count_cons_self, count_cons_of_ne hne, if_pos rfl]
    push_cast
    omega
  · by_cases hc : c = '\x7d'
    · subst hc
      rw [count_cons_self, count_cons_of_ne hne.symm, if_neg ho, if_pos rfl]
      push_cast
      omega
    · rw [count_cons_of_ne ho, count_cons_of_ne hc, if_neg ho, if_neg hc]
      omega

theorem closingBraceFrom_cons (i : Nat) (d : Int) (c : Char) (t : Text) :
    closingBraceFrom i d (c :: t)
      = if c = '\x7d' ∧ d = 1 then some i else closingBraceFrom (i + 1) (d + braceStep c) t := by
  have hne : ('\x7d' : Char) ≠ '\x7b' := by decide
  rw [closingBraceFrom]
  by_cases ho : c = '\x7b'
  · simp [ho, hne.symm, braceStep]
  · by_cases hc : c = '\x7d'
    · by_cases hd : d = 1
      · simp [hc, hd, hne]
      · have hd' : d + -1 ≠ 0 := by omega
        simp [hc, hd, hd', hne, braceStep, sub_eq_add_neg]
    · simp [ho, hc, braceStep]

theorem closingBraceFrom_eq (i : Nat) (d : Int) (t : Text) :
    closingBraceFrom i d t = (closingBrace d t).map (i + ·) := by
  induction t generalizing i d with
  | nil => rfl
  | cons c t ih =>
    rw [closingBrace, closingBraceFrom_cons, closingBraceFrom_cons]
    split
    · rfl
    · rw [ih, ih (0 + 1), Option.map_map]
      refine congrArg (fun f => Option.map f _) (funext fun n => ?_)
      show i + 1 + n = i + (0 + 1 + n)
      omega

theorem closingBrace_cons (d : Int) (c : Char) (t : Text) : closingBrace d (c :: t)
    = if c = '\x7d' ∧ d = 1 then some 0 else (closingBrace (d + braceStep c) t).map (1 + ·) := by
  rw [closingBrace, closingBraceFrom_cons, closingBraceFrom_eq]

section
variable {d : Int} {a b t w x y : Text} {n : Nat}

theorem closingBrace_lt (h : closingBrace d t = some n) : n < t.length := by
  induction t generalizing d n with
  | nil => cases h
  | cons c t ih =>
    rw [closingBrace_cons] at h
    rw [length_cons]
    split at h
    · have := Option.some.inj h
      omega
    · obtain ⟨j, hj, rfl⟩ := Option.map_eq_some_iff.mp h
      have := ih hj
      omega

theorem closingBrace_append_left (h : closingBrace d a = some n) (b : Text) :
    closingBrace d (a ++ b) = some n := by
  induction a generalizing d n with
  | nil => cases h
  | cons c a ih =>
    rw [closingBrace_cons] at h
    rw [cons_append, closingBrace_cons]
    split at h
    · next hc => rw [if_pos hc, h]
    · next hc =>
      obtain ⟨j, hj, rfl⟩ := Option.map_eq_some_iff.mp h
      rw [if_neg hc, ih hj]
      rfl

theorem closingBrace_append_right (h : closingBrace d a = none) (b : Text) :
    closingBrace d (a ++ b) = (closingBrace (d + braceBalance a) b).map (a.length + ·) := by
  induction a generalizing d with
  | nil => simp [braceBalance, countOf]
  | cons c a ih =>
    rw [closingBrace_cons] at h
    rw [cons_append, closingBrace_cons]
    split at h
    · cases h
    · next hc =>
      rw [if_neg hc, ih (Option.map_eq_none_iff.mp h), Option.map_map, braceBalance_cons, add_assoc]
      refine congrArg (fun f => Option.map f _) (funext fun n => ?_)
      show 1 + (a.length + n) = (c :: a).length + n
      rw [length_cons]
      omega

theorem closingBrace_none_of_flat (hopen : '\x7b' ∉ w) (hclose : '\x7d' ∉ w) :
    closingBrace d w = none := by
  induction w generalizing d with
  | nil => rfl
  | cons c w ih =>
    rw [mem_cons, not_or] at hopen hclose
    rw [closingBrace_cons, if_neg fun h => hclose.1 h.1.symm, ih hopen.2 hclose.2]
    rfl

theorem braceBalance_of_flat (hopen : '\x7b' ∉ w) (hclose : '\x7d' ∉ w) : braceBalance w = 0 := by
  rw [braceBalance, countOf, countOf, count_eq_zero_of_not_mem hopen,
    count_eq_zero_of_not_mem hclose]
  rfl

theorem closingBrace_none_of_le (h : closingBrace d (x ++ y) = some n) (hx : x.length ≤ n) :
    closingBrace d x = none := by
  cases hj : closingBrace d x with
  | none => rfl
  | some j =>
    have hlt := closingBrace_lt hj
    rw [closingBrace_append_left hj] at h
    have := Option.some.inj h
    omega

/-- a text that closes nothing and leaves nothing open, put in before the brace that is found -/
theorem closingBrace_insert_of_none (h : closingBrace d (x ++ y) = some n) (hx : x.length ≤ n)
    (hw : closingBrace (d + braceBalance x) w = none) (hzero : braceBalance w = 0) :
    closingBrace d (x ++ w ++ y) = some (n + w.length) := by
  have hnone := closingBrace_none_of_le h hx
  rw [closingBrace_append_right hnone] at h
  rw [append_assoc, closingBrace_append_right hnone, closingBrace_append_right hw, hzero, add_zero,
    Option.map_map]
  obtain ⟨j, hj, rfl⟩ := Option.map_eq_some_iff.mp h
  rw [hj]
  show some (x.length + (w.length + j)) = _
  rw [show x.length + (w.length + j) = x.length + j + w.length by omega]

theorem closingBrace_insert (h : closingBrace d (x ++ y) = some n) (hx : x.length ≤ n)
    (hopen : '\x7b' ∉ w) (hclose : '\x7d' ∉ w) :
    closingBrace d (x ++ w ++ y) = some (n + w.length) :=
  closingBrace_insert_of_none h hx (closingBrace_none_of_flat hopen hclose)
    (braceBalance_of_flat hopen hclose)

end

theorem span_of_mem_innerClasses {code : Text} {c : InnerClass} (h : c ∈ innerClasses code) :
    c.start ≤ c.stop ∧ c.stop ≤ code.length := by
  unfold innerClasses at h
  obtain ⟨m, hm, rfl⟩ := mem_map.mp h
  have hof := of_mem_findAll (mem_filter.mp hm).1
  have hle := hof.stop_le
  have hstart : m.start ≤ m.stop := by
    rw [hof.stop]
    omega
  dsimp only
  split
  · next i hi =>
    have hlt := closingBrace_lt hi
    rw [length_drop] at hlt
    omega
  · omega

end Rebind
