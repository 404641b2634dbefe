import Mathlib
import Rebind.Proofs.Source.ClassEnd
import Rebind.Proofs.Source.Matching
import Rebind.Specimen.Source

/-!
# The end of a class full of stray braces

A specimen class has a method whose lines hold stray braces in comments and in string literals.  The
scanner for the end of a class goes over a text line by line:

* a newline means the same whatever follows it, so a mask goes over a text that ends with one on its
  own (`maskInertFrom_append`);
* a part in which no brace closes the class hands its balance on (`classEndFrom_append`);
* a line is `Neutral` if it leaves the scanner in code with as many braces open as before, and so is
  every line of `bracedFiller` (`neutral_bracedFiller`), though their braces do not pair
  (`braceBalance_bracedFiller`).

So the end that is found is that of the class, for any number of lines (`classEnd_bigClass`).
-/

namespace Rebind

open List

/-! ## texts that end with a newline -/

theorem Zone.after_newline (z : Zone) (next next' : Option Char) :
    z.after '\n' next = z.after '\n' next' := by
  cases z with
  | code => simp [Zone.after]
  | lineComment => rfl
  | blockComment => simp [Zone.after]
  | quotes q => rfl

theorem shown_newline (z : Zone) (next next' : Option Char) :
    shown z '\n' next = shown z '\n' next' := by
  rw [shown, shown, Zone.live, Zone.live, z.after_newline next next']

/-- a mask over a text that ends with a newline, and what follows -/
theorem maskInertFrom_append (z : Zone) (a b : Text) : maskInertFrom [] z (a ++ '\n' :: b)
    = maskInertFrom [] z (a ++ ['\n'])
      ++ maskInertFrom [] (z.along (a ++ ['\n']) (a.length + 1)) b := by
  induction a generalizing z with
  | nil =>
    rw [nil_append, nil_append, maskInertFrom_cons, maskInertFrom_cons,
      shown_newline z b.head? none, z.after_newline b.head? none]
    rfl
  | cons c a ih =>
    have hhead : (a ++ '\n' :: b).head? = (a ++ ['\n']).head? := by cases a <;> rfl
    rw [cons_append, cons_append, maskInertFrom_cons, maskInertFrom_cons, ih, hhead]
    rfl

theorem length_maskInertFrom (z : Zone) (t : Text) : (maskInertFrom [] z t).length = t.length := by
  induction t generalizing z with
  | nil => rfl
  | cons c t ih => rw [maskInertFrom_cons, length_cons, ih, length_cons]

/-- a part in which no brace closes the class is passed over, with what its braces add up to -/
theorem classEndFrom_append {d : Int} {live a : Text} (hlen : live.length = a.length)
    (h : closingBrace d live = none) (i : Nat) (live' b : Text) :
    (classEndFrom i d (live ++ live') (a ++ b)).value
      = (classEndFrom (i + a.length) (d + braceBalance live) live' b).value := by
  induction live generalizing i d a with
  | nil =>
    have hzero : braceBalance [] = 0 := rfl
    rw [length_eq_zero_iff.mp hlen.symm, hzero, add_zero]
    rfl
  | cons x live ih =>
    cases a with
    | nil => cases hlen
    | cons c a =>
      rw [closingBrace_cons] at h
      split at h
      · cases h
      · next hopen =>
        rw [cons_append, cons_append, classEndFrom_cons, if_neg fun hend => hopen hend.1,
          ih (Nat.succ.inj hlen) (Option.map_eq_none_iff.mp h), braceBalance_cons, length_cons,
          show i + 1 + a.length = i + (a.length + 1) by omega, add_assoc]

/-! ## neutral lines -/

/-- with `d` braces open the scanner closes none of them on the line, and is in code behind it with
`d` open -/
structure Neutral (d : Int) (l : Text) : Prop where
  zone : Zone.code.along (l ++ ['\n']) (l.length + 1) = .code
  none : closingBrace d (maskInert (l ++ ['\n'])) = none
  balance : braceBalance (maskInert (l ++ ['\n'])) = 0

theorem classEndFrom_neutral {d : Int} {l : Text} (h : Neutral d l) (i : Nat) (b : Text) :
    (classEndFrom i d (maskInert (l ++ '\n' :: b)) (l ++ '\n' :: b)).value
      = (classEndFrom (i + (l.length + 1)) d (maskInert b) b).value := by
  have hmask := maskInertFrom_append .code l b
  rw [h.zone] at hmask
  have happend := classEndFrom_append (length_maskInertFrom .code (l ++ ['\n'])) h.none i
    (maskInert b) b
  have hbalance := h.balance
  rw [maskInert] at hbalance
  rw [hbalance, add_zero, length_append, append_assoc] at happend
  rw [maskInert, hmask]
  exact happend

theorem classEndFrom_lines {d : Int} {ls : List Text} (h : ∀ l ∈ ls, Neutral d l) (i : Nat)
    (b : Text) :
    (classEndFrom i d (maskInert (ls.flatMap (· ++ ['\n']) ++ b))
      (ls.flatMap (· ++ ['\n']) ++ b)).value
      = (classEndFrom (i + (ls.flatMap (· ++ ['\n'])).length) d (maskInert b) b).value := by
  induction ls generalizing i with
  | nil => rfl
  | cons l ls ih =>
    have hstep := classEndFrom_neutral (h l mem_cons_self) i (ls.flatMap (· ++ ['\n']) ++ b)
    rw [ih (fun l' hl' => h l' (mem_cons_of_mem _ hl'))] at hstep
    rw [flatMap_cons, append_assoc, append_assoc, singleton_append, hstep, length_append,
      length_append, length_singleton, Nat.add_assoc i]

theorem flatMap_lines (t : Text) : (lines t).flatMap (· ++ ['\n']) = t ++ ['\n'] := by
  have hbehind := unlines_behind (lines t) (cons_ne_nil [] [])
  rw [unlines_append (lines_ne_nil t) (cons_ne_nil _ _), unlines_lines] at hbehind
  exact (hbehind.trans (append_nil _)).symm

namespace Specimen

/-! ## the lines of the method -/

theorem neutral_bracedStatement (i : Nat) :
    Neutral 2 ("        ".toList ++ bracedStatement (i % 4)) := by
  have hall : ∀ k < 4, Zone.code.along ("        ".toList ++ bracedStatement k ++ ['\n'])
        (("        ".toList ++ bracedStatement k).length + 1) = .code
      ∧ closingBrace 2 (maskInert ("        ".toList ++ bracedStatement k ++ ['\n'])) = none
      ∧ braceBalance (maskInert ("        ".toList ++ bracedStatement k ++ ['\n'])) = 0 := by
        decide +kernel
  obtain ⟨hzone, hnone, hbalance⟩ := hall (i % 4) (Nat.mod_lt i (by decide))
  exact ⟨hzone, hnone, hbalance⟩

/-- each line of the method leaves as many braces open as it finds -/
theorem neutral_bracedFiller {n : Nat} {l : Text} (h : l ∈ lines (bracedFiller n)) :
    Neutral 2 l := by
  cases n with
  | zero =>
    -- no statement at all is one empty line
    obtain rfl : l = [] := mem_singleton.mp h
    exact ⟨by decide, by decide, by decide⟩
  | succ n =>
    rw [bracedFiller, body, lines_unlines] at h
    · obtain ⟨i, -, rfl⟩ := mem_map.mp h
      exact neutral_bracedStatement i
    · simp
    · intro l hl
      obtain ⟨i, -, rfl⟩ := mem_map.mp hl
      have hall : ∀ k < 4, '\n' ∉ "        " ++ bracedStatement k := by decide +kernel
      exact hall (i % 4) (Nat.mod_lt i (by decide))

/-! ## braces that do not pair -/

theorem braceBalance_unlines (ls : List Text) :
    braceBalance (unlines ls) = (ls.map braceBalance).sum := by
  induction ls with
  | nil => rfl
  | cons l ls ih =>
    by_cases hls : ls = []
    · simp [hls, unlines]
    · have hnewline : braceStep '\n' = 0 := by decide
      rw [unlines_cons hls, braceBalance_append, braceBalance_cons, hnewline, ih, zero_add,
        map_cons, sum_cons]

/-- of four lines, three open a brace that is not closed -/
theorem braceBalance_bracedFiller (n : Nat) :
    braceBalance (bracedFiller n) = n - (n / 4 : Nat) := by
  have hall : ∀ k < 4, braceBalance ("        " ++ bracedStatement k) = if k = 3 then 0 else 1 := by
    decide +kernel
  rw [bracedFiller, body, braceBalance_unlines, map_map]
  induction n with
  | zero => rfl
  | succ n ih =>
    rw [range_succ, map_append, sum_append, ih, map_singleton, sum_singleton,
      Function.comp_apply, hall (n % 4) (Nat.mod_lt n (by decide))]
    split
    · omega
    · omega

/-! ## the class -/

def bigHeader : Text := "public class Big \x7b".toList

def workHeader : Text := '\n' :: "    void work() \x7b"

def closings : Text := "    \x7d" ++ '\n' :: ("\x7d" ++ ['\n'])

theorem unlines_class (a b f c d : Text) : unlines [a, b, f, c, d, []]
    = a ++ ('\n' :: b ++ '\n' :: (f ++ ['\n'] ++ (c ++ '\n' :: (d ++ ['\n'])))) := by
  simp [unlines]

theorem bigClass_eq (n : Nat) : bigClass n
    = bigHeader ++ (workHeader ++ '\n'
      :: ((lines (bracedFiller n)).flatMap (· ++ ['\n']) ++ closings)) := by
  rw [flatMap_lines]
  exact unlines_class _ _ (bracedFiller n) _ _

theorem search_bigHeader (rest : Text) :
    (mainClassHeader.search (bigHeader ++ rest)).map (·.stop) = some 18 := by
  have hsearch : (mainClassHeader.search ("public class Big \x7b" ++ rest)).map (·.stop)
      = some 18 := by rfl
  exact hsearch

theorem workHeader_opens : Zone.code.along (workHeader ++ ['\n']) (workHeader.length + 1) = .code
    ∧ closingBrace 1 (maskInert (workHeader ++ ['\n'])) = none
    ∧ braceBalance (maskInert (workHeader ++ ['\n'])) = 1 := by decide +kernel

theorem classEndFrom_closings (i : Nat) :
    (classEndFrom i 2 (maskInert closings) closings).value = some (i + 7) := by
  rfl

theorem classEndFrom_method {ls : List Text} (h : ∀ l ∈ ls, Neutral 2 l) (i : Nat) :
    (classEndFrom i 1 (maskInert (workHeader ++ '\n' :: (ls.flatMap (· ++ ['\n']) ++ closings)))
        (workHeader ++ '\n' :: (ls.flatMap (· ++ ['\n']) ++ closings))).value
      = some (i + (workHeader.length + 1 + (ls.flatMap (· ++ ['\n'])).length + 7)) := by
  obtain ⟨hzone, hnone, hbalance⟩ := workHeader_opens
  have hmask := maskInertFrom_append .code workHeader (ls.flatMap (· ++ ['\n']) ++ closings)
  have hmethod := classEndFrom_append (length_maskInertFrom .code (workHeader ++ ['\n'])) hnone i
    (maskInert (ls.flatMap (· ++ ['\n']) ++ closings)) (ls.flatMap (· ++ ['\n']) ++ closings)
  rw [hzone] at hmask
  rw [← maskInert, hbalance, show (1 : Int) + 1 = 2 from rfl, classEndFrom_lines h,
    classEndFrom_closings,
    append_assoc, singleton_append, length_append, length_singleton] at hmethod
  rw [maskInert, hmask, ← maskInert, ← maskInert, hmethod]
  refine congrArg some ?_
  omega

/-- **the scanner finds the end of a class whose method has any number of lines with stray braces in
comments and literals: it is just past the last brace of the text** -/
theorem classEnd_bigClass (n : Nat) : (classEnd (bigClass n)).value = some ((bigClass n).length - 1)
    ∧ bigClass n = (bigClass n).take ((bigClass n).length - 2) ++ ['\x7d', '\n']
    ∧ braceBalance (bracedFiller n) = n - (n / 4 : Nat) := by
  have hmethod := classEndFrom_method (fun l hl => neutral_bracedFiller (n := n) hl)
  rw [bigClass_eq]
  generalize (lines (bracedFiller n)).flatMap (· ++ ['\n']) = filler at hmethod
  refine ⟨?_, ?_, braceBalance_bracedFiller n⟩
  · have hheader : bigHeader.length = 18 := by decide
    have hclosings : closings.length = 8 := by decide
    obtain ⟨m, hm, hstop⟩ := Option.map_eq_some_iff.mp
      (search_bigHeader (workHeader ++ '\n' :: (filler ++ closings)))
    rw [classEnd_of_search hm, hstop, ← hheader, drop_left, hmethod]
    simp only [length_append, length_cons, hclosings]
    refine congrArg some ?_
    omega
  · have hclosings : closings = "    \x7d\n" ++ ['\x7d', '\n'] := by decide
    have hlast : bigHeader ++ (workHeader ++ '\n' :: (filler ++ closings))
        = bigHeader ++ (workHeader ++ '\n' :: (filler ++ "    \x7d\n")) ++ ['\x7d', '\n'] := by
      rw [hclosings]
      simp only [append_assoc, cons_append]
    rw [hlast, length_append, length_cons, length_singleton, Nat.add_sub_cancel, take_left]

end Specimen

end Rebind
