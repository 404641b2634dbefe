import Mathlib
import Rebind.Proofs.Edit.Sparing

/-!
# Runs of blank lines

A text is lines that show something and, in front of them, between them and behind them, runs of
blank lines. The last step of the editor of bind calls scans the lines once, dropping each blank
line behind a blank line, and then trims both ends.

* `Between ls n run`: the blank lines `run` stand between the shown line number `n` and the next
  one;
* `blankRuns`, `gaps`: all runs of blank lines, and those between shown lines (`between_iff`);
* `ShownEnds`: neither the first nor the last line is blank;
* `eq_of_gaps`: lines with shown ends are determined by what they show and by their gaps;
* `squeezeBlankLines_exact`: each gap is cut to its first line, and nothing else but the blank ends
  changes.
-/

namespace Rebind

open List

variable {l : Text} {ls ms run : List Text} {n : Nat}

/-! ## shown lines and what stands between them -/

def shows (l : Text) : Bool := !isBlankText l

def shownLines (ls : List Text) : List Text := ls.filter shows

/-- `run` is all that stands between the shown line number `n`, counted from 0, and the next shown
line -/
def Between (ls : List Text) (n : Nat) (run : List Text) : Prop :=
  ∃ before a b after, ls = before ++ a :: (run ++ b :: after) ∧ (shownLines before).length = n
    ∧ isBlankText a = false ∧ isBlankText b = false ∧ ∀ l ∈ run, isBlankText l

/-- not both lines are blank -/
def OneShown (a b : Text) : Prop := isBlankText a = false ∨ isBlankText b = false

/-- neither the first nor the last line is blank -/
def ShownEnds (ls : List Text) : Prop :=
  (∀ l ∈ ls.head?, isBlankText l = false) ∧ ∀ l ∈ ls.getLast?, isBlankText l = false

/-- what stands in front of the first shown line, between each and the next, and behind the last -/
def blankRuns (ls : List Text) : List (List Text) := ls.splitOnP shows

def gaps (ls : List Text) : List (List Text) := (blankRuns ls).tail.dropLast

theorem shows_iff : shows l ↔ isBlankText l = false := by simp [shows]

theorem shows_eq_false_iff : shows l = false ↔ isBlankText l := by simp [shows]

theorem Dropped.sublist {P : Text → Prop} (h : Dropped P ls ms) : ms <+ ls := by
  induction h with
  | nil => exact .slnil
  | keep l _ ih => exact ih.cons_cons l
  | drop _ _ ih => exact ih.cons _

theorem shownLines_cons_shown (hl : isBlankText l = false) (ls : List Text) :
    shownLines (l :: ls) = l :: shownLines ls := filter_cons_of_pos (shows_iff.mpr hl)

theorem shownLines_cons_blank (hl : isBlankText l) (ls : List Text) :
    shownLines (l :: ls) = shownLines ls := filter_cons_of_neg (by simp [shows, hl])

theorem Dropped.shownLines_eq (h : Dropped (fun l => isBlankText l = true) ls ms) :
    shownLines ms = shownLines ls := by
  induction h with
  | nil => rfl
  | keep l _ ih =>
    cases hl : isBlankText l with
    | false => rw [shownLines_cons_shown hl, shownLines_cons_shown hl, ih]
    | true => rw [shownLines_cons_blank hl, shownLines_cons_blank hl, ih]
  | drop hl _ ih => rw [shownLines_cons_blank hl, ih]

theorem blankRuns_ne_nil (ls : List Text) : blankRuns ls ≠ [] := splitOnP_ne_nil shows ls

theorem blankRuns_cons_shown (hl : isBlankText l = false) (ls : List Text) :
    blankRuns (l :: ls) = [] :: blankRuns ls := by
  rw [blankRuns, splitOnP_cons_eq_if_modifyHead, if_pos (shows_iff.mpr hl), blankRuns]

theorem blankRuns_cons_blank (hl : isBlankText l) (ls : List Text) :
    blankRuns (l :: ls) = (blankRuns ls).modifyHead (cons l) := by
  rw [blankRuns, splitOnP_cons_eq_if_modifyHead, shows_eq_false_iff.mpr hl,
    if_neg Bool.false_ne_true, blankRuns]

theorem length_blankRuns (ls : List Text) : (blankRuns ls).length = (shownLines ls).length + 1 := by
  induction ls with
  | nil => rfl
  | cons l ls ih =>
    cases hl : isBlankText l with
    | false => rw [blankRuns_cons_shown hl, shownLines_cons_shown hl, length_cons, length_cons, ih]
    | true => rw [blankRuns_cons_blank hl, shownLines_cons_blank hl, length_modifyHead, ih]

theorem Between.getElem?_gaps (h : Between ls n run) : (gaps ls)[n]? = some run := by
  obtain ⟨before, a, b, after, rfl, hn, ha, hb, hrun⟩ := h
  have hruns : blankRuns (before ++ a :: (run ++ b :: after)) = blankRuns before ++ run
      :: blankRuns after := by
    rw [blankRuns, splitOnP_append_cons _ _ (shows_iff.mpr ha), splitOnP_append_cons_of_forall_mem
      (fun l hl => shows_eq_false_iff.mpr (hrun l hl)) b (shows_iff.mpr hb), blankRuns, blankRuns]
  obtain ⟨r, rs, hr⟩ := exists_cons_of_ne_nil (blankRuns_ne_nil before)
  have hlength : rs.length = n := by
    have hcount := length_blankRuns before
    rw [hr, length_cons, hn] at hcount
    omega
  rw [gaps, hruns, hr, cons_append, tail_cons, dropLast_append_of_ne_nil (cons_ne_nil _ _),
    dropLast_cons_of_ne_nil (blankRuns_ne_nil after), getElem?_append_right hlength.le, hlength]
  simp

theorem exists_between_shown (h : n + 1 < (shownLines ls).length) : ∃ run, Between ls n run := by
  -- the list of shown lines is cut in front of its line `n`, and the lines are cut along
  have hcut : shownLines ls = (shownLines ls).take n ++ (shownLines ls).drop n :=
    (take_append_drop n _).symm
  obtain ⟨a, b, rest, htwo⟩ : ∃ a b rest, (shownLines ls).drop n = a :: b :: rest :=
    ⟨_, _, _, by rw [drop_eq_getElem_cons (by omega), drop_eq_getElem_cons h]⟩
  rw [htwo] at hcut
  obtain ⟨front, back, rfl, hfront, hback⟩ := filter_eq_append_iff.mp hcut
  obtain ⟨lead, later, rfl, hlead, ha, hlater⟩ := filter_eq_cons_iff.mp hback
  obtain ⟨run, after, rfl, hrun, hb, -⟩ := filter_eq_cons_iff.mp hlater
  refine ⟨run, front ++ lead, a, b, after, by simp, ?_, shows_iff.mp ha, shows_iff.mp hb,
    fun l hl => ?_⟩
  · rw [shownLines, filter_append, hfront, filter_eq_nil_iff.mpr hlead, append_nil, length_take]
    omega
  · exact shows_eq_false_iff.mp (Bool.eq_false_iff.mpr (hrun l hl))

theorem between_iff : Between ls n run ↔ (gaps ls)[n]? = some run := by
  refine ⟨Between.getElem?_gaps, fun h => ?_⟩
  have hlt : n < (gaps ls).length := (List.getElem?_eq_some_iff.mp h).1
  rw [gaps, length_dropLast, length_tail, length_blankRuns] at hlt
  obtain ⟨run', hrun'⟩ := exists_between_shown (show n + 1 < (shownLines ls).length by omega)
  rwa [Option.some.inj (h.symm.trans hrun'.getElem?_gaps)]

/-! ## the ends -/

theorem gaps_dropWhile (ls : List Text) : gaps (ls.dropWhile isBlankText) = gaps ls := by
  induction ls with
  | nil => rfl
  | cons l ls ih =>
    cases hl : isBlankText l with
    | true =>
      rw [dropWhile_cons_of_pos hl, ih, gaps, gaps, blankRuns_cons_blank hl, tail_modifyHead]
    | false => rw [dropWhile_cons_of_neg (by simp [hl])]

theorem dropLast_blankRuns_concat (hl : isBlankText l) (ls : List Text) :
    (blankRuns (ls ++ [l])).dropLast = (blankRuns ls).dropLast := by
  have hmodify : ∀ (f : List Text → List Text) (rs : List (List Text)),
      (rs.modifyHead f).dropLast = rs.dropLast.modifyHead f := by
    rintro f (_ | ⟨r, _ | ⟨s, rs⟩⟩) <;> rfl
  induction ls with
  | nil => rw [nil_append, blankRuns_cons_blank hl]; rfl
  | cons k ks ih =>
    rw [cons_append]
    cases hk : isBlankText k with
    | false =>
      rw [blankRuns_cons_shown hk, blankRuns_cons_shown hk, dropLast_cons_of_ne_nil
        (blankRuns_ne_nil _), dropLast_cons_of_ne_nil (blankRuns_ne_nil _), ih]
    | true => rw [blankRuns_cons_blank hk, blankRuns_cons_blank hk, hmodify, hmodify, ih]

theorem gaps_rdropWhile (ls : List Text) : gaps (ls.rdropWhile isBlankText) = gaps ls := by
  induction ls using reverseRecOn with
  | nil => rfl
  | append_singleton ls l ih =>
    cases hl : isBlankText l with
    | true =>
      rw [rdropWhile_concat_pos _ _ _ hl, ih, gaps, gaps, ← tail_dropLast, ← tail_dropLast,
        dropLast_blankRuns_concat hl]
    | false => rw [rdropWhile_concat_neg _ _ _ (by simp [hl])]

namespace ShownEnds

theorem eq_nil (h : ShownEnds ls) (hnone : shownLines ls = []) : ls = [] := by
  cases ls with
  | nil => rfl
  | cons l ls =>
    exact absurd (shows_iff.mpr (h.1 l rfl)) (filter_eq_nil_iff.mp hnone l mem_cons_self)

theorem blankRuns_eq (h : ShownEnds ls) (hne : ls ≠ []) :
    blankRuns ls = [] :: (gaps ls ++ [[]]) := by
  obtain ⟨front, z, rfl⟩ := (eq_nil_or_concat' ls).resolve_left hne
  have hlast : blankRuns (front ++ [z]) = blankRuns front ++ [[]] :=
    splitOnP_append_cons front [] (shows_iff.mpr (h.2 z (by simp)))
  obtain ⟨r, rs, hr⟩ := exists_cons_of_ne_nil (blankRuns_ne_nil front)
  have hfirst : r = [] := by
    obtain ⟨a, rest, ha⟩ := exists_cons_of_ne_nil hne
    rw [ha, blankRuns_cons_shown (h.1 a (by simp [ha])), hr, cons_append] at hlast
    exact (List.cons.inj hlast).1.symm
  rw [gaps, hlast, hr, hfirst, cons_append, tail_cons, dropLast_concat]

end ShownEnds

/-- lines without blank ends are determined by what they show and by the runs between -/
theorem eq_of_gaps (hls : ShownEnds ls) (hms : ShownEnds ms)
    (hshown : shownLines ls = shownLines ms) (hgaps : gaps ls = gaps ms) : ls = ms := by
  rcases eq_or_ne ls [] with rfl | hne
  · exact (hms.eq_nil hshown.symm).symm
  rcases eq_or_ne ms [] with rfl | hne'
  · exact hls.eq_nil hshown
  have hruns : blankRuns ls = blankRuns ms := by
    rw [hls.blankRuns_eq hne, hms.blankRuns_eq hne', hgaps]
  rw [blankRuns, blankRuns] at hruns
  rw [shownLines, shownLines] at hshown
  rw [← splitOnP_spec (p := shows) ls, ← splitOnP_spec (p := shows) ms, hruns, hshown]

namespace BindCall

/-! ## the scan -/

theorem squeezeFrom_eq_append (kept : List Text) (blank : Bool) (ls : List Text) :
    squeezeFrom kept blank ls = kept.reverse ++ squeezeFrom [] blank ls := by
  induction ls generalizing kept blank with
  | nil => simp [squeezeFrom]
  | cons l ls ih =>
    rw [squeezeFrom, squeezeFrom]
    split
    · exact ih kept true
    · rw [ih (l :: kept), ih [l]]
      simp

/-- one step of the scan -/
theorem squeezeFrom_cons (blank : Bool) (l : Text) (ls : List Text) :
    squeezeFrom [] blank (l :: ls)
      = if isBlankText l && blank then squeezeFrom [] true ls else l
        :: squeezeFrom [] (isBlankText l) ls := by
  rw [squeezeFrom, squeezeFrom_eq_append [l]]
  rfl

/-- the scan leaves the first line of every run, and nothing of a run that it starts in -/
theorem blankRuns_squeezeFrom (blank : Bool) (ls : List Text) :
    blankRuns (squeezeFrom [] blank ls)
      = ((blankRuns ls).map (take 1)).modifyHead (fun r => if blank then [] else r) := by
  induction ls generalizing blank with
  | nil => cases blank <;> rfl
  | cons l ls ih =>
    obtain ⟨r, rs, hr⟩ := exists_cons_of_ne_nil (blankRuns_ne_nil ls)
    rw [squeezeFrom_cons]
    cases hl : isBlankText l with
    | false =>
      -- a shown line ends the run, whatever the scan came from
      rw [Bool.false_and, if_neg Bool.false_ne_true, blankRuns_cons_shown hl,
        blankRuns_cons_shown hl, ih, hr]
      cases blank <;> rfl
    | true =>
      cases blank with
      | false =>
        rw [Bool.and_false, if_neg Bool.false_ne_true, blankRuns_cons_blank hl,
          blankRuns_cons_blank hl, ih, hr]
        rfl
      | true =>
        rw [Bool.and_true, if_pos rfl, blankRuns_cons_blank hl, ih, hr]
        rfl

/-- no blank line follows a blank line, the one in front of the scan included -/
theorem isChain_squeezeFrom (blank : Bool) (ls : List Text) :
    (squeezeFrom [] blank ls).IsChain OneShown
      ∧ ∀ l ∈ (squeezeFrom [] blank ls).head?, blank = false ∨ isBlankText l = false := by
  induction ls generalizing blank with
  | nil => simp [squeezeFrom]
  | cons l ls ih =>
    rw [squeezeFrom_cons]
    split
    · next hdropped =>
      obtain ⟨-, rfl⟩ := Bool.and_eq_true_iff.mp hdropped
      exact ih true
    · next hkept =>
      refine ⟨isChain_cons.mpr ⟨(ih _).2, (ih _).1⟩, fun k hk => ?_⟩
      obtain rfl : l = k := Option.some.inj hk
      rw [Bool.and_eq_true, not_and_or, Bool.not_eq_true, Bool.not_eq_true] at hkept
      exact hkept.symm

/-! ## squeezed lines -/

theorem squeezeLines_eq (ls : List Text) :
    squeezeLines ls = ((squeezeFrom [] false ls).dropWhile isBlankText).rdropWhile isBlankText :=
      rfl

theorem shownLines_squeezeLines (ls : List Text) : shownLines (squeezeLines ls) = shownLines ls :=
  (dropped_squeezeLines ls).shownLines_eq

theorem gaps_squeezeLines (ls : List Text) : gaps (squeezeLines ls) = (gaps ls).map (take 1) := by
  rw [squeezeLines_eq, gaps_rdropWhile, gaps_dropWhile, gaps, blankRuns_squeezeFrom,
    tail_modifyHead, gaps, map_dropLast, map_tail]

theorem isChain_squeezeLines (ls : List Text) : (squeezeLines ls).IsChain OneShown := by
  have hback : squeezeLines ls <+: (squeezeFrom [] false ls).dropWhile isBlankText :=
    rdropWhile_prefix isBlankText _
  have hfront : (squeezeFrom [] false ls).dropWhile isBlankText <:+ squeezeFrom [] false ls :=
    dropWhile_suffix _
  exact IsChain.infix (isChain_squeezeFrom false ls).1 (hback.isInfix.trans hfront.isInfix)

theorem shownEnds_squeezeLines (ls : List Text) : ShownEnds (squeezeLines ls) := by
  rw [squeezeLines_eq]
  refine ⟨fun l hl => ?_, fun l hl => ?_⟩
  · have hhead := head?_dropWhile_not isBlankText (squeezeFrom [] false ls)
    obtain ⟨tail, htail⟩ := rdropWhile_prefix isBlankText
      ((squeezeFrom [] false ls).dropWhile isBlankText)
    rw [← htail, head?_append, hl] at hhead
    exact hhead
  · obtain ⟨hne, rfl⟩ := mem_getLast?_eq_getLast hl
    exact Bool.eq_false_iff.mpr (rdropWhile_last_not isBlankText _ hne)

theorem squeezeLines_squeezeLines (ls : List Text) :
    squeezeLines (squeezeLines ls) = squeezeLines ls := by
  refine eq_of_gaps (shownEnds_squeezeLines _) (shownEnds_squeezeLines _)
    (shownLines_squeezeLines _) ?_
  rw [gaps_squeezeLines, gaps_squeezeLines, map_map]
  exact map_congr_left (fun run _ => take_take)

/-- the lines of the result; where none is left the text is empty, and that has one blank line -/
theorem lines_squeezeBlankLines (code : Text) :
    lines (squeezeBlankLines code) = squeezeLines (lines code)
      ∨ squeezeLines (lines code) = [] ∧ squeezeBlankLines code = [] := by
  rcases eq_or_ne (squeezeLines (lines code)) [] with hnone | hne
  · exact .inr ⟨hnone, by rw [squeezeBlankLines, hnone]; rfl⟩
  · exact .inl (lines_unlines hne
      (fun l hl => not_mem_of_mem_lines ((dropped_squeezeLines _).sublist.mem hl)))

/-- a view of lines that does not tell one empty line from none sees the squeezed lines in the
result -/
theorem view_squeezeBlankLines {α : Type} (view : List Text → α) (hview : view [[]] = view [])
    (code : Text) :
    view (lines (squeezeBlankLines code)) = view (squeezeLines (lines code)) := by
  rcases lines_squeezeBlankLines code with hlines | ⟨hnone, hout⟩
  · rw [hlines]
  · rw [hnone, hout]
    exact hview

theorem shownLines_squeezeBlankLines (code : Text) :
    shownLines (lines (squeezeBlankLines code)) = shownLines (lines code) := by
  rw [view_squeezeBlankLines shownLines rfl, shownLines_squeezeLines]

theorem gaps_squeezeBlankLines (code : Text) :
    gaps (lines (squeezeBlankLines code)) = (gaps (lines code)).map (take 1) := by
  rw [view_squeezeBlankLines gaps rfl, gaps_squeezeLines]

/-- What squeezing does to a text, for all texts.  The shown lines stay, in their order.  No two
blank lines are left side by side and, unless nothing is left, none at either end.  Of the blank
lines between a shown line and the next the first is left, if there is one, and no other.  Squeezing
again changes nothing. -/
theorem squeezeBlankLines_exact (code : Text) :
    shownLines (lines (squeezeBlankLines code)) = shownLines (lines code)
    ∧ (lines (squeezeBlankLines code)).IsChain OneShown
    ∧ (squeezeBlankLines code = [] ∨ ShownEnds (lines (squeezeBlankLines code)))
    ∧ (∀ n gap, Between (lines (squeezeBlankLines code)) n gap
      ↔ ∃ run, Between (lines code) n run ∧ gap = run.take 1)
    ∧ squeezeBlankLines (squeezeBlankLines code) = squeezeBlankLines code := by
  have hgap : ∀ n gap, Between (lines (squeezeBlankLines code)) n gap
      ↔ ∃ run, Between (lines code) n run ∧ gap = run.take 1 := fun n gap => by
    rw [between_iff, gaps_squeezeBlankLines, getElem?_map, Option.map_eq_some_iff]
    exact exists_congr (fun run => and_congr between_iff.symm eq_comm)
  rcases lines_squeezeBlankLines code with hlines | ⟨-, hout⟩
  · refine ⟨shownLines_squeezeBlankLines code, ?_, .inr ?_, hgap, ?_⟩
    · rw [hlines]
      exact isChain_squeezeLines _
    · rw [hlines]
      exact shownEnds_squeezeLines _
    · rw [squeezeBlankLines, hlines, squeezeLines_squeezeLines, squeezeBlankLines]
  · refine ⟨shownLines_squeezeBlankLines code, ?_, .inl hout, hgap, ?_⟩
    · rw [hout]
      exact .singleton []
    · rw [hout]
      rfl

example : squeezeBlankLines "\n\u3000\na\n\t\n\n \nb\nc\n\n" = "a\n\t\nb\nc" := by decide

example : squeezeBlankLines " \n\u3000\n\n" = [] := by decide

end BindCall

end Rebind
