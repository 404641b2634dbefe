import Mathlib
import Rebind.Proofs.Pattern.Rewriting

/-!
# The texts that a search finds

Where a pattern covers at most one text at a place (`Definite`), what it finds is settled by the
texts that it covers, without the order of preference among matches: `Pieces p t ss` says that `ss`
are the texts that `p` finds in `t` from the left, there is exactly one such list (`Pieces.unique`),
and `findAll` finds it (`pieces_findAll`).

A text `LeavesOpen` the pattern if one of its endings begins a text that the pattern covers, without
being the whole of it.  If it does not, then what is found in it and in what follows is found in the
two together (`found_append`).
-/

namespace Rebind

open List

/-- the pattern covers at most one text at a place, and not the empty one -/
structure Pattern.Definite (p : Pattern) : Prop where
  free : p.isFree
  not_nil : ¬ p.Covers []
  unique : ∀ {s r s' r' : Text}, p.Covers s → p.Covers s' → s ++ r = s' ++ r' → s = s'

/-- the texts that the pattern covers, from the left and without overlap -/
inductive Pieces (p : Pattern) : Text → List Text → Prop
  | nil : Pieces p [] []
  | skip {c : Char} {t : Text} {ss : List Text} (h : ¬ Starts p (c :: t)) (ht : Pieces p t ss) :
      Pieces p (c :: t) ss
  | take {s t : Text} {ss : List Text} (hs : p.Covers s) (ht : Pieces p t ss) :
    Pieces p (s ++ t) (s :: ss)

/-- an ending of the text begins what the pattern covers, and does not finish it -/
def LeavesOpen (p : Pattern) (t : Text) : Prop := ∃ s w, s ≠ [] ∧ w ≠ [] ∧ s <:+ t
    ∧ p.Covers (s ++ w)

section
variable {p : Pattern} {t a b : Text} {ss us : List Text}

theorem LeavesOpen.mono (h : LeavesOpen p b) (hsuffix : b <:+ t) : LeavesOpen p t := by
  obtain ⟨s, w, hs, hw, hb, hcov⟩ := h
  exact ⟨s, w, hs, hw, hb.trans hsuffix, hcov⟩

theorem Pieces.append (ha : Pieces p a ss) (hb : Pieces p b us) (hopen : ¬ LeavesOpen p a) :
    Pieces p (a ++ b) (ss ++ us) := by
  induction ha with
  | nil => exact hb
  | @skip c t ss hno _ ih =>
    refine .skip ?_ (ih (fun h => hopen (h.mono (suffix_cons c t))))
    rintro ⟨s, r, hsr, hs⟩
    rcases append_eq_append_iff.mp (cons_append ▸ hsr) with ⟨w, hw, -⟩ | ⟨w, hw, -⟩
    · by_cases hnil : w = []
      · rw [hnil, append_nil] at hw
        exact hno ⟨s, [], by rw [hw, append_nil], hs⟩
      · exact hopen ⟨c :: t, w, by simp, hnil, suffix_rfl, hw ▸ hs⟩
    · exact hno ⟨s, w, hw, hs⟩
  | @take s t ss hs _ ih =>
    rw [append_assoc]
    exact .take hs (ih (fun h => hopen (h.mono (suffix_append s t))))

theorem Pieces.snoc {c : Char} (h : Pieces p t ss) (hnil : ¬ p.Covers [])
    (hc : ∀ s, ¬ p.Covers (s ++ [c])) :
    Pieces p (t ++ [c]) ss := by
  have hstarts : ∀ t, Starts p (t ++ [c]) → Starts p t := by
    rintro t ⟨s, r, hsr, hs⟩
    rcases eq_nil_or_concat r with rfl | ⟨r, d, rfl⟩
    · rw [append_nil] at hsr
      exact absurd (hsr ▸ hs) (hc t)
    · rw [concat_eq_append, ← append_assoc] at hsr
      exact ⟨s, r, (append_inj' hsr rfl).1, hs⟩
  induction h with
  | nil =>
    refine .skip (fun h => ?_) .nil
    obtain ⟨s, r, hsr, hs⟩ := hstarts [] h
    exact hnil ((append_eq_nil_iff.mp hsr.symm).1 ▸ hs)
  | skip hno _ ih => exact .skip (fun h => hno (hstarts _ h)) ih
  | take hs _ ih =>
    rw [append_assoc]
    exact .take hs ih

variable (hp : p.Definite)
include hp

/-- at each place there is one way to go on -/
theorem Pieces.unique (h : Pieces p t ss) (h' : Pieces p t us) : ss = us := by
  have hne : ∀ {s r : Text}, p.Covers s → s ++ r ≠ [] := fun hs he =>
    hp.not_nil ((append_eq_nil_iff.mp he).1 ▸ hs)
  induction h generalizing us with
  | nil =>
    generalize ht : ([] : Text) = t at h'
    cases h' with
    | nil => rfl
    | skip hno hrest => cases ht
    | take hs hrest => exact absurd ht.symm (hne hs)
  | @skip c t ss hno hrest ih =>
    generalize ht : c :: t = t' at h'
    cases h' with
    | nil => cases ht
    | skip hno' hrest' =>
      obtain ⟨rfl, rfl⟩ := List.cons.inj ht
      exact ih hrest'
    | take hs hrest' => exact absurd ⟨_, _, ht, hs⟩ hno
  | @take s t ss hs hrest ih =>
    generalize ht : s ++ t = t' at h'
    cases h' with
    | nil => exact absurd ht (hne hs)
    | skip hno' hrest' => exact absurd ⟨s, t, ht.symm, hs⟩ hno'
    | take hs' hrest' =>
      obtain rfl := hp.unique hs hs' ht
      rw [ih (append_cancel_left ht ▸ hrest')]

theorem pieces_findFrom (t : Text) (pos : Nat) (prev : Option Char) :
    Pieces p t ((p.findFrom pos prev [] 0 t).map Match.text) := by
  -- the induction is on the length, since a match takes several characters at once
  induction hlen : t.length using Nat.strong_induction_on generalizing t pos prev with
  | _ n ih =>
    cases t with
    | nil =>
      rw [Pattern.findFrom]
      split
      · next m hm =>
        obtain ⟨hcov, -, -, r, hr⟩ := Pattern.matchAt_front hm
        rw [(append_eq_nil_iff.mp hr.symm).1] at hcov
        exact absurd hcov hp.not_nil
      · exact .nil
    | cons ch t =>
      rw [Pattern.findFrom]
      split
      · next m hm =>
        obtain ⟨hcov, -, hstop, r, hr⟩ := Pattern.matchAt_front hm
        obtain ⟨c, s, hs⟩ := exists_cons_of_ne_nil (fun he : m.text = [] => hp.not_nil (he ▸ hcov))
        rw [hs, cons_append] at hr
        obtain ⟨rfl, rfl⟩ := List.cons.inj hr
        -- the rest of the match is passed over
        have hskip : m.stop - pos - 1 = s.length := by
          rw [hstop, hs, length_cons]
          omega
        rw [hskip, Pattern.findFrom_found, reverse_singleton, singleton_append, map_cons]
        obtain ⟨prev', he⟩ := Pattern.findFrom_skip p (pos + 1) (some ch) s.length
          (s ++ r) (by simp)
        rw [he, drop_left]
        have hrest := ih r.length (by rw [← hlen]; simp) r (pos + 1 + s.length) prev' rfl
        have htake := Pieces.take hcov hrest
        rwa [hs, cons_append, ← hs] at htake
      · next hm =>
        refine .skip (not_starts_of_matchAt hp.free hm) ?_
        exact ih t.length (by rw [← hlen]; simp) t (pos + 1) (some ch) rfl

theorem pieces_findAll (t : Text) : Pieces p t ((p.findAll t).map Match.text) :=
  pieces_findFrom hp t 0 none

theorem found_append (hopen : ¬ LeavesOpen p a) : (p.findAll (a ++ b)).map Match.text
    = (p.findAll a).map Match.text ++ (p.findAll b).map Match.text :=
  (pieces_findAll hp (a ++ b)).unique hp ((pieces_findAll hp a).append (pieces_findAll hp b) hopen)

theorem found_snoc {c : Char} (hc : ∀ s, ¬ p.Covers (s ++ [c])) :
    (p.findAll (t ++ [c])).map Match.text = (p.findAll t).map Match.text :=
  (pieces_findAll hp (t ++ [c])).unique hp ((pieces_findAll hp t).snoc hp.not_nil hc)

end

end Rebind
