import Mathlib
import Rebind.Proofs.Pattern.Rewriting

/-!
# A text as gaps and matches

`Tiled pos t ms` says that the matches `ms` lie in the text `t`, whose first character has the
offset `pos`, one behind the other without overlap.  All that a pattern finds tiles the text
(`tiled_findAll`), for any pattern, and the result of `replace` has the same gaps with other texts
between them (`replaceMatches_step`).

What `replace` does to the characters of a class can then be read off its matches: with `ok` for the
class, the result shows the same characters as long as each match does (`filter_replace`), and if no
match loses any then only so (`filter_replace_iff`).  The same is true of two replacements of one
text of which the second loses nothing that the first keeps (`filter_replace_pair_iff`).
-/

namespace Rebind

open List

variable {ok : Char → Bool} {ms : List Match} {new : Match → Text} {pos : Nat} {p : Pattern}
  {t : Text}

/-- the matches lie in the text one behind the other -/
inductive Tiled : Nat → Text → List Match → Prop
  | last (pos : Nat) (t : Text) : Tiled pos t []
  | step {pos : Nat} {gap rest : Text} {m : Match} {ms : List Match}
    (hstart : m.start = pos + gap.length)
      (hstop : m.stop = m.start + m.text.length) (hrest : Tiled m.stop rest ms) :
      Tiled pos (gap ++ (m.text ++ rest)) (m :: ms)

theorem Tiled.front {rest : Text} {m : Match} (hstart : m.start = pos)
    (hstop : m.stop = pos + m.text.length) (hrest : Tiled m.stop rest ms) :
    Tiled pos (m.text ++ rest) (m :: ms) := by
  have hgap : m.start = pos + ([] : Text).length := hstart
  exact .step hgap (by rw [hstop, hstart]) hrest

theorem Tiled.behind {a : Text} (h : Tiled (pos + a.length) t ms) : Tiled pos (a ++ t) ms := by
  cases h with
  | last => exact .last pos _
  | step hstart hstop hrest =>
    rw [← append_assoc]
    refine .step ?_ hstop hrest
    rw [hstart, length_append]
    omega

namespace Pattern

/-- what is found once the last match has been passed -/
theorem tiled_findFrom (p : Pattern) (t : Text) (pos : Nat) (prev : Option Char) (n : Nat)
    (hn : n ≤ t.length) : Tiled (pos + n) (t.drop n) (p.findFrom pos prev [] n t) := by
  induction t generalizing pos prev n with
  | nil =>
    obtain rfl : n = 0 := Nat.le_zero.mp hn
    rw [findFrom]
    split
    · next m hm =>
      obtain ⟨-, hstart, hstop, r, hr⟩ := matchAt_front hm
      rw [drop_nil, hr]
      exact .front hstart hstop (.last _ r)
    · exact .last _ _
  | cons ch t ih =>
    cases n with
    | succ n =>
      have hstep := ih (pos + 1) (some ch) n (by simpa using hn)
      rw [findFrom, drop_succ_cons, show pos + (n + 1) = pos + 1 + n by omega]
      exact hstep
    | zero =>
      -- where no match is tried again, this character belongs to the gap
      have hgap : ∀ ms, Tiled (pos + 1) t ms → Tiled pos (ch :: t) ms := fun ms h =>
        Tiled.behind (a := [ch]) h
      rw [findFrom]
      split
      · next m hm =>
        obtain ⟨-, hstart, hstop, r, hr⟩ := matchAt_front hm
        rw [findFrom_found, reverse_singleton, singleton_append, drop_zero, hr]
        refine .front hstart hstop ?_
        by_cases he : m.text = []
        · rw [he, nil_append] at hr
          have hn : m.stop - pos - 1 = 0 := by rw [hstop, he]; simp
          rw [hn, hstop, he, ← hr]
          exact hgap _ (ih (pos + 1) (some ch) 0 (Nat.zero_le _))
        · have hpositive : 0 < m.text.length := length_pos_iff.mpr he
          have hn : m.stop - pos - 1 = m.text.length - 1 := by omega
          have hsize : m.text.length + r.length = t.length + 1 := by
            simpa using (congrArg length hr).symm
          have hdrop : t.drop (m.text.length - 1) = r := by
            have hall : (ch :: t).drop m.text.length = r := by rw [hr, drop_left]
            rwa [← Nat.sub_add_cancel hpositive, drop_succ_cons] at hall
          have hstep := ih (pos + 1) (some ch) (m.text.length - 1) (by omega)
          rw [hdrop, show pos + 1 + (m.text.length - 1) = m.stop by omega] at hstep
          rw [hn]
          exact hstep
      · exact hgap _ (ih (pos + 1) (some ch) 0 (Nat.zero_le _))

theorem tiled_findAll (p : Pattern) (t : Text) : Tiled 0 t (p.findAll t) :=
  p.tiled_findFrom t 0 none 0 (Nat.zero_le _)

end Pattern

/-- one step of `replace`: the gap stays, the match becomes what is new -/
theorem replaceMatches_step (new : Match → Text) (done : List Text) {gap rest : Text}
    {m : Match} (ms : List Match) (hstart : m.start = pos + gap.length)
    (hstop : m.stop = m.start + m.text.length) :
    replaceMatches new done pos (gap ++ (m.text ++ rest)) (m :: ms)
      = replaceMatches new (new m :: gap :: done) m.stop rest ms := by
  have htake : (gap ++ (m.text ++ rest)).take (m.start - pos) = gap := by
    rw [hstart, Nat.add_sub_cancel_left, take_left]
  have hdrop : (gap ++ (m.text ++ rest)).drop (m.stop - pos) = rest := by
    rw [hstop, hstart, show pos + gap.length + m.text.length - pos = gap.length
      + m.text.length by omega, ← append_assoc, ← length_append, drop_left]
  rw [replaceMatches, htake, hdrop]

theorem Tiled.filter_replaceMatches (h : Tiled pos t ms) (done : List Text)
    (hnew : ∀ m ∈ ms, (new m).filter ok = m.text.filter ok) :
    (replaceMatches new done pos t ms).filter ok
      = done.reverse.flatten.filter ok ++ t.filter ok := by
  induction h generalizing done with
  | last pos t => simp [replaceMatches]
  | @step pos gap rest m ms hstart hstop _ ih =>
    rw [replaceMatches_step new done ms hstart hstop,
      ih (new m :: gap :: done) (fun x hx => hnew x (mem_cons_of_mem _ hx))]
    simp [hnew m mem_cons_self]

/-- a replacement that shows, for each match, the characters of a class that the match shows -/
theorem filter_replace (hnew : ∀ m ∈ p.findAll t, (new m).filter ok = m.text.filter ok) :
    (p.replace new t).filter ok = t.filter ok :=
  (p.tiled_findAll t).filter_replaceMatches [] hnew

/-- two replacements of the same matches, of which the first shows no more than the second at any of
them, have equal results iff they are equal at each match -/
theorem Tiled.filter_replaceMatches_pair (ok : Char → Bool) (new new' : Match → Text)
    (h : Tiled pos t ms) (done done' : List Text)
    (hle : ∀ m ∈ ms, ((new m).filter ok).length ≤ ((new' m).filter ok).length) :
    ∃ u u', (replaceMatches new done pos t ms).filter ok = done.reverse.flatten.filter ok ++ u
      ∧ (replaceMatches new' done' pos t ms).filter ok = done'.reverse.flatten.filter ok ++ u'
      ∧ u.length ≤ u'.length ∧ (u = u' ↔ ∀ m ∈ ms, (new m).filter ok = (new' m).filter ok) := by
  induction h generalizing done done' with
  | last pos t =>
    exact ⟨t.filter ok, t.filter ok, by simp [replaceMatches], by simp [replaceMatches],
      le_rfl, by simp⟩
  | @step pos gap rest m ms hstart hstop _ ih =>
    have hm := hle m mem_cons_self
    obtain ⟨u, u', hu, hu', hlen, heq⟩ := ih (new m :: gap :: done) (new' m :: gap :: done')
      (fun x hx => hle x (mem_cons_of_mem _ hx))
    refine ⟨gap.filter ok ++ ((new m).filter ok ++ u), gap.filter ok ++ ((new' m).filter ok ++ u'),
      ?_, ?_, ?_, fun he => ?_, fun hall => ?_⟩
    · rw [replaceMatches_step new done ms hstart hstop, hu]
      simp
    · rw [replaceMatches_step new' done' ms hstart hstop, hu']
      simp
    · simp only [length_append]
      omega
    · -- the two tails have the same length, so the texts agree piece by piece
      have hboth : (new m).filter ok ++ u = (new' m).filter ok ++ u' := append_cancel_left he
      have hsize := congrArg length hboth
      rw [length_append, length_append] at hsize
      obtain ⟨hfirst, htail⟩ := append_inj hboth (by omega)
      rintro x (_ | ⟨_, hx⟩)
      · exact hfirst
      · exact heq.mp htail x hx
    · rw [hall m mem_cons_self, heq.mpr (fun x hx => hall x (mem_cons_of_mem _ hx))]

/-- if one replacement shows no more characters of a class than another at any match, the two show
the same ones exactly when they do so at each match -/
theorem filter_replace_pair_iff {new' : Match → Text}
    (hle : ∀ m ∈ p.findAll t, ((new m).filter ok).length ≤ ((new' m).filter ok).length) :
    (p.replace new t).filter ok = (p.replace new' t).filter ok
      ↔ ∀ m ∈ p.findAll t, (new m).filter ok = (new' m).filter ok := by
  obtain ⟨u, u', hu, hu', -, heq⟩ :=
    (p.tiled_findAll t).filter_replaceMatches_pair ok new new' [] [] hle
  have hleft : (p.replace new t).filter ok = u := hu
  have hright : (p.replace new' t).filter ok = u' := hu'
  rw [hleft, hright, heq]

/-- if no match loses a character of the class, the result shows the same ones exactly when each
match does -/
theorem filter_replace_iff (hgrow : ∀ m ∈ p.findAll t, (m.text.filter ok).length
    ≤ ((new m).filter ok).length) :
    (p.replace new t).filter ok = t.filter ok ↔ ∀ m ∈ p.findAll t, (new m).filter ok
      = m.text.filter ok := by
  have hsame : (p.replace Match.text t).filter ok = t.filter ok := filter_replace (fun _ _ => rfl)
  rw [← hsame, eq_comm, filter_replace_pair_iff hgrow]
  exact forall₂_congr (fun m _ => eq_comm)

end Rebind
