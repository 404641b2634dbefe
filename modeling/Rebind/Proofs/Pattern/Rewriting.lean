import Mathlib
import Rebind.Proofs.Pattern.Reading

/-!
# Replacing what a pattern matches

A pattern that is `isFree` asks for nothing outside the text it covers, so it matches wherever a
text that it covers comes next (`tryAt_isSome`).  For such patterns `replace` is a relation between
texts:

* `Starts p t`: a text that `p` covers comes first in `t`;
* `Rewritten p new t t'`: from left to right, a character of `t` at which `p` does not start is
  kept, and what a match `m` of `p` covers becomes `new m` (`rewritten_replace`);
* `Replaced p new t t'`: the same with one text `new` for all that `p` covers (`replaced_replace`);
* `Spaced p prev t`: `p` starts only behind white space, or at the very start.

With spaced places nothing new comes together where a text was taken out: an occurrence of a word in
`t'` was one in `t` (`Replaced.occurrence`).
-/

namespace Rebind

open List

variable {x : Char} {ok : Char → Bool} {p : Pattern} {m t t' : Text}

/-! ## matches wherever there is something to match -/

/-- the pattern asks for nothing outside the text it covers -/
def Pattern.isFree : Pattern → Bool
  | .lineStart => false
  | .lineEnd => false
  | .andThen p q => p.isFree && q.isFree
  | .orElse p q => p.isFree && q.isFree
  | .maybe p => p.isFree
  | .many p => p.isFree
  | .group _ p => p.isFree
  | _ => true

def Accepts {β : Type} (k : Cursor → Option β) (pos : Nat) (rest : Text) : Prop :=
  ∀ d : Cursor, d.pos = pos → d.rest = rest → (k d).isSome

namespace Pattern

section
variable {β : Type} {k : Cursor → Option β} {c : Cursor} {s rest : Text}

theorem pastText_isSome (h : c.rest = s ++ rest) :
    ∃ d : Cursor, c.pastText s = some d ∧ d.pos = c.pos + s.length ∧ d.rest = rest := by
  induction s generalizing c with
  | nil => exact ⟨c, rfl, rfl, h⟩
  | cons a s ih =>
    rw [cons_append] at h
    obtain ⟨d, hd, hpos, hrest⟩ := ih (c := c.past a (s ++ rest)) rfl
    refine ⟨d, ?_, ?_, hrest⟩
    · rw [Cursor.pastText, h]
      simpa using hd
    · rw [hpos, length_cons]
      simp only [Cursor.past]
      omega

theorem mem_reach_of_near {near : List Cursor} {d : Cursor} (h : d ∈ near) :
    d ∈ Cursor.reach ok t c near := by
  induction t generalizing c near with
  | nil => exact mem_cons_of_mem _ h
  | cons ch t ih =>
    rw [Cursor.reach]
    split
    · exact ih (mem_cons_of_mem _ h)
    · exact mem_cons_of_mem _ h

theorem mem_reach_self {near : List Cursor} : c ∈ Cursor.reach ok t c near := by
  cases t with
  | nil => exact mem_cons_self
  | cons ch t =>
    rw [Cursor.reach]
    split
    · exact mem_reach_of_near mem_cons_self
    · exact mem_cons_self

theorem reach_append (hc : c.rest = s ++ rest) (hok : ∀ ch ∈ s, ok ch) (near : List Cursor) :
    ∃ d near', c.Moved s d ∧ d.rest = rest ∧ Cursor.reach ok (s ++ rest) c near
      = Cursor.reach ok rest d near' := by
  induction s generalizing c near with
  | nil => exact ⟨c, near, .nil c, hc, rfl⟩
  | cons ch s ih =>
    obtain ⟨d, near', hmoved, hd, hreach⟩ := ih (c := c.past ch (s ++ rest)) rfl
      (fun x hx => hok x (mem_cons_of_mem _ hx)) (c :: near)
    refine ⟨d, near', .cons hc hmoved, hd, ?_⟩
    rw [cons_append, Cursor.reach, if_pos (hok ch mem_cons_self)]
    exact hreach

theorem exists_reach (hc : c.rest = s ++ rest) (hs : ∀ ch ∈ s, ok ch) (near : List Cursor) :
    ∃ d ∈ Cursor.reach ok c.rest c near, d.pos = c.pos + s.length ∧ d.rest = rest := by
  obtain ⟨d, near', hmoved, hd, hreach⟩ := reach_append hc hs near
  rw [hc, hreach]
  exact ⟨d, mem_reach_self, hmoved.pos, hd⟩

theorem firstNear_isSome (hs : ∀ ch ∈ s, ok ch)
    (hrest : c.rest = s ++ rest) (hk : Accepts k (c.pos + s.length) rest) :
    (Cursor.firstNear ok k (s ++ rest) c).isSome = true := by
  induction s generalizing c with
  | nil =>
    have hc := hk c rfl hrest
    cases rest with
    | nil => exact hc
    | cons ch rest =>
      rw [nil_append, Cursor.firstNear]
      split
      · rfl
      · next hn =>
        rw [hn] at hc
        cases hc
  | cons ch s ih =>
    rw [cons_append, Cursor.firstNear]
    split
    · rfl
    · rw [if_pos (hs ch mem_cons_self)]
      refine ih (fun x hx => hs x (mem_cons_of_mem _ hx)) rfl (fun d hd => hk d ?_)
      rw [hd, length_cons]
      simp only [Cursor.past]
      omega

/-- repetitions: one step at a time, over the parts that are not empty -/
theorem repeatFrom_isSome {step : Cursor → (Cursor → Option β) → Option β}
    (hstep : ∀ (c : Cursor) (k : Cursor → Option β) (s rest : Text), c.rest = s ++ rest
      → p.Covers s → Accepts k (c.pos + s.length) rest → (step c k).isSome)
    {parts : List Text} (hparts : ∀ t ∈ parts, p.Covers t) {fuel : Nat}
    (hrest : c.rest = parts.flatten ++ rest) (hfuel : parts.flatten.length ≤ fuel)
    (hk : Accepts k (c.pos + parts.flatten.length) rest) :
    (repeatFrom step k fuel c).isSome = true := by
  induction parts generalizing c fuel with
  | nil =>
    have hc := hk c rfl hrest
    cases fuel with
    | zero => exact hc
    | succ fuel =>
      rw [repeatFrom]
      split
      · rfl
      · exact hc
  | cons t parts ih =>
    have hlater : ∀ t ∈ parts, p.Covers t := fun u hu => hparts u (mem_cons_of_mem _ hu)
    by_cases ht : t = []
    · subst ht
      exact ih hlater hrest hfuel hk
    · have hlen : 0 < t.length := length_pos_iff.mpr ht
      rw [flatten_cons, length_append] at hfuel hk
      obtain ⟨fuel, rfl⟩ := Nat.exists_eq_succ_of_ne_zero (by omega : fuel ≠ 0)
      rw [repeatFrom]
      have hfirst : (step c (fun d => if c.pos
        < d.pos then repeatFrom step k fuel d else none)).isSome
          = true := by
        refine hstep c _ t (parts.flatten ++ rest) ?_ (hparts t mem_cons_self) ?_
        · rw [hrest, flatten_cons, append_assoc]
        · intro d hpos hd
          show (if c.pos < d.pos then repeatFrom step k fuel d else none).isSome = true
          rw [if_pos (by omega)]
          refine ih hlater hd (by omega) (fun e he => hk e ?_)
          omega
      split
      · rfl
      · next hn =>
        rw [hn] at hfirst
        cases hfirst

end

/-- a free pattern matches where a text that it covers comes next -/
theorem tryAt_isSome {β : Type} (hp : p.isFree) {c : Cursor}
    {k : Cursor → Option β} {s rest : Text} (hrest : c.rest = s ++ rest) (hs : p.Covers s)
    (hk : Accepts k (c.pos + s.length) rest) : (p.tryAt c k).isSome = true := by
  induction p generalizing c k s rest with
  | empty =>
    rw [show s = [] from hs] at hrest hk
    exact hk c rfl hrest
  | one ok =>
    obtain ⟨ch, rfl, hok⟩ := hs
    rw [tryAt, hrest]
    simp only [singleton_append, hok, if_true]
    exact hk _ rfl rfl
  | text t =>
    rw [show s = t from hs] at hrest hk
    obtain ⟨d, hd, hpos, hd'⟩ := pastText_isSome hrest
    rw [tryAt, hd]
    exact hk d hpos hd'
  | lineStart => cases hp
  | lineEnd => cases hp
  | andThen p q ihp ihq =>
    obtain ⟨hfp, hfq⟩ := Bool.and_eq_true_iff.mp hp
    obtain ⟨a, b, rfl, ha, hb⟩ := hs
    rw [tryAt]
    have hsplit : c.rest = a ++ (b ++ rest) := by rw [hrest, append_assoc]
    refine ihp hfp hsplit ha (fun d hpos hd => ?_)
    refine ihq hfq hd hb (fun e he => hk e ?_)
    rw [he, hpos, length_append]
    omega
  | orElse p q ihp ihq =>
    obtain ⟨hfp, hfq⟩ := Bool.and_eq_true_iff.mp hp
    rw [tryAt]
    split
    · rfl
    · next hn =>
      rcases hs with hs | hs
      · have := ihp hfp hrest hs hk
        rw [hn] at this
        cases this
      · exact ihq hfq hrest hs hk
  | maybe p ih =>
    rw [tryAt]
    split
    · rfl
    · next hn =>
      rcases hs with rfl | hs
      · exact hk c rfl hrest
      · have := ih hp hrest hs hk
        rw [hn] at this
        cases this
  | run ok =>
    obtain ⟨d, hd, hpos, hd'⟩ := exists_reach hrest hs []
    rw [tryAt, findSome?_isSome_iff]
    exact ⟨d, hd, hk d hpos hd'⟩
  | few ok =>
    rw [tryAt, hrest]
    exact firstNear_isSome hs hrest hk
  | many p ih =>
    obtain ⟨parts, rfl, hparts⟩ := hs
    rw [tryAt]
    refine repeatFrom_isSome (fun c k s rest hr hs hk => ih hp hr hs hk) hparts hrest ?_ hk
    rw [hrest, length_append]
    omega
  | group n p ih =>
    rw [tryAt]
    exact ih hp hrest hs (fun d hpos hd => hk _ hpos hd)

/-! ## the matches one after the other -/

theorem matchAt_front {pos : Nat} {prev : Option Char} {m : Match}
    (h : p.matchAt ⟨pos, prev, t, []⟩ = some m) :
    p.Covers m.text ∧ m.start = pos ∧ m.stop = pos + m.text.length ∧ ∃ r, t = m.text ++ r := by
  obtain ⟨s, d, hp, hm⟩ := tryAt_some p _ _ m h
  obtain rfl := Option.some.inj hm
  have hs : Cursor.upTo ⟨pos, prev, t, []⟩ d = s := hp.upTo
  simp only [hs, true_and]
  exact ⟨hp.covers, hp.pos, d.rest, hp.rest⟩

theorem findFrom_found (p : Pattern) (pos : Nat) (prev : Option Char) (found : List Match) (n : Nat)
    (t : Text) : p.findFrom pos prev found n t = found.reverse ++ p.findFrom pos prev [] n t := by
  induction t generalizing pos prev found n with
  | nil =>
    cases n with
    | zero =>
      simp only [findFrom]
      split <;> simp
    | succ n => simp [findFrom]
  | cons ch t ih =>
    cases n with
    | zero =>
      simp only [findFrom]
      split
      · next m _ =>
        rw [ih _ _ (m :: found), ih _ _ [m]]
        simp
      · exact ih _ _ found _
    | succ n =>
      simp only [findFrom]
      exact ih _ _ found _

theorem findFrom_skip (p : Pattern) (pos : Nat) (prev : Option Char) (n : Nat) (t : Text)
    (h : n ≤ t.length) :
    ∃ prev', p.findFrom pos prev [] n t = p.findFrom (pos + n) prev' [] 0 (t.drop n) := by
  induction n generalizing pos prev t with
  | zero => exact ⟨prev, rfl⟩
  | succ n ih =>
    cases t with
    | nil => simp at h
    | cons ch t =>
      obtain ⟨prev', he⟩ := ih (pos + 1) (some ch) t (by simpa using h)
      refine ⟨prev', ?_⟩
      rw [findFrom, he, drop_succ_cons]
      congr 1
      omega

end Pattern

/-! ## texts with something replaced -/

/-- a text that the pattern covers comes first -/
def Starts (p : Pattern) (t : Text) : Prop := ∃ s r, t = s ++ r ∧ p.Covers s

/-- the second text is the first with `new` in the place of what the pattern covers -/
inductive Replaced (p : Pattern) (new : Text) : Text → Text → Prop
  | nil : Replaced p new [] []
  | keep {c : Char} {t t' : Text} (h : ¬ Starts p (c :: t)) (ht : Replaced p new t t') :
      Replaced p new (c :: t) (c :: t')
  | swap {s t t' : Text} (hs : p.Covers s) (ht : Replaced p new t t') :
      Replaced p new (s ++ t) (new ++ t')

/-- the second text is the first with `new m` in the place of what a match `m` covers -/
inductive Rewritten (p : Pattern) (new : Match → Text) : Text → Text → Prop
  | nil : Rewritten p new [] []
  | keep {c : Char} {t t' : Text} (h : ¬ Starts p (c :: t)) (ht : Rewritten p new t t') :
      Rewritten p new (c :: t) (c :: t')
  | swap {m : Match} {pos : Nat} {prev : Option Char} {t t' : Text}
      (hm : p.matchAt ⟨pos, prev, m.text ++ t, []⟩ = some m) (ht : Rewritten p new t t') :
      Rewritten p new (m.text ++ t) (new m ++ t')

theorem Rewritten.replaced {new : Text} (h : Rewritten p (fun _ => new) t t') :
    Replaced p new t t' := by
  induction h with
  | nil => exact .nil
  | keep hno _ ih => exact .keep hno ih
  | swap hm _ ih => exact .swap (Pattern.matchAt_front hm).1 ih

theorem starts_of_matchStart (h : (p.matchStart t).isSome) : Starts p t := by
  obtain ⟨m, hm⟩ := Option.isSome_iff_exists.mp h
  obtain ⟨hcov, -, -, r, hr⟩ := Pattern.matchAt_front hm
  exact ⟨m.text, r, hr, hcov⟩

section
variable {p : Pattern} (hfree : p.isFree) (hempty : ¬ p.Covers [])
include hfree

theorem not_starts_of_matchAt {pos : Nat} {prev : Option Char}
    (h : p.matchAt ⟨pos, prev, t, []⟩ = none) : ¬ Starts p t := by
  rintro ⟨s, r, rfl, hs⟩
  have hsome : (p.matchAt ⟨pos, prev, s ++ r, []⟩).isSome :=
    Pattern.tryAt_isSome hfree rfl hs (fun _ _ _ => rfl)
  rw [h] at hsome
  cases hsome

include hempty

/-- `u` stands between the end of the last match and `t`, in which the next ones are looked for -/
theorem replaceMatches_rewritten (new : Match → Text) (t : Text) (pos q : Nat) (prev : Option Char)
    (u : Text) (done : List Text) (hpos : q + u.length = pos) :
    ∃ t', Rewritten p new t t' ∧ replaceMatches new done q (u ++ t)
      (p.findFrom pos prev [] 0 t) = done.reverse.flatten ++ u ++ t' := by
  -- the induction is on the length, since a match takes several characters at once
  induction hlen : t.length using Nat.strong_induction_on generalizing t pos q prev u done with
  | _ n ih =>
    cases t with
    | nil =>
      refine ⟨[], .nil, ?_⟩
      have hnone : p.matchAt ⟨pos, prev, [], []⟩ = none := by
        cases hm : p.matchAt ⟨pos, prev, [], []⟩ with
        | none => rfl
        | some m =>
          obtain ⟨hcov, -, -, r, hr⟩ := Pattern.matchAt_front hm
          rw [(append_eq_nil_iff.mp hr.symm).1] at hcov
          exact absurd hcov hempty
      simp [Pattern.findFrom, hnone, replaceMatches]
    | cons ch t =>
      rw [Pattern.findFrom]
      cases hm : p.matchAt ⟨pos, prev, ch :: t, []⟩ with
      | none =>
        obtain ⟨t', ht', he⟩ := ih t.length (by rw [← hlen]; simp) t (pos + 1) q (some ch)
          (u ++ [ch]) done (by rw [length_append, length_singleton]; omega) rfl
        refine ⟨ch :: t', .keep (not_starts_of_matchAt hfree hm) ht', ?_⟩
        simpa using he
      | some m =>
        obtain ⟨hcov, hstart, hstop, r, hr⟩ := Pattern.matchAt_front hm
        have hne : m.text ≠ [] := fun he => hempty (he ▸ hcov)
        have hpositive : 0 < m.text.length := length_pos_iff.mpr hne
        have hsize : m.text.length + r.length = t.length + 1 := by
          simpa using (congrArg length hr).symm
        have hdrop : t.drop (m.text.length - 1) = r := by
          have hall : (ch :: t).drop m.text.length = r := by rw [hr, drop_left]
          rwa [← Nat.sub_add_cancel hpositive, drop_succ_cons] at hall
        obtain ⟨prev', hskip⟩ := p.findFrom_skip (pos + 1) (some ch) (m.text.length - 1) t
          (by omega)
        rw [hdrop] at hskip
        obtain ⟨t', ht', he⟩ := ih r.length (by rw [← hlen, length_cons]; omega) r
          (pos + 1 + (m.text.length - 1)) m.stop prev' []
          (new m :: u :: done) (by rw [hstop, length_nil]; omega) rfl
        have hhere : p.matchAt ⟨pos, prev, m.text ++ r, []⟩ = some m := hr ▸ hm
        refine ⟨new m ++ t', hr ▸ .swap hhere ht', ?_⟩
        have htake : (u ++ ch :: t).take (m.start - q) = u := by
          rw [hstart, ← hpos, Nat.add_sub_cancel_left, take_left]
        have hrest : (u ++ ch :: t).drop (m.stop - q) = r := by
          rw [hstop, ← hpos, show q + u.length + m.text.length - q = u.length
            + m.text.length by omega, hr, ← append_assoc, ← length_append, drop_left]
        simp only
        rw [Pattern.findFrom_found, hstop, show pos + m.text.length - pos - 1 = m.text.length
          - 1 by omega, hskip, reverse_singleton, singleton_append, replaceMatches, htake, hrest]
        simpa using he

/-- what `replace` returns -/
theorem rewritten_replace (new : Match → Text) (t : Text) :
    Rewritten p new t (p.replace new t) := by
  obtain ⟨t', ht', he⟩ := replaceMatches_rewritten hfree hempty new t 0 0 none [] [] rfl
  have hresult : p.replace new t = t' := he
  rw [hresult]
  exact ht'

theorem replaced_replace (new : Text) (t : Text) : Replaced p new t (p.replace (fun _ => new) t) :=
  (rewritten_replace hfree hempty (fun _ => new) t).replaced

end

/-! ## spaced places -/

/-- the character before what follows `a`, with `prev` before `a` -/
def before (prev : Option Char) : Text → Option Char
  | [] => prev
  | c :: a => before (some c) a

theorem before_append (prev : Option Char) (a b : Text) :
    before prev (a ++ b) = before (before prev a) b := by
  induction a generalizing prev with
  | nil => rfl
  | cons c a ih => exact ih (some c)

def IsGap (c : Option Char) : Prop := ∀ x, c = some x → isBlank x

instance (c : Option Char) : Decidable (IsGap c) :=
  decidable_of_iff (c.all isBlank) (by cases c <;> simp [IsGap])

theorem not_isGap (hx : isBlank x = false) : ¬ IsGap (some x) := fun h => by
  rw [h x rfl] at hx
  cases hx

theorem before_not_isGap (hx : isBlank x = false)
    (hm : ∀ c ∈ m, isBlank c = false) : ¬ IsGap (before (some x) m) := by
  induction m generalizing x with
  | nil => exact not_isGap hx
  | cons c m ih => exact ih (hm c mem_cons_self) (fun d hd => hm d (mem_cons_of_mem _ hd))

def Spaced (p : Pattern) (prev : Option Char) (t : Text) : Prop :=
  ∀ a b, t = a ++ b → Starts p b → IsGap (before prev a)

section
variable {p : Pattern} {new : Text} {prev : Option Char}

theorem Spaced.later {a : Text} (h : Spaced p prev (a ++ t)) : Spaced p (before prev a) t := by
  intro a' b ht hb
  rw [← before_append]
  exact h (a ++ a') b (by rw [ht, append_assoc]) hb

theorem Spaced.not_starts (h : Spaced p prev t) (hprev : ¬ IsGap prev) : ¬ Starts p t :=
  fun hs => hprev (h [] t rfl hs)

theorem Replaced.head_kept (h : Replaced p new t t') (hsp : Spaced p prev t)
    (hprev : ¬ IsGap prev) : t.head? = t'.head? := by
  cases h with
  | nil => rfl
  | keep _ _ => rfl
  | swap hs _ => exact absurd ⟨_, _, rfl, hs⟩ (hsp.not_starts hprev)

theorem Replaced.word_kept {r' : Text} (h : Replaced p new t t') (hsp : Spaced p prev t)
    (hprev : ¬ IsGap prev) (hm : ∀ c ∈ m, isBlank c = false) (ht : t' = m ++ r') :
    ∃ r, t = m ++ r ∧ Replaced p new r r' := by
  induction m generalizing t t' prev with
  | nil => exact ⟨t, rfl, by rwa [← show t' = r' from ht]⟩
  | cons x m ih =>
    cases h with
    | nil => cases ht
    | keep hno htail =>
      obtain ⟨rfl, htail'⟩ := List.cons.inj ht
      obtain ⟨r, rfl, hr⟩ := ih htail (Spaced.later (a := [_]) hsp) (not_isGap (hm _ mem_cons_self))
        (fun c hc => hm c (mem_cons_of_mem _ hc)) htail'
      exact ⟨r, rfl, hr⟩
    | swap hs _ => exact absurd ⟨_, _, rfl, hs⟩ (hsp.not_starts hprev)

theorem append_eq_of_not_mem {u a r : Text} (hx : x ∉ u) (h : u ++ t = a ++ x :: r) :
    ∃ a', a = u ++ a' ∧ t = a' ++ x :: r := by
  rcases append_eq_append_iff.mp h with ⟨v, rfl, ht⟩ | ⟨v, rfl, hv⟩
  · exact ⟨v, rfl, ht⟩
  · cases v with
    | nil => exact ⟨[], by simp, hv.symm⟩
    | cons y v =>
      have hy : x = y := (List.cons.inj hv).1
      exact absurd (by rw [hy]; simp) hx

/-- an occurrence of a word was one before, with no match of the pattern there, and what follows it
is what followed it then with the pattern replaced -/
theorem Replaced.occurrence {a' b' : Text} {prev' : Option Char}
    (h : Replaced p new t t') (hsp : Spaced p prev t) (hword : ∀ c ∈ x :: m, isBlank c = false)
    (hx : x ∉ new) (hnew : new = [] ∨ ∀ s prev, p.Covers s → ¬ IsGap (before prev s))
    (hgap : IsGap prev → IsGap prev') (ht : t' = a' ++ x :: (m ++ b')) :
    ∃ a b, t = a ++ x :: (m ++ b) ∧ ¬ Starts p (x :: (m ++ b)) ∧ Replaced p new b b'
      ∧ b.head? = b'.head? ∧ (IsGap (before prev a) → IsGap (before prev' a')) := by
  have hxb := hword x mem_cons_self
  have hmb : ∀ c ∈ m, isBlank c = false := fun c hc => hword c (mem_cons_of_mem _ hc)
  induction h generalizing a' prev prev' with
  | nil => simp at ht
  | @keep c t t' hno htail ih =>
    have hlater : Spaced p (some c) t := Spaced.later (a := [c]) hsp
    cases a' with
    | nil =>
      -- the word starts here, and goes on as it did
      obtain ⟨rfl, htail'⟩ := List.cons.inj ht
      obtain ⟨b, rfl, hb⟩ := htail.word_kept hlater (not_isGap hxb) hmb htail'
      exact ⟨[], b, rfl, hno, hb, hb.head_kept hlater.later (before_not_isGap hxb hmb), hgap⟩
    | cons y a' =>
      obtain ⟨rfl, htail'⟩ := List.cons.inj ht
      obtain ⟨a, b, rfl, hb, hrep, hhead, hg⟩ := ih hlater id htail'
      exact ⟨c :: a, b, rfl, hb, hrep, hhead, hg⟩
  | @swap s t t' hs htail ih =>
    obtain ⟨a₁, rfl, htail'⟩ := append_eq_of_not_mem hx ht
    have hgap' : IsGap (before prev s) → IsGap (before prev' new) := by
      rcases hnew with rfl | hclosed
      · exact fun _ => hgap (hsp [] _ rfl ⟨s, t, rfl, hs⟩)
      · exact fun hg => absurd hg (hclosed s prev hs)
    obtain ⟨a, b, rfl, hb, hrep, hhead, hg⟩ := ih hsp.later hgap' htail'
    refine ⟨s ++ a, b, by rw [append_assoc], hb, hrep, hhead, ?_⟩
    rw [before_append, before_append]
    exact hg

theorem Replaced.front_kept {u v : Text} (h : Replaced p new (u ++ v) t')
    (hu : ∀ a b, u = a ++ b → b ≠ [] → ¬ Starts p (b ++ v)) : ∃ v', t' = u ++ v'
      ∧ Replaced p new v v' := by
  induction u generalizing t' with
  | nil => exact ⟨t', rfl, h⟩
  | cons c u ih =>
    generalize hw : c :: u ++ v = w at h
    cases h with
    | nil => cases hw
    | keep hno htail =>
      obtain ⟨rfl, rfl⟩ := List.cons.inj hw
      obtain ⟨v', rfl, hv⟩ := ih htail
        (fun a b hab hb => hu (c :: a) b (by rw [hab]; rfl) hb)
      exact ⟨v', rfl, hv⟩
    | swap hs _ =>
      exact absurd ⟨_, _, hw, hs⟩ (hu [] (c :: u) rfl (by simp))

theorem Replaced.eq_of_not_starts (h : Replaced p new t t') (ht : ∀ a b, t = a ++ b
    → ¬ Starts p b) : t' = t := by
  induction h with
  | nil => rfl
  | keep _ _ ih => rw [ih (fun a b hab => ht (_ :: a) b (by rw [hab]; rfl))]
  | swap hs _ _ => exact absurd ⟨_, _, rfl, hs⟩ (ht [] _ rfl)

end

end Rebind
