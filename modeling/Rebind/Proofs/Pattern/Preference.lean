import Mathlib
import Rebind.Proofs.Pattern.Rewriting
import Rebind.Proofs.Text.Lines

/-!
# What a pattern prefers

A pattern may cover several texts at one place, and a search may find it at several places.  Here is
what is taken where there is a choice:

* `search_first`: a search stops at the first place at which the pattern starts;
* `tryAt_run1_of_total`: a run of characters goes on to its end, if whatever comes behind it is
  accepted;
* `tryAt_maybe_of_total`: what may be missing is left out only if it does not start there;
* `tryAt_run_longest`: of the runs of characters behind which there is a way on, the longest is
  taken.

`Total k` says that a continuation accepts every cursor.  `Prefers p s gs r` says that before `s ++
r` the pattern takes `s` and notes the groups `gs`, if whatever follows accepts `r`.  It goes from
the parts of a pattern to the whole (`Prefers.andThen`, `Prefers.maybe`, `Prefers.once`), and
settles what is matched (`Prefers.matchAt`). Pieces of text that hold one match each are found one
by one (`groups_findAll_unlines`).
-/

namespace Rebind

open List

def Pattern.StopsRun (ok : Char → Bool) (t : Text) : Prop := ∀ c, t.head? = some c → ok c = false

theorem run_inj {ok : Char → Bool} {a a' b b' : Text} (ha : ∀ c ∈ a, ok c) (ha' : ∀ c ∈ a', ok c)
    (hb : Pattern.StopsRun ok b) (hb' : Pattern.StopsRun ok b') (h : a ++ b = a' ++ b') :
    a = a' ∧ b = b' := by
  have hrun : ∀ {a b : Text}, (∀ c ∈ a, ok c) → Pattern.StopsRun ok b
      → (a ++ b).takeWhile ok = a := by
    intro a b ha hb
    have hstop : b.takeWhile ok = [] := by
      cases b with
      | nil => rfl
      | cons c b => rw [takeWhile_cons_of_neg (by simp [hb c rfl])]
    rw [takeWhile_append_of_pos ha, hstop, append_nil]
  have hfront : a = a' := by rw [← hrun ha hb, h, hrun ha' hb']
  subst hfront
  exact ⟨rfl, append_cancel_left h⟩

theorem Cursor.Moved.upTo {c d : Cursor} {s : Text} (h : c.Moved s d) : c.upTo d = s := by
  rw [Cursor.upTo, h.rest, h.pos, Nat.add_sub_cancel_left, take_left]

namespace Pattern

theorem Passes.groups_eq {p : Pattern} {c d : Cursor} {s : Text} (h : p.Passes c s d)
    (hp : p.isBare) :
    d.groups = c.groups := by
  obtain ⟨gs, hgs, hreads⟩ := h.reads
  rw [hgs, hreads.groups_eq_nil hp, nil_append]

/-! ## the first place -/

theorem searchFrom_first {p : Pattern} (hfree : p.isFree = true) {t : Text} {pos : Nat}
    {prev : Option Char}
    {m : Match} (h : p.searchFrom pos prev t = some m) : ∃ a b prev', t = a ++ b
      ∧ p.matchAt ⟨pos + a.length, prev', b, []⟩ = some m ∧ ∀ u v, a = u ++ v → v ≠ []
        → ¬ Starts p (v ++ b) := by
  induction t generalizing pos prev with
  | nil =>
    exact ⟨[], [], prev, rfl, h, fun u v huv hv => absurd (append_eq_nil_iff.mp huv.symm).2 hv⟩
  | cons ch t ih =>
    rw [searchFrom] at h
    split at h
    · next hm =>
      exact ⟨[], ch :: t, prev, rfl, hm.trans h,
        fun u v huv hv => absurd (append_eq_nil_iff.mp huv.symm).2 hv⟩
    · next hnone =>
      obtain ⟨a, b, prev', rfl, hm, hfirst⟩ := ih h
      refine ⟨ch :: a, b, prev', rfl, ?_, fun u v huv hv => ?_⟩
      · rw [length_cons, show pos + (a.length + 1) = pos + 1 + a.length by omega]
        exact hm
      · cases u with
        | nil =>
          rw [← show ch :: a = v from huv]
          exact not_starts_of_matchAt hfree hnone
        | cons x u => exact hfirst u v (List.cons.inj huv).2 hv

theorem search_first {p : Pattern} (hfree : p.isFree) {t : Text} {m : Match}
    (h : p.search t = some m) :
    ∃ a b prev, t = a ++ b ∧ p.matchAt ⟨a.length, prev, b, []⟩ = some m
      ∧ ∀ u v, a = u ++ v → v ≠ [] → ¬ Starts p (v ++ b) := by
  obtain ⟨a, b, prev, ht, hm, hfirst⟩ := searchFrom_first hfree h
  rw [Nat.zero_add] at hm
  exact ⟨a, b, prev, ht, hm, hfirst⟩

/-! ## continuations that accept everything -/

def Total {β : Type} (k : Cursor → Option β) : Prop := ∀ d, (k d).isSome = true

section
variable {β : Type} {k : Cursor → Option β} {c : Cursor} {b : β} {ok : Char → Bool}

theorem exists_farthest (ok : Char → Bool) {t : Text} (hc : c.rest = t) (near : List Cursor) :
    ∃ s d others, Cursor.reach ok t c near = d :: others ∧ c.Moved s d ∧ (∀ ch ∈ s, ok ch)
      ∧ StopsRun ok d.rest := by
  induction t generalizing c near with
  | nil => exact ⟨[], c, near, rfl, .nil c, by simp, by simp [hc, StopsRun]⟩
  | cons ch t ih =>
    rw [Cursor.reach]
    split
    · next hok =>
      obtain ⟨s, d, others, hreach, hmoved, hs, hstop⟩ := ih (c := c.past ch t) rfl (c :: near)
      exact ⟨ch :: s, d, others, hreach, .cons hc hmoved, by simpa [hok] using hs, hstop⟩
    · next hok =>
      refine ⟨[], c, near, rfl, .nil c, by simp, fun x hx => ?_⟩
      rw [hc] at hx
      rw [← Option.some.inj hx]
      simpa using hok

theorem tryAt_run_of_total (hk : Total k) (h : (Pattern.run ok).tryAt c k = some b) :
    ∃ s d, c.Moved s d ∧ (∀ ch ∈ s, ok ch) ∧ StopsRun ok d.rest ∧ k d = some b := by
  obtain ⟨s, d, others, hreach, hmoved, hs, hstop⟩ := exists_farthest ok (c := c) rfl []
  obtain ⟨b', hb'⟩ := Option.isSome_iff_exists.mp (hk d)
  rw [tryAt, hreach, findSome?_cons, hb'] at h
  exact ⟨s, d, hmoved, hs, hstop, hb'.trans h⟩

theorem tryAt_run1_of_total (hk : Total k) (h : (run1 ok).tryAt c k = some b) :
    ∃ s d, c.Moved s d ∧ (run1 ok).Covers s ∧ StopsRun ok d.rest ∧ k d = some b := by
  rw [run1, tryAt, tryAt] at h
  split at h
  · cases h
  · next ch rest hrest =>
    split at h
    · next hok =>
      obtain ⟨s, d, hmoved, hs, hstop, hd⟩ := tryAt_run_of_total hk h
      exact ⟨ch :: s, d, .cons hrest hmoved, ⟨[ch], s, rfl, ⟨ch, rfl, hok⟩, hs⟩, hstop, hd⟩
    · cases h

theorem total_maybe (p : Pattern) (hk : Total k) :
    Total (fun d => (Pattern.maybe p).tryAt d k) := by
  intro d
  show ((Pattern.maybe p).tryAt d k).isSome
  rw [tryAt]
  split
  · rfl
  · exact hk d

/-- what may be missing is left out only where it does not start -/
theorem tryAt_maybe_of_total {p : Pattern} (hfree : p.isFree) (hk : Total k)
    (h : (Pattern.maybe p).tryAt c k = some b) :
    p.tryAt c k = some b ∨ ¬ Starts p c.rest ∧ k c = some b := by
  rw [tryAt] at h
  split at h
  · next hp => exact .inl (hp.trans h)
  · next hnone =>
    refine .inr ⟨?_, h⟩
    rintro ⟨s, r, hr, hs⟩
    have hsome : (p.tryAt c k).isSome := tryAt_isSome hfree hr hs (fun d _ _ => hk d)
    rw [hnone] at hsome
    cases hsome

end

/-! ## what is taken where there is a way on -/

/-- the cursor comes behind `s`, before `r`, with the groups `gs` noted on the way -/
structure Arrives (c : Cursor) (s : Text) (gs : List (Nat × Text)) (r : Text) (d : Cursor) :
    Prop where
  rest : d.rest = r
  pos : d.pos = c.pos + s.length
  groups : d.groups = gs ++ c.groups

/-- before `s ++ r` the pattern takes `s` and notes `gs`, if what follows accepts `r` -/
def Prefers (p : Pattern) (s : Text) (gs : List (Nat × Text)) (r : Text) : Prop :=
  ∀ (β : Type) (c : Cursor) (k : Cursor → Option β), c.rest = s ++ r
    → Accepts k (c.pos + s.length) r → ∃ d, Arrives c s gs r d ∧ p.tryAt c k = k d

section
variable {p q : Pattern} {s t r : Text} {gs hs : List (Nat × Text)} {ok : Char → Bool} {c : Cursor}

theorem reach_eq (ok : Char → Bool) (hc : c.rest = t) (near : List Cursor) :
    ∃ far, Cursor.reach ok t c near = far ++ c :: near
    ∧ ∀ d ∈ far, ∃ u, u ≠ [] ∧ (∀ ch ∈ u, ok ch) ∧ c.Moved u d := by
  induction t generalizing c near with
  | nil => exact ⟨[], rfl, by simp⟩
  | cons ch t ih =>
    rw [Cursor.reach]
    split
    · next hok =>
      obtain ⟨far, hfar, hmoved⟩ := ih (c := c.past ch t) rfl (c :: near)
      refine ⟨far ++ [c.past ch t], by simp [hfar], fun d hd => ?_⟩
      rcases mem_append.mp hd with hd | hd
      · obtain ⟨u, -, hu, hud⟩ := hmoved d hd
        exact ⟨ch :: u, by simp, by simpa [hok] using hu, .cons hc hud⟩
      · rw [mem_singleton.mp hd]
        exact ⟨[ch], by simp, by simpa using hok, .cons hc (.nil _)⟩
    · exact ⟨[], rfl, by simp⟩

/-- a run stops where there is a way on, if there is none behind a longer run -/
theorem tryAt_run_longest {β : Type} {k : Cursor → Option β} (hc : c.rest = s ++ r)
    (hok : ∀ ch ∈ s, ok ch) (hk : Accepts k (c.pos + s.length) r)
    (hlonger : ∀ u v d, r = u ++ v → u ≠ [] → (∀ ch ∈ u, ok ch) → d.rest = v → k d = none) :
    ∃ d, Arrives c s [] r d ∧ (Pattern.run ok).tryAt c k = k d := by
  obtain ⟨d, near, hmoved, hrest, hreach⟩ := reach_append hc hok []
  obtain ⟨far, hfar, hfarther⟩ := reach_eq ok hrest near
  refine ⟨d, ⟨hrest, hmoved.pos, hmoved.groups⟩, ?_⟩
  have hnone : far.findSome? k = none := by
    rw [findSome?_eq_none_iff]
    intro e he
    obtain ⟨u, hne, hu, hue⟩ := hfarther e he
    exact hlonger u e.rest e (hrest.symm.trans hue.rest) hne hu rfl
  obtain ⟨b, hb⟩ := Option.isSome_iff_exists.mp (hk d hmoved.pos hrest)
  rw [tryAt, hc, hreach, hfar, findSome?_append, hnone, Option.none_or, findSome?_cons, hb]

theorem prefers_run (hok : ∀ ch ∈ s, ok ch) (hstop : StopsRun ok r) :
    (Pattern.run ok).Prefers s [] r := by
  intro β c k hc hk
  refine tryAt_run_longest hc hok hk (fun u v d hr hne hu _ => ?_)
  obtain ⟨x, u, rfl⟩ := exists_cons_of_ne_nil hne
  have hx := hstop x (by rw [hr]; rfl)
  rw [hu x mem_cons_self] at hx
  cases hx

theorem StopsRun.cons {x : Char} (h : ok x = false) (t : Text) : StopsRun ok (x :: t) := by
  intro y hy
  rwa [← Option.some.inj hy]

/-- white space stops at a word -/
theorem stopsRun_word {w : Text} (h : word.Covers w) : StopsRun isBlank (w ++ t) := by
  obtain ⟨hne, hword⟩ := covers_run1.mp h
  obtain ⟨c, w, rfl⟩ := exists_cons_of_ne_nil hne
  exact .cons (isBlank_of_isWord (hword c mem_cons_self)) _

theorem prefers_nil (h : StopsRun ok r) :
    (Pattern.run ok).Prefers [] [] r := prefers_run (by simp) h

theorem prefers_text (t r : Text) : (Pattern.text t).Prefers t [] r := by
  intro β c k hc hk
  obtain ⟨d, hd, hpos, hrest⟩ := pastText_isSome hc
  exact ⟨d, ⟨hrest, hpos, (pastText_some hd).groups⟩, by rw [tryAt, hd]; rfl⟩

theorem prefers_one {ch : Char} (hok : ok ch) (r : Text) : (Pattern.one ok).Prefers [ch] [] r := by
  intro β c k hc _
  refine ⟨c.past ch r, ⟨rfl, rfl, rfl⟩, ?_⟩
  rw [tryAt, hc]
  simp [hok]

theorem Arrives.trans {d e : Cursor} (h : Arrives c s gs (t ++ r) d) (h' : Arrives d t hs r e) :
    Arrives c (s ++ t) (hs ++ gs) r e where
  rest := h'.rest
  pos := by
    rw [h'.pos, h.pos, length_append]
    omega
  groups := by rw [h'.groups, h.groups, append_assoc]

section
variable {β : Type} {k : Cursor → Option β} {pos : Nat}

theorem Prefers.next (hq : q.Prefers t hs r) (hk : Accepts k (pos + (s ++ t).length) r) {d : Cursor}
    (hpos : d.pos = pos + s.length) (hrest : d.rest = t ++ r) :
    ∃ e, Arrives d t hs r e ∧ q.tryAt d k = k e := by
  refine hq β d k hrest (fun e he => hk e ?_)
  rw [he, hpos, length_append]
  omega

theorem Prefers.accepts (hq : q.Prefers t hs r) (hk : Accepts k (pos + (s ++ t).length) r) :
    Accepts (fun d => q.tryAt d k) (pos + s.length) (t ++ r) := by
  intro d hpos hrest
  obtain ⟨e, he, hek⟩ := hq.next hk hpos hrest
  show (q.tryAt d k).isSome
  rw [hek]
  refine hk e ?_ he.rest
  rw [he.pos, hpos, length_append]
  omega

end

theorem Prefers.andThen (hp : p.Prefers s gs (t ++ r)) (hq : q.Prefers t hs r) :
    (Pattern.andThen p q).Prefers (s ++ t) (hs ++ gs) r := by
  intro β c k hc hk
  obtain ⟨d, hd, hdk⟩ := hp β c _ (by rw [hc, append_assoc]) (hq.accepts hk)
  obtain ⟨e, he, hek⟩ := hq.next hk hd.pos hd.rest
  exact ⟨e, hd.trans he, by rw [tryAt, hdk, hek]⟩

theorem Prefers.behind_run (hok : ∀ ch ∈ s, ok ch) (hq : q.Prefers t gs r)
    (hlonger : ∀ u v, t ++ r = u ++ v → u ≠ [] → (∀ ch ∈ u, ok ch) →
      ∀ (β : Type) (d : Cursor) (k : Cursor → Option β), d.rest = v → q.tryAt d k = none) :
    (Pattern.andThen (.run ok) q).Prefers (s ++ t) gs r := by
  intro β c k hc hk
  obtain ⟨d, hd, hdk⟩ := tryAt_run_longest (by rw [hc, append_assoc]) hok (hq.accepts hk)
    (fun u v d hr hne hu hv => hlonger u v hr hne hu β d k hv)
  obtain ⟨e, he, hek⟩ := hq.next hk hd.pos hd.rest
  have htrans := hd.trans he
  rw [append_nil] at htrans
  exact ⟨e, htrans, by rw [tryAt, hdk, hek]⟩

theorem prefers_run1 (hs : (run1 ok).Covers s) (hstop : StopsRun ok r) :
    (run1 ok).Prefers s [] r := by
  obtain ⟨_, b, rfl, ⟨ch, rfl, hch⟩, hb⟩ := hs
  exact (prefers_one hch (b ++ r)).andThen (prefers_run hb hstop)

theorem Prefers.group (n : Nat) (hp : p.Prefers s gs r) :
    (Pattern.group n p).Prefers s ((n, s) :: gs) r := by
  intro β c k hc hk
  obtain ⟨d, hd, hdk⟩ := hp β c (fun d => k { d with groups := (n, c.upTo d) :: d.groups }) hc
    (fun d hpos hrest => hk _ hpos hrest)
  have htext : c.upTo d = s := by
    rw [Cursor.upTo, hc, hd.pos, Nat.add_sub_cancel_left, take_left]
  refine ⟨{ d with groups := (n, c.upTo d) :: d.groups }, ⟨hd.rest, hd.pos, ?_⟩, by rw [tryAt, hdk]⟩
  rw [htext, hd.groups, cons_append]

theorem Prefers.matchAt (hp : p.Prefers s gs r) (pos : Nat) (prev : Option Char) :
    p.matchAt ⟨pos, prev, s ++ r, []⟩ = some ⟨pos, pos + s.length, s, gs⟩ := by
  obtain ⟨d, hd, hdk⟩ := hp Match ⟨pos, prev, s ++ r, []⟩
    (fun d => some ⟨pos, d.pos, Cursor.upTo ⟨pos, prev, s ++ r, []⟩ d, d.groups⟩) rfl
      (fun _ _ _ => rfl)
  rw [Pattern.matchAt, hdk, Cursor.upTo, hd.pos, hd.groups, append_nil, Nat.add_sub_cancel_left,
    take_left]

theorem Prefers.covers (hp : p.Prefers s gs r) : p.Covers s := (matchAt_front (hp.matchAt 0 none)).1

/-! ## parts that may be missing or come again -/

theorem tryAt_eq_none {β : Type} {c : Cursor} (h : ¬ Starts p c.rest) (k : Cursor → Option β) :
    p.tryAt c k = none := by
  by_contra hsome
  obtain ⟨b, hb⟩ := Option.ne_none_iff_exists'.mp hsome
  obtain ⟨s, d, hp, -⟩ := tryAt_some p c k b hb
  exact h ⟨s, d.rest, hp.rest, hp.covers⟩

theorem Arrives.isSome {β : Type} {c d : Cursor} {k : Cursor → Option β} (h : Arrives c s gs r d)
    (hk : Accepts k (c.pos + s.length) r) : ∃ b, k d = some b :=
  Option.isSome_iff_exists.mp (hk d h.pos h.rest)

theorem Prefers.maybe (hp : p.Prefers s gs r) : (Pattern.maybe p).Prefers s gs r := by
  intro β c k hc hk
  obtain ⟨d, hd, hdk⟩ := hp β c k hc hk
  obtain ⟨b, hb⟩ := hd.isSome hk
  exact ⟨d, hd, by rw [tryAt, hdk, hb]⟩

theorem prefers_missing (h : ¬ Starts p r) : (Pattern.maybe p).Prefers [] [] r := by
  intro β c k hc _
  refine ⟨c, ⟨hc, rfl, rfl⟩, ?_⟩
  rw [tryAt, tryAt_eq_none]
  rwa [hc]

/-- what may come again and again comes once, if it does not start behind that -/
theorem Prefers.once (hp : p.Prefers s gs r) (hs : s ≠ []) (h : ¬ Starts p r) :
    (Pattern.many p).Prefers s gs r := by
  intro β c k hc hk
  have hlater : ∀ d : Cursor, d.rest = r → ∀ n, repeatFrom (fun d k' => p.tryAt d k') k n d
      = k d := by
    intro d hd n
    cases n with
    | zero => rfl
    | succ n =>
      rw [repeatFrom, tryAt_eq_none]
      rwa [hd]
  have hpos : 0 < s.length := length_pos_iff.mpr hs
  obtain ⟨d, hd, hdk⟩ := hp β c
    (fun d => if c.pos < d.pos then repeatFrom (fun d k' => p.tryAt d k') k c.rest.length d
      else none)
    hc (by
      intro d hdpos hdrest
      show (if c.pos < d.pos then repeatFrom _ k c.rest.length d else none).isSome = true
      rw [if_pos (by omega), hlater d hdrest]
      exact hk d hdpos hdrest)
  have hdpos := hd.pos
  rw [if_pos (by omega), hlater d hd.rest] at hdk
  obtain ⟨b, hb⟩ := hd.isSome hk
  exact ⟨d, hd, by rw [tryAt, repeatFrom, hdk, hb]⟩

/-! ## texts in pieces -/

def OpensWith (p : Pattern) (x : Char) : Prop := ∀ s, p.Covers s → s.head? = some x

theorem OpensWith.not_starts {x : Char} (h : p.OpensWith x) {t : Text} (ht : t.head? ≠ some x) :
    ¬ Starts p t := by
  rintro ⟨s, r, rfl, hs⟩
  have hhead := h s hs
  rw [head?_append, hhead] at ht
  exact ht rfl

theorem OpensWith.findFrom_append {x : Char} (h : p.OpensWith x) {a : Text} (ha : x ∉ a) (t : Text)
    (pos : Nat) (prev : Option Char) :
    ∃ prev', p.findFrom pos prev [] 0 (a ++ t) = p.findFrom (pos + a.length) prev' [] 0 t := by
  induction a generalizing pos prev with
  | nil => exact ⟨prev, rfl⟩
  | cons c a ih =>
    obtain ⟨hc, ha⟩ := not_or.mp (mt mem_cons.mpr ha)
    obtain ⟨prev', hrest⟩ := ih ha (pos + 1) (some c)
    have hnone : p.matchAt ⟨pos, prev, c :: (a ++ t), []⟩ = none :=
      tryAt_eq_none (h.not_starts (by simpa using Ne.symm hc)) _
    refine ⟨prev', ?_⟩
    rw [cons_append, findFrom, hnone, length_cons, show pos + (a.length + 1) = pos + 1
      + a.length by omega]
    exact hrest

theorem Prefers.findFrom (hp : p.Prefers s gs r) (hs : s ≠ []) (pos : Nat) (prev : Option Char) :
    ∃ prev',
    p.findFrom pos prev [] 0 (s ++ r) = ⟨pos, pos + s.length, s, gs⟩
      :: p.findFrom (pos + s.length) prev' [] 0 r := by
  have hmatch := hp.matchAt pos prev
  obtain ⟨c, s, rfl⟩ := exists_cons_of_ne_nil hs
  obtain ⟨prev', hskip⟩ := findFrom_skip p (pos + 1) (some c) s.length (s ++ r) (by simp)
  refine ⟨prev', ?_⟩
  rw [drop_left, show pos + 1 + s.length = pos
    + (c :: s).length by rw [length_cons]; omega] at hskip
  rw [cons_append] at hmatch
  rw [cons_append, Pattern.findFrom, hmatch]
  show p.findFrom (pos + 1) (some c) [_] (pos + (c :: s).length - pos - 1) (s ++ r) = _
  rw [findFrom_found, show pos + (c :: s).length - pos - 1
    = s.length by rw [length_cons]; omega, hskip]
  rfl

def HoldsOne (p : Pattern) (x : Char) (gs : List (Nat × Text)) (t : Text) : Prop :=
  ∃ a s b, t = a ++ (s ++ b) ∧ x ∉ a ∧ s ≠ [] ∧ x ∉ b ∧ ∀ r, p.Prefers s gs r

theorem HoldsOne.findFrom {x : Char} {t : Text} (h : p.HoldsOne x gs t) (hx : p.OpensWith x)
    (r : Text) (pos : Nat) (prev : Option Char) : ∃ m pos' prev', m.groups = gs
      ∧ p.findFrom pos prev [] 0 (t ++ r) = m :: p.findFrom pos' prev' [] 0 r := by
  obtain ⟨a, s, b, rfl, ha, hs, hb, hp⟩ := h
  obtain ⟨prev₁, h₁⟩ := hx.findFrom_append ha (s ++ (b ++ r)) pos prev
  obtain ⟨prev₂, h₂⟩ := (hp (b ++ r)).findFrom hs (pos + a.length) prev₁
  obtain ⟨prev₃, h₃⟩ := hx.findFrom_append hb r (pos + a.length + s.length) prev₂
  exact ⟨_, _, prev₃, rfl, by rw [append_assoc, append_assoc, h₁, h₂, h₃]⟩

/-- pieces that hold one match each, on lines of their own, are found one by one -/
theorem groups_findAll_unlines {x : Char} (hx : p.OpensWith x) (hline : x ≠ '\n') {ι : Type}
    {piece : ι → Text}
    {groups : ι → List (Nat × Text)} (h : ∀ i, p.HoldsOne x (groups i) (piece i)) (is : List ι) :
    (p.findAll (unlines (is.map piece))).map Match.groups = is.map groups := by
  suffices hfrom : ∀ pos prev,
      (p.findFrom pos prev [] 0 (unlines (is.map piece))).map Match.groups
        = is.map groups from hfrom 0 none
  induction is with
  | nil =>
    intro pos prev
    have hnone : p.matchAt ⟨pos, prev, [], []⟩ = none := tryAt_eq_none (hx.not_starts (by simp)) _
    show (p.findFrom pos prev [] 0 []).map Match.groups = []
    rw [Pattern.findFrom, hnone]
    rfl
  | cons i is ih =>
    intro pos prev
    by_cases his : is = []
    · subst his
      obtain ⟨m, pos', prev', hm, hfound⟩ := (h i).findFrom hx [] pos prev
      have hone : unlines ([i].map piece) = piece i ++ [] := by simp [unlines]
      rw [hone, hfound, map_cons, hm]
      exact congrArg _ (ih pos' prev')
    · obtain ⟨m, pos', prev', hm, hfound⟩ :=
        (h i).findFrom hx ('\n' :: unlines (is.map piece)) pos prev
      obtain ⟨prev'', hnewline⟩ := hx.findFrom_append (a := ['\n']) (by simpa using hline)
        (unlines (is.map piece)) pos' prev'
      rw [map_cons, unlines_cons (by simpa using his), hfound, map_cons, hm,
        show '\n' :: unlines (is.map piece) = ['\n'] ++ unlines (is.map piece) from rfl, hnewline,
        ih, map_cons]

end

end Pattern

end Rebind
