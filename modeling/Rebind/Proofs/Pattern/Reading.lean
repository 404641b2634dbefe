import Mathlib
import Rebind.Pattern.Search

/-!
# What a match says about the text

`Pattern.Covers p s` says that `s` is a text that the pattern `p` describes, leaving aside where it
stands.  Every match of a search covers what it claims to:

* `Pattern.Passes p c s d`: `p` leads from the cursor `c` over the text `s` to the cursor `d`: `p`
  covers `s`, and each group noted on the way holds a part of `s` that the
  pattern of that group covers;
* `Pattern.Reads p s gs`: `p` covers `s`, and `gs` are the groups noted on the way, latest first;
* `Pattern.tryAt_some`: every answer of `tryAt` comes from such a passage;
* `Match.Of p pos t m`: `m` is a match of `p` in the text `t` that starts at offset `pos`;
* `searchFrom_some`, `of_mem_findAll`: what the searches find are matches.
-/

namespace Rebind

open List

variable {ok : Char → Bool} {c d : Cursor} {m : Match} {pos : Nat} {prev : Option Char}
  {p : Pattern} {s t : Text}

/-! ## texts that a pattern describes -/

/-- `s` is a text that the pattern describes -/
def Pattern.Covers : Pattern → Text → Prop
  | .empty, s => s = []
  | .one ok, s => ∃ ch, s = [ch] ∧ ok ch = true
  | .text t, s => s = t
  | .lineStart, s => s = []
  | .lineEnd, s => s = []
  | .andThen p q, s => ∃ a b, s = a ++ b ∧ p.Covers a ∧ q.Covers b
  | .orElse p q, s => p.Covers s ∨ q.Covers s
  | .maybe p, s => s = [] ∨ p.Covers s
  | .run ok, s => ∀ ch ∈ s, ok ch = true
  | .few ok, s => ∀ ch ∈ s, ok ch = true
  | .many p, s => ∃ parts : List Text, s = parts.flatten ∧ ∀ t ∈ parts, p.Covers t
  | .group _ p, s => p.Covers s

theorem Pattern.covers_run1 : (run1 ok).Covers s ↔ s ≠ [] ∧ ∀ c ∈ s, ok c := by
  constructor
  · rintro ⟨a, b, rfl, ⟨ch, rfl, hch⟩, hb⟩
    refine ⟨by simp, fun c hc => ?_⟩
    rcases mem_cons.mp hc with rfl | hc
    · exact hch
    · exact hb c hc
  · rintro ⟨hne, hs⟩
    cases s with
    | nil => exact absurd rfl hne
    | cons ch s =>
      exact ⟨[ch], s, rfl, ⟨ch, rfl, hs ch mem_cons_self⟩,
        fun c hc => hs c (mem_cons_of_mem _ hc)⟩

theorem Pattern.covers_seq_last (ps : List Pattern) {q : Pattern}
    (h : (Pattern.seq (ps ++ [q])).Covers s) : ∃ a b, s = a ++ b ∧ q.Covers b := by
  induction ps generalizing s with
  | nil => exact ⟨[], s, rfl, h⟩
  | cons p ps ih =>
    have hstep : ∃ a b, s = a ++ b ∧ (Pattern.seq (ps ++ [q])).Covers b := by
      cases ps with
      | nil =>
        obtain ⟨a, b, hs, -, hb⟩ := h
        exact ⟨a, b, hs, hb⟩
      | cons p' ps =>
        obtain ⟨a, b, hs, -, hb⟩ := h
        exact ⟨a, b, hs, hb⟩
    obtain ⟨a, b, rfl, hb⟩ := hstep
    obtain ⟨a', b', rfl, hq⟩ := ih hb
    exact ⟨a ++ a', b', by simp, hq⟩

/-- `s` is a text that the pattern describes, and `gs` is what its groups hold then, latest first -/
def Pattern.Reads : Pattern → Text → List (Nat × Text) → Prop
  | .empty, s, gs => s = [] ∧ gs = []
  | .one ok, s, gs => (∃ ch, s = [ch] ∧ ok ch) ∧ gs = []
  | .text t, s, gs => s = t ∧ gs = []
  | .lineStart, s, gs => s = [] ∧ gs = []
  | .lineEnd, s, gs => s = [] ∧ gs = []
  | .andThen p q, s, gs => ∃ a b ga gb, s = a ++ b ∧ gs = gb ++ ga ∧ p.Reads a ga ∧ q.Reads b gb
  | .orElse p q, s, gs => p.Reads s gs ∨ q.Reads s gs
  | .maybe p, s, gs => (s = [] ∧ gs = []) ∨ p.Reads s gs
  | .run ok, s, gs => (∀ ch ∈ s, ok ch) ∧ gs = []
  | .few ok, s, gs => (∀ ch ∈ s, ok ch) ∧ gs = []
  | .many p, s, gs => ∃ parts : List (Text × List (Nat × Text)), s = (parts.map (·.1)).flatten
      ∧ gs = (parts.map (·.2)).reverse.flatten ∧ ∀ x ∈ parts, p.Reads x.1 x.2
  | .group n p, s, gs => ∃ gp, gs = (n, s) :: gp ∧ p.Reads s gp

theorem Pattern.Reads.covers {gs : List (Nat × Text)} (h : p.Reads s gs) : p.Covers s := by
  induction p generalizing s gs with
  | empty => exact h.1
  | one ok => exact h.1
  | text t => exact h.1
  | lineStart => exact h.1
  | lineEnd => exact h.1
  | andThen p q ihp ihq =>
    obtain ⟨a, b, ga, gb, rfl, -, ha, hb⟩ := h
    exact ⟨a, b, rfl, ihp ha, ihq hb⟩
  | orElse p q ihp ihq => exact h.imp ihp ihq
  | maybe p ih => exact h.imp (·.1) ih
  | run ok => exact h.1
  | few ok => exact h.1
  | many p ih =>
    obtain ⟨parts, rfl, -, hparts⟩ := h
    refine ⟨parts.map (·.1), rfl, ?_⟩
    rintro t ht
    obtain ⟨x, hx, rfl⟩ := mem_map.mp ht
    exact ih (hparts x hx)
  | group n p ih =>
    obtain ⟨gp, -, hp⟩ := h
    exact ih hp

/-- the pattern notes no group -/
def Pattern.isBare : Pattern → Bool
  | .andThen p q => p.isBare && q.isBare
  | .orElse p q => p.isBare && q.isBare
  | .maybe p => p.isBare
  | .many p => p.isBare
  | .group _ _ => false
  | _ => true

/-- a text that is covered can be read -/
theorem Pattern.Covers.exists_reads (h : p.Covers s) : ∃ gs, p.Reads s gs := by
  induction p generalizing s with
  | empty | one | text | lineStart | lineEnd | run | few => exact ⟨[], h, rfl⟩
  | andThen p q ihp ihq =>
    obtain ⟨a, b, rfl, ha, hb⟩ := h
    obtain ⟨ga, ha⟩ := ihp ha
    obtain ⟨gb, hb⟩ := ihq hb
    exact ⟨gb ++ ga, a, b, ga, gb, rfl, rfl, ha, hb⟩
  | orElse p q ihp ihq =>
    rcases h with h | h
    · obtain ⟨gs, h⟩ := ihp h
      exact ⟨gs, .inl h⟩
    · obtain ⟨gs, h⟩ := ihq h
      exact ⟨gs, .inr h⟩
  | maybe p ih =>
    rcases h with h | h
    · exact ⟨[], .inl ⟨h, rfl⟩⟩
    · obtain ⟨gs, h⟩ := ih h
      exact ⟨gs, .inr h⟩
  | many p ih =>
    obtain ⟨parts, rfl, hparts⟩ := h
    choose! groups hgroups using fun t (ht : p.Covers t) => ih ht
    refine ⟨_, parts.map (fun t => (t, groups t)), ?_, rfl, ?_⟩
    · simp [Function.comp_def]
    · intro x hx
      obtain ⟨t, ht, rfl⟩ := mem_map.mp hx
      exact hgroups t (hparts t ht)
  | group n p ih =>
    obtain ⟨gs, h⟩ := ih h
    exact ⟨(n, s) :: gs, gs, rfl, h⟩

theorem Pattern.Reads.groups_eq_nil {gs : List (Nat × Text)} (h : p.Reads s gs) (hp : p.isBare) :
    gs = [] := by
  induction p generalizing s gs with
  | empty => exact h.2
  | one ok => exact h.2
  | text t => exact h.2
  | lineStart => exact h.2
  | lineEnd => exact h.2
  | andThen p q ihp ihq =>
    obtain ⟨hbp, hbq⟩ := Bool.and_eq_true_iff.mp hp
    obtain ⟨a, b, ga, gb, -, rfl, ha, hb⟩ := h
    rw [ihp ha hbp, ihq hb hbq, append_nil]
  | orElse p q ihp ihq =>
    obtain ⟨hbp, hbq⟩ := Bool.and_eq_true_iff.mp hp
    exact h.elim (fun h => ihp h hbp) (fun h => ihq h hbq)
  | maybe p ih => exact h.elim (·.2) (fun h => ih h hp)
  | run ok => exact h.2
  | few ok => exact h.2
  | many p ih =>
    obtain ⟨parts, -, rfl, hparts⟩ := h
    rw [flatten_eq_nil_iff]
    intro g hg
    obtain ⟨x, hx, rfl⟩ := mem_map.mp (mem_reverse.mp hg)
    exact ih (hparts x hx) hp
  | group n p _ => cases hp

/-- `q` is what the group `n` of the pattern stands for -/
def Pattern.HasGroup : Pattern → Nat → Pattern → Prop
  | .andThen p q, n, r => p.HasGroup n r ∨ q.HasGroup n r
  | .orElse p q, n, r => p.HasGroup n r ∨ q.HasGroup n r
  | .maybe p, n, r => p.HasGroup n r
  | .many p, n, r => p.HasGroup n r
  | .group m p, n, r => (m = n ∧ p = r) ∨ p.HasGroup n r
  | _, _, _ => False

/-- every match notes the group `n` -/
def Pattern.records (n : Nat) : Pattern → Bool
  | .andThen p q => p.records n || q.records n
  | .orElse p q => p.records n && q.records n
  | .group m p => m == n || p.records n
  | _ => false

/-! ## passages -/

/-- `d` is `c` moved over `s`, with no group noted -/
structure Cursor.Moved (c : Cursor) (s : Text) (d : Cursor) : Prop where
  rest : c.rest = s ++ d.rest
  pos : d.pos = c.pos + s.length
  groups : d.groups = c.groups

theorem Cursor.Moved.nil (c : Cursor) : c.Moved [] c := ⟨rfl, rfl, rfl⟩

theorem Cursor.Moved.cons {ch : Char} {rest : Text} (hc : c.rest = ch :: rest)
    (h : (c.past ch rest).Moved s d) : c.Moved (ch :: s) d where
  rest := by rw [hc, cons_append, ← h.rest]; rfl
  pos := by
    rw [h.pos, length_cons]
    simp only [Cursor.past]
    omega
  groups := h.groups

/-- the pattern leads from `c` over `s` to `d` -/
structure Pattern.Passes (p : Pattern) (c : Cursor) (s : Text) (d : Cursor) : Prop where
  rest : c.rest = s ++ d.rest
  pos : d.pos = c.pos + s.length
  covers : p.Covers s
  reads : ∃ gs, d.groups = gs ++ c.groups ∧ p.Reads s gs
  older : c.groups ⊆ d.groups
  newer : ∀ g ∈ d.groups, g ∈ c.groups ∨ ∃ q, p.HasGroup g.1 q ∧ q.Covers g.2 ∧ g.2 <:+: s
  noted : ∀ n, p.records n → ∃ t, (n, t) ∈ d.groups

namespace Pattern

section
variable {p q : Pattern} {c d e : Cursor} {s t : Text}

theorem Passes.plain (hm : c.Moved s d) (hreads : p.Reads s []) (hrec : ∀ n, p.records n = false) :
    p.Passes c s d where
  rest := hm.rest
  pos := hm.pos
  covers := hreads.covers
  reads := ⟨[], hm.groups, hreads⟩
  older := by rw [hm.groups]; exact List.Subset.refl _
  newer g hg := .inl (hm.groups ▸ hg)
  noted n hn := by rw [hrec n] at hn; cases hn

theorem Passes.andThen (hp : p.Passes c s d) (hq : q.Passes d t e) :
    (Pattern.andThen p q).Passes c (s ++ t) e where
  rest := by rw [hp.rest, hq.rest, append_assoc]
  pos := by rw [hq.pos, hp.pos, length_append]; omega
  covers := ⟨s, t, rfl, hp.covers, hq.covers⟩
  reads := by
    obtain ⟨gs, hgs, hs⟩ := hp.reads
    obtain ⟨gt, hgt, ht⟩ := hq.reads
    exact ⟨gt ++ gs, by rw [hgt, hgs, append_assoc], s, t, gs, gt, rfl, rfl, hs, ht⟩
  older := List.Subset.trans hp.older hq.older
  newer g hg := by
    rcases hq.newer g hg with h | ⟨r, hr, hc, hi⟩
    · rcases hp.newer g h with h | ⟨r, hr, hc, hi⟩
      · exact .inl h
      · exact .inr ⟨r, .inl hr, hc, infix_append_of_infix_left hi⟩
    · exact .inr ⟨r, .inr hr, hc, infix_append_of_infix_right hi⟩
  noted n hn := by
    rcases Bool.or_eq_true .. ▸ hn with h | h
    · obtain ⟨u, hu⟩ := hp.noted n h
      exact ⟨u, hq.older hu⟩
    · exact hq.noted n h

theorem Passes.upTo (hp : p.Passes c s d) : c.upTo d = s := by
  unfold Cursor.upTo
  rw [hp.rest, hp.pos, Nat.add_sub_cancel_left, take_left]

theorem Passes.group (n : Nat) (hp : p.Passes c s d) :
    (Pattern.group n p).Passes c s { d with groups := (n, c.upTo d) :: d.groups } where
  rest := hp.rest
  pos := hp.pos
  covers := hp.covers
  reads := by
    obtain ⟨gs, hgs, hs⟩ := hp.reads
    exact ⟨(n, s) :: gs, by rw [hp.upTo, hgs, cons_append], gs, rfl, hs⟩
  older := List.Subset.trans hp.older (subset_cons_self _ _)
  newer g hg := by
    rcases mem_cons.mp hg with rfl | hg
    · exact .inr ⟨p, .inl ⟨rfl, rfl⟩, hp.upTo ▸ hp.covers, hp.upTo ▸ infix_refl _⟩
    · rcases hp.newer g hg with h | ⟨r, hr, hc, hi⟩
      · exact .inl h
      · exact .inr ⟨r, .inr hr, hc, hi⟩
  noted m hm := by
    rcases Bool.or_eq_true .. ▸ hm with h | h
    · exact ⟨c.upTo d, by rw [beq_iff_eq.mp h]; exact mem_cons_self⟩
    · obtain ⟨u, hu⟩ := hp.noted m h
      exact ⟨u, mem_cons_of_mem _ hu⟩

end

/-! ## the parts of the matcher -/

theorem pastText_some (h : c.pastText t = some d) : c.Moved t d := by
  induction t generalizing c with
  | nil =>
    rw [Cursor.pastText, Option.some.injEq] at h
    exact h ▸ .nil c
  | cons a t ih =>
    rw [Cursor.pastText] at h
    split at h
    · cases h
    · next b rest hrest =>
      split at h
      · next hab =>
        subst hab
        exact .cons hrest (ih h)
      · cases h

theorem mem_reach {near : List Cursor} (hc : c.rest = t) (h : d ∈ Cursor.reach ok t c near) :
    d ∈ near ∨ ∃ s, (∀ ch ∈ s, ok ch) ∧ c.Moved s d := by
  induction t generalizing c near with
  | nil =>
    rcases mem_cons.mp h with rfl | h
    · exact .inr ⟨[], by simp, .nil d⟩
    · exact .inl h
  | cons ch t ih =>
    rw [Cursor.reach] at h
    split at h
    · next hok =>
      rcases ih rfl h with h | ⟨s, hs, hm⟩
      · rcases mem_cons.mp h with rfl | h
        · exact .inr ⟨[], by simp, .nil d⟩
        · exact .inl h
      · exact .inr ⟨ch :: s, by simpa [hok] using hs, .cons hc hm⟩
    · rcases mem_cons.mp h with rfl | h
      · exact .inr ⟨[], by simp, .nil d⟩
      · exact .inl h

theorem firstNear_some {β : Type} {k : Cursor → Option β}
    {b : β} (hc : c.rest = t) (h : Cursor.firstNear ok k t c = some b) :
    ∃ d s, k d = some b ∧ (∀ ch ∈ s, ok ch) ∧ c.Moved s d := by
  induction t generalizing c with
  | nil => exact ⟨c, [], h, by simp, .nil c⟩
  | cons ch t ih =>
    rw [Cursor.firstNear] at h
    split at h
    · next hk => exact ⟨c, [], hk.trans h, by simp, .nil c⟩
    · split at h
      · next hok =>
        obtain ⟨d, s, hk, hs, hm⟩ := ih rfl h
        exact ⟨d, ch :: s, hk, by simpa [hok] using hs, .cons hc hm⟩
      · cases h

/-- repetitions: what one step does, the whole loop does -/
theorem repeatFrom_some {β : Type} (hstep : ∀ (c : Cursor) (k : Cursor → Option β) (b : β),
    p.tryAt c k = some b →
      ∃ s d, p.Passes c s d ∧ k d = some b) (k : Cursor → Option β) (fuel : Nat) (c :
      Cursor) (b : β)
    (h : repeatFrom (fun d k' => p.tryAt d k') k fuel c = some b) :
    ∃ s d, (Pattern.many p).Passes c s d ∧ k d = some b := by
  -- no repetition at all is a passage over nothing
  have stay : ∀ c : Cursor, (Pattern.many p).Passes c [] c := fun c =>
    .plain (.nil c) ⟨[], rfl, rfl, by simp⟩ (fun _ => rfl)
  induction fuel generalizing c with
  | zero => exact ⟨[], c, stay c, h⟩
  | succ fuel ih =>
    rw [repeatFrom] at h
    split at h
    · next b' hb =>
      obtain ⟨s, d, hp, hk⟩ := hstep c _ b' hb
      split at hk
      · obtain ⟨t, e, hm, hke⟩ := ih d (hk.trans h)
        obtain ⟨gs, hgs, hs⟩ := hp.reads
        obtain ⟨gt, hgt, parts, ht, hgparts, hparts⟩ := hm.reads
        have hreads : (Pattern.many p).Reads (s ++ t) (gt ++ gs) := by
          refine ⟨(s, gs) :: parts, by rw [ht]; rfl, by simp [hgparts], ?_⟩
          rintro x (_ | ⟨_, hx⟩)
          · exact hs
          · exact hparts x hx
        refine ⟨s ++ t, e, ⟨?_, ?_, hreads.covers, ⟨gt ++ gs, ?_, hreads⟩, ?_, ?_, ?_⟩, hke⟩
        · rw [hp.rest, hm.rest, append_assoc]
        · rw [hm.pos, hp.pos, length_append]
          omega
        · rw [hgt, hgs, append_assoc]
        · exact List.Subset.trans hp.older hm.older
        · intro g hg
          rcases hm.newer g hg with hg | ⟨r, hr, hc, hi⟩
          · rcases hp.newer g hg with hg | ⟨r, hr, hc, hi⟩
            · exact .inl hg
            · exact .inr ⟨r, hr, hc, infix_append_of_infix_left hi⟩
          · exact .inr ⟨r, hr, hc, infix_append_of_infix_right hi⟩
        · intro n hn
          cases hn
      · cases hk
    · exact ⟨[], c, stay c, h⟩

/-- every answer comes from a passage -/
theorem tryAt_some {β : Type} (p : Pattern) (c : Cursor) (k : Cursor → Option β) (b : β)
    (h : p.tryAt c k = some b) : ∃ s d, p.Passes c s d ∧ k d = some b := by
  induction p generalizing c k b with
  | empty => exact ⟨[], c, .plain (.nil c) ⟨rfl, rfl⟩ (fun _ => rfl), h⟩
  | one ok =>
    rw [tryAt] at h
    split at h
    · cases h
    · next ch rest hrest =>
      split at h
      · next hok =>
        exact ⟨[ch], c.past ch rest,
          .plain (.cons hrest (.nil _)) ⟨⟨ch, rfl, hok⟩, rfl⟩ (fun _ => rfl), h⟩
      · cases h
  | text t =>
    rw [tryAt] at h
    obtain ⟨d, hd, hk⟩ := Option.bind_eq_some_iff.mp h
    exact ⟨t, d, .plain (pastText_some hd) ⟨rfl, rfl⟩ (fun _ => rfl), hk⟩
  | lineStart =>
    rw [tryAt] at h
    split at h
    · exact ⟨[], c, .plain (.nil c) ⟨rfl, rfl⟩ (fun _ => rfl), h⟩
    · cases h
  | lineEnd =>
    rw [tryAt] at h
    split at h
    · exact ⟨[], c, .plain (.nil c) ⟨rfl, rfl⟩ (fun _ => rfl), h⟩
    · cases h
  | andThen p q ihp ihq =>
    rw [tryAt] at h
    obtain ⟨s, d, hp, hd⟩ := ihp c _ b h
    obtain ⟨t, e, hq, he⟩ := ihq d k b hd
    exact ⟨s ++ t, e, hp.andThen hq, he⟩
  | orElse p q ihp ihq =>
    rw [tryAt] at h
    split at h
    · next hb =>
      obtain ⟨s, d, hp, hd⟩ := ihp c k _ hb
      obtain ⟨gs, hgs, hs⟩ := hp.reads
      refine ⟨s, d, ⟨hp.rest, hp.pos, .inl hp.covers, ⟨gs, hgs, .inl hs⟩, hp.older, ?_, ?_⟩,
        hd.trans h⟩
      · intro g hg
        rcases hp.newer g hg with hg | ⟨r, hr, hc⟩
        · exact .inl hg
        · exact .inr ⟨r, .inl hr, hc⟩
      · intro n hn
        exact hp.noted n (Bool.and_eq_true_iff.mp hn).1
    · obtain ⟨s, d, hq, hd⟩ := ihq c k b h
      obtain ⟨gs, hgs, hs⟩ := hq.reads
      refine ⟨s, d, ⟨hq.rest, hq.pos, .inr hq.covers, ⟨gs, hgs, .inr hs⟩, hq.older, ?_, ?_⟩, hd⟩
      · intro g hg
        rcases hq.newer g hg with hg | ⟨r, hr, hc⟩
        · exact .inl hg
        · exact .inr ⟨r, .inr hr, hc⟩
      · intro n hn
        exact hq.noted n (Bool.and_eq_true_iff.mp hn).2
  | maybe p ih =>
    rw [tryAt] at h
    split at h
    · next hb =>
      obtain ⟨s, d, hp, hd⟩ := ih c k _ hb
      obtain ⟨gs, hgs, hs⟩ := hp.reads
      exact ⟨s, d, ⟨hp.rest, hp.pos, .inr hp.covers, ⟨gs, hgs, .inr hs⟩, hp.older, hp.newer,
        fun n hn => by cases hn⟩, hd.trans h⟩
    · exact ⟨[], c, .plain (.nil c) (.inl ⟨rfl, rfl⟩) (fun _ => rfl), h⟩
  | run ok =>
    rw [tryAt] at h
    obtain ⟨d, hd, hk⟩ := exists_of_findSome?_eq_some h
    rcases mem_reach rfl hd with hd | ⟨s, hs, hm⟩
    · simp at hd
    · exact ⟨s, d, .plain hm ⟨hs, rfl⟩ (fun _ => rfl), hk⟩
  | few ok =>
    rw [tryAt] at h
    obtain ⟨d, s, hk, hs, hm⟩ := firstNear_some rfl h
    exact ⟨s, d, .plain hm ⟨hs, rfl⟩ (fun _ => rfl), hk⟩
  | many p ih =>
    rw [tryAt] at h
    exact repeatFrom_some ih k _ c b h
  | group n p ih =>
    rw [tryAt] at h
    obtain ⟨s, d, hp, hd⟩ := ih c _ b h
    exact ⟨s, _, hp.group n, hd⟩

end Pattern

/-! ## matches -/

/-- `m` is a match of the pattern in the text `t`, whose first character has the offset `pos` -/
structure Match.Of (p : Pattern) (pos : Nat) (t : Text) (m : Match) : Prop where
  place : ∃ a b, t = a ++ m.text ++ b ∧ m.start = pos + a.length
  stop : m.stop = m.start + m.text.length
  covers : p.Covers m.text
  reads : p.Reads m.text m.groups
  groups : ∀ g ∈ m.groups, ∃ q, p.HasGroup g.1 q ∧ q.Covers g.2 ∧ g.2 <:+: m.text
  noted : ∀ n, p.records n = true → ∃ t, (n, t) ∈ m.groups

namespace Match

variable {p : Pattern} {pos n : Nat} {t : Text} {m : Match}

theorem Of.later {ch : Char} (h : m.Of p (pos + 1) t) : m.Of p pos (ch :: t) where
  place := by
    obtain ⟨a, b, ht, hs⟩ := h.place
    refine ⟨ch :: a, b, by rw [ht]; rfl, ?_⟩
    rw [hs, length_cons]
    omega
  stop := h.stop
  covers := h.covers
  reads := h.reads
  groups := h.groups
  noted := h.noted

theorem Of.isInfix (h : m.Of p pos t) : m.text <:+: t := by
  obtain ⟨a, b, ht, _⟩ := h.place
  exact ⟨a, b, ht.symm⟩

theorem Of.group (h : m.Of p pos t) (hn : p.records n) :
    ∃ q, p.HasGroup n q ∧ q.Covers (m.group n) ∧ m.group n <:+: m.text := by
  obtain ⟨u, hu⟩ := h.noted n hn
  have hsome : (m.groups.find? (·.1 == n)).isSome = true := by
    rw [find?_isSome]
    exact ⟨(n, u), hu, by simp⟩
  obtain ⟨g, hg⟩ := Option.isSome_iff_exists.mp hsome
  have hgn : g.1 = n := by simpa using find?_some hg
  have hval : m.group n = g.2 := by simp [Match.group, Match.group?, hg]
  rw [hval, ← hgn]
  exact h.groups g (mem_of_find?_eq_some hg)

theorem Of.stop_le (h : m.Of p 0 t) : m.stop ≤ t.length := by
  obtain ⟨a, b, ht, hstart⟩ := h.place
  rw [h.stop, hstart, ht]
  simp

theorem Of.last (ps : List Pattern) (x : Char) (h : m.Of (Pattern.seq (ps ++ [.text [x]])) pos t) :
    ∃ j, m.stop = pos + j + 1 ∧ t[j]? = some x := by
  obtain ⟨a, b, ht, hstart⟩ := h.place
  obtain ⟨u, v, hm, hv⟩ := Pattern.covers_seq_last _ h.covers
  rw [show v = [x] from hv] at hm
  refine ⟨a.length + u.length, ?_, ?_⟩
  · rw [h.stop, hstart, hm]
    simp
    omega
  · rw [ht, hm]
    simp

theorem Of.last_part (ps : List Pattern) (x : Char) {start : Nat}
    (h : m.Of (Pattern.seq (ps ++ [.text [x]])) pos ((t.drop start).take n)) :
    ∃ j, m.stop = pos + j + 1 ∧ t[start + j]? = some x := by
  obtain ⟨j, hj, hx⟩ := h.last ps x
  refine ⟨j, hj, ?_⟩
  rw [getElem?_take] at hx
  split at hx
  · rwa [getElem?_drop] at hx
  · cases hx

end Match

namespace Pattern

theorem matchAt_some (h : p.matchAt ⟨pos, prev, t, []⟩ = some m) : m.Of p pos t := by
  obtain ⟨s, d, hp, hm⟩ := tryAt_some p _ _ m h
  obtain rfl := Option.some.inj hm
  have hs : Cursor.upTo ⟨pos, prev, t, []⟩ d = s := hp.upTo
  have hrest : t = s ++ d.rest := hp.rest
  obtain ⟨gs, hgs, hreads⟩ := hp.reads
  have hg : d.groups = gs := by rw [hgs, append_nil]
  refine ⟨⟨[], d.rest, ?_, rfl⟩, ?_, ?_, ?_, ?_, hp.noted⟩
  · simp only [hs]
    exact hrest
  · simp only [hs]
    exact hp.pos
  · simp only [hs]
    exact hp.covers
  · simp only [hs, hg]
    exact hreads
  · intro g hg
    rcases hp.newer g hg with h | ⟨q, hq, hc, hi⟩
    · simp at h
    · simp only [hs]
      exact ⟨q, hq, hc, hi⟩

theorem searchFrom_some (h : p.searchFrom pos prev t = some m) : m.Of p pos t := by
  induction t generalizing pos prev with
  | nil => exact matchAt_some h
  | cons ch t ih =>
    rw [searchFrom] at h
    split at h
    · next hm => exact matchAt_some (hm.trans h)
    · exact (ih h).later

theorem search_some (h : p.search t = some m) : m.Of p 0 t :=
  searchFrom_some h

theorem of_mem_findFrom {n : Nat} {found : List Match} (h : m ∈ p.findFrom pos prev found n t) :
    m ∈ found ∨ m.Of p pos t := by
  induction t generalizing pos prev found n with
  | nil =>
    cases n with
    | zero =>
      rw [findFrom] at h
      split at h
      · next hm =>
        rcases mem_cons.mp (mem_reverse.mp h) with rfl | h
        · exact .inr (matchAt_some hm)
        · exact .inl h
      · exact .inl (mem_reverse.mp h)
    | succ n => exact .inl (mem_reverse.mp h)
  | cons ch t ih =>
    cases n with
    | zero =>
      rw [findFrom] at h
      split at h
      · next hm =>
        rcases ih h with h | h
        · rcases mem_cons.mp h with rfl | h
          · exact .inr (matchAt_some hm)
          · exact .inl h
        · exact .inr h.later
      · rcases ih h with h | h
        · exact .inl h
        · exact .inr h.later
    | succ n =>
      rcases ih h with h | h
      · exact .inl h
      · exact .inr h.later

/-- everything that is found is a match -/
theorem of_mem_findAll (h : m ∈ p.findAll t) : m.Of p 0 t := by
  rcases of_mem_findFrom h with h | h
  · simp at h
  · exact h

end Pattern

end Rebind
