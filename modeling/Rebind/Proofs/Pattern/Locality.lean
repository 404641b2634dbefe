import Mathlib
import Rebind.Proofs.Pattern.Rewriting

/-!
# Searches that do not look far

The header of a method reads up to the first closing parenthesis, over white space, to an opening
brace. A pattern of this shape is a `Heading`.  It covers at most one text at a place
(`Heading.unique`), and the first place that it finds in a text does not change when the text behind
that place does (`Heading.search_local`).  `heading_seq` makes headings out of parts that hold no
closing parenthesis.

A free pattern is found in a text as soon as some part of the text is covered (`found_of_infix`),
and of all that is found something lies over the start of that part (`exists_match_over`).
-/

namespace Rebind

open List

theorem append_first_inj {x : Char} {a b r s : Text} (ha : x ∉ a) (hb : x ∉ b)
    (h : a ++ x :: r = b ++ x :: s) : a = b ∧ r = s := by
  obtain ⟨y, rfl, hy⟩ := append_eq_of_not_mem ha h
  cases y with
  | nil => exact ⟨(append_nil a).symm, (List.cons.inj hy).2⟩
  | cons z y =>
    have hz : z = x := (List.cons.inj hy).1.symm
    exact absurd (by simp [hz]) hb

/-- what a free pattern covers is found -/
theorem found_of_infix {p : Pattern} (hfree : p.isFree) {s t : Text} (hs : p.Covers s)
    (h : s <:+: t) : p.found t = true := by
  obtain ⟨a, b, rfl⟩ := h
  have hfind : ∀ (a : Text) (pos : Nat) (prev : Option Char),
      (p.searchFrom pos prev (a ++ (s ++ b))).isSome := by
    intro a
    induction a with
    | nil =>
      intro pos prev
      have hsome : (p.matchAt ⟨pos, prev, s ++ b, []⟩).isSome :=
        Pattern.tryAt_isSome hfree rfl hs (fun _ _ _ => rfl)
      rw [nil_append]
      cases hsb : s ++ b with
      | nil => rwa [hsb] at hsome
      | cons c t =>
        rw [hsb] at hsome
        rw [Pattern.searchFrom]
        split
        · rfl
        · next hn =>
          rw [hn] at hsome
          cases hsome
    | cons c a ih =>
      intro pos prev
      rw [cons_append, Pattern.searchFrom]
      split
      · rfl
      · exact ih (pos + 1) (some c)
  rw [Pattern.found, Pattern.search, append_assoc]
  exact hfind a 0 none

theorem search_eq_none_iff {p : Pattern} (hfree : p.isFree) {t : Text} :
    p.search t = none ↔ ∀ s, p.Covers s → ¬ s <:+: t := by
  constructor
  · intro hnone s hs hi
    have hfound := found_of_infix hfree hs hi
    rw [Pattern.found, hnone] at hfound
    cases hfound
  · intro hall
    cases hs : p.search t with
    | none => rfl
    | some m =>
      have hm := Pattern.search_some hs
      exact absurd hm.isInfix (hall m.text hm.covers)

/-- a text that a free pattern covers is found, or starts inside of what is found -/
theorem exists_match_over {p : Pattern} (hfree : p.isFree) (hempty : ¬ p.Covers []) {s : Text}
    (hs : p.Covers s) (a b : Text) :
    ∃ m ∈ p.findAll (a ++ s ++ b), m.start ≤ a.length ∧ a.length < m.stop := by
  have hne : s ≠ [] := fun he => hempty (he ▸ hs)
  -- `n` characters are passed over, none of them behind the place where `s` starts
  have hfind : ∀ (t a : Text) (pos : Nat) (prev : Option Char) (n : Nat), t = a ++ (s ++ b)
    → n ≤ a.length →
      ∃ m ∈ p.findFrom pos prev [] n t, m.start ≤ pos + a.length ∧ pos + a.length < m.stop := by
    intro t
    induction t with
    | nil =>
      intro a pos prev n ht _
      have hnil := append_eq_nil_iff.mp (append_eq_nil_iff.mp ht.symm).2
      exact absurd hnil.1 hne
    | cons ch t ih =>
      intro a pos prev n ht hn
      have hlater : ∀ (a' : Text) (n' : Nat), a = ch :: a' → n' ≤ a'.length →
          ∃ m ∈ p.findFrom (pos + 1) (some ch) [] n' t,
            m.start ≤ pos + a.length ∧ pos + a.length < m.stop := by
        rintro a' n' rfl hn'
        obtain ⟨m, hm, hstart, hstop⟩ := ih a' (pos + 1) (some ch) n' (List.cons.inj ht).2 hn'
        rw [length_cons]
        exact ⟨m, hm, by omega, by omega⟩
      have hfront : a ≠ [] → ∃ a', a = ch :: a' := fun ha => by
        obtain ⟨c, a', rfl⟩ := exists_cons_of_ne_nil ha
        exact ⟨a', by rw [(List.cons.inj ht).1]⟩
      cases n with
      | succ n =>
        obtain ⟨a', rfl⟩ := hfront (ne_nil_of_length_pos (by omega))
        exact hlater a' n rfl (by simpa using hn)
      | zero =>
        rw [Pattern.findFrom]
        split
        · next m hm =>
          obtain ⟨hcov, hstart, hstop, r, hr⟩ := Pattern.matchAt_front hm
          have hpositive : 0 < m.text.length := length_pos_iff.mpr (fun he => hempty (he ▸ hcov))
          rw [Pattern.findFrom_found, reverse_singleton, singleton_append]
          by_cases hin : a.length < m.text.length
          · exact ⟨m, mem_cons_self, by omega, by omega⟩
          · obtain ⟨a', rfl⟩ := hfront (ne_nil_of_length_pos (by omega))
            rw [length_cons] at hin
            obtain ⟨m', hm', hplace⟩ := hlater a' (m.stop - pos - 1) rfl (by omega)
            exact ⟨m', mem_cons_of_mem _ hm', hplace⟩
        · next hnone =>
          obtain ⟨a', rfl⟩ := hfront (fun ha => by
            rw [ha, nil_append] at ht
            exact not_starts_of_matchAt hfree hnone ⟨s, b, ht, hs⟩)
          exact hlater a' 0 rfl (Nat.zero_le _)
  obtain ⟨m, hm, hstart, hstop⟩ := hfind (a ++ s ++ b) a 0 none 0 (append_assoc a s b)
    (Nat.zero_le _)
  rw [Nat.zero_add] at hstart hstop
  exact ⟨m, hm, hstart, hstop⟩

/-! ## characters that a pattern does not cover -/

def Pattern.Avoids (c : Char) (p : Pattern) : Prop := ∀ s, p.Covers s → c ∉ s

namespace Pattern

variable {c : Char}

theorem avoids_run {ok : Char → Bool} (hc : ok c = false) :
    (Pattern.run ok).Avoids c := fun _ hs hm => by
  rw [show ok c = true from hs c hm] at hc
  cases hc

theorem avoids_run1 {ok : Char → Bool} (hc : ok c = false) : (run1 ok).Avoids c := fun _ hs hm => by
  rw [(covers_run1.mp hs).2 c hm] at hc
  cases hc

theorem avoids_text {t : Text} (hc : c ∉ t) : (Pattern.text t).Avoids c := fun _ hs hm =>
  hc (hs ▸ hm)

theorem avoids_andThen {p q : Pattern} (hp : p.Avoids c) (hq : q.Avoids c) :
    (Pattern.andThen p q).Avoids c := by
  rintro s ⟨a, b, rfl, ha, hb⟩ hm
  exact (mem_append.mp hm).elim (hp a ha) (hq b hb)

theorem avoids_maybe {p : Pattern} (hp : p.Avoids c) : (Pattern.maybe p).Avoids c := by
  rintro s (rfl | hs) hm
  · cases hm
  · exact hp s hs hm

theorem avoids_many {p : Pattern} (hp : p.Avoids c) : (Pattern.many p).Avoids c := by
  rintro s ⟨parts, rfl, hparts⟩ hm
  obtain ⟨t, ht, hm⟩ := mem_flatten.mp hm
  exact hp t (hparts t ht) hm

theorem avoids_orElse {p q : Pattern} (hp : p.Avoids c) (hq : q.Avoids c) :
    (Pattern.orElse p q).Avoids c := by
  rintro s (hs | hs)
  · exact hp s hs
  · exact hq s hs

theorem avoids_seq {ps : List Pattern} (h : ∀ p ∈ ps, p.Avoids c) : (seq ps).Avoids c := by
  induction ps with
  | nil =>
    rintro s rfl hm
    cases hm
  | cons p ps ih =>
    cases ps with
    | nil => exact h p mem_cons_self
    | cons q ps =>
      exact avoids_andThen (h p mem_cons_self) (ih fun r hr => h r (mem_cons_of_mem _ hr))

theorem avoids_keyword {w : String} (hc : c ∉ w.toList) (hb : isBlank c = false) :
    (keyword w).Avoids c := avoids_andThen (avoids_text hc) (avoids_run1 hb)

end Pattern

/-! ## headings -/

/-- the pattern reads up to the first closing parenthesis, over white space, to an opening brace -/
structure Pattern.Heading (p : Pattern) : Prop where
  free : p.isFree = true
  shape : ∀ s, p.Covers s → ∃ a b, s = a ++ ')' :: (b ++ ['\x7b']) ∧ ')' ∉ a
    ∧ ∀ c ∈ b, isBlank c = true

namespace Pattern.Heading

variable {p : Pattern} (h : p.Heading)
include h

theorem not_covers_nil : ¬ p.Covers [] := fun hs => by
  obtain ⟨a, b, he, -⟩ := h.shape [] hs
  simp at he

theorem unique {s r s' r' : Text} (hs : p.Covers s) (hs' : p.Covers s') (he : s ++ r = s' ++ r') :
    s = s' := by
  obtain ⟨a, b, rfl, ha, hb⟩ := h.shape s hs
  obtain ⟨a', b', rfl, ha', hb'⟩ := h.shape s' hs'
  have hbrace : ∀ b : Text, (∀ c ∈ b, isBlank c) → '\x7b' ∉ b := fun b hb hm => by
    have := hb _ hm
    exact absurd this (by decide)
  simp only [append_assoc, cons_append, nil_append] at he
  obtain ⟨rfl, hrest⟩ := append_first_inj ha ha' he
  obtain ⟨rfl, -⟩ := append_first_inj (hbrace b hb) (hbrace b' hb') hrest
  rfl

/-- behind the closing parenthesis of a later heading no heading that started before it can end -/
theorem not_over {s u m v w : Text} (hs : p.Covers s) (hm : p.Covers m)
    (he : s = u ++ m ++ v ++ w) : w = [] := by
  obtain ⟨a, b, rfl, ha, hb⟩ := h.shape s hs
  obtain ⟨a', b', rfl, -, -⟩ := h.shape m hm
  have hclose : ')' ∉ b := fun hmem => absurd (hb _ hmem) (by decide)
  have hbrace : '\x7b' ∉ b := fun hmem => absurd (hb _ hmem) (by decide)
  have he' : a ++ ')' :: (b ++ ['\x7b']) = (u ++ a') ++ ')' :: (b' ++ '\x7b' :: (v ++ w)) := by
    rw [he]
    simp
  obtain ⟨x, hx, hrest⟩ := append_eq_of_not_mem ha he'
  cases x with
  | cons y x =>
    -- the other parenthesis would stand among the white space
    obtain ⟨-, htail⟩ := List.cons.inj hrest
    have hmem : ')' ∈ b ++ ['\x7b'] := by rw [htail]; simp
    rcases mem_append.mp hmem with hmem | hmem
    · exact absurd hmem hclose
    · exact absurd hmem (by decide)
  | nil =>
    have htail : b ++ ['\x7b'] = b' ++ '\x7b' :: (v ++ w) := (List.cons.inj hrest).2
    obtain ⟨y, rfl, hy⟩ := append_eq_of_not_mem hbrace htail
    cases y with
    | nil =>
      have : v ++ w = [] := (List.cons.inj hy).2.symm
      exact (append_eq_nil_iff.mp this).2
    | cons z y =>
      have := (List.cons.inj hy).2
      simp at this

/-- the first heading that is found stays the first one, whatever stands behind it -/
theorem searchFrom_local {x y y' : Text} {pos : Nat} {prev : Option Char} {m : Match}
    (hm : p.searchFrom pos prev (x ++ y) = some m) (hstop : m.stop ≤ pos + x.length) :
    ∃ m', p.searchFrom pos prev (x ++ y') = some m' ∧ m'.stop = m.stop := by
  induction x generalizing pos prev with
  | nil =>
    -- a match at the end would be empty
    obtain ⟨a, b, -, hstart⟩ := (Pattern.searchFrom_some hm).place
    have hlen := (Pattern.searchFrom_some hm).stop
    have hne : m.text ≠ [] := fun hnil =>
      h.not_covers_nil (hnil ▸ (Pattern.searchFrom_some hm).covers)
    have hpositive : 0 < m.text.length := length_pos_iff.mpr hne
    rw [length_nil] at hstop
    omega
  | cons ch x ih =>
    rw [cons_append, Pattern.searchFrom] at hm
    rw [cons_append, Pattern.searchFrom]
    cases hhere : p.matchAt ⟨pos, prev, ch :: (x ++ y), []⟩ with
    | some m₀ =>
      rw [hhere] at hm
      obtain rfl := Option.some.inj hm
      obtain ⟨hcov, -, hstop₀, r, hr⟩ := Pattern.matchAt_front hhere
      have hle : m₀.text.length ≤ (ch :: x).length := by rw [length_cons] at hstop ⊢; omega
      -- the match lies in what does not change
      obtain ⟨v, hv⟩ : ∃ v, ch :: x = m₀.text ++ v := by
        refine ⟨(ch :: x).drop m₀.text.length, ?_⟩
        have htake : m₀.text = (ch :: x).take m₀.text.length := by
          have := congrArg (take m₀.text.length) hr
          rw [take_left, ← cons_append, take_append_of_le_length hle] at this
          exact this.symm
        conv_lhs => rw [← take_append_drop m₀.text.length (ch :: x), ← htake]
      have hnew : ch :: (x ++ y') = m₀.text ++ (v ++ y') := by
        rw [← cons_append, hv, append_assoc]
      have hsome : (p.matchAt ⟨pos, prev, ch :: (x ++ y'), []⟩).isSome :=
        Pattern.tryAt_isSome h.free (c := ⟨pos, prev, ch :: (x ++ y'), []⟩) hnew hcov
          (fun _ _ _ => rfl)
      obtain ⟨m₁, hm₁⟩ := Option.isSome_iff_exists.mp hsome
      obtain ⟨hcov₁, -, hstop₁, r₁, hr₁⟩ := Pattern.matchAt_front hm₁
      rw [hm₁]
      refine ⟨m₁, rfl, ?_⟩
      rw [hstop₁, hstop₀, h.unique hcov₁ hcov (hr₁.symm.trans hnew)]
    | none =>
      rw [hhere] at hm
      have hnone : p.matchAt ⟨pos, prev, ch :: (x ++ y'), []⟩ = none := by
        cases hother : p.matchAt ⟨pos, prev, ch :: (x ++ y'), []⟩ with
        | none => rfl
        | some m₁ =>
          exfalso
          obtain ⟨hcov₁, -, -, r₁, hr₁⟩ := Pattern.matchAt_front hother
          have hnot := not_starts_of_matchAt h.free hhere
          -- the later match lies in `x` as well
          have hof := Pattern.searchFrom_some hm
          obtain ⟨a, b, hab, hstart⟩ := hof.place
          have hlen : a.length + m.text.length ≤ x.length := by
            have := hof.stop
            rw [length_cons] at hstop
            omega
          obtain ⟨v, hv⟩ : ∃ v, x = a ++ m.text ++ v := by
            refine ⟨x.drop (a ++ m.text).length, ?_⟩
            have htake : a ++ m.text = x.take (a ++ m.text).length := by
              have := congrArg (take (a ++ m.text).length) hab
              rw [take_left, take_append_of_le_length (by simpa using hlen)] at this
              exact this.symm
            conv_lhs => rw [← take_append_drop (a ++ m.text).length x, ← htake]
          rw [← cons_append] at hr₁
          rcases append_eq_append_iff.mp hr₁ with ⟨w, hw, -⟩ | ⟨w, hw, -⟩
          · -- it would end behind `x`, hence not at all
            have hover : m₁.text = (ch :: a) ++ m.text ++ v ++ w := by rw [hw, hv]; simp
            have hwnil := h.not_over hcov₁ hof.covers hover
            rw [hwnil, append_nil] at hw
            exact hnot ⟨m₁.text, y, by rw [hw]; rfl, hcov₁⟩
          · exact hnot ⟨m₁.text, w ++ y, by rw [← append_assoc, ← hw]; rfl, hcov₁⟩
      rw [hnone]
      refine ih hm ?_
      rw [length_cons] at hstop
      omega

theorem search_local {x y y' : Text} {m : Match} (hm : p.search (x ++ y) = some m)
    (hstop : m.stop ≤ x.length) : ∃ m', p.search (x ++ y') = some m' ∧ m'.stop = m.stop :=
  h.searchFrom_local hm (by omega)

end Pattern.Heading

/-- parts without a closing parenthesis, then parameters and a brace -/
theorem Pattern.heading_seq (ps : List Pattern) (hps : ∀ p ∈ ps, p.isFree ∧ p.Avoids ')') :
    (seq (ps ++ [parameters, blanks, lit "\x7b"])).Heading := by
  induction ps with
  | nil =>
    refine ⟨rfl, ?_⟩
    rintro s ⟨_, _, rfl, ⟨_, _, rfl, rfl, inner, _, rfl, hinner, rfl⟩, b, _, rfl, hb, rfl⟩
    refine ⟨"(" ++ inner, b, by simp, ?_, hb⟩
    rw [mem_append, not_or]
    exact ⟨by decide, fun hm => by simpa using hinner _ hm⟩
  | cons p ps ih =>
    obtain ⟨hfree, hshape⟩ := ih (fun q hq => hps q (mem_cons_of_mem _ hq))
    obtain ⟨hp, havoid⟩ := hps p mem_cons_self
    have hseq : seq (p :: ps ++ [parameters, blanks, lit "\x7b"])
        = .andThen p (seq (ps ++ [parameters, blanks, lit "\x7b"])) := by
      cases ps <;> rfl
    rw [hseq]
    refine ⟨by rw [isFree, hp, hfree]; rfl, ?_⟩
    rintro s ⟨u, v, rfl, hu, hv⟩
    obtain ⟨a, b, rfl, ha, hb⟩ := hshape v hv
    refine ⟨u ++ a, b, by simp, ?_, hb⟩
    rw [mem_append, not_or]
    exact ⟨havoid u hu, ha⟩

end Rebind
