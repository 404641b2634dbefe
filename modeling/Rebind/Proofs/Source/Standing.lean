import Mathlib
import Rebind.Proofs.Injection.Insertions
import Rebind.Proofs.Pattern.Tiling
import Rebind.Proofs.Source.Headers

/-!
# What leaves a header standing

A change of the text leaves a header standing if it does not touch the header and leaves as many
parentheses open before it:

* `Stands.swap`: a stretch becomes another one, between two places at which no header is cut
  (`Edge`);
* `Stands.inserted`: a balanced block is put in;
* `Stands.replace`: matches of a pattern become other texts, each `Apart` from the header;
* `Stands.dropped`: lines go, each balanced and without the header;
* `Stands.swapLines`: lines become other lines.
-/

namespace Rebind

open List Pattern

namespace Header

variable {H : Header}

theorem start_plain (H : Header) : ∀ c ∈ H.start, c ∉ ['\x7b', '\x7d', ';', '\n'] := by
  have hword : ∀ c : Char, isWord c → c ∉ ['\x7b', '\x7d', ';', '\n'] := by
    intro c hc hm
    simp only [mem_cons, not_mem_nil, or_false] at hm
    rcases hm with rfl | rfl | rfl | rfl <;> exact absurd hc (by decide)
  have hspace : ∀ c : Char, isSpace c → c ∉ ['\x7b', '\x7d', ';', '\n'] := by
    intro c hc hm
    simp only [mem_cons, not_mem_nil, or_false] at hm
    rcases hm with rfl | rfl | rfl | rfl <;> exact absurd hc (by decide)
  intro c hc
  simp only [start, front, mem_append, mem_cons] at hc
  rcases hc with (((hc | hc) | hc) | hc) | rfl | hc | rfl | hc
  · exact hword c (H.type_word.2 c hc)
  · exact hspace c (H.gap_blank.2 c hc)
  · exact hword c (H.name_word.2 c hc)
  · exact hspace c (H.space_blank c hc)
  · decide
  · intro hm
    refine H.params_plain c hc ?_
    simp only [mem_cons, not_mem_nil, or_false] at hm
    rcases hm with rfl | rfl | rfl | rfl <;> decide
  · decide
  · exact hspace c (H.room_blank c hc)

theorem text_ne_nil (H : Header) : H.text ≠ [] := by simp [text]

theorem newline_not_mem (H : Header) : '\n' ∉ H.text := by
  rw [text, mem_append, not_or]
  exact ⟨fun hm => H.start_plain _ hm (by simp), by decide⟩

end Header

/-! ## stretches between two edges -/

/-- a place at which no header is cut -/
def Edge (pre post : Text) : Prop :=
  pre = [] ∨ post = [] ∨ (∃ u c, pre = u ++ [c] ∧ c ∈ ['\x7b', '\x7d', ';', '\n'])
    ∨ ∃ c v, post = c :: v ∧ c ∈ ['\x7d', ';', '\n']

theorem Cut.edge {pre post : Text} (h : Cut pre post) : Edge pre post := by
  rcases h with ⟨u, c, rfl, hc⟩ | ⟨v, rfl⟩ | rfl
  · exact .inr (.inr (.inl ⟨u, c, rfl, by rcases hc with rfl | rfl | rfl <;> decide⟩))
  · exact .inr (.inr (.inr ⟨_, v, rfl, by decide⟩))
  · exact .inr (.inl rfl)

theorem edge_newline_behind (u post : Text) : Edge (u ++ ['\n']) post :=
  .inr (.inr (.inl ⟨u, '\n', rfl, by decide⟩))

section
variable {H : Header}

/-- a header lies before an edge or behind it -/
theorem Edge.beside {pre post a b : Text} (h : Edge pre post)
    (he : pre ++ post = a ++ H.text ++ b) :
    a.length + H.text.length ≤ pre.length ∨ pre.length ≤ a.length := by
  by_contra hno
  rw [not_or, Nat.not_le, Nat.not_le] at hno
  obtain ⟨hright, hleft⟩ := hno
  have hsize := congrArg length he
  have htext : H.text.length = H.start.length + 1 := by simp [Header.text]
  simp only [length_append] at hsize
  -- a character inside of the header, its first one apart, is one of `start` or the brace
  have hinside : ∀ i c, a.length ≤ i → i < a.length + H.start.length → (pre ++ post)[i]? = some c →
      c ∈ H.start := by
    intro i c hi hi' hc
    rw [he, append_assoc, getElem?_append_right hi, Header.text, append_assoc,
      getElem?_append_left (by omega)] at hc
    exact mem_of_getElem? hc
  rcases h with rfl | rfl | ⟨u, c, rfl, hc⟩ | ⟨c, v, rfl, hc⟩
  · exact absurd hleft (Nat.not_lt_zero _)
  · simp only [length_nil] at hsize
    omega
  · simp only [length_append, length_singleton] at hleft hright hsize
    exact H.start_plain c (hinside u.length c (by omega) (by omega) (by simp)) hc
  · by_cases hlast : pre.length < a.length + H.start.length
    · refine H.start_plain c (hinside pre.length c (by omega) hlast (by simp)) ?_
      exact mem_cons_of_mem _ hc
    · -- the character would be the brace of the header
      have hplace : pre.length = a.length + H.start.length := by omega
      have hbrace : (pre ++ c :: v)[pre.length]? = some '\x7b' := by
        rw [he, hplace, Header.text]
        simp
      have : c = '\x7b' := by simpa using hbrace
      rw [this] at hc
      exact absurd hc (by decide)

/-- a stretch becomes another one -/
theorem Header.Stands.swap {x s s' y : Text} (h : H.Stands (x ++ s ++ y)) (hx : Edge x (s ++ y))
    (hy : Edge (x ++ s) y) (hs : ¬ H.text <:+: s) (hparens : parens s = parens s') :
    H.Stands (x ++ s' ++ y) := by
  obtain ⟨a, b, he, hclosed⟩ := h
  have hfront : ∀ u : Text, u.length ≤ a.length → ∀ v, u ++ v = a ++ H.text ++ b
      → ∃ r, a = u ++ r := by
    intro u hu v huv
    rw [append_assoc] at huv
    obtain ⟨r, hr⟩ := prefix_of_prefix_length_le ⟨_, huv⟩ ⟨_, rfl⟩ hu
    exact ⟨r, hr.symm⟩
  rcases hx.beside (by rw [← append_assoc, he]) with hbefore | hbehind
  · obtain ⟨r, rfl⟩ : a ++ H.text <+: x := by
      rw [append_assoc] at he
      exact prefix_of_prefix_length_le ⟨b, he.symm⟩ ⟨_, rfl⟩ (by simpa using hbefore)
    exact ⟨a, r ++ s' ++ y, by simp, hclosed⟩
  · obtain ⟨r, rfl⟩ := hfront x hbehind (s ++ y) (by rw [← append_assoc, he])
    rcases hy.beside he with hin | hbehind'
    · -- the header would stand in the stretch
      rw [append_assoc, append_assoc, append_assoc] at he
      have hrest := append_cancel_left he
      obtain ⟨v, rfl⟩ : r ++ H.text <+: s := by
        refine prefix_of_prefix_length_le ⟨b, ?_⟩ ⟨y, rfl⟩ ?_
        · rw [hrest, append_assoc]
        · simp only [length_append] at hin ⊢
          omega
      exact absurd ⟨r, v, rfl⟩ hs
    · obtain ⟨q, hq⟩ := hfront (x ++ s) hbehind' y he
      obtain rfl : r = s ++ q := by
        rw [append_assoc] at hq
        exact append_cancel_left hq
      refine ⟨x ++ (s' ++ q), b, ?_, ?_⟩
      · have hrest : y = q ++ H.text ++ b := by
          simp only [append_assoc] at he
          simpa using append_cancel_left (append_cancel_left he)
        rw [hrest]
        simp
      · rw [parensFrom_append, parensFrom_append] at hclosed ⊢
        rwa [← parensFrom_congr hparens]

theorem not_infix_nil (H : Header) : ¬ H.text <:+: [] := fun h =>
  H.text_ne_nil (infix_nil.mp h)

theorem Header.Stands.insert {x block y : Text} (h : H.Stands (x ++ y)) (hedge : Edge x y)
    (hblock : Balanced block) : H.Stands (x ++ block ++ y) := by
  have hstart : H.Stands (x ++ [] ++ y) := by rwa [append_nil]
  exact hstart.swap hedge (by rwa [append_nil]) (not_infix_nil H) hblock.symm

theorem Header.Stands.inserted {block t t' : Text} (h : H.Stands t) (hins : Inserted block t t')
    (hblock : Balanced block) : H.Stands t' := by
  obtain ⟨pre, post, rfl, rfl, hcut⟩ := hins
  exact h.insert hcut.edge hblock

end

/-! ## matches of a pattern -/

/-- the two texts have no character in common, wherever both of them stand -/
def Apart (s u : Text) : Prop :=
  ∀ a b c d, a ++ s ++ b = c ++ u ++ d → a.length + s.length ≤ c.length
    ∨ c.length + u.length ≤ a.length

section
variable {H : Header}

/-- what `replaceMatches` returns behind `done` leaves a header standing if each match is apart from
it -/
theorem Tiled.stands_replaceMatches {new : Match → Text} {pos : Nat} {t : Text} {ms : List Match}
    (h : Tiled pos t ms)
    (hms : ∀ m ∈ ms, Apart H.text m.text ∧ parens m.text = parens (new m)) (done : List Text) :
    ∃ t', replaceMatches new done pos t ms = done.reverse.flatten ++ t'
      ∧ ∀ p, H.StandsFrom p t → H.StandsFrom p t' := by
  induction h generalizing done with
  | last pos t => exact ⟨t, by simp [replaceMatches], fun p h => h⟩
  | @step pos gap rest m ms hstart hstop _ ih =>
    obtain ⟨t', ht', hstands⟩ :=
      ih (fun x hx => hms x (mem_cons_of_mem _ hx)) (new m :: gap :: done)
    refine ⟨gap ++ (new m ++ t'), ?_, ?_⟩
    · rw [replaceMatches_step new done ms hstart hstop, ht']
      simp
    · rintro p ⟨a, b, he, hclosed⟩
      obtain ⟨hapart, hparens⟩ := hms m mem_cons_self
      rcases hapart a b gap rest (by rw [← he, append_assoc]) with hbefore | hbehind
      · obtain ⟨r, rfl⟩ : a ++ H.text <+: gap :=
          prefix_of_prefix_length_le ⟨b, he.symm⟩ ⟨_, rfl⟩ (by simpa using hbefore)
        exact ⟨a, r ++ (new m ++ t'), by simp, hclosed⟩
      · obtain ⟨r, rfl⟩ : gap ++ m.text <+: a := by
          rw [← append_assoc, append_assoc a] at he
          exact prefix_of_prefix_length_le ⟨rest, he⟩ ⟨_, rfl⟩ (by simpa using hbehind)
        have hrest : rest = r ++ H.text ++ b := by
          simp only [append_assoc] at he
          simpa using append_cancel_left (append_cancel_left he)
        rw [parensFrom_append, parensFrom_append] at hclosed
        obtain ⟨a', b', rfl, hclosed'⟩ := hstands _ ⟨r, b, hrest, hclosed⟩
        refine ⟨gap ++ (new m ++ a'), b', by simp, ?_⟩
        rwa [parensFrom_append, parensFrom_append, ← parensFrom_congr hparens]

theorem Header.Stands.replace {p : Pattern} {new : Match → Text} {t : Text} (h : H.Stands t)
    (hms : ∀ m ∈ p.findAll t, Apart H.text m.text ∧ parens m.text = parens (new m)) :
    H.Stands (p.replace new t) := by
  obtain ⟨t', ht', hstands⟩ := (p.tiled_findAll t).stands_replaceMatches hms []
  have hresult : p.replace new t = t' := ht'
  rw [hresult]
  exact hstands (0, 0) h

end

/-! ## lines -/

/-- the second list is the first without some lines, each of which satisfies `P` -/
inductive Dropped (P : Text → Prop) : List Text → List Text → Prop
  | nil : Dropped P [] []
  | keep (l : Text) {ls ls' : List Text} (h : Dropped P ls ls') : Dropped P (l :: ls) (l :: ls')
  | drop {l : Text} {ls ls' : List Text} (hl : P l) (h : Dropped P ls ls') : Dropped P (l :: ls) ls'

namespace Dropped

variable {P Q : Text → Prop} {ls ls' ms ms' : List Text}

theorem refl (ls : List Text) : Dropped P ls ls := by
  induction ls with
  | nil => exact .nil
  | cons l ls ih => exact .keep l ih

theorem imp (himp : ∀ l, P l → Q l) (h : Dropped P ls ls') : Dropped Q ls ls' := by
  induction h with
  | nil => exact .nil
  | keep l _ ih => exact .keep l ih
  | drop hl _ ih => exact .drop (himp _ hl) ih

theorem of_not_mem {l : Text} (h : Dropped P ls ls') (hl : l ∈ ls) (hn : l ∉ ls') : P l := by
  induction h with
  | nil => cases hl
  | keep k _ ih =>
    rw [mem_cons, not_or] at hn
    exact ih ((mem_cons.mp hl).resolve_left hn.1) hn.2
  | drop hk _ ih =>
    rcases mem_cons.mp hl with rfl | hl
    · exact hk
    · exact ih hl hn

theorem trans (h : Dropped P ls ms) (h' : Dropped P ms ms') : Dropped P ls ms' := by
  induction h generalizing ms' with
  | nil => exact h'
  | keep l _ ih =>
    cases h' with
    | keep _ h' => exact .keep l (ih h')
    | drop hl h' => exact .drop hl (ih h')
  | drop hl _ ih => exact .drop hl (ih h')

theorem append (h : Dropped P ls ls') (h' : Dropped P ms ms') :
    Dropped P (ls ++ ms) (ls' ++ ms') := by
  induction h with
  | nil => exact h'
  | keep l _ ih => exact .keep l ih
  | drop hl _ ih => exact .drop hl ih

theorem reverse (h : Dropped P ls ls') : Dropped P ls.reverse ls'.reverse := by
  induction h with
  | nil => exact .nil
  | keep l _ ih =>
    rw [reverse_cons, reverse_cons]
    exact ih.append (.refl [l])
  | @drop l ls ls' hl _ ih =>
    rw [reverse_cons, ← append_nil ls'.reverse]
    exact ih.append (.drop hl .nil)

theorem filter {keep : Text → Bool} (h : ∀ l ∈ ls, keep l = false → P l) :
    Dropped P ls (ls.filter keep) := by
  induction ls with
  | nil => exact .nil
  | cons l ls ih =>
    have hlater := ih (fun x hx => h x (mem_cons_of_mem _ hx))
    rw [filter_cons]
    split
    · exact .keep l hlater
    · next hl => exact .drop (h l mem_cons_self (by simpa using hl)) hlater

theorem dropWhile {first : Text → Bool} (h : ∀ l, first l → P l) (ls : List Text) :
    Dropped P ls (ls.dropWhile first) := by
  induction ls with
  | nil => exact .nil
  | cons l ls ih =>
    rw [dropWhile_cons]
    split
    · next hl => exact .drop (h l hl) ih
    · exact .refl _

end Dropped

section
variable {H : Header}

theorem Header.standsFrom_line {p : Nat × Nat} {l t : Text} :
    H.StandsFrom p (l ++ '\n' :: t) ↔ H.StandsFrom p l ∨ H.StandsFrom (parensFrom p l) t := by
  constructor
  · rintro ⟨a, b, he, hclosed⟩
    rw [append_assoc] at he
    rcases occurrence_around H.newline_not_mem H.text_ne_nil he with ⟨r, hr, -⟩ | ⟨r, rfl, hr⟩
    · exact .inl ⟨a, r, by rw [hr, append_assoc], hclosed⟩
    · rw [parensFrom_append] at hclosed
      exact .inr ⟨r, b, by rw [hr, append_assoc], hclosed⟩
  · rintro (⟨a, b, rfl, hclosed⟩ | ⟨a, b, rfl, hclosed⟩)
    · exact ⟨a, b ++ '\n' :: t, by simp, hclosed⟩
    · refine ⟨l ++ '\n' :: a, b, by simp, ?_⟩
      rw [parensFrom_append]
      exact hclosed

theorem Header.standsFrom_nil {p : Nat × Nat} : ¬ H.StandsFrom p [] := by
  rintro ⟨a, b, he, -⟩
  have := append_eq_nil_iff.mp (append_eq_nil_iff.mp he.symm).1
  exact H.text_ne_nil this.2

theorem Header.StandsFrom.infix {p : Nat × Nat} {t : Text} (h : H.StandsFrom p t) :
    H.text <:+: t := by
  obtain ⟨a, b, rfl, -⟩ := h
  exact ⟨a, b, rfl⟩

/-- lines go, each balanced and without the header -/
theorem Dropped.standsFrom {ls ls' : List Text}
    (h : Dropped (fun l => Balanced l ∧ ¬ H.text <:+: l) ls ls') {p : Nat × Nat}
    (hs : H.StandsFrom p (unlines ls)) : H.StandsFrom p (unlines ls') := by
  induction h generalizing p with
  | nil => exact hs
  | @keep l ls ls' h ih =>
    cases ls with
    | nil =>
      cases h
      exact hs
    | cons l₂ ls =>
      rw [unlines_cons (by simp), Header.standsFrom_line] at hs
      cases ls' with
      | nil =>
        refine hs.elim (fun hl => ?_) (fun hrest => absurd (ih hrest) Header.standsFrom_nil)
        simpa [unlines] using hl
      | cons l₃ ls' =>
        rw [unlines_cons (by simp), Header.standsFrom_line]
        exact hs.imp_right ih
  | @drop l ls ls' hl h ih =>
    cases ls with
    | nil =>
      have hline : H.StandsFrom p l := by simpa [unlines] using hs
      exact absurd hline.infix hl.2
    | cons l₂ ls =>
      rw [unlines_cons (by simp), Header.standsFrom_line, hl.1.parensFrom] at hs
      exact ih (hs.resolve_left (fun hline => hl.2 hline.infix))

def Header.SparedBy (H : Header) (dropped : Text → Bool) (t : Text) : Prop :=
  ∀ l ∈ lines t, dropped l → Balanced l ∧ ¬ H.text <:+: l

instance (H : Header) (dropped : Text → Bool) (t : Text) : Decidable (H.SparedBy dropped t) :=
  inferInstanceAs (Decidable (∀ l ∈ lines t, dropped l → Balanced l ∧ ¬ H.text <:+: l))

theorem Header.Stands.dropped {t : Text} {ls : List Text} (hs : H.Stands t)
    (h : Dropped (fun l => Balanced l ∧ ¬ H.text <:+: l) (lines t) ls) : H.Stands (unlines ls) := by
  rw [← unlines_lines t] at hs
  exact h.standsFrom hs

/-- lines become other lines -/
theorem Header.Stands.swapLines {before old new after : List Text}
    (h : H.Stands (unlines (before ++ old ++ after))) (hbefore : before ≠ []) (hafter : after ≠ [])
    (hnew : new ≠ []) (hold : ¬ H.text <:+: unlines old)
    (hparens : parens (unlines old) = parens (unlines new)) :
    H.Stands (unlines (before ++ new ++ after)) := by
  have hcut : ∀ mid : List Text, mid ≠ [] → unlines (before ++ mid ++ after)
      = (unlines before ++ ['\n']) ++ (unlines mid ++ ['\n']) ++ unlines after := fun mid hmid => by
    rw [unlines_append (by simp [hbefore]) hafter, unlines_append hbefore hmid]
    simp
  have hbreak : ∀ t : Text, parens (t ++ ['\n']) = parens t := fun t => by
    rw [parens, parensFrom_append]
    rfl
  rw [hcut new hnew]
  by_cases hnone : old = []
  · subst hnone
    rw [append_nil, unlines_append hbefore hafter] at h
    have hbalanced : Balanced (unlines new ++ ['\n']) := by
      rw [Balanced, hbreak, ← hparens]
      rfl
    refine Header.Stands.insert ?_ (edge_newline_behind _ _) hbalanced
    simpa using h
  · rw [hcut old hnone] at h
    refine h.swap (edge_newline_behind _ _) ?_ ?_ (by rw [hbreak, hbreak, hparens])
    · rw [← append_assoc]
      exact edge_newline_behind _ _
    · rw [show unlines old ++ ['\n'] = unlines old ++ '\n' :: [] from rfl,
        infix_around_iff H.newline_not_mem]
      exact not_or.mpr ⟨hold, not_infix_nil H⟩

end

end Rebind
