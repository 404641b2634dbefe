import Mathlib
import Rebind.Source.Method
import Rebind.Proofs.Findings.Shape
import Rebind.Proofs.Pattern.Locality

/-!
# Method headers that are found

`methodNames` reads from left to right and passes over what it has matched, so that a header may be
swallowed by a match that started before it: by a parameter list that is still open there.  A header
`Stands` in a text if no parenthesis is open where it starts, and then its name is among those that
are found (`Header.mem_methodNames`).

`parens t` counts the parentheses of `t` that have no partner: how many it closes and how many it
leaves open.  Two texts with the same count can stand for each other before a header
(`parensFrom_congr`).
-/

namespace Rebind

open List Pattern

/-! ## parentheses without a partner -/

/-- the parentheses that close nothing, and those that are open, after one more character -/
def parenStep (p : Nat × Nat) (c : Char) : Nat × Nat :=
  if c = '(' then (p.1, p.2 + 1)
  else if c = ')' then (if p.2 = 0 then (p.1 + 1, 0) else (p.1, p.2 - 1))
  else p

def parensFrom (p : Nat × Nat) (t : Text) : Nat × Nat := t.foldl parenStep p

def parens (t : Text) : Nat × Nat := parensFrom (0, 0) t

theorem parensFrom_append (p : Nat × Nat) (a b : Text) :
    parensFrom p (a ++ b) = parensFrom (parensFrom p a) b := foldl_append

theorem parensFrom_eq (p : Nat × Nat) (t : Text) :
    parensFrom p t = (p.1 + ((parens t).1 - p.2), (parens t).2 + (p.2 - (parens t).1)) := by
  induction t using reverseRecOn with
  | nil => simp [parensFrom, parens]
  | append_singleton t c ih =>
    have hstep : ∀ q, parensFrom q (t ++ [c]) = parenStep (parensFrom q t) c := fun q => by
      rw [parensFrom_append]
      rfl
    rw [hstep, parens, hstep, ← parens, ih]
    unfold parenStep
    split
    · rw [Prod.mk.injEq]
      omega
    · split
      · split <;> split <;> (rw [Prod.mk.injEq]; omega)
      · rfl

theorem parensFrom_congr {s t : Text} (h : parens s = parens t) (p : Nat × Nat) :
    parensFrom p s = parensFrom p t := by rw [parensFrom_eq, parensFrom_eq, h]

def Balanced (t : Text) : Prop := parens t = (0, 0)

instance (t : Text) : Decidable (Balanced t) := inferInstanceAs (Decidable (parens t = (0, 0)))

theorem Balanced.parensFrom {t : Text} (h : Balanced t) (p : Nat × Nat) : parensFrom p t = p := by
  rw [parensFrom_eq, show parens t = (0, 0) from h]
  simp

theorem balanced_append {s t : Text} (hs : Balanced s) (ht : Balanced t) : Balanced (s ++ t) := by
  rw [Balanced, parens, parensFrom_append, hs.parensFrom, ht.parensFrom]

theorem balanced_of_not_mem {t : Text} (ho : '(' ∉ t) (hc : ')' ∉ t) : Balanced t := by
  induction t with
  | nil => rfl
  | cons c t ih =>
    have hstep : parenStep (0, 0) c = (0, 0) := by
      have h1 : c ≠ '(' := fun h => ho (by simp [h])
      have h2 : c ≠ ')' := fun h => hc (by simp [h])
      simp [parenStep, h1, h2]
    rw [Balanced, parens, Rebind.parensFrom, foldl_cons, hstep]
    exact ih (fun h => ho (mem_cons_of_mem _ h)) (fun h => hc (mem_cons_of_mem _ h))

theorem balanced_parens {t : Text} (h : Balanced t) : Balanced ('(' :: (t ++ [')'])) := by
  show Rebind.parensFrom (0, 1) (t ++ [')']) = (0, 0)
  rw [parensFrom_append, h.parensFrom]
  rfl

theorem parensFrom_open {p : Nat × Nat} {a : Text} (h : ')' ∉ a) : p.2 ≤ (parensFrom p a).2 := by
  induction a generalizing p with
  | nil => exact le_rfl
  | cons c a ih =>
    have hc : c ≠ ')' := fun he => h (by simp [he])
    have hstep : p.2 ≤ (parenStep p c).2 := by
      unfold parenStep
      split
      · exact Nat.le_succ _
      · simp
    exact hstep.trans (ih (fun hm => h (mem_cons_of_mem _ hm)))

/-! ## headers -/

def isSpace (c : Char) : Bool := isBlank c && c != '\n'

/-- the header of a method on one line: its type, its name and its parameters, up to the brace that
opens the body -/
structure Header where
  type : Text
  gap : Text
  name : Text
  space : Text
  params : Text
  room : Text
  type_word : type ≠ [] ∧ ∀ c ∈ type, isWord c
  gap_blank : gap ≠ [] ∧ ∀ c ∈ gap, isSpace c
  name_word : name ≠ [] ∧ ∀ c ∈ name, isWord c
  space_blank : ∀ c ∈ space, isSpace c
  params_plain : ∀ c ∈ params, c ∉ ['(', ')', '\x7b', '\x7d', ';', '\n']
  room_blank : ∀ c ∈ room, isSpace c
  unmarked : ¬ "@OnClick" <:+: params

theorem isBlank_of_isSpace {c : Char} (h : isSpace c) : isBlank c = true :=
  (Bool.and_eq_true_iff.mp h).1

namespace Header

variable (H : Header)

def front : Text := H.type ++ H.gap ++ H.name ++ H.space

def start : Text := H.front ++ '(' :: (H.params ++ ')' :: H.room)

def text : Text := H.start ++ ['\x7b']

theorem covers : methodHeader.Covers H.text := by
  have hgap : blanks1.Covers H.gap :=
    covers_run1.mpr ⟨H.gap_blank.1, fun c hc => isBlank_of_isSpace (H.gap_blank.2 c hc)⟩
  have hspace : blanks.Covers H.space := fun c hc => isBlank_of_isSpace (H.space_blank c hc)
  have hroom : blanks.Covers H.room := fun c hc => isBlank_of_isSpace (H.room_blank c hc)
  have hparams : parameters.Covers ('(' :: (H.params ++ [')'])) := by
    refine ⟨['('], H.params ++ [')'], rfl, rfl, H.params, [')'], rfl, fun c hc => ?_, rfl⟩
    have hclose : c ≠ ')' := fun he => H.params_plain c hc (by simp [he])
    simpa using hclose
  refine ⟨[], H.text, rfl, .inl rfl, [], H.text, rfl, fun c hc => absurd hc not_mem_nil,
    [], H.text, rfl, .inl rfl, [], H.text, rfl, .inl rfl,
    H.type, _, ?_, covers_word.mpr H.type_word, H.gap, _, rfl, hgap, H.name, _, rfl,
    covers_word.mpr H.name_word, H.space, _, rfl, hspace, _, _, rfl, hparams, H.room, ['\x7b'],
    rfl, hroom, rfl⟩
  simp [text, start, front]

end Header

/-! ## the names that are found -/

/-- a header as it is read: `u` stands before the white space that the name follows -/
theorem reads_methodHeader {s : Text} {gs : List (Nat × Text)} (h : methodHeader.Reads s gs) :
    ∃ u gap name space inner room, s = u ++ gap ++ name ++ space ++ '('
      :: (inner ++ ')' :: (room ++ ['\x7b']))
      ∧ gs = [(1, name)] ∧ '(' ∉ u ∧ blanks1.Covers gap ∧ word.Covers name ∧ blanks.Covers space
      ∧ ')' ∉ inner ∧ blanks.Covers room := by
  obtain ⟨access, s₁, _, g₁, rfl, rfl, haccess, h⟩ := h
  obtain ⟨b₁, s₂, _, g₂, rfl, rfl, hb₁, h⟩ := h
  obtain ⟨static, s₃, _, g₃, rfl, rfl, hstatic, h⟩ := h
  obtain ⟨final, s₄, _, g₄, rfl, rfl, hfinal, h⟩ := h
  obtain ⟨type, s₅, _, g₅, rfl, rfl, htype, h⟩ := h
  obtain ⟨gap, s₆, _, g₆, rfl, rfl, hgap, h⟩ := h
  obtain ⟨name, s₇, _, g₇, rfl, rfl, ⟨gn, rfl, hname⟩, h⟩ := h
  obtain ⟨space, s₈, _, g₈, rfl, rfl, hspace, h⟩ := h
  obtain ⟨params, s₉, _, g₉, rfl, rfl, hparams, h⟩ := h
  obtain ⟨room, _, _, _, rfl, rfl, hroom, rfl, rfl⟩ := h
  obtain rfl := haccess.groups_eq_nil rfl
  obtain rfl := hb₁.groups_eq_nil rfl
  obtain rfl := hstatic.groups_eq_nil rfl
  obtain rfl := hfinal.groups_eq_nil rfl
  obtain rfl := htype.groups_eq_nil rfl
  obtain rfl := hgap.groups_eq_nil rfl
  obtain rfl := hname.groups_eq_nil rfl
  obtain rfl := hspace.groups_eq_nil rfl
  obtain rfl := hparams.groups_eq_nil rfl
  obtain rfl := hroom.groups_eq_nil rfl
  obtain ⟨_, _, rfl, rfl, inner, _, rfl, hinner, rfl⟩ := hparams.covers
  refine ⟨access ++ b₁ ++ static ++ final ++ type, gap, name, space, inner,
    room, by simp, by simp, ?_,
    hgap.covers, hname.covers, hspace.covers, fun hm => by simpa using hinner _ hm, hroom.covers⟩
  -- what may stand before the name are words and white space
  have h₁ : '(' ∉ access := avoids_maybe (fun s hs hm => by
    rcases hs with rfl | rfl | rfl <;> revert hm <;> decide) access haccess.covers
  have h₂ : '(' ∉ b₁ := avoids_run (by decide) b₁ hb₁.covers
  have h₃ : '(' ∉ static := avoids_maybe (avoids_keyword (by decide) (by decide)) static
    hstatic.covers
  have h₄ : '(' ∉ final := avoids_maybe (avoids_keyword (by decide) (by decide)) final hfinal.covers
  have h₅ : '(' ∉ type := avoids_run1 (by decide) type htype.covers
  simp only [mem_append, not_or]
  exact ⟨⟨⟨⟨h₁, h₂⟩, h₃⟩, h₄⟩, h₅⟩

def lastWord (t : Text) : Text := ((t.reverse.dropWhile isBlank).takeWhile isWord).reverse

theorem lastWord_append {u name space : Text} (hu : ∀ c, u.getLast? = some c → isWord c = false)
    (hname : word.Covers name) (hspace : blanks.Covers space) :
    lastWord (u ++ name ++ space) = name := by
  obtain ⟨hne, hword⟩ := covers_word.mp hname
  have hdrop : (name.reverse ++ u.reverse).dropWhile isBlank = name.reverse ++ u.reverse := by
    obtain ⟨c, n, hn⟩ := exists_cons_of_ne_nil (reverse_ne_nil_iff.mpr hne)
    have hc : isBlank c = false := isBlank_of_isWord (hword c (mem_reverse.mp (by simp [hn])))
    rw [hn, cons_append, dropWhile_cons_of_neg (by simp [hc])]
  have htake : u.reverse.takeWhile isWord = [] := by
    cases hr : u.reverse with
    | nil => rfl
    | cons c r =>
      have hc : isWord c = false := hu c (by rw [getLast?_eq_head?_reverse, hr, head?_cons])
      rw [takeWhile_cons_of_neg (by simp [hc])]
  rw [lastWord, reverse_append, reverse_append,
    dropWhile_append_of_pos (fun c hc => hspace c (mem_reverse.mp hc)), hdrop,
    takeWhile_append_of_pos (fun c hc => hword c (mem_reverse.mp hc)), htake, append_nil,
    reverse_reverse]

theorem isWord_of_isBlank {c : Char} (h : isBlank c) : isWord c = false := by
  cases hw : isWord c with
  | false => rfl
  | true =>
    rw [isBlank_of_isWord hw] at h
    cases h

theorem lastWord_eq {u gap name space : Text} (hgap : blanks1.Covers gap) (hname : word.Covers name)
    (hspace : blanks.Covers space) : lastWord (u ++ gap ++ name ++ space) = name := by
  obtain ⟨hne, hblank⟩ := covers_run1.mp hgap
  refine lastWord_append (fun c hc => ?_) hname hspace
  rw [getLast?_append_of_ne_nil _ hne] at hc
  exact isWord_of_isBlank (hblank c (mem_of_getLast? hc))

theorem mem_methodNames_iff {code n : Text} :
    n ∈ methodNames code ↔ n ≠ [] ∧ ∃ m ∈ methodHeader.findAll code, trim (m.group 1) = n := by
  have hfold : ∀ (ms : List Match) (names : List Text), n ∈ ms.foldl (fun names m =>
      let name := trim (m.group 1)
      if name.isEmpty || names.contains name then names else name :: names) names
      ↔ n ∈ names ∨ (n ≠ [] ∧ ∃ m ∈ ms, trim (m.group 1) = n) := by
    intro ms
    induction ms with
    | nil => simp
    | cons m ms ih =>
      intro names
      rw [foldl_cons, ih]
      by_cases hm : trim (m.group 1) = n
      · by_cases hn : n = []
        · simp [hm, hn]
        · by_cases hin : n ∈ names <;> simp [hm, hn, hin]
      · have hkeep : ∀ c : Bool, n ∈ (if c then names else trim (m.group 1) :: names)
            ↔ n ∈ names := by
          rintro (_ | _)
          · simp [Ne.symm hm]
          · simp
        simp only [hkeep]
        simp [hm]
  rw [methodNames, mem_reverse, hfold]
  simp

def Header.StandsFrom (H : Header) (p : Nat × Nat) (t : Text) : Prop :=
  ∃ a b, t = a ++ H.text ++ b ∧ (parensFrom p a).2 = 0

/-- the header stands in the text where no parenthesis is open -/
def Header.Stands (H : Header) (t : Text) : Prop := H.StandsFrom (0, 0) t

theorem methodHeader_ne_nil : ¬ methodHeader.Covers [] := fun h => by
  obtain ⟨a, b, he, hb⟩ := covers_seq_last
    [.maybe (oneOf [lit "public", lit "private", lit "protected"]),
    blanks, .maybe (keyword "static"), .maybe (keyword "final"), word, blanks1,
      .group 1 word, blanks,
    parameters, blanks] h
  rw [(append_eq_nil_iff.mp he.symm).2] at hb
  cases hb

namespace Header

variable {H : Header}

theorem head_word (H : Header) : ∃ c r, H.text = c :: r ∧ isWord c := by
  obtain ⟨hne, hword⟩ := H.type_word
  obtain ⟨c, type, htype⟩ := exists_cons_of_ne_nil hne
  refine ⟨c, type ++ (H.gap ++ (H.name
    ++ (H.space ++ '(' :: (H.params ++ ')' :: (H.room ++ ['\x7b']))))),
    ?_, hword c (by simp [htype])⟩
  simp [text, start, front, htype]

theorem not_mem_front (H : Header) {x : Char} (hword : isWord x = false)
    (hspace : isSpace x = false) :
    x ∉ H.front := by
  simp only [front, mem_append, not_or]
  exact ⟨⟨⟨fun hm => by simp [H.type_word.2 _ hm] at hword,
    fun hm => by simp [H.gap_blank.2 _ hm] at hspace⟩,
    fun hm => by simp [H.name_word.2 _ hm] at hword⟩,
      fun hm => by simp [H.space_blank _ hm] at hspace⟩

/-- a match that starts `x` before a header, in which no parenthesis is open, ends before the header
or has its parameters -/
theorem front_of_match {p : Nat × Nat} {x b front inner room v : Text}
    (he : x ++ (H.text ++ b) = front ++ '(' :: (inner ++ ')' :: (room ++ '\x7b' :: v)))
    (hlen : x.length < front.length + (inner.length + (room.length + 3))) (hfront : '(' ∉ front)
    (hinner : ')' ∉ inner) (hroom : blanks.Covers room) (hclosed : (parensFrom p x).2 = 0) :
    front = x ++ H.front := by
  by_cases hx : '(' ∈ x
  · exfalso
    obtain ⟨x₁, x₂, rfl, hx₁⟩ := eq_append_cons_of_mem hx
    have he' : front ++ '(' :: (inner ++ ')' :: (room ++ '\x7b' :: v)) = x₁ ++ '('
        :: (x₂ ++ (H.text ++ b)) := by
      rw [← he, append_assoc, cons_append]
    obtain ⟨rfl, hrest⟩ := append_first_inj hfront hx₁ he'
    by_cases hx₂ : ')' ∈ x₂
    · -- the match is closed before the header, so it would end in the first sign of the type
      obtain ⟨x₃, x₄, rfl, hx₃⟩ := eq_append_cons_of_mem hx₂
      rw [append_assoc, cons_append] at hrest
      obtain ⟨rfl, hend⟩ := append_first_inj hinner hx₃ hrest
      simp only [length_append, length_cons] at hlen
      obtain ⟨c, r, hc, hword⟩ := H.head_word
      have hmem : c ∈ room ++ ['\x7b'] := by
        have hall : room ++ ['\x7b'] ++ v = x₄ ++ c :: (r ++ b) := by
          rw [append_assoc, singleton_append, hend, hc, cons_append]
        have hget : (room ++ ['\x7b'] ++ v)[x₄.length]? = some c := by simp [hall]
        rw [getElem?_append_left (by simp; omega)] at hget
        exact mem_of_getElem? hget
      rcases mem_append.mp hmem with hm | hm
      · have hblank : isBlank c = true := hroom c hm
        rw [isBlank_of_isWord hword] at hblank
        cases hblank
      · rw [mem_singleton.mp hm] at hword
        exact absurd hword (by decide)
    · rw [parensFrom_append] at hclosed
      have hopen := parensFrom_open (p := parenStep (parensFrom p front) '(') hx₂
      have hstep : (parenStep (parensFrom p front) '(').2 = (parensFrom p front).2 + 1 := rfl
      have hcons : parensFrom (parensFrom p front) ('(' :: x₂)
          = parensFrom (parenStep (parensFrom p front) '(') x₂ := rfl
      rw [hcons] at hclosed
      omega
  · have hnot : '(' ∉ x ++ H.front := by
      rw [mem_append, not_or]
      exact ⟨hx, H.not_mem_front (by decide) (by decide)⟩
    have he' : front ++ '(' :: (inner ++ ')' :: (room ++ '\x7b' :: v))
        = (x ++ H.front) ++ '(' :: (H.params ++ ')' :: (H.room ++ '\x7b' :: b)) := by
      rw [← he]
      simp [text, start]
    exact (append_first_inj hfront hnot he').1

theorem mem_methodNames {t : Text} (h : H.Stands t) : H.name ∈ methodNames t := by
  obtain ⟨a, b, rfl, hclosed⟩ := h
  obtain ⟨m, hm, hstart, hstop⟩ :=
    exists_match_over (p := methodHeader) rfl methodHeader_ne_nil H.covers a b
  have hof := of_mem_findAll hm
  obtain ⟨u, v, ht, hu⟩ := hof.place
  obtain ⟨w, gap, name, space, inner, room, htext, hgroups, hw, hgap, hname, hspace,
    hinner, hroom⟩ :=
    reads_methodHeader hof.reads
  -- the match starts `x` before the header
  have hle : u.length ≤ a.length := by omega
  rw [append_assoc, append_assoc u] at ht
  obtain ⟨x, rfl⟩ := prefix_of_prefix_length_le ⟨_, ht.symm⟩ ⟨_, rfl⟩ hle
  rw [append_assoc] at ht
  have he : x ++ (H.text ++ b) =
      (w ++ gap ++ name ++ space) ++ '(' :: (inner ++ ')' :: (room ++ '\x7b' :: v)) := by
    rw [append_cancel_left ht, htext]
    simp
  have hfront : '(' ∉ w ++ gap ++ name ++ space := by
    simp only [mem_append, not_or]
    exact ⟨⟨⟨hw, avoids_run1 (by decide) gap hgap⟩, avoids_run1 (by decide) name hname⟩,
      avoids_run (by decide) space hspace⟩
  rw [parensFrom_append] at hclosed
  have hsame := front_of_match he (by
    have hlen := congrArg length htext
    simp only [length_append, length_cons, length_nil] at hlen hstop ⊢
    have := hof.stop
    omega) hfront hinner hroom hclosed
  have hlast : lastWord (w ++ gap ++ name ++ space) = H.name := by
    have hgap' : blanks1.Covers H.gap :=
      covers_run1.mpr ⟨H.gap_blank.1, fun c hc => isBlank_of_isSpace (H.gap_blank.2 c hc)⟩
    rw [hsame, Header.front, ← append_assoc, ← append_assoc, ← append_assoc]
    exact lastWord_eq hgap' (covers_word.mpr H.name_word)
      (fun c hc => isBlank_of_isSpace (H.space_blank c hc))
  rw [lastWord_eq hgap hname hspace] at hlast
  refine mem_methodNames_iff.mpr ⟨H.name_word.1, m, hm, ?_⟩
  have hgroup : m.group 1 = H.name := by simp [Match.group, Match.group?, hgroups, hlast]
  rw [hgroup, trim_eq_self (fun c hc => isBlank_of_isWord (H.name_word.2 c hc))]

end Header

end Rebind
