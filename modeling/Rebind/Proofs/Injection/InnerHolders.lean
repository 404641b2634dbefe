import Mathlib
import Rebind.Proofs.Findings.WellFormed
import Rebind.Proofs.Injection.Bindings
import Rebind.Proofs.Source.Counting

/-!
# The look-ups of inner holders

The inner classes are listed once, and each of them is looked up at its old place while the text
grows. A class that has been moved by the look-ups of the classes before it is seen through a window
that no longer fits: the window may show the look-ups of the class before, miss the constructor or
miss fields.

* `turns`: what each class finds at its turn;
* `Due`: a holder that waits for its look-ups;
* `Idle`, `Found`: at its turn nothing happens, or its own constructor is found where it has moved;
* `Initialised`: a class has the look-ups of some fields in its own constructor;
* `Grown`: the text at a turn: something new, and what stands behind the last class as it was.

A turn keeps `Grown` and initialises the class or leaves it as it is (`Grown.turn`), later turns
keep what stands before them (`Grown.turns_keep`), and so every class that is due is initialised
with the fields that its window shows, or is left as it was (`innerHolders_turns`).  Where no holder
stands behind one that is due, every holder is still at its place (`innerHolders_last`).
-/

namespace Rebind

open List Pattern

/-! ## classes at their places -/

namespace InnerClass

def stretch (c : InnerClass) (t : Text) : Text := (t.drop c.start).take (c.stop - c.start)

def bodyStart (c : InnerClass) (t : Text) : Option Nat :=
  (holderConstructor.search (c.stretch t)).map (·.stop)

def own (c : InnerClass) (fs : List Field) (t : Text) : List Field := ownFields t c.start c.stop fs

/-- the constructor that is found is closed inside the class -/
def Closed (c : InnerClass) (code : Text) : Prop :=
  ∀ s ∈ c.bodyStart code, (closingBrace 1 ((c.stretch code).drop s)).isSome

instance (c : InnerClass) (code : Text) : Decidable (c.Closed code) :=
  inferInstanceAs (Decidable (∀ s ∈ c.bodyStart code, _))

end InnerClass

/-- a holder with a constructor that declares bound fields and has no look-ups yet -/
@[mk_iff]
structure Due (fs : List Field) (code : Text) (c : InnerClass) : Prop where
  holder : c.isHolder
  unmarked : occursIn lookupComment (c.stretch code) = false
  declares : c.own fs code ≠ []
  constructed : (c.bodyStart code).isSome = true

instance (fs : List Field) (code : Text) (c : InnerClass) : Decidable (Due fs code c) :=
  decidable_of_iff' _ (due_iff fs code c)

/-- at its turn nothing happens for the class -/
def Idle (fs : List Field) (t : Text) (c : InnerClass) : Prop := innerPlaced fs t c = t

instance (fs : List Field) (t : Text) (c : InnerClass) : Decidable (Idle fs t c) :=
  inferInstanceAs (Decidable (_ = _))

/-- the constructor found at the place of the class is its own, as far on as the text has grown -/
def Found (code t : Text) (c : InnerClass) : Prop :=
  c.bodyStart t = (c.bodyStart code).map (· + (t.length - code.length))

instance (code t : Text) (c : InnerClass) : Decidable (Found code t c) :=
  inferInstanceAs (Decidable (_ = _))

/-- the class, up to the brace of its constructor, stands before a body with the look-ups of
`own` -/
def Initialised (own : List Field) (code out : Text) (c : InnerClass) : Prop :=
  ∃ s n before rest, c.bodyStart code = some s ∧ out = before ++ rest
    ∧ (c.stretch code).take s <:+ before ∧ closingBrace 1 rest = some n
    ∧ ∀ F ∈ own, itemLookupLine F.name F.id ∈ lines (rest.take n)

/-- the classes in their order, each with the text that it finds -/
def turns (fs : List Field) : Text → List InnerClass → List (Text × InnerClass)
  | _, [] => []
  | t, c :: cs => (t, c) :: turns fs (innerPlaced fs t c) cs

variable {c : InnerClass} {own : List Field} {code : Text}

theorem map_snd_turns (fs : List Field) (t : Text) (cs : List InnerClass) :
    (turns fs t cs).map (·.2) = cs := by
  induction cs generalizing t with
  | nil => rfl
  | cons c cs ih => rw [turns, map_cons, ih]

theorem found_self (code : Text) (c : InnerClass) : Found code code c := by
  unfold Found
  rw [Nat.sub_self]
  exact Option.map_id'.symm

theorem Initialised.mono {a b : Text} (h : Initialised own code a c) (hab : a <+: b) :
    Initialised own code b c := by
  obtain ⟨s, n, before, rest, hs, rfl, hsuffix, hn, hlines⟩ := h
  obtain ⟨w, rfl⟩ := hab
  have hlt := closingBrace_lt hn
  refine ⟨s, n, before, rest ++ w, hs, append_assoc _ _ _, hsuffix,
    closingBrace_append_left hn w, ?_⟩
  rwa [take_append_of_le_length (by omega)]

/-! ## the look-ups -/

def isInlineChar (c : Char) : Bool := c != '\x7b' && c != '\x7d' && c != '\n'

theorem isInlineChar_of_isCompactChar {c : Char} (h : isCompactChar c) : isInlineChar c = true := by
  simp only [isCompactChar, isInlineChar, Bool.and_eq_true] at h ⊢
  exact ⟨h.1.1, h.2⟩

theorem itemLookupLine_inline (F : Field) : ∀ c ∈ itemLookupLine F.name F.id, isInlineChar c := by
  have hcall : " = itemView.findViewById(".toList.all isInlineChar := by decide
  have hend : ");".toList.all isInlineChar := by decide
  have hspace : "        ".toList.all isInlineChar := by decide
  intro c hc
  rcases mem_append.mp hc with hc | hc
  · exact all_eq_true.mp hspace c hc
  · simp only [mem_append] at hc
    rcases hc with ((hc | hc) | hc) | hc
    · exact isInlineChar_of_isCompactChar (F.name_compact c hc)
    · exact all_eq_true.mp hcall c hc
    · exact isInlineChar_of_isCompactChar (F.resource_compact c hc)
    · exact all_eq_true.mp hend c hc

theorem itemBlock_eq (h : own ≠ []) : itemBlock own [] []
    = unlines (indented lookupComment :: (itemLookupRows own ++ [[]])) := by
  obtain ⟨F, own, rfl⟩ := exists_cons_of_ne_nil h
  simp [itemBlock, headed]

theorem not_mem_itemBlock {x : Char} (hx : isInlineChar x = false) (hbreak : x ≠ '\n')
    (h : own ≠ []) : x ∉ '\n' :: itemBlock own [] [] := by
  have hcomment : (indented lookupComment).all isInlineChar := by decide
  have hinline : ∀ l : Text, (∀ c ∈ l, isInlineChar c) → x ∉ l := fun l hl hm => by
    have := hl x hm
    rw [hx] at this
    cases this
  rw [mem_cons, not_or, itemBlock_eq h]
  refine ⟨hbreak, not_mem_unlines hbreak fun l hl => ?_⟩
  rcases mem_cons.mp hl with rfl | hl
  · exact hinline _ (all_eq_true.mp hcomment)
  · rcases mem_append.mp hl with hl | hl
    · obtain ⟨F, -, rfl⟩ := mem_map.mp hl
      exact hinline _ (itemLookupLine_inline F)
    · rw [mem_singleton.mp hl]
      exact not_mem_nil

theorem itemLookupLine_mem_lines {F : Field} (h : F ∈ own) (x z : Text) :
    itemLookupLine F.name F.id ∈ lines (x ++ '\n' :: itemBlock own [] [] ++ z) := by
  have hbreak : '\n' ∉ itemLookupLine F.name F.id := fun hm =>
    absurd (itemLookupLine_inline F '\n' hm) (by decide)
  obtain ⟨r, s, rfl⟩ := append_of_mem h
  have hrows : itemLookupRows (r ++ F :: s)
      = itemLookupRows r ++ itemLookupLine F.name F.id :: itemLookupRows s := by
    simp [itemLookupRows]
  have hblock : itemBlock (r ++ F :: s) [] [] = unlines (indented lookupComment :: itemLookupRows r)
      ++ '\n' :: (itemLookupLine F.name F.id ++ '\n' :: unlines (itemLookupRows s ++ [[]])) := by
    rw [itemBlock_eq (by simp), hrows, ← unlines_cons (by simp), ← unlines_append (by simp)
      (by simp)]
    simp only [append_assoc, cons_append]
  rw [hblock, lines_eq_splitAll]
  generalize unlines (indented lookupComment :: itemLookupRows r) = a at *
  have hall : x ++ '\n' :: (a ++ '\n' :: (itemLookupLine F.name F.id
        ++ '\n' :: unlines (itemLookupRows s ++ [[]]))) ++ z
      = (x ++ '\n' :: a) ++ '\n' :: (itemLookupLine F.name F.id
        ++ '\n' :: (unlines (itemLookupRows s ++ [[]]) ++ z)) := by
    simp only [append_assoc, cons_append]
  rw [hall, splitAll_append, splitAll_append _ (itemLookupLine F.name F.id),
    splitAll_of_not_mem hbreak]
  simp

/-! ## one turn -/

theorem bodyStart_le {s : Nat} (h : c.bodyStart code = some s) : s ≤ c.stop - c.start := by
  obtain ⟨m, hm, rfl⟩ := Option.map_eq_some_iff.mp h
  have hle := (search_some hm).stop_le
  rw [InnerClass.stretch, length_take] at hle
  omega

theorem drop_bodyStart {s : Nat} (h : s ≤ c.stop - c.start) (hstop : c.start ≤ c.stop) :
    code.drop (c.start + s) = (c.stretch code).drop s ++ code.drop c.stop := by
  have hcut := take_append_drop (c.stop - c.start - s) (code.drop (c.start + s))
  rw [drop_drop, show c.start + s + (c.stop - c.start - s) = c.stop by omega] at hcut
  rw [InnerClass.stretch, drop_take, drop_drop]
  exact hcut.symm

section
variable {fs : List Field} {code t : Text} {c : InnerClass}

theorem due_of_not_idle (h : ¬ Idle fs t c) : Due fs t c ∧ ∃ s, c.bodyStart t = some s
    ∧ innerPlaced fs t c = putInConstructor (itemBlock (c.own fs t) [] []) t (c.start + s) := by
  unfold Idle at h
  have hplaced := innerPlaced.eq_def fs t c
  split at hplaced
  · exact absurd hplaced h
  · next hcond =>
    simp only [Bool.or_eq_true, not_or, Bool.not_eq_true, Bool.not_eq_false', isEmpty_eq_false_iff]
      at hcond
    obtain ⟨⟨hholder, hmark⟩, hown⟩ := hcond
    unfold injectInConstructor at hplaced
    simp only [hmark, Bool.false_eq_true, if_false] at hplaced
    split at hplaced
    · next m hm =>
      have hs : c.bodyStart t = some m.stop := by
        rw [InnerClass.bodyStart, InnerClass.stretch, hm, Option.map_some]
      exact ⟨⟨hholder, hmark, hown, by rw [hs, Option.isSome_some]⟩, m.stop, hs, hplaced⟩
    · exact absurd hplaced h

theorem Due.not_idle (h : Due fs code c) : ¬ Idle fs code c := by
  obtain ⟨s, hs⟩ := Option.isSome_iff_exists.mp h.constructed
  obtain ⟨m, hm, -⟩ := Option.map_eq_some_iff.mp hs
  have hplaced : innerPlaced fs code c
      = putInConstructor (itemBlock (c.own fs code) [] []) code (c.start + m.stop) := by
    have hmark := h.unmarked
    have hown : ownFields code c.start c.stop fs ≠ [] := h.declares
    unfold InnerClass.stretch at hmark hm
    unfold innerPlaced injectInConstructor
    simp [h.holder, hmark, hm, hown, InnerClass.own]
  intro hidle
  rw [Idle, hplaced, putInConstructor, insertAt] at hidle
  have := congrArg length hidle
  simp only [length_append, length_cons, length_take, length_drop] at this
  omega

theorem constructorPoint_within {start n : Nat} (h : closingBrace 1 (t.drop start) = some n) :
    ∃ k ≤ n, constructorPoint t start = start + k := by
  unfold constructorPoint
  rw [h]
  dsimp only
  cases hs : superCall.search ((t.drop start).take n) with
  | none => exact ⟨0, by omega, rfl⟩
  | some s =>
    have hle := (search_some hs).stop_le
    rw [length_take] at hle
    exact ⟨s.stop, by omega, rfl⟩

theorem putInConstructor_body {pre u v : Text} {n : Nat} (ht : t = pre ++ (u ++ v))
    (hn : closingBrace 1 u = some n) (block : Text) :
    ∃ x y, u = x ++ y ∧ x.length ≤ n
      ∧ putInConstructor block t pre.length = pre ++ (x ++ '\n' :: block ++ y) ++ v := by
  have hdrop : t.drop pre.length = u ++ v := by rw [ht, drop_left]
  have hbody : closingBrace 1 (t.drop pre.length) = some n := by
    rw [hdrop]
    exact closingBrace_append_left hn v
  obtain ⟨k, hk, hpoint⟩ := constructorPoint_within hbody
  have hlt := closingBrace_lt hn
  have hx : (u.take k).length ≤ n := by
    rw [length_take]
    omega
  refine ⟨u.take k, u.drop k, (take_append_drop k u).symm, hx, ?_⟩
  have htake : t.take (pre.length + k) = pre ++ u.take k := by
    rw [ht, take_length_add_append, take_append_of_le_length (by omega)]
  have hrest : t.drop (pre.length + k) = u.drop k ++ v := by
    rw [ht, drop_length_add_append, drop_append_of_le_length (by omega)]
  rw [putInConstructor, hpoint, insertAt, htake, hrest]
  simp only [append_assoc]

end

/-! ## growing text -/

/-- the text is `front` and what stood behind the offset `e` -/
structure Grown (code : Text) (e : Nat) (front t : Text) : Prop where
  text : t = front ++ code.drop e
  le_front : e ≤ front.length
  le_code : e ≤ code.length

namespace Grown

variable {fs : List Field} {code front t : Text} {c : InnerClass} {e : Nat}

theorem growth (h : Grown code e front t) : t.length - code.length = front.length - e := by
  have hlen : t.length = front.length + (code.length - e) := by
    rw [h.text, length_append, length_drop]
  have := h.le_front
  have := h.le_code
  omega

theorem onward (h : Grown code e front t) {p : Nat} (hp : e ≤ p) (hlen : p ≤ code.length) :
    Grown code p (front ++ (code.drop e).take (p - e)) t where
  text := by
    have hcut := take_append_drop (p - e) (code.drop e)
    rw [drop_drop, show e + (p - e) = p by omega] at hcut
    rw [append_assoc, hcut]
    exact h.text
  le_front := by
    have := h.le_front
    rw [length_append, length_take, length_drop]
    omega
  le_code := hlen

theorem part_suffix (code : Text) {a : Nat} (ha : e ≤ a) (k : Nat) :
    (code.drop a).take k <:+ (code.drop e).take (a + k - e) := by
  refine ⟨(code.drop e).take (a - e), ?_⟩
  rw [show a + k - e = (a - e) + k by omega, take_add, drop_drop, show e + (a - e) = a by omega]

theorem turn_idle (h : Grown code e front t) (hstart : e ≤ c.start) (hstop : c.start ≤ c.stop)
    (hlen : c.stop ≤ code.length) :
    ∃ front', Grown code c.stop front' t ∧ front <+: front' ∧ c.stretch code <:+: front' := by
  refine ⟨front ++ (code.drop e).take (c.stop - e), h.onward (by omega) hlen, prefix_append _ _, ?_⟩
  have hpart := part_suffix code hstart (c.stop - c.start)
  rw [show c.start + (c.stop - c.start) - e = c.stop - e by omega] at hpart
  exact hpart.isInfix.trans (suffix_append _ _).isInfix

theorem turn_found (h : Grown code e front t) (hstart : e ≤ c.start) (hstop : c.start ≤ c.stop)
    (hlen : c.stop ≤ code.length) (hclosed : c.Closed code) (hidle : ¬ Idle fs t c)
    (hfound : Found code t c) :
    ∃ front', Grown code c.stop front' (innerPlaced fs t c) ∧ front <+: front'
      ∧ Initialised (c.own fs t) code front' c := by
  obtain ⟨hdue, s', hs', hplaced⟩ := due_of_not_idle hidle
  have hown := hdue.declares
  -- the constructor is the one of the class, moved by the growth of the text
  rw [Found, hs', h.growth] at hfound
  obtain ⟨s, hs, rfl⟩ := Option.map_eq_some_iff.mp hfound.symm
  obtain ⟨n, hn⟩ := Option.isSome_iff_exists.mp (hclosed s hs)
  have hsle : s ≤ c.stop - c.start := bodyStart_le hs
  have hcut := h.onward (p := c.start + s) (by omega) (by omega)
  generalize hpre : front ++ (code.drop e).take (c.start + s - e) = pre at hcut
  have hprelen : pre.length = c.start + (s + (front.length - e)) := by
    have := h.le_front
    rw [← hpre, length_append, length_take, length_drop]
    omega
  have htext : t = pre ++ ((c.stretch code).drop s ++ code.drop c.stop) := by
    rw [← drop_bodyStart hsle hstop]
    exact hcut.text
  obtain ⟨x, y, hxy, hx, hput⟩ := putInConstructor_body htext hn (itemBlock (c.own fs t) [] [])
  rw [hprelen] at hput
  -- the block has no braces, so that the body is closed where it was
  have hclose := closingBrace_insert (hxy ▸ hn) hx
    (not_mem_itemBlock (x := '\x7b') (by decide) (by decide) hown)
    (not_mem_itemBlock (x := '\x7d') (by decide) (by decide) hown)
  generalize hblock : itemBlock (c.own fs t) [] [] = block at *
  refine ⟨pre ++ (x ++ '\n' :: block ++ y), ⟨by rw [hplaced, hput], ?_, hlen⟩, ?_,
    s, _, pre, _, hs, rfl, ?_, hclose, fun F hF => ?_⟩
  · have hbody := congrArg length hxy
    rw [length_drop, InnerClass.stretch, length_take, length_drop, length_append] at hbody
    simp only [length_append, length_cons]
    omega
  · rw [← hpre, append_assoc]
    exact prefix_append _ _
  · rw [InnerClass.stretch, take_take, Nat.min_eq_left hsle]
    exact (part_suffix code hstart s).trans (hpre ▸ suffix_append _ _)
  · have hlines := itemLookupLine_mem_lines hF x (y.take (n - x.length))
    rw [hblock] at hlines
    have hcount : n + ('\n' :: block).length = (x ++ '\n' :: block).length + (n - x.length) := by
      rw [length_append]
      omega
    rwa [hcount, take_length_add_append]

theorem turn (h : Grown code e front t) (hstart : e ≤ c.start) (hstop : c.start ≤ c.stop)
    (hlen : c.stop ≤ code.length) (hclosed : c.Closed code) (hturn : Idle fs t c ∨ Found code t c) :
    ∃ front', Grown code c.stop front' (innerPlaced fs t c) ∧ front <+: front'
      ∧ (Idle fs t c → c.stretch code <:+: front')
      ∧ (¬ Idle fs t c → Initialised (c.own fs t) code front' c) := by
  by_cases hidle : Idle fs t c
  · obtain ⟨front', hg, hfront, hin⟩ := h.turn_idle hstart hstop hlen
    refine ⟨front', ?_, hfront, fun _ => hin, fun hne => absurd hidle hne⟩
    rwa [show innerPlaced fs t c = t from hidle]
  · obtain ⟨front', hg, hfront, hinit⟩ :=
      h.turn_found hstart hstop hlen hclosed hidle (hturn.resolve_left hidle)
    exact ⟨front', hg, hfront, fun hi => absurd hi hidle, fun _ => hinit⟩

/-- later turns keep what stands before them, so what a turn did is there at the end -/
theorem turns_keep {cs : List InnerClass} (h : Grown code e front t)
    (hafter : ∀ c ∈ cs, c.isHolder → e ≤ c.start)
    (hapart : (cs.filter (·.isHolder)).Pairwise (fun a b => a.stop ≤ b.start))
    (hspan : ∀ c ∈ cs, c.start ≤ c.stop ∧ c.stop ≤ code.length)
    (hclosed : ∀ c ∈ cs, c.isHolder → c.Closed code)
    (hturns : ∀ u ∈ turns fs t cs, Idle fs u.1 u.2 ∨ Found code u.1 u.2) :
    front <+: cs.foldl (innerPlaced fs) t
      ∧ ∀ u ∈ turns fs t cs, u.2.isHolder →
        (Idle fs u.1 u.2 → u.2.stretch code <:+: cs.foldl (innerPlaced fs) t)
        ∧ (¬ Idle fs u.1 u.2 →
          Initialised (u.2.own fs u.1) code (cs.foldl (innerPlaced fs) t) u.2) := by
  induction cs generalizing e front t with
  | nil =>
    refine ⟨?_, fun u hu => absurd hu not_mem_nil⟩
    rw [foldl_nil, h.text]
    exact prefix_append _ _
  | cons c cs ih =>
    rw [turns] at hturns
    rw [forall_mem_cons] at hafter hspan hclosed hturns
    rw [turns, foldl_cons, forall_mem_cons]
    by_cases hc : c.isHolder
    · rw [filter_cons_of_pos hc, pairwise_cons] at hapart
      obtain ⟨front', hg, hfront, hidle, hinit⟩ :=
        h.turn (hafter.1 hc) hspan.1.1 hspan.1.2 (hclosed.1 hc) hturns.1
      have hbehind : ∀ d ∈ cs, d.isHolder → c.stop ≤ d.start := fun d hd hholder =>
        hapart.1 d (mem_filter.mpr ⟨hd, hholder⟩)
      obtain ⟨hkept, hrest⟩ := ih hg hbehind hapart.2 hspan.2 hclosed.2 hturns.2
      refine ⟨hfront.trans hkept, fun _ => ⟨fun hi => ?_, fun hi => ?_⟩, hrest⟩
      · exact (hidle hi).trans hkept.isInfix
      · exact (hinit hi).mono hkept
    · rw [filter_cons_of_neg hc] at hapart
      have hsame : innerPlaced fs t c = t := by simp [innerPlaced, hc]
      rw [hsame] at hturns ⊢
      obtain ⟨hkept, hrest⟩ := ih h hafter.2 hapart hspan.2 hclosed.2 hturns.2
      exact ⟨hkept, fun hholder => absurd hholder hc, hrest⟩

end Grown

/-! ## all inner holders -/

/-- what the turns leave, if each class is left alone or found where it has moved -/
theorem turns_outcome {fs : List Field}
    (hapart : ((innerClasses code).filter (·.isHolder)).Pairwise (fun a b => a.stop ≤ b.start))
    (hclosed : ∀ c ∈ innerClasses code, c.isHolder = true → c.Closed code)
    (hall : ∀ u ∈ turns fs code (innerClasses code), Idle fs u.1 u.2 ∨ Found code u.1 u.2) :
    ∀ u ∈ turns fs code (innerClasses code), u.2.isHolder = true →
      (Idle fs u.1 u.2 → u.2.stretch code <:+: (innerClasses code).foldl (innerPlaced fs) code)
      ∧ (¬ Idle fs u.1 u.2 →
        Initialised (u.2.own fs u.1) code ((innerClasses code).foldl (innerPlaced fs) code) u.2) :=
  have hstart : Grown code 0 [] code := ⟨rfl, le_refl 0, Nat.zero_le _⟩
  (hstart.turns_keep (fun _ _ _ => Nat.zero_le _) hapart (fun _ hc => span_of_mem_innerClasses hc)
    hclosed hall).2

/-- if no holder stands behind one that is due, every holder is at its turn where it was -/
theorem turns_of_last {fs : List Field} {cs : List InnerClass}
    (hlast : (cs.filter (·.isHolder)).Pairwise (fun a _ => ¬ Due fs code a)) :
    ∀ u ∈ turns fs code cs, u.1 = code ∨ u.2.isHolder = false := by
  induction cs with
  | nil => exact fun u hu => absurd hu not_mem_nil
  | cons c cs ih =>
    rw [turns, forall_mem_cons]
    refine ⟨.inl rfl, ?_⟩
    by_cases hidle : Idle fs code c
    · rw [show innerPlaced fs code c = code from hidle]
      exact ih (hlast.sublist ((sublist_cons_self c cs).filter _))
    · have hdue := (due_of_not_idle hidle).1
      rw [filter_cons_of_pos hdue.holder, pairwise_cons] at hlast
      refine fun u hu => .inr (Bool.eq_false_iff.mpr fun hholder => ?_)
      have hmem : u.2 ∈ cs := map_snd_turns fs (innerPlaced fs code c) cs ▸ mem_map_of_mem hu
      exact hlast.1 u.2 (mem_filter.mpr ⟨hmem, hholder⟩) hdue

/-- Holders that stand apart, of which none stands behind one that is due, as where there is one
holder only: one that is due gets the look-ups of all its fields. -/
theorem innerHolders_last {f : Findings} {fs : List Field} {cs ls : List Listener}
    (h : f.Lists fs cs ls)
    (hapart : ((innerClasses code).filter (·.isHolder)).Pairwise (fun a b => a.stop ≤ b.start))
    (hclosed : ∀ c ∈ innerClasses code, c.isHolder → c.Closed code)
    (hlast : ((innerClasses code).filter (·.isHolder)).Pairwise (fun a _ => ¬ Due fs code a)) :
    ∃ out, injectInnerHolders f code = .ok out
      ∧ ∀ c ∈ innerClasses code, Due fs code c → Initialised (c.own fs code) code out c := by
  have hplace := turns_of_last hlast
  have hall : ∀ u ∈ turns fs code (innerClasses code), Idle fs u.1 u.2 ∨ Found code u.1 u.2 := by
    intro u hu
    rcases hplace u hu with hcode | hholder
    · exact .inr (hcode ▸ found_self code u.2)
    · exact .inl (by simp [Idle, innerPlaced, hholder])
  refine ⟨_, injectInnerHolders_eq h code, fun c hc hdue => ?_⟩
  rw [← map_snd_turns fs code (innerClasses code)] at hc
  obtain ⟨u, hu, rfl⟩ := mem_map.mp hc
  have hcode : u.1 = code := (hplace u hu).resolve_right (by simp [hdue.holder])
  have hinit := (turns_outcome hapart hclosed hall u hu hdue.holder).2
  rw [hcode] at hinit
  exact hinit hdue.not_idle

/-- every field that the class declares is still declared at its place -/
def ShowsFields (fs : List Field) (code t : Text) (c : InnerClass) : Prop :=
  ∀ F ∈ fs, occursIn (F.type ++ ' ' :: F.name ++ [';']) (c.stretch code) →
    occursIn (F.type ++ ' ' :: F.name ++ [';']) (c.stretch t)

instance (fs : List Field) (code t : Text) (c : InnerClass) : Decidable (ShowsFields fs code t c) :=
  inferInstanceAs (Decidable (∀ F ∈ fs, _))

theorem ShowsFields.subset {fs : List Field} {t : Text}
    (h : ShowsFields fs code t c) : c.own fs code ⊆ c.own fs t := by
  intro F hF
  obtain ⟨hmem, hdecl⟩ := mem_filter.mp hF
  exact mem_filter.mpr ⟨hmem, h F hmem hdecl⟩

theorem Initialised.of_subset {own' : List Field} {out : Text}
    (h : Initialised own code out c) (hsub : own' ⊆ own) : Initialised own' code out c := by
  obtain ⟨s, n, before, rest, hs, hout, hsuffix, hn, hlines⟩ := h
  exact ⟨s, n, before, rest, hs, hout, hsuffix, hn, fun F hF => hlines F (hsub hF)⟩

/-- Holders that stand apart, each left alone or found where it has moved once the text has grown:
one that is due gets the look-ups of the fields that its window shows, which are all its fields
before the text has grown, and stays as it was if nothing happens at its turn. -/
theorem innerHolders_turns {f : Findings} {fs : List Field} {cs ls : List Listener} {code : Text}
    (h : f.Lists fs cs ls)
    (hapart : ((innerClasses code).filter (·.isHolder)).Pairwise (fun a b => a.stop ≤ b.start))
    (hclosed : ∀ c ∈ innerClasses code, c.isHolder = true → c.Closed code)
    (hturns : ∀ u ∈ turns fs code (innerClasses code), u.1 ≠ code → Idle fs u.1 u.2
      ∨ Found code u.1 u.2) :
    ∃ out, injectInnerHolders f code = .ok out
      ∧ ∀ u ∈ turns fs code (innerClasses code), Due fs code u.2 →
        (u.1 = code ∨ ¬ Idle fs u.1 u.2 ∧ ShowsFields fs code u.1 u.2 →
          Initialised (u.2.own fs code) code out u.2)
        ∧ (¬ Idle fs u.1 u.2 → Initialised (u.2.own fs u.1) code out u.2)
        ∧ (Idle fs u.1 u.2 → u.2.stretch code <:+: out) := by
  have hall : ∀ u ∈ turns fs code (innerClasses code), Idle fs u.1 u.2 ∨ Found code u.1 u.2 := by
    intro u hu
    by_cases hcode : u.1 = code
    · exact .inr (hcode ▸ found_self code u.2)
    · exact hturns u hu hcode
  refine ⟨_, injectInnerHolders_eq h code, fun u hu hdue => ?_⟩
  obtain ⟨hidle, hinit⟩ := turns_outcome hapart hclosed hall u hu hdue.holder
  refine ⟨?_, hinit, hidle⟩
  rintro (hcode | ⟨hne, hshows⟩)
  · rw [hcode] at hinit
    exact hinit hdue.not_idle
  · exact (hinit hne).of_subset hshows.subset

/-- a field bound to the resource of its own name -/
def fieldOf (type name : Text) (htype : IsName type) (hname : IsName name) : Field where
  id := "R.id." ++ name
  type := type
  name := name
  line := []
  id_covers := covers_resourceId_iff.mpr ⟨name, hname, .inl rfl⟩
  type_covers := covers_word_iff.mpr htype
  name_covers := covers_word_iff.mpr hname

def twoFields : List Field :=
  [fieldOf "B" "b" (by decide) (by decide), fieldOf "C" "c" (by decide) (by decide)]

/-- the findings that list just these fields -/
def twoFindings : Findings where
  bindViews := .given (twoFields.map Field.view)
  clicks := .given []
  longClicks := .given []

/-- two holders, the second one long enough behind its constructor for what the first one gets -/
def spacedHolders : Text :=
  ("public class A \x7b\nclass BHolder extends BaseHolder \x7b\nB b;\n"
    ++ "public BHolder(View v) \x7b\n\x7d\nvoid clear() \x7b\n\x7d\n\x7d\n"
    ++ "class CHolder extends BaseHolder \x7b\nC c;\npublic CHolder(View v) \x7b\nsuper(v);\n\x7d\n"
    ++ "void show(Item item) \x7b\nc.setText(item.title());\n"
    ++ "c.setEnabled(item.isEnabled());\nc.setTag(item);\n\x7d\n\x7d\n\x7d\n").toList

/-- both holders get their look-ups -/
theorem innerHolders_turns_spacedHolders :
    twoFindings.Lists twoFields [] []
      ∧ ((innerClasses spacedHolders).filter (·.isHolder)).Pairwise (fun a b => a.stop ≤ b.start)
      ∧ (∀ c ∈ innerClasses spacedHolders, c.isHolder = true → c.Closed spacedHolders)
      ∧ (∀ u ∈ turns twoFields spacedHolders (innerClasses spacedHolders), u.1 ≠ spacedHolders →
        Idle twoFields u.1 u.2 ∨ Found spacedHolders u.1 u.2)
      ∧ (innerClasses spacedHolders).map (·.name) = ["BHolder".toList, "CHolder".toList]
      ∧ ∃ out, injectInnerHolders twoFindings spacedHolders = .ok out
        ∧ ∀ u ∈ turns twoFields spacedHolders (innerClasses spacedHolders),
          Due twoFields spacedHolders u.2
            ∧ Initialised (u.2.own twoFields spacedHolders) spacedHolders out u.2 := by
  have hlists : twoFindings.Lists twoFields [] [] := ⟨rfl, rfl, rfl⟩
  have hrun : ((innerClasses spacedHolders).filter (·.isHolder)).Pairwise
    (fun a b => a.stop ≤ b.start)
      ∧ (∀ c ∈ innerClasses spacedHolders, c.isHolder → c.Closed spacedHolders)
      ∧ (∀ u ∈ turns twoFields spacedHolders (innerClasses spacedHolders), u.1 ≠ spacedHolders →
        Idle twoFields u.1 u.2 ∨ Found spacedHolders u.1 u.2)
      ∧ (innerClasses spacedHolders).map (·.name) = ["BHolder", "CHolder"]
      ∧ ∀ u ∈ turns twoFields spacedHolders (innerClasses spacedHolders),
      Due twoFields spacedHolders u.2
        ∧ ¬ Idle twoFields u.1 u.2 ∧ ShowsFields twoFields spacedHolders u.1 u.2 := by
          decide +kernel
  obtain ⟨hapart, hclosed, hturns, hnames, hshown⟩ := hrun
  obtain ⟨out, hout, hinit⟩ := innerHolders_turns hlists hapart hclosed hturns
  refine ⟨hlists, hapart, hclosed, hturns, hnames, out, hout, fun u hu => ?_⟩
  obtain ⟨hdue, hshows⟩ := hshown u hu
  exact ⟨hdue, (hinit u hu hdue).1 (.inr hshows)⟩

/-- two holders, one right behind the other -/
def closeHolders : Text :=
  ("public class A \x7b\nclass BHolder extends BaseHolder \x7b\nB b;\n"
    ++ "public BHolder(View v) \x7b\n\x7d\n\x7d\nclass CHolder extends BaseHolder \x7b\nC c;\n"
    ++ "public CHolder(View v) \x7b\n\x7d\n\x7d\n\x7d\n").toList

/-- both holders are due, but the window of the second one shows the look-ups of the first -/
theorem second_holder_left :
    ((innerClasses closeHolders).filter (·.isHolder)).Pairwise (fun a b => a.stop ≤ b.start)
      ∧ (∀ c ∈ innerClasses closeHolders, Due twoFields closeHolders c ∧ c.Closed closeHolders)
      ∧ (innerClasses closeHolders).map (fun c => (c.own twoFields closeHolders).map (·.name))
        = [["b".toList], ["c".toList]]
      ∧ ∃ out, injectInnerHolders twoFindings closeHolders = .ok out
        ∧ ¬ " = itemView.findViewById(R.id.c);".toList <:+: out := by
  have hlists : twoFindings.Lists twoFields [] [] := ⟨rfl, rfl, rfl⟩
  have hrun : ((innerClasses closeHolders).filter (·.isHolder)).Pairwise
    (fun a b => a.stop ≤ b.start)
      ∧ (∀ c ∈ innerClasses closeHolders, Due twoFields closeHolders c ∧ c.Closed closeHolders)
      ∧ (innerClasses closeHolders).map (fun c => (c.own twoFields closeHolders).map (·.name))
        = [["b".toList], ["c".toList]]
      ∧ occursIn " = itemView.findViewById(R.id.c);"
        ((innerClasses closeHolders).foldl (innerPlaced twoFields) closeHolders) = false := by
          decide +kernel
  obtain ⟨hapart, hdue, hown, habsent⟩ := hrun
  exact ⟨hapart, hdue, hown, _, injectInnerHolders_eq hlists closeHolders,
    (occursIn_eq_false_iff _ _).mp habsent⟩

end Rebind
