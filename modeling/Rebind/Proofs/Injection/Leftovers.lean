import Mathlib
import Rebind.Proofs.Injection.Cleaning

/-!
# What the clean-up of `onCreate` takes away

The lines that are taken out and those that are left make up the body, so the braces that are left
are those of the body less those of the removals (`Removals.balance`).  A listener is taken out with
its braces, a look-up with what stands on its line, and a lone brace makes the body lose a brace
that it may need.

The rules look at lines, not at statements.  Where statements begin and end is told here from the
brackets:

* `statementEnd ls i`: the line of the semicolon that ends the call that sets a listener on line
  `i`;
* `Initialises ls i`: the line assigns a look-up, or is part of a statement that sets a listener.

On a body that is `Tidy` every removal lies inside such a statement, and the braces stay balanced.
-/

namespace Rebind

open List

/-! ## the braces of what is left -/

theorem linesBalance_eraseIdx {ls : List Text} {k : Nat} (h : k < ls.length) :
    linesBalance (ls.eraseIdx k) + braceBalance (lineAt ls k) = linesBalance ls := by
  have hsplit : ls = ls.take k ++ lineAt ls k :: ls.drop (k + 1) := by
    rw [← drop_eq_lineAt_cons h, take_append_drop]
  conv_rhs => rw [hsplit]
  rw [eraseIdx_eq_take_drop_succ, linesBalance_append, linesBalance_append, linesBalance_cons]
  omega

theorem linesBalance_takeOut {ks : List Nat} (h : ks.Pairwise (· > ·)) {ls : List Text}
    (hlt : ∀ k ∈ ks, k < ls.length) :
    linesBalance (takeOut ks ls) + (ks.map (fun k => braceBalance (lineAt ls k))).sum
      = linesBalance ls := by
  induction ks generalizing ls with
  | nil =>
    show linesBalance ls + 0 = linesBalance ls
    omega
  | cons k ks ih =>
    rw [pairwise_cons] at h
    have hk := hlt k mem_cons_self
    have hlen := length_eraseIdx_of_lt hk
    have hinside : ∀ j ∈ ks, j < (ls.eraseIdx k).length := by
      intro j hj
      have := h.1 j hj
      omega
    have hrest := ih h.2 hinside
    have hsame : ks.map (fun j => braceBalance (lineAt (ls.eraseIdx k) j))
        = ks.map (fun j => braceBalance (lineAt ls j)) := by
      apply map_congr_left
      intro j hj
      rw [lineAt, lineAt, getD_eq_getElem?_getD, getD_eq_getElem?_getD,
        getElem?_eraseIdx_of_lt (h.1 j hj)]
    have hone := linesBalance_eraseIdx hk
    rw [hsame] at hrest
    rw [map_cons, sum_cons]
    show linesBalance (takeOut ks (ls.eraseIdx k)) + _ = _
    omega

/-- the number of opening less closing braces that a removal takes away -/
def Removal.excess (ls : List Text) : Removal → Int
  | lookup i => braceBalance (lineAt ls i)
  | listener _ _ => 0
  | brace _ => -1

theorem map_lineAt_range' {ls : List Text} {i m : Nat} (h : i + m ≤ ls.length) :
    (range' i m).map (lineAt ls) = (ls.drop i).take m := by
  apply ext_getElem
  · rw [length_map, length_range', length_take, length_drop]
    omega
  · intro j hj hj'
    rw [length_map, length_range'] at hj
    rw [getElem_map, getElem_range', getElem_take, getElem_drop, lineAt,
      getD_eq_getElem _ _ (by omega)]
    simp

theorem braceBalance_trim (l : Text) : braceBalance (trim l) = braceBalance l := by
  have hdrop : ∀ t : Text, braceBalance (t.dropWhile isBlank) = braceBalance t := by
    intro t
    have hblank : ∀ c ∈ t.takeWhile isBlank, isBlank c := fun c hc => mem_takeWhile_imp hc
    have hflat : braceBalance (t.takeWhile isBlank) = 0 := by
      apply braceBalance_of_flat
      · exact fun hm => absurd (hblank _ hm) (by decide)
      · exact fun hm => absurd (hblank _ hm) (by decide)
    conv_rhs => rw [← takeWhile_append_dropWhile (p := isBlank) (l := t),
      braceBalance_append, hflat]
    rw [zero_add]
  have hrev : ∀ t : Text, braceBalance t.reverse = braceBalance t := by
    intro t
    rw [braceBalance, braceBalance, countOf, countOf, count_reverse, count_reverse]
    rfl
  rw [trim, trimRight, hrev, hdrop, hrev, trimLeft, hdrop]

section
variable {ls : List Text} {d : Removal} {ds : List Removal} {earlier : List Nat}

theorem Removal.Reason.balance (h : d.Reason ls earlier) :
    (d.indices.map (fun k => braceBalance (lineAt ls k))).sum = d.excess ls := by
  cases d with
  | lookup i => simp [Removal.indices, Removal.start, Removal.further, Removal.excess]
  | listener i n =>
    have hlt := h.lt_length
    have hzero : (0 : Int) + linesBalance ((ls.drop i).take (n + 1)) = 0 := h.2.1.2.1
    show ((range' i (n + 1)).reverse.map (braceBalance ∘ lineAt ls)).sum = 0
    rw [map_reverse, sum_reverse, ← map_map,
      map_lineAt_range' (show i + (n + 1) ≤ ls.length from hlt)]
    show linesBalance ((ls.drop i).take (n + 1)) = 0
    omega
  | brace i =>
    have hlone : braceBalance (lineAt ls i) = -1 := by
      rw [← braceBalance_trim]
      rcases h.2.1 with he | he
      · rw [he]
        decide
      · rw [he]
        decide
    simp [Removal.indices, Removal.start, Removal.further, Removal.excess, hlone]

theorem Removals.sum_taken (h : Removals ls ds) :
    ((taken ds).map (fun k => braceBalance (lineAt ls k))).sum
      = (ds.map (Removal.excess ls)).sum := by
  induction h with
  | nil => rfl
  | cons _ _ reason ih =>
    rw [taken_cons, map_append, sum_append, reason.balance, ih, map_cons, sum_cons]

/-- what is left and what was taken away make up the body -/
theorem Removals.balance (h : Removals ls ds) :
    linesBalance (unmarkedLines (taken ds) ls) + (ds.map (Removal.excess ls)).sum
      = linesBalance ls := by
  rw [← takeOut_eq_unmarkedLines h.descending, ← h.sum_taken]
  exact linesBalance_takeOut h.descending h.lt_length

end

/-! ## statements -/

def bracketStep (c : Char) : Int :=
  if c = '(' ∨ c = '[' ∨ c = '\x7b' then 1 else if c = ')' ∨ c = ']' ∨ c = '\x7d' then -1 else 0

/-- the offset of the first semicolon outside brackets, where `d` are open before the text -/
def outerSemicolon (d : Int) : Text → Option Nat
  | [] => none
  | c :: t => if c = ';' ∧ d ≤ 0 then some 0 else (outerSemicolon (d + bracketStep c) t).map (· + 1)

/-- the line on which the statement ends that sets a listener on line `i` -/
def statementEnd (ls : List Text) (i : Nat) : Option Nat :=
  (cut "setOnClickListener(" (lineAt ls i)).bind (fun c =>
    let rest := unlines (c.2 :: ls.drop (i + 1))
    (outerSemicolon 1 rest).map (fun n => i + (rest.take n).count '\n'))

def AssignsLookup (l : Text) : Prop :=
  "findViewById(" <:+: (l.takeWhile (· != ';')).dropWhile (· != '=')

/-- line `i` assigns a look-up, or is one of the lines of a statement that sets a listener -/
def Initialises (ls : List Text) (i : Nat) : Prop :=
  AssignsLookup (lineAt ls i) ∨ ∃ a < i + 1, ∃ b ∈ statementEnd ls a, i ≤ b

def Nested (rs : List Text) : Prop :=
  (∃ l ∈ rs, '\x7b' ∈ l) ∧ linesBalance rs = 0 ∧ ∀ k < rs.length, 0 ≤ linesBalance (rs.take (k + 1))

/-- each leftover look-up is an assignment without braces of its own to balance; each listener has a
block, and its statement ends with it, or no block follows; no lone brace follows what initialises
at a distance of up to five lines, unless a listener stands up to ten lines above it -/
@[mk_iff]
structure Tidy (ls : List Text) : Prop where
  lookups : ∀ l ∈ ls, IsLeftover l → AssignsLookup l ∧ braceBalance l = 0
  listeners : ∀ i < ls.length, SetsListener (lineAt ls i) →
    (∀ l ∈ ls.drop i, '\x7b' ∉ l) ∨ ∃ b ∈ statementEnd ls i, Nested ((ls.drop i).take (b + 1 - i))
  braces : ∀ i < ls.length, IsLoneBrace (lineAt ls i) →
    SetAbove ls i ∨ ∀ k < i, i ≤ k + 5 → ¬ Initialises ls k

instance (l : Text) : Decidable (AssignsLookup l) := inferInstanceAs (Decidable (_ <:+: _))

instance (ls : List Text) (i : Nat) : Decidable (Initialises ls i) :=
  inferInstanceAs (Decidable (_ ∨ ∃ a, a < i + 1 ∧ ∃ b ∈ statementEnd ls a, i ≤ b))

instance (rs : List Text) : Decidable (Nested rs) :=
  inferInstanceAs (Decidable (_ ∧ _ ∧ ∀ k < rs.length, 0 ≤ linesBalance (rs.take (k + 1))))

instance (ls : List Text) : Decidable (Tidy ls) :=
  @decidable_of_iff _ _ (tidy_iff ls).symm
    (@instDecidableAnd _ _ inferInstance (@instDecidableAnd _ _ inferInstance inferInstance))

theorem Nested.init {rs : List Text} {l : Text} (h : Nested (rs ++ [l])) (hclose : '\x7d' ∉ l) :
    Nested rs := by
  obtain ⟨⟨x, hx, hbrace⟩, htotal, hnever⟩ := h
  have hlast : braceBalance l = (l.count '\x7b' : Nat) := braceBalance_of_not_mem hclose
  have hsum : linesBalance rs + braceBalance l = 0 := by
    rw [linesBalance_append] at htotal
    simpa [linesBalance] using htotal
  have hbefore : ∀ k < rs.length, 0 ≤ linesBalance (rs.take (k + 1)) := by
    intro k hk
    have := hnever k (by rw [length_append]; omega)
    rwa [take_append_of_le_length (by omega)] at this
  have hnonneg : 0 ≤ linesBalance rs := by
    cases hlen : rs.length with
    | zero => rw [length_eq_zero_iff.mp hlen]; rfl
    | succ n =>
      have := hbefore n (by omega)
      rwa [take_of_length_le (by omega)] at this
  have hnone : '\x7b' ∉ l := count_eq_zero.mp (by omega)
  refine ⟨⟨x, ?_, hbrace⟩, by omega, hbefore⟩
  rcases mem_append.mp hx with hx | hx
  · exact hx
  · exact absurd (mem_singleton.mp hx ▸ hbrace) hnone

theorem Nested.settles {rs : List Text} (h : Nested rs) :
    ∃ n < rs.length, SettlesAt 0 false rs n := by
  induction rs using reverseRecOn with
  | nil =>
    obtain ⟨⟨l, hl, -⟩, -⟩ := h
    simp at hl
  | append_singleton rs l ih =>
    by_cases hclose : '\x7d' ∈ l
    · -- all lines are balanced, and the last one closes a brace
      have htake : (rs ++ [l]).take (rs.length + 1) = rs ++ [l] := take_of_length_le (by simp)
      refine ⟨rs.length, by simp, ⟨l, by simp, hclose⟩, ?_, .inr ?_⟩
      · rw [htake, h.2.1, add_zero]
      · rw [htake]
        exact h.1
    · obtain ⟨n, hn, ⟨x, hx, hxc⟩, hzero, hopened⟩ := ih (h.init hclose)
      have htake : (rs ++ [l]).take (n + 1) = rs.take (n + 1) := take_append_of_le_length (by omega)
      refine ⟨n, by rw [length_append]; omega, ⟨x, ?_, hxc⟩, ?_, ?_⟩
      · rwa [getElem?_append_left hn]
      · rwa [htake]
      · rwa [htake]

theorem SettlesAt.of_take {d : Int} {opened : Bool} {ls : List Text} {m n : Nat} (hn : n < m)
    (h : SettlesAt d opened (ls.take m) n) : SettlesAt d opened ls n := by
  have htake : (ls.take m).take (n + 1) = ls.take (n + 1) := by
    rw [take_take, Nat.min_eq_left (by omega)]
  unfold SettlesAt at h
  rwa [getElem?_take_of_lt hn, htake] at h

section
variable {ls : List Text} {ds : List Removal}

theorem Tidy.listener_inside (ht : Tidy ls) {i n : Nat} (hsets : SetsListener (lineAt ls i))
    (hfirst : FirstSettles (ls.drop i) n) : ∃ b ∈ statementEnd ls i, i + n ≤ b := by
  have hlt : i < ls.length := by
    have := hfirst.1.lt_length
    rw [length_drop] at this
    omega
  rcases ht.listeners i hlt hsets with hnone | ⟨b, hb, hnested⟩
  · obtain ⟨-, -, hopened⟩ := hfirst.1
    rcases hopened with hfalse | ⟨l, hl, hbrace⟩
    · cases hfalse
    · exact absurd hbrace (hnone l (mem_of_mem_take hl))
  · obtain ⟨k, hk, hsettles⟩ := hnested.settles
    rw [length_take] at hk
    have hkb : k < b + 1 - i := by omega
    have hle : n ≤ k := by
      by_contra hlater
      exact hfirst.2 k (by omega) (hsettles.of_take hkb)
    exact ⟨b, hb, by omega⟩

/-- all that is taken out of a tidy body initialises, and takes no brace away -/
theorem Tidy.removals (ht : Tidy ls) (h : Removals ls ds) :
    (∀ k ∈ taken ds, Initialises ls k) ∧ (ds.map (Removal.excess ls)).sum = 0 := by
  induction h with
  | nil => exact ⟨by simp [taken], rfl⟩
  | @cons d ds earlier behind reason ih =>
    rw [taken_cons, map_cons, sum_cons, ih.2, add_zero]
    cases d with
    | lookup i =>
      obtain ⟨hassigns, hzero⟩ := ht.lookups (lineAt ls i) (lineAt_mem reason.1) reason.2
      refine ⟨fun k hk => ?_, hzero⟩
      rcases mem_append.mp hk with hk | hk
      · obtain rfl : k = i := by simpa [Removal.indices, Removal.start, Removal.further] using hk
        exact .inl hassigns
      · exact ih.1 k hk
    | listener i n =>
      obtain ⟨b, hb, hle⟩ := ht.listener_inside reason.1 reason.2
      refine ⟨fun k hk => ?_, rfl⟩
      rcases mem_append.mp hk with hk | hk
      · obtain ⟨hlo, hhi⟩ : i ≤ k ∧ k ≤ i + n := Removal.mem_indices.mp hk
        exact .inr ⟨i, by omega, b, hb, by omega⟩
      · exact ih.1 k hk
    | brace i =>
      -- a lone brace is not taken out: a listener stands above it, or nothing that initialises
      obtain ⟨hlt, hlone, ⟨k, hk, hnear⟩, hunset⟩ := reason
      rcases ht.braces i hlt hlone with hset | hfar
      · exact absurd hset hunset
      · exact absurd (ih.1 k hk) (hfar k (behind k hk) hnear)

end

/-- The clean-up takes leftover look-ups, listeners up to the first line on which their braces
balance, and lone braces near them out of the body of `onCreate`.  The braces of the body are those
that are left and those of the removals.  On a tidy body, all that is taken out is part of a
statement that assigns a look-up or sets a listener, and the braces that are left balance as
before. -/
theorem cleanOnCreate_removes {code : Text} {a e : Nat} (ha : HeaderEnds onCreateHeader code a)
    (he : Matched code a e) :
    ∃ ds body, Removals (linesBetween code a e) ds
      ∧ body = unlines (unmarkedLines (taken ds) (linesBetween code a e))
      ∧ (cleanOnCreate code).value = code.take (a + 1) ++ body ++ code.drop e
      ∧ braceBalance body + (ds.map (Removal.excess (linesBetween code a e))).sum
        = braceBalance ((code.take e).drop (a + 1))
      ∧ (Tidy (linesBetween code a e) → (∀ k ∈ taken ds, Initialises (linesBetween code a e) k)
        ∧ braceBalance body = braceBalance ((code.take e).drop (a + 1))) := by
  obtain ⟨ds, hds, hmarks⟩ := exists_removals (linesBetween code a e)
  have hbalance : braceBalance (unlines (unmarkedLines (taken ds) (linesBetween code a e)))
      + (ds.map (Removal.excess (linesBetween code a e))).sum
        = braceBalance ((code.take e).drop (a + 1)) := by
    rw [braceBalance_unlines, hds.balance, linesBetween, ← braceBalance_unlines, unlines_lines]
  refine ⟨ds, _, hds, rfl, ?_, hbalance, fun ht => ?_⟩
  · rw [cleanOnCreate_of_matched ha he, hmarks]
  · obtain ⟨hinit, hzero⟩ := ht.removals hds
    rw [hzero, add_zero] at hbalance
    exact ⟨hinit, hbalance⟩

/-- an activity with a look-up, a listener and a block behind it -/
def tidyActivity : Text :=
  "class A \x7b\nprotected void onCreate(Bundle b) \x7b\nsuper.onCreate(b);\n"
    ++ "tvAll = findViewById(R.id.a);\ntvAll.setOnClickListener(new View.OnClickListener() \x7b\n"
    ++ "public void onClick(View v) \x7b\nif (v.isShown()) \x7b\nshow();\n\x7d\n\x7d\n\x7d);\n"
    ++ "if (b == null) \x7b\nload();\n\x7d\n\x7d\n\x7d\n"

theorem cleanOnCreate_removes_tidyActivity :
    HeaderEnds onCreateHeader tidyActivity 44 ∧ Matched tidyActivity 44 241
      ∧ Tidy (linesBetween tidyActivity 44 241)
      ∧ (markLines (linesBetween tidyActivity 44 241)).lines = [9, 8, 7, 6, 5, 4, 3, 2]
      ∧ ∃ ds body, Removals (linesBetween tidyActivity 44 241) ds
        ∧ (cleanOnCreate tidyActivity).value = tidyActivity.take 45 ++ body ++ tidyActivity.drop 241
        ∧ (∀ k ∈ taken ds, Initialises (linesBetween tidyActivity 44 241) k)
        ∧ braceBalance body = braceBalance ((tidyActivity.take 241).drop 45) := by
  have hfacts : HeaderEnds onCreateHeader tidyActivity 44 ∧ Matched tidyActivity 44 241
      ∧ Tidy (linesBetween tidyActivity 44 241)
      ∧ (markLines (linesBetween tidyActivity 44 241)).lines = [9, 8, 7, 6, 5, 4, 3, 2] := by
    decide +kernel
  obtain ⟨ha, he, ht, hmarks⟩ := hfacts
  obtain ⟨ds, body, hds, -, hvalue, -, htidy⟩ := cleanOnCreate_removes ha he
  exact ⟨ha, he, ht, hmarks, ds, body, hds, hvalue, htidy ht⟩

/-- an activity with a block a few lines below a look-up -/
def guardedActivity : Text :=
  "class A \x7b\nprotected void onCreate(Bundle b) \x7b\n"
    ++ "tvAll = findViewById(R.id.a);\nif (x) \x7b\ny();\n\x7d\n\x7d\n\x7d\n"

/-- the brace that ends the block is taken out, though it belongs to no statement that initialises,
and the braces that are left do not balance -/
theorem guard_brace_removed :
    HeaderEnds onCreateHeader guardedActivity 44 ∧ Matched guardedActivity 44 92
      ∧ lineAt (linesBetween guardedActivity 44 92) 4 = "\x7d".toList
      ∧ (markLines (linesBetween guardedActivity 44 92)).lines = [4, 1]
      ∧ ¬ Initialises (linesBetween guardedActivity 44 92) 4
      ∧ braceBalance ((guardedActivity.take 92).drop 45) = 0
      ∧ (cleanOnCreate guardedActivity).value
        = guardedActivity.take 45 ++ "\nif (x) \x7b\ny();\n".toList ++ guardedActivity.drop 92
      ∧ braceBalance "\nif (x) \x7b\ny();\n".toList = 1 := by
  decide +kernel

end Rebind
