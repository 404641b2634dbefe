import Mathlib
import Rebind.Proofs.Injection.Insertions
import Rebind.Proofs.Injection.Marking

/-!
# The clean-up stays in `onCreate`

The marks of the scan stand in falling order (`Removals.descending`), so no line is marked twice.
Lines are taken out by their indices, from the back: a repeated index would take out an innocent
line, a falling list takes out what it names and nothing else (`takeOut_eq_unmarkedLines`).

`cleanOnCreate_confined` puts this together with the frame: only the body between the brace of the
header and the brace that matches it changes, and nothing changes where one of the two is missing.
-/

namespace Rebind

open List

/-! ## marks in falling order -/

section
variable {ls : List Text} {d : Removal} {ds : List Removal} {earlier : List Nat}

theorem Removal.indices_descending (d : Removal) : d.indices.Pairwise (· > ·) := by
  rw [Removal.indices, pairwise_reverse]
  exact pairwise_lt_range'

theorem Removal.Reason.lt_length (h : d.Reason ls earlier) : d.start + d.further < ls.length := by
  cases d with
  | lookup i => exact h.1
  | listener i n =>
    have hn := h.2.1.lt_length
    rw [length_drop] at hn
    show i + n < ls.length
    omega
  | brace i => exact h.1

theorem Removals.descending (h : Removals ls ds) : (taken ds).Pairwise (· > ·) := by
  induction h with
  | nil => exact .nil
  | @cons d ds _ behind _ ih =>
    rw [taken_cons, pairwise_append]
    refine ⟨d.indices_descending, ih, ?_⟩
    intro k hk j hj
    have hstart := (Removal.mem_indices.mp hk).1
    have hlt := behind j hj
    omega

theorem Removals.lt_length (h : Removals ls ds) : ∀ k ∈ taken ds, k < ls.length := by
  induction h with
  | nil => simp [taken]
  | cons _ _ reason ih =>
    intro k hk
    rcases mem_append.mp hk with hk | hk
    · have hle := (Removal.mem_indices.mp hk).2
      have hlt := reason.lt_length
      omega
    · exact ih k hk

end

/-! ## taking lines out -/

def takeOut (ks : List Nat) (ls : List Text) : List Text := ks.foldl (fun ls k => ls.eraseIdx k) ls

def backwards (ks : List Nat) : List Nat := ks.mergeSort (fun a b => decide (b ≤ a))

theorem backwards_of_descending {ks : List Nat} (h : ks.Pairwise (· > ·)) : backwards ks = ks := by
  apply mergeSort_of_pairwise
  apply h.imp
  intro a b hab
  simpa using Nat.le_of_lt hab

def unmarkedFrom (n : Nat) (marked : List Nat) (ls : List Text) : List Text :=
  ((ls.zipIdx n).filter (fun e => !marked.contains e.2)).map (·.1)

theorem unmarkedFrom_cons (n : Nat) (marked : List Nat) (l : Text) (ls : List Text) :
    unmarkedFrom n marked (l :: ls)
      = if n ∈ marked then unmarkedFrom (n + 1) marked ls else l
        :: unmarkedFrom (n + 1) marked ls := by
  unfold unmarkedFrom
  by_cases h : n ∈ marked <;> simp [h]

theorem unmarkedFrom_of_lt {n : Nat} {marked : List Nat} (h : ∀ k ∈ marked, k < n)
    (ls : List Text) :
    unmarkedFrom n marked ls = ls := by
  induction ls generalizing n with
  | nil => rfl
  | cons l ls ih =>
    have hn : n ∉ marked := fun hm => Nat.lt_irrefl n (h n hm)
    rw [unmarkedFrom_cons, if_neg hn, ih fun k hk => Nat.lt_succ_of_lt (h k hk)]

theorem unmarkedFrom_eraseIdx {n k : Nat} {ks : List Nat} (h : ∀ j ∈ ks, j < n + k)
    (ls : List Text) :
    unmarkedFrom n ks (ls.eraseIdx k) = unmarkedFrom n ((n + k) :: ks) ls := by
  induction ls generalizing n k with
  | nil => rfl
  | cons l ls ih =>
    cases k with
    | zero =>
      have hbefore : ∀ j ∈ ks, j < n := h
      have hrest : ∀ j ∈ n :: ks, j < n + 1 := by
        intro j hj
        rcases mem_cons.mp hj with rfl | hj
        · omega
        · exact Nat.lt_succ_of_lt (hbefore j hj)
      show unmarkedFrom n ks ls = unmarkedFrom n (n :: ks) (l :: ls)
      rw [unmarkedFrom_of_lt hbefore, unmarkedFrom_cons, if_pos mem_cons_self,
        unmarkedFrom_of_lt hrest]
    | succ k =>
      have hmem : n ∈ (n + (k + 1)) :: ks ↔ n ∈ ks := by
        rw [mem_cons]
        constructor
        · rintro (he | hm)
          · omega
          · exact hm
        · exact .inr
      have hstep := ih (n := n + 1) (k := k) fun j hj => by have := h j hj; omega
      rw [show n + 1 + k = n + (k + 1) by omega] at hstep
      rw [eraseIdx_cons_succ, unmarkedFrom_cons, unmarkedFrom_cons, if_congr hmem rfl rfl, hstep]

theorem takeOut_eq_unmarkedLines {ks : List Nat} (h : ks.Pairwise (· > ·)) (ls : List Text) :
    takeOut ks ls = unmarkedLines ks ls := by
  induction ks generalizing ls with
  | nil =>
    show ls = unmarkedFrom 0 [] ls
    exact (unmarkedFrom_of_lt (by simp) ls).symm
  | cons k ks ih =>
    rw [pairwise_cons] at h
    have hk : unmarkedFrom 0 ks (ls.eraseIdx k) = unmarkedFrom 0 ((0 + k) :: ks) ls :=
      unmarkedFrom_eraseIdx (fun j hj => by have := h.1 j hj; omega) ls
    rw [Nat.zero_add] at hk
    show takeOut ks (ls.eraseIdx k) = unmarkedLines (k :: ks) ls
    rw [ih h.2]
    exact hk

theorem length_takeOut {ks : List Nat} (h : ks.Pairwise (· > ·)) {ls : List Text}
    (hlt : ∀ k ∈ ks, k < ls.length) : (takeOut ks ls).length + ks.length = ls.length := by
  induction ks generalizing ls with
  | nil => rfl
  | cons k ks ih =>
    rw [pairwise_cons] at h
    have hk := hlt k mem_cons_self
    have hlen := length_eraseIdx_of_lt hk
    have hinside : ∀ j ∈ ks, j < (ls.eraseIdx k).length := by
      intro j hj
      have := h.1 j hj
      omega
    have hrest := ih h.2 hinside
    show (takeOut ks (ls.eraseIdx k)).length + (ks.length + 1) = ls.length
    omega

/-! ## the frame -/

/-- `body` is made of the lines `ls` without the marked ones, in their order; no line is marked
twice, so that those left and the marks make up all lines, and taking the marked lines out by their
indices from the back takes out these lines and no others -/
structure Cleaned (ls : List Text) (marks : List Nat) (body : Text) : Prop where
  nodup : marks.Nodup
  inside : ∀ k ∈ marks, k < ls.length
  made : body = unlines (takeOut (backwards marks) ls)
  kept : takeOut (backwards marks) ls = unmarkedLines marks ls
  cut : unmarkedLines marks ls ≠ [] → lines body = unmarkedLines marks ls
  count : (unmarkedLines marks ls).length + marks.length = ls.length

theorem mem_of_mem_unmarkedLines {marked : List Nat} {ls : List Text} {l : Text}
    (h : l ∈ unmarkedLines marked ls) : l ∈ ls := by
  obtain ⟨e, he, rfl⟩ := mem_map.mp h
  exact fst_mem_of_mem_zipIdx (mem_filter.mp he).1

theorem cleaned_lines (t : Text) :
    Cleaned (lines t) (markLines (lines t)).lines
      (unlines (unmarkedLines (markLines (lines t)).lines (lines t))) := by
  obtain ⟨ds, hds, hmarks⟩ := exists_removals (lines t)
  rw [hmarks]
  have hfall := hds.descending
  have hout := takeOut_eq_unmarkedLines hfall (lines t)
  refine ⟨hfall.imp fun h => Nat.ne_of_gt h, hds.lt_length, ?_, ?_, fun hne => ?_, ?_⟩
  · rw [backwards_of_descending hfall, hout]
  · rw [backwards_of_descending hfall, hout]
  · exact lines_unlines hne fun l hl => not_mem_of_mem_lines (mem_of_mem_unmarkedLines hl)
  · rw [← hout]
    exact length_takeOut hfall hds.lt_length

def linesBetween (code : Text) (a e : Nat) : List Text := lines ((code.take e).drop (a + 1))

section
variable {code : Text} {a e : Nat}

theorem cleanOnCreate_of_no_header (h : onCreateHeader.search code = none) :
    (cleanOnCreate code).value = code := by
  unfold cleanOnCreate
  simp only [Traced.value_note_bind, h]
  rfl

theorem cleanOnCreate_of_header (h : HeaderEnds onCreateHeader code a) :
    (cleanOnCreate code).value
      = code.take (a + 1)
        ++ unlines (unmarkedLines (markLines (linesBetween code a (bodyEnd code (a + 1)))).lines
          (linesBetween code a (bodyEnd code (a + 1))))
        ++ code.drop (bodyEnd code (a + 1)) := by
  obtain ⟨m, hm, hstop⟩ := Option.map_eq_some_iff.mp h
  have hbody : (code.drop (a + 1)).take (bodyEnd code (a + 1) - (a + 1))
      = (code.take (bodyEnd code (a + 1))).drop (a + 1) := by
    rw [drop_take]
  unfold cleanOnCreate
  simp only [hm, hstop, Traced.value_bind, hbody]
  split
  · next hnone =>
    -- without marks the lines are put together as they were
    rw [linesBetween, isEmpty_iff.mp hnone]
    have hall : unmarkedLines [] (lines ((code.take (bodyEnd code (a + 1))).drop (a + 1)))
        = lines ((code.take (bodyEnd code (a + 1))).drop (a + 1)) :=
          unmarkedFrom_of_lt (n := 0) (by simp) _
    rw [hall, unlines_lines, ← hbody, append_assoc, ← drop_eq_body, take_append_drop]
    rfl
  · rfl

theorem bodyEnd_of_matched (h : Matched code a e) : bodyEnd code (a + 1) = e := by
  obtain ⟨n, hn, rfl⟩ := h.closingBrace
  rw [bodyEnd, hn]

theorem bodyEnd_of_unmatched (hx : code[a]? = some '\x7b') (h : ¬ ∃ e, Matched code a e) :
    bodyEnd code (a + 1) = a + 1 := by
  cases hn : closingBrace 1 (code.drop (a + 1)) with
  | none => rw [bodyEnd, hn]
  | some n => exact absurd ⟨_, (matched_iff code a _).mpr ⟨hx, by rw [hn, Option.map_some]⟩⟩ h

theorem brace_of_header (h : HeaderEnds onCreateHeader code a) : code[a]? = some '\x7b' := by
  obtain ⟨m, hm, hstop⟩ := Option.map_eq_some_iff.mp h
  obtain ⟨j, hj, hx⟩ := onCreateHeader_stop hm
  rwa [show a = j by omega]

theorem cleanOnCreate_of_unmatched (ha : HeaderEnds onCreateHeader code a)
    (h : ¬ ∃ e, Matched code a e) :
    (cleanOnCreate code).value = code := by
  have hempty : linesBetween code a (a + 1) = [[]] := by
    rw [linesBetween, drop_take, Nat.sub_self, take_zero, lines_nil]
  rw [cleanOnCreate_of_header ha, bodyEnd_of_unmatched (brace_of_header ha) h, hempty]
  show code.take (a + 1) ++ [] ++ code.drop (a + 1) = code
  rw [append_nil, take_append_drop]

theorem cleanOnCreate_of_matched (ha : HeaderEnds onCreateHeader code a) (he : Matched code a e) :
    (cleanOnCreate code).value
      = code.take (a + 1)
        ++ unlines (unmarkedLines (markLines (linesBetween code a e)).lines (linesBetween code a e))
        ++ code.drop e := by
  rw [cleanOnCreate_of_header ha, bodyEnd_of_matched he]

end

/-- The clean-up changes nothing where `onCreate` is missing or not closed.  Else only the body
between its brace and the brace that matches it changes: it loses exactly the lines that are marked,
each of them once. -/
theorem cleanOnCreate_confined (code : Text) :
    (onCreateHeader.search code = none → (cleanOnCreate code).value = code)
    ∧ ∀ a, HeaderEnds onCreateHeader code a →
      ((¬ ∃ e, Matched code a e) → (cleanOnCreate code).value = code)
      ∧ ∀ e, Matched code a e → ∃ body,
        (cleanOnCreate code).value = code.take (a + 1) ++ body ++ code.drop e
        ∧ Cleaned (linesBetween code a e) (markLines (linesBetween code a e)).lines body := by
  refine ⟨cleanOnCreate_of_no_header, fun a ha => ⟨cleanOnCreate_of_unmatched ha, fun e he => ?_⟩⟩
  exact ⟨_, cleanOnCreate_of_matched ha he, cleaned_lines ((code.take e).drop (a + 1))⟩

/-- an activity with a look-up, an empty block and a listener -/
def markedActivity : Text :=
  "class A \x7b\nprotected void onCreate(Bundle b) \x7b\ntvAll = findViewById(R.id.a);\n"
    ++ "if (x) \x7b\n\x7d\nb.setOnClickListener(v -> \x7b\n\x7d);\n\x7d\n\x7d\n"

theorem cleanOnCreate_confined_markedActivity :
    HeaderEnds onCreateHeader markedActivity 44 ∧ Matched markedActivity 44 119
      ∧ (markLines (linesBetween markedActivity 44 119)).lines = [5, 4, 3, 1]
      ∧ ∃ body, (cleanOnCreate markedActivity).value = markedActivity.take 45 ++ body
        ++ markedActivity.drop 119
        ∧ Cleaned (linesBetween markedActivity 44 119) [5, 4, 3, 1] body := by
  have hfacts : HeaderEnds onCreateHeader markedActivity 44 ∧ Matched markedActivity 44 119
      ∧ (markLines (linesBetween markedActivity 44 119)).lines = [5, 4, 3, 1] := by
    decide +kernel
  obtain ⟨ha, he, hmarks⟩ := hfacts
  obtain ⟨body, hvalue, hcleaned⟩ := ((cleanOnCreate_confined markedActivity).2 44 ha).2 119 he
  rw [hmarks] at hcleaned
  exact ⟨ha, he, hmarks, body, hvalue, hcleaned⟩

end Rebind
