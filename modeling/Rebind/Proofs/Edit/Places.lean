import Mathlib
import Rebind.Proofs.Edit.Dropping
import Rebind.Proofs.Injection.Calls
import Rebind.Proofs.Injection.NewMethods

/-!
# The places of the editors

An editor puts its block into one of two methods (`bodySites`), or into a new method that belongs to
the public class.  It counts braces to find the place, and both counts are one off from the brace
that is meant:

* in a method the count starts at zero behind the brace that opens the body, so that it does not
  stop at the brace that ends it, but at the end of the first block inside, or somewhere behind the
  method (`block_misses_body_end`);
* behind the public class the place is the end of a line, so that it comes behind the brace that
  ends the class and the new method is no member (`method_misses_class`).
-/

namespace Rebind

open List Pattern

def putAt (place : Option Nat) (s code : Text) : Text := place.elim code (insertAt · s code)

theorem length_insertAt (k : Nat) (s code : Text) :
    (insertAt k s code).length = code.length + s.length := by
  simp only [insertAt, length_append, length_take, length_drop]
  omega

theorem insertAt_ne_self {s : Text} (hs : s ≠ []) (k : Nat) (code : Text) :
    insertAt k s code ≠ code := by
  intro he
  have hlen := congrArg length he
  have hpos := length_pos_iff.mpr hs
  rw [length_insertAt] at hlen
  omega

/-! ## the end of a body -/

/-- a method into which a block is put: its header, what comes before the block, and the
insertion -/
structure BodySite where
  header : Pattern
  front : Text
  insert : Text → Text → Text

def onCreateSite : BodySite := ⟨onCreateOverride, "\n        ", insertInOnCreate⟩

def onViewCreatedSite : BodySite := ⟨onViewCreatedOverride, "\n", insertInOnViewCreated⟩

def bodySites : List BodySite := [onCreateSite, onViewCreatedSite]

theorem onCreateSite_mem : onCreateSite ∈ bodySites := mem_cons_self

theorem onViewCreatedSite_mem : onViewCreatedSite ∈ bodySites := mem_cons_of_mem _ mem_cons_self

def BodySite.wrap (site : BodySite) (block : Text) : Text := site.front ++ block ++ "\n    "

theorem insertInOnCreate_eq (code block : Text) : insertInOnCreate code block
    = putAt (insertionPoint onCreateOverride code) ("\n        " ++ block ++ "\n    ") code := by
  unfold insertInOnCreate
  split
  · next hk => rw [hk]; rfl
  · next hk => rw [hk]; rfl

theorem insertInOnViewCreated_eq (code block : Text) : insertInOnViewCreated code block
    = putAt (insertionPoint onViewCreatedOverride code) ("\n" ++ block ++ "\n    ") code := by
  unfold insertInOnViewCreated
  split
  · next hk => rw [hk]; rfl
  · next hk => rw [hk]; rfl

section
variable {site : BodySite} {p : Pattern} {code : Text} {a e m n : Nat}

theorem BodySite.insert_eq (h : site ∈ bodySites) (code block : Text) :
    site.insert code block = putAt (insertionPoint site.header code) (site.wrap block) code := by
  simp only [bodySites, mem_cons, not_mem_nil, or_false] at h
  rcases h with rfl | rfl
  · exact insertInOnCreate_eq code block
  · exact insertInOnViewCreated_eq code block

theorem BodySite.wrap_head (h : site ∈ bodySites) (block : Text) :
    (site.wrap block).head? = some '\n' := by
  simp only [bodySites, mem_cons, not_mem_nil, or_false] at h
  rcases h with rfl | rfl
  · rfl
  · rfl

/-- where one brace more is open, the count comes to its end later -/
theorem closingBrace_earlier {d : Int} {t : Text} (h : closingBrace (d + 1) t = some n)
    (hd : 1 ≤ d) :
    ∃ j < n, closingBrace d t = some j := by
  induction t generalizing d n with
  | nil => cases h
  | cons c t ih =>
    have hstep : c ≠ '\x7d' → 0 ≤ braceStep c := by
      intro hc
      unfold braceStep
      rw [if_neg hc]
      split <;> decide
    have hclose : braceStep '\x7d' = -1 := by decide
    rw [closingBrace_cons, if_neg (by omega)] at h
    obtain ⟨k, hk, rfl⟩ := Option.map_eq_some_iff.mp h
    rw [closingBrace_cons]
    split
    · exact ⟨0, by omega, rfl⟩
    · next hend =>
      have hopen : 1 ≤ d + braceStep c := by
        by_cases hc : c = '\x7d'
        · have hne : d ≠ 1 := fun hone => hend ⟨hc, hone⟩
          rw [hc, hclose]
          omega
        · have := hstep hc
          omega
      rw [add_right_comm] at hk
      obtain ⟨j, hj, he⟩ := ih hk hopen
      rw [he]
      exact ⟨1 + j, by omega, rfl⟩

theorem drop_at {c : Char} (ha : a < e) (hc : code[e]? = some c) :
    code.drop (a + 1) = textBetween code a e ++ c :: code.drop (e + 1) := by
  obtain ⟨hlt, hx⟩ := List.getElem?_eq_some_iff.mp hc
  have hnone := drop_insertAt (w := []) ha hlt.le
  rw [append_nil] at hnone
  rw [← hx, ← drop_eq_getElem_cons hlt, ← hnone, insertAt, append_nil, take_append_drop]

theorem Matched.body_cases (h : Matched code a m) :
    ('\x7b' ∉ textBetween code a m ∧ '\x7d' ∉ textBetween code a m)
    ∨ ∃ i, a < i ∧ i < m ∧ code[i]? = some '\x7b' ∧ '\x7b' ∉ textBetween code a i
      ∧ '\x7d' ∉ textBetween code a i := by
  -- `i` is the first brace behind the one at `a`
  obtain ⟨i, ⟨hai, hbrace⟩, hfirst⟩ : ∃ i,
    (a < i ∧ (code[i]? = some '\x7b' ∨ code[i]? = some '\x7d'))
      ∧ ∀ j < i, ¬ (a < j ∧ (code[j]? = some '\x7b' ∨ code[j]? = some '\x7d')) :=
    have hex : ∃ i, a < i ∧ (code[i]? = some '\x7b' ∨ code[i]? = some '\x7d') :=
      ⟨m, h.2.1, .inr h.2.2.1⟩
    ⟨Nat.find hex, Nat.find_spec hex, fun _ hj => Nat.find_min hex hj⟩
  have hflat : ∀ c, c = '\x7b' ∨ c = '\x7d' → c ∉ textBetween code a i := by
    intro c hc hmem
    obtain ⟨j, hj⟩ := getElem?_of_mem hmem
    have hlt : a + 1 + j < i := by
      have := (List.getElem?_eq_some_iff.mp hj).1
      rw [textBetween, length_drop, length_take] at this
      omega
    rw [textBetween, getElem?_drop, getElem?_take_of_lt hlt] at hj
    exact hfirst _ hlt ⟨by omega, by rw [hj]; simpa using hc⟩
  have hopen := hflat _ (.inl rfl)
  have hclose := hflat _ (.inr rfl)
  rcases Nat.lt_trichotomy i m with hlt | rfl | hgt
  · -- a closing brace that comes first would match the one at `a`
    refine .inr ⟨i, hai, hlt, hbrace.resolve_right fun hx => ?_, hopen, hclose⟩
    exact h.2.2.2.2 i hai hlt hx (braceBalance_of_flat hopen hclose)
  · exact .inl ⟨hopen, hclose⟩
  · exact absurd ⟨h.2.1, .inr h.2.2.1⟩ (hfirst m hgt)

/-- the braces at `i` and `j` are those of the first block behind `a` -/
def FirstBlock (code : Text) (a i j : Nat) : Prop :=
  a < i ∧ Matched code i j ∧ '\x7b' ∉ textBetween code a i ∧ '\x7d' ∉ textBetween code a i

/-- the brace at `k` closes a block, of which two are open that were opened behind `m` -/
def ReopenedAt (code : Text) (m k : Nat) : Prop :=
  m < k ∧ code[k]? = some '\x7d' ∧ braceBalance (textBetween code m k) = 2

theorem insertionPoint_of_header (ha : HeaderEnds p code a) :
    insertionPoint p code = (closingBrace 0 (code.drop (a + 1))).map (a + 1 + ·) := by
  obtain ⟨found, hfound, hstop⟩ := Option.map_eq_some_iff.mp ha
  rw [insertionPoint, hfound, ← hstop]
  rfl

theorem insertionPoint_of_block {i : Nat} (ha : HeaderEnds p code a) (hm : Matched code a m)
    (hai : a < i) (him : i < m)
    (hi : code[i]? = some '\x7b') (hopen : '\x7b' ∉ textBetween code a i)
    (hclose : '\x7d' ∉ textBetween code a i) :
    ∃ j < m, FirstBlock code a i j ∧ insertionPoint p code = some j := by
  have hstep : braceStep '\x7b' = 1 := by decide
  have hsize : (textBetween code a i).length = i - (a + 1) := by
    have hlen : i < code.length := (List.getElem?_eq_some_iff.mp hi).1
    rw [textBetween, length_drop, length_take, Nat.min_eq_left hlen.le]
  -- the count from the header on, started with `d` open braces
  have hcount : ∀ d, closingBrace d (code.drop (a + 1))
      = (closingBrace (d + 1) (code.drop (i + 1))).map (i - a + ·) := by
    intro d
    rw [drop_at hai hi, closingBrace_append_right (closingBrace_none_of_flat hopen hclose),
      braceBalance_of_flat hopen hclose, add_zero, closingBrace_cons,
      if_neg (fun h => absurd h.1 (by decide)), hstep, Option.map_map, hsize]
    refine congrArg (fun f => Option.map f _) (funext fun n => ?_)
    show i - (a + 1) + (1 + n) = i - a + n
    omega
  obtain ⟨n, hn, rfl⟩ := hm.closingBrace
  rw [hcount] at hn
  obtain ⟨k, hk, rfl⟩ := Option.map_eq_some_iff.mp hn
  obtain ⟨j, hj, he⟩ := closingBrace_earlier hk le_rfl
  refine ⟨i + 1 + j, by omega, ⟨hai, (matched_iff _ _ _).mpr ⟨hi, by rw [he]; rfl⟩, hopen, hclose⟩,
    ?_⟩
  rw [insertionPoint_of_header ha, hcount, zero_add, he]
  show some (a + 1 + (i - a + j)) = some (i + 1 + j)
  rw [show a + 1 + (i - a + j) = i + 1 + j by omega]

theorem insertionPoint_of_flat (ha : HeaderEnds p code a) (hm : Matched code a m)
    (hopen : '\x7b' ∉ textBetween code a m) (hclose : '\x7d' ∉ textBetween code a m) :
    insertionPoint p code = (closingBrace (-1) (code.drop (m + 1))).map (m + 1 + ·) := by
  have hstep : braceStep '\x7d' = -1 := by decide
  have hlen : m < code.length := (List.getElem?_eq_some_iff.mp hm.2.2.1).1
  have ham := hm.2.1
  have hsize : (textBetween code a m).length = m - (a + 1) := by
    rw [textBetween, length_drop, length_take, Nat.min_eq_left hlen.le]
  rw [insertionPoint_of_header ha, drop_at ham hm.2.2.1, closingBrace_append_right
    (closingBrace_none_of_flat hopen hclose),
    braceBalance_of_flat hopen hclose, add_zero, closingBrace_cons, if_neg (by decide), hstep,
    Option.map_map, Option.map_map, hsize]
  refine congrArg (fun f => Option.map f _) (funext fun n => ?_)
  show a + 1 + (m - (a + 1) + (1 + n)) = m + 1 + n
  omega

theorem reopenedAt_iff : ReopenedAt code m (m + 1 + n) ↔ ClosesAt (-1) (code.drop (m + 1)) n := by
  rw [ReopenedAt, ClosesAt, getElem?_drop, textBetween, drop_take, show m + 1 + n - (m + 1)
    = n by omega]
  constructor
  · rintro ⟨-, hx, hb⟩
    exact ⟨hx, by omega⟩
  · rintro ⟨hx, hb⟩
    exact ⟨by omega, hx, by omega⟩

end

/-- In a method with a matching closing brace at `m` no block is ever put before that brace.  If the
body holds a block, the new one goes before the end of the first block in it.  If it holds none, the
new one goes behind the method, before the first brace that closes a block while two are open, or
nowhere if there is no such brace. -/
theorem block_misses_body_end {site : BodySite} (hsite : site ∈ bodySites) {code : Text} {a m : Nat}
    (ha : HeaderEnds site.header code a) (hm : Matched code a m) (block : Text) :
    site.insert code block ≠ insertAt m (site.wrap block) code
    ∧ ((∃ i j, FirstBlock code a i j ∧ j < m ∧ site.insert code block
      = insertAt j (site.wrap block) code) ∨ ('\x7b' ∉ textBetween code a m
        ∧ ((∃ k, ReopenedAt code m k ∧ (∀ j < k, ¬ ReopenedAt code m j)
            ∧ site.insert code block = insertAt k (site.wrap block) code)
          ∨ ((∀ k, ¬ ReopenedAt code m k) ∧ site.insert code block = code)))) := by
  have hhead := BodySite.wrap_head hsite block
  have hput := BodySite.insert_eq hsite code block
  rcases hm.body_cases with ⟨hopen, hclose⟩ | ⟨i, hai, him, hi, hopen, hclose⟩
  · have hplace := insertionPoint_of_flat ha hm hopen hclose
    cases hn : closingBrace (-1) (code.drop (m + 1)) with
    | none =>
      rw [hn, Option.map_none] at hplace
      rw [hplace] at hput
      have hnever : ∀ k, ¬ ReopenedAt code m k := by
        intro k hk
        obtain ⟨r, rfl⟩ := Nat.exists_eq_add_of_le (show m + 1 ≤ k from hk.1)
        exact (closingBrace_eq_none_iff _ _).mp hn r (reopenedAt_iff.mp hk)
      refine ⟨?_, .inr ⟨hopen, .inr ⟨hnever, hput⟩⟩⟩
      rw [hput]
      intro he
      exact insertAt_ne_self (by rintro h; rw [h] at hhead; cases hhead) m code he.symm
    | some n =>
      rw [hn, Option.map_some] at hplace
      rw [hplace] at hput
      obtain ⟨hend, hbefore⟩ := (closingBrace_eq_some_iff _ _ _).mp hn
      have hfirst : ∀ j < m + 1 + n, ¬ ReopenedAt code m j := by
        intro j hj hre
        obtain ⟨r, rfl⟩ := Nat.exists_eq_add_of_le (show m + 1 ≤ j from hre.1)
        exact hbefore r (by omega) (reopenedAt_iff.mp hre)
      refine ⟨?_, .inr ⟨hopen, .inl ⟨m + 1 + n, reopenedAt_iff.mpr hend, hfirst, hput⟩⟩⟩
      rw [hput]
      exact insertAt_ne_of_lt hhead hm.2.2.1 (by omega)
  · obtain ⟨j, hj, hblock, hplace⟩ := insertionPoint_of_block ha hm hai him hi hopen hclose
    rw [hplace] at hput
    refine ⟨?_, .inl ⟨i, j, hblock, hj, hput⟩⟩
    rw [hput]
    exact (insertAt_ne_of_lt hhead hblock.2.1.2.2.1 hj).symm

def branchingBody : Text :=
  "class A \x7b\n@Override\nprotected void onCreate(B b) \x7b\nif (x) \x7b\n\x7d\n\x7d\n\x7d\n"

theorem block_misses_branchingBody_end :
    HeaderEnds onCreateOverride branchingBody 49 ∧ Matched branchingBody 49 62
      ∧ ∀ block, ∃ i j, FirstBlock branchingBody 49 i j ∧ j < 62
        ∧ insertInOnCreate branchingBody block
          = insertAt j ("\n        ".toList ++ block ++ "\n    ".toList) branchingBody := by
  have hfacts : HeaderEnds onCreateOverride branchingBody 49 ∧ Matched branchingBody 49 62
      ∧ '\x7b' ∈ textBetween branchingBody 49 62 := by decide +kernel
  obtain ⟨ha, hm, hblock⟩ := hfacts
  exact ⟨ha, hm, fun block => (block_misses_body_end onCreateSite_mem ha hm block).2.resolve_right
    fun h => h.1 hblock⟩

def plainBody :
    Text := "class A \x7b\n@Override\npublic void onViewCreated(V v) \x7b\nx();\n\x7d\n\x7d\n"

/-- the end of the body is missed with a block in it, and without one nothing is put in at all -/
theorem body_ends_missed :
    (HeaderEnds onCreateOverride branchingBody 49 ∧ Matched branchingBody 49 62
      ∧ insertInOnCreate branchingBody "y();"
        ≠ insertAt 62 ("\n        ".toList ++ "y();".toList ++ "\n    ".toList) branchingBody)
    ∧ HeaderEnds onViewCreatedOverride plainBody 51 ∧ Matched plainBody 51 58
      ∧ insertInOnViewCreated plainBody "y();" = plainBody
      ∧ plainBody ≠ insertAt 58 ("\n".toList ++ "y();".toList ++ "\n    ".toList) plainBody := by
  decide +kernel

/-! ## the end of the public class -/

def privateMethod (name block : Text) : Text :=
  "\n    private void ".toList ++ name ++ "() \x7b\n".toList ++ block ++ "\n    \x7d\n".toList

theorem addMethodAfterClass_eq (name code block : Text) :
    addMethodAfterClass name code block = putAt (publicClassEnd code) (privateMethod name block)
      code := by
  unfold addMethodAfterClass
  split
  · next hk => rw [hk]; rfl
  · next hk => rw [hk]; rfl

/-- the line on which the public class is declared starts at `start`, and the first brace from there
on opens at `a` -/
def ClassOpens (code : Text) (start a : Nat) : Prop :=
  firstLineOffset publicClassLine 0 (lines code) = some start ∧ start ≤ a ∧ code[a]? = some '\x7b'
    ∧ '\x7b' ∉ (code.take a).drop start

instance (code : Text) (start a : Nat) : Decidable (ClassOpens code start a) :=
  inferInstanceAs (Decidable (_ ∧ _))

section
variable {code w : Text} {a i k m n start : Nat}

theorem lineEnd_lineOf (h : n ≤ code.length) :
    lineEnd code (lineOf code n) = n + ((code.drop n).takeWhile (· != '\n')).length := by
  obtain ⟨front, last, back, hfront, hall, hlen⟩ := lines_cut code n
  have htake : (lines code).take (lineOf code n + 1)
      = front ++ [last ++ (code.drop n).takeWhile (· != '\n')] := by
    rw [hall, ← hlen, take_length_add_append]
    rfl
  have hjoin := unlines_join last ((code.drop n).takeWhile (· != '\n')) front []
  have hone : unlines [(code.drop n).takeWhile (· != '\n')]
      = (code.drop n).takeWhile (· != '\n') := by simp [unlines]
  rw [lineEnd, htake, ← hjoin, ← hfront, unlines_lines, hone, length_append, length_take,
    Nat.min_eq_left h]

theorem lineEnd_lt_iff (hi : i < (lines code).length) (hn : n < code.length) :
    lineEnd code i < n ↔ i < lineOf code n := by
  by_cases hlast : i + 1 < (lines code).length
  · rw [← Nat.not_le, ← lineOf_le_iff hlast, Nat.not_le]
  · have hall : lineEnd code i = code.length := by
      rw [lineEnd, take_of_length_le (by omega), unlines_lines]
    have := lineOf_lt code n
    omega

theorem le_lineEnd_lineOf (hn : n < code.length) : n ≤ lineEnd code (lineOf code n) := by
  rw [← Nat.not_lt, lineEnd_lt_iff (lineOf_lt code n) hn]
  exact lt_irrefl _

theorem publicClassEnd_eq (hstart : firstLineOffset publicClassLine 0 (lines code) = some start) :
    publicClassEnd code
      = (closingBrace 0 (code.drop start)).map (fun i => lineEnd code (lineOf code (start + i))
        + 1) := by
  rw [publicClassEnd, hstart, Option.bind_some]
  cases h : closingBrace 0 (code.drop start) with
  | none => rfl
  | some i =>
    have hlt := closingBrace_lt h
    rw [length_drop] at hlt
    rw [Option.map_some, Option.map_some, lineEnd_lineOf (by omega)]

theorem ClassOpens.drop_eq (h : ClassOpens code start a) :
    code.drop start = (code.take a).drop start ++ '\x7b' :: code.drop (a + 1) := by
  obtain ⟨-, hle, hbrace, -⟩ := h
  obtain ⟨hlt, hx⟩ := List.getElem?_eq_some_iff.mp hbrace
  rw [← hx, ← drop_eq_getElem_cons hlt]
  conv_lhs => rw [← take_append_drop a code]
  rw [drop_append_of_le_length (by rw [length_take]; omega)]

theorem ClassOpens.closingBrace_eq (h : ClassOpens code start a) (hm : Matched code a m)
    (hclose : '\x7d' ∉ (code.take a).drop start) : ∃ i, closingBrace 0 (code.drop start) = some i
      ∧ start + i = m := by
  have hlt : a < code.length := (List.getElem?_eq_some_iff.mp hm.1).1
  have hstep : braceStep '\x7b' = 1 := by decide
  have hle := h.2.1
  obtain ⟨n, hn, rfl⟩ := hm.closingBrace
  refine ⟨a - start + (1 + n), ?_, by omega⟩
  rw [h.drop_eq, closingBrace_append_right (closingBrace_none_of_flat h.2.2.2 hclose),
    braceBalance_of_flat h.2.2.2 hclose, add_zero, closingBrace_cons, if_neg (by decide), hstep,
    zero_add, hn, length_drop, length_take, Nat.min_eq_left hlt.le]
  rfl

theorem ClassOpens.lt_closingBrace (h : ClassOpens code start a)
    (hi : closingBrace 0 (code.drop start) = some i) :
    a < start + i := by
  obtain ⟨-, hle, hbrace, hopen⟩ := h
  obtain ⟨hx, hone⟩ := ((closingBrace_eq_some_iff _ _ _).mp hi).1
  rw [getElem?_drop] at hx
  by_contra hbefore
  rcases Nat.lt_or_eq_of_le (Nat.not_lt.mp hbefore) with hlt | heq
  · -- no brace is open there
    have hpart : (code.drop start).take i <+: (code.take a).drop start := by
      rw [drop_take]
      exact take_prefix_take_left (by omega)
    have hcount : countOf '\x7b' ((code.drop start).take i) = 0 := by
      rw [countOf, count_eq_zero_of_not_mem fun hm => hopen (hpart.mem hm)]
      rfl
    have hnonneg : 0 ≤ countOf '\x7d' ((code.drop start).take i) := Int.natCast_nonneg _
    rw [braceBalance, hcount] at hone
    omega
  · rw [heq, hbrace] at hx
    exact absurd (Option.some.inj hx) (by decide)

theorem Matched.unique {e e' : Nat} (h : Matched code a e) (h' : Matched code a e') : e = e' := by
  have he := ((matched_iff _ _ _).mp h).2
  rw [((matched_iff _ _ _).mp h').2] at he
  exact (Option.some.inj he).symm

theorem matched_insertAt_behind (h : Matched code a m) (hk : m < k) :
    Matched (insertAt k w code) a m := by
  have hlt : m < code.length := (List.getElem?_eq_some_iff.mp h.2.2.1).1
  have hsame : ∀ j ≤ m, (insertAt k w code)[j]? = code[j]? := by
    intro j hj
    rw [insertAt, append_assoc, getElem?_append_left (by rw [length_take]; omega),
      getElem?_take_of_lt (by omega)]
  have htake : ∀ j ≤ m, (insertAt k w code).take j = code.take j := by
    intro j hj
    rw [insertAt, append_assoc, take_append_of_le_length (by rw [length_take]; omega),
      take_take, Nat.min_eq_left (by omega)]
  obtain ⟨hopen, ham, hend, hzero, hbefore⟩ := h
  refine ⟨?_, ham, ?_, ?_, ?_⟩
  · rwa [hsame a ham.le]
  · rwa [hsame m le_rfl]
  · rwa [htake m le_rfl]
  · intro j haj hjm hj
    rw [hsame j hjm.le] at hj
    rw [htake j hjm.le]
    exact hbefore j haj hjm hj

theorem insertAt_ne_of_matched (h : Matched code a m) (hw : Paired w) (hne : w ≠ []) {k' : Nat}
    (hk : a < k) (hkm : k ≤ m) (hk' : m < k') : insertAt k' w code ≠ insertAt k w code := by
  intro he
  have hinside := h.insertAt_paired hk hkm hw
  rw [← he] at hinside
  have hsame := hinside.unique (matched_insertAt_behind h hk')
  have hpos := length_pos_iff.mpr hne
  omega

theorem paired_word {t : Text} (h : word.Covers t) : Paired t :=
  paired_of_flat (avoids_run1 (by decide) t h) (avoids_run1 (by decide) t h)

theorem word_covers_initMethod {name : Text}
    (h : name ∈ ["initViews".toList, "initListener".toList]) :
    word.Covers name := by
  have hall : ∀ t ∈ ["initViews".toList, "initListener".toList], t ≠ [] ∧ t.all isWord := by
    decide +kernel
  obtain ⟨hne, hword⟩ := hall name h
  exact covers_word.mpr ⟨hne, all_eq_true.mp hword⟩

theorem paired_privateMethod {name block : Text} (hname : word.Covers name)
    (hblock : Paired block) :
    Paired (privateMethod name block) := by
  have hword : Paired name := paired_word hname
  have hparts : ∀ u v x y z front back : Text, front = v ++ '\x7b' :: x → back = y ++ '\x7d' :: z →
      Paired u → Paired v → Paired x → Paired y → Paired z
        → Paired (u ++ name ++ front ++ block ++ back) := by
    rintro u v x y z _ _ rfl rfl hu hv hx hy hz
    have hbody := ((hx.append hblock).append hy).braced
    have hall := (((hu.append hword).append hv).append hbody).append hz
    simpa only [append_assoc, cons_append, nil_append] using hall
  exact hparts "\n    private void " "() " "\n" "\n    " "\n" _ _ (by decide) (by decide)
    (paired_of_flat (by decide) (by decide)) (paired_of_flat (by decide) (by decide))
    (paired_of_flat (by decide) (by decide)) (paired_of_flat (by decide) (by decide))
    (paired_of_flat (by decide) (by decide))

end

theorem addMethodAfterClass_of_start {code : Text} {start : Nat}
    (hstart : firstLineOffset publicClassLine 0 (lines code) = some start) (name block : Text) :
    addMethodAfterClass name code block = putAt ((closingBrace 0 (code.drop start)).map fun i =>
      lineEnd code (lineOf code (start + i)) + 1) (privateMethod name block) code := by
  rw [addMethodAfterClass_eq, publicClassEnd_eq hstart]

/-- the new method is a member iff the count from the line of the class on ends on a line above the
end of the class -/
theorem method_member_iff {code : Text} {start a m : Nat} (ho : ClassOpens code start a)
    (hm : Matched code a m) {name block : Text} (hname : word.Covers name) (hblock : Paired block) :
    (∃ k, a < k ∧ k ≤ m ∧ addMethodAfterClass name code block
      = insertAt k (privateMethod name block) code)
      ↔ ∃ i, closingBrace 0 (code.drop start) = some i ∧ lineOf code (start + i)
        < lineOf code m := by
  have hlen : m < code.length := (List.getElem?_eq_some_iff.mp hm.2.2.1).1
  have hne : privateMethod name block ≠ [] := append_ne_nil_of_right_ne_nil _ (by decide)
  have hput := addMethodAfterClass_of_start ho.1 name block
  have hpaired := paired_privateMethod hname hblock
  cases hn : closingBrace 0 (code.drop start) with
  | none =>
    rw [hn] at hput
    refine iff_of_false ?_ (by simp)
    rintro ⟨k, -, -, he⟩
    exact insertAt_ne_self hne k code (he.symm.trans hput)
  | some i =>
    have hput : addMethodAfterClass name code block
        = insertAt (lineEnd code (lineOf code (start + i)) + 1) (privateMethod name block)
          code := by
      rw [hput, hn]
      rfl
    -- the end of the line on which the count ends, against the end of the class
    have hplace : lineEnd code (lineOf code (start + i)) < m ↔ lineOf code (start + i)
        < lineOf code m :=
      lineEnd_lt_iff (lineOf_lt code _) hlen
    constructor
    · rintro ⟨k, hak, hkm, he⟩
      refine ⟨i, rfl, ?_⟩
      rw [← hplace]
      by_contra hbehind
      exact insertAt_ne_of_matched hm hpaired hne hak hkm (by omega) (hput.symm.trans he)
    · rintro ⟨i', hi', hline⟩
      obtain rfl := Option.some.inj hi'
      have hlow := ho.lt_closingBrace hn
      have hlt := closingBrace_lt hn
      rw [length_drop] at hlt
      have hend := le_lineEnd_lineOf (show start + i < code.length by omega)
      have hhigh := hplace.mpr hline
      exact ⟨_, by omega, by omega, hput⟩

/-- A new method is put behind the line on which the public class ends, and so outside of the class,
wherever no brace is closed between the start of the line that declares the class and the brace that
opens it.  In any code it becomes a member only where the count from that line on has come to its
end on a line above the last one of the class, which takes such a brace. -/
theorem method_misses_class {code : Text} {start a m : Nat} (ho : ClassOpens code start a)
    (hm : Matched code a m) {name : Text} (hname : word.Covers name) (block : Text) :
    ('\x7d' ∉ (code.take a).drop start →
      addMethodAfterClass name code block
        = insertAt (lineEnd code (lineOf code m) + 1) (privateMethod name block) code
      ∧ m < lineEnd code (lineOf code m) + 1
      ∧ (Paired block → ∀ k, a < k → k ≤ m →
        addMethodAfterClass name code block ≠ insertAt k (privateMethod name block) code))
    ∧ (Paired block →
      ((∃ k, a < k ∧ k ≤ m ∧ addMethodAfterClass name code block
        = insertAt k (privateMethod name block) code)
        ↔ ∃ i, closingBrace 0 (code.drop start) = some i ∧ lineOf code (start + i)
          < lineOf code m)) := by
  have hlen : m < code.length := (List.getElem?_eq_some_iff.mp hm.2.2.1).1
  have hput := addMethodAfterClass_of_start ho.1 name block
  refine ⟨fun hclose => ?_, method_member_iff ho hm hname⟩
  obtain ⟨i, hi, rfl⟩ := ho.closingBrace_eq hm hclose
  rw [hi] at hput
  have hbehind := le_lineEnd_lineOf hlen
  refine ⟨hput, by omega, fun hblock k hak hkm he => ?_⟩
  obtain ⟨i', hi', hline⟩ := (method_member_iff ho hm hname hblock).mp ⟨k, hak, hkm, he⟩
  rw [hi] at hi'
  obtain rfl := Option.some.inj hi'
  exact absurd hline (lt_irrefl _)

def bareClass : Text := "public class A \x7b\n\x7d\n"

theorem method_misses_bareClass :
    ClassOpens bareClass 0 15 ∧ Matched bareClass 15 17 ∧ '\x7d' ∉ (bareClass.take 15).drop 0
      ∧ word.Covers "initViews".toList ∧ Paired "x();".toList
      ∧ addMethodAfterClass "initViews" bareClass "x();"
        = insertAt 19 (privateMethod "initViews" "x();") bareClass
      ∧ ∀ k, 15 < k → k ≤ 17 →
        addMethodAfterClass "initViews" bareClass "x();"
          ≠ insertAt k (privateMethod "initViews" "x();") bareClass := by
  have hfacts : ClassOpens bareClass 0 15 ∧ Matched bareClass 15 17
    ∧ '\x7d' ∉ (bareClass.take 15).drop 0
      ∧ lineEnd bareClass (lineOf bareClass 17) + 1 = 19 := by decide +kernel
  obtain ⟨ho, hm, hclose, hline⟩ := hfacts
  have hname : word.Covers "initViews" := word_covers_initMethod mem_cons_self
  have hblock : Paired "x();" := paired_of_flat (by decide) (by decide)
  obtain ⟨hput, -, hnever⟩ := (method_misses_class ho hm hname "x();").1 hclose
  rw [hline] at hput
  exact ⟨ho, hm, hclose, hname, hblock, hput, hnever hblock⟩

/-- the new methods of both kinds come behind the class -/
theorem methods_outside_class :
    ClassOpens bareClass 0 15 ∧ Matched bareClass 15 17
      ∧ ∀ name ∈ ["initViews".toList, "initListener".toList],
        addMethodAfterClass name bareClass "x();" = bareClass ++ privateMethod name "x();"
        ∧ ∀ k ≤ 17, addMethodAfterClass name bareClass "x();"
          ≠ insertAt k (privateMethod name "x();") bareClass := by
  decide +kernel

end Rebind
