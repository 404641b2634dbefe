import Mathlib
import Rebind.Proofs.Injection.Insertions
import Rebind.Proofs.Source.ClassEnd

/-!
# Where a new method goes

A new method is put before the end of the first class, or before the last brace of the code if the
class has no end.  The search for that end may pass over the brace that matches the brace of the
header: it does where what follows looks like another class.  The count of open braces is then one
below its level, and the search goes on in the classes behind.

* `firstCloses_of_plain`: on code without quotes and slashes the first brace that closes the body is
  the one that plain counting finds;
* `createMethod_cases_match`: the method goes before that brace, or before a later one;
* `createMethod_match_iff`: the first iff the brace is not passed over, or no brace comes behind it.
-/

namespace Rebind

open List Pattern

/-! ## the brace that matches -/

theorem after_plain {c : Char} (hslash : c ≠ '/') (hquote : isQuote c = false)
    (next : Option Char) :
    Zone.code.after c next = .code := by
  simp [Zone.after, hslash, hquote]

theorem shown_plain {c : Char} (hslash : c ≠ '/') (hquote : isQuote c = false)
    (next : Option Char) :
    shown .code c next = c := by
  simp [shown, Zone.live, after_plain hslash hquote]

/-- plain counting finds the first candidate -/
theorem firstCandidate_of_plain {t : Text} {d : Int} {n : Nat} (hslash : '/' ∉ t)
    (hquote : ∀ c ∈ t, isQuote c = false) (h : closingBrace d t = some n) :
    Candidate .code d t n ∧ ∀ j < n, ¬ Candidate .code d t j := by
  induction t generalizing d n with
  | nil => cases h
  | cons c t ih =>
    have hs : c ≠ '/' := fun he => hslash (he ▸ mem_cons_self)
    have hc : isQuote c = false := hquote c mem_cons_self
    rw [closingBrace_cons] at h
    split at h
    · next hend =>
      obtain rfl := Option.some.inj h
      refine ⟨?_, fun j hj => absurd hj (by omega)⟩
      rw [candidate_zero, shown_plain hs hc]
      exact hend
    · next hend =>
      obtain ⟨n', hn', rfl⟩ := Option.map_eq_some_iff.mp h
      obtain ⟨hcand, hbefore⟩ := ih (fun hm => hslash (mem_cons_of_mem c hm))
        (fun x hx => hquote x (mem_cons_of_mem c hx)) hn'
      have hstep : ∀ j, Candidate .code d (c :: t) (j + 1)
          ↔ Candidate .code (d + braceStep c) t j := by
        intro j
        rw [candidate_succ, shown_plain hs hc, after_plain hs hc]
      rw [show 1 + n' = n' + 1 by omega]
      refine ⟨(hstep n').mpr hcand, fun j hj => ?_⟩
      cases j with
      | zero =>
        rw [candidate_zero, shown_plain hs hc]
        exact hend
      | succ j =>
        rw [hstep]
        exact hbefore j (by omega)

def FirstCloses (body : Text) (n : Nat) : Prop := Closes body n ∧ ∀ j < n, ¬ Closes body j

theorem firstCloses_of_plain {body : Text} {n : Nat} (hslash : '/' ∉ body)
    (hquote : ∀ c ∈ body, isQuote c = false) (h : closingBrace 1 body = some n) :
    FirstCloses body n := by
  simp only [FirstCloses, closes_iff]
  exact firstCandidate_of_plain hslash hquote h

theorem Closes.brace {code : Text} {start n : Nat} (h : Closes (code.drop start) n) :
    code[start + n]? = some '\x7d' := by
  have := h.1.1
  rwa [getElem?_drop] at this

theorem FirstCloses.endsAt {body : Text} {n j : Nat} (h : FirstCloses body n) (hj : EndsAt body j) :
    (j = n ∧ ¬ PassedOver (body.drop (n + 1))) ∨ (n < j ∧ PassedOver (body.drop (n + 1))) := by
  obtain ⟨hclose, hend, hbefore⟩ := hj
  have hle : ¬ j < n := fun hlt => h.2 j hlt hclose
  by_cases hjn : j = n
  · subst hjn
    exact .inl ⟨rfl, hend⟩
  · have hlt : n < j := by omega
    exact .inr ⟨hlt, hbefore n hlt h.1⟩

/-! ## the last brace -/

theorem lastIndexOf_append {x : Char} {a b : Text} (h : x ∉ b) :
    lastIndexOf x (a ++ x :: b) = some a.length := by
  have hidx : (a ++ x :: b).reverse.idxOf? x = some b.length := by
    rw [reverse_append, reverse_cons, append_assoc, singleton_append]
    rw [idxOf?_eq_some_iff]
    refine ⟨by simp, by simp, fun j hj => ?_⟩
    rw [getElem_append_left (by simpa using hj)]
    intro he
    exact h (mem_reverse.mp (he ▸ getElem_mem _))
  rw [lastIndexOf, hidx, Option.map_some, length_append, length_cons]
  congr 1
  omega

theorem lastIndexOf_from {x : Char} {t : Text} {m : Nat} (h : t[m]? = some x) :
    (x ∉ t.drop (m + 1) ∧ lastIndexOf x t = some m)
      ∨ (x ∈ t.drop (m + 1) ∧ ∃ k, m < k ∧ lastIndexOf x t = some k) := by
  obtain ⟨hm, hx⟩ := List.getElem?_eq_some_iff.mp h
  have hsplit : t = t.take m ++ x :: t.drop (m + 1) := by
    rw [← hx, ← drop_eq_getElem_cons hm, take_append_drop]
  have hlen : (t.take m).length = m := length_take_of_le (by omega)
  by_cases hmem : x ∈ t.drop (m + 1)
  · -- the last one of the rest is the last one of all
    obtain ⟨v, u, hrev, hnot⟩ := eq_append_cons_of_mem (mem_reverse.mpr hmem)
    have hrest : t.drop (m + 1) = u.reverse ++ x :: v.reverse := by
      rw [← reverse_reverse (t.drop (m + 1)), hrev]
      simp
    refine .inr ⟨hmem, (t.take m ++ x :: u.reverse).length, ?_, ?_⟩
    · rw [length_append, hlen, length_cons]
      omega
    · conv_lhs => rw [hsplit, hrest]
      rw [← cons_append, ← append_assoc]
      exact lastIndexOf_append fun hv => hnot (mem_reverse.mp hv)
  · refine .inl ⟨hmem, ?_⟩
    conv_lhs => rw [hsplit]
    rw [lastIndexOf_append hmem, hlen]

/-! ## the method -/

section
variable {code : Text} {q n k : Nat}

theorem createMethod_of_end (h : (classEnd code).value = some (k + 1))
    (name content visibility : Text) :
    (createMethod code name content visibility).value
      = insertAt k (methodText name content visibility ++ ['\n']) code := by
  unfold createMethod
  rw [Traced.value_bind, h]
  rfl

theorem createMethod_of_no_end (h : (classEnd code).value = none)
    (hlast : lastIndexOf '\x7d' code = some k) (name content visibility : Text) :
    (createMethod code name content visibility).value
      = insertAt k (methodText name content visibility ++ ['\n']) code := by
  unfold createMethod
  rw [Traced.value_bind, h]
  simp only [hlast]
  rfl

/-- the method is put before the brace that matches, or else before a later one -/
theorem createMethod_cases_match (hq : HeaderBrace code q) (hn : FirstCloses (code.drop (q + 1)) n)
    (name content visibility : Text) :
    ((¬ PassedOver (code.drop (q + 1 + n + 1)) ∨ '\x7d' ∉ code.drop (q + 1 + n + 1))
        ∧ (createMethod code name content visibility).value
          = insertAt (q + 1 + n) (methodText name content visibility ++ ['\n']) code)
      ∨ ((PassedOver (code.drop (q + 1 + n + 1)) ∧ '\x7d' ∈ code.drop (q + 1 + n + 1))
        ∧ ∃ k, q + 1 + n < k ∧ code[k]? = some '\x7d'
          ∧ (createMethod code name content visibility).value
            = insertAt k (methodText name content visibility ++ ['\n']) code) := by
  have hbrace := hn.1.brace
  cases hend : (classEnd code).value with
  | some e =>
    obtain ⟨q', j, hq', hj, rfl⟩ := (classEnd_eq_some_iff code e).mp hend
    obtain rfl := hq'.unique hq
    have hput := createMethod_of_end hend name content visibility
    rcases hn.endsAt hj with ⟨rfl, hpass⟩ | ⟨hlt, hpass⟩
    · rw [drop_drop] at hpass
      exact .inl ⟨.inl hpass, hput⟩
    · rw [drop_drop] at hpass
      have hj' := hj.1.brace
      refine .inr ⟨⟨hpass, ?_⟩, q' + 1 + j, by omega, hj', hput⟩
      have hrest : (code.drop (q' + 1 + n + 1))[j - n - 1]? = some '\x7d' := by
        rw [getElem?_drop, show q' + 1 + n + 1 + (j - n - 1) = q' + 1 + j by omega]
        exact hj'
      exact mem_of_getElem? hrest
  | none =>
    -- every brace that closes the body is passed over, the one that matches too
    have hpass : PassedOver (code.drop (q + 1 + n + 1)) := by
      by_contra hp
      have hp' : ¬ PassedOver ((code.drop (q + 1)).drop (n + 1)) := by rwa [drop_drop]
      obtain ⟨j, hj⟩ := exists_endsAt hn.1 hp'
      have hsome := (classEnd_eq_some_iff code _).mpr ⟨q, j, hq, hj, rfl⟩
      rw [hend] at hsome
      cases hsome
    rcases lastIndexOf_from hbrace with ⟨hnot, hlast⟩ | ⟨hmem, k, hk, hlast⟩
    · exact .inl ⟨.inr hnot, createMethod_of_no_end hend hlast name content visibility⟩
    · exact .inr ⟨⟨hpass, hmem⟩, k, hk, lastIndexOf_some hlast,
        createMethod_of_no_end hend hlast name content visibility⟩

end

theorem insertAt_ne_of_lt {code s : Text} {m k : Nat} (hs : s.head? = some '\n')
    (hm : code[m]? = some '\x7d') (hk : m < k) : insertAt k s code ≠ insertAt m s code := by
  obtain ⟨hlt, hx⟩ := List.getElem?_eq_some_iff.mp hm
  intro he
  have hfar : (insertAt k s code)[m]? = some '\x7d' := by
    rw [insertAt, append_assoc, getElem?_append_left (by rw [length_take]; omega),
      getElem?_take_of_lt hk, hm]
  have hnear : (insertAt m s code)[m]? = some '\n' := by
    have hlen : (code.take m).length = m := length_take_of_le (by omega)
    rw [insertAt, append_assoc, getElem?_append_right (by omega), hlen, Nat.sub_self]
    cases s with
    | nil => simp at hs
    | cons c s => simpa using hs
  rw [he, hnear] at hfar
  exact absurd (Option.some.inj hfar) (by decide)

/-- In code without quotes and slashes, a new method is put right before the brace that matches the
brace of the header, by plain counting, iff that brace is not passed over or is the last one; else
it is put before a later brace, which belongs to what follows the class. -/
theorem createMethod_match_iff {code : Text} {q m : Nat} (hslash : '/' ∉ code)
    (hquote : ∀ c ∈ code, isQuote c = false) (hq : HeaderBrace code q)
    (hm : (closingBrace 1 (code.drop (q + 1))).map (q + 1 + ·) = some m)
    (name content visibility : Text) :
    ((createMethod code name content visibility).value
        = insertAt m (methodText name content visibility ++ ['\n']) code
      ↔ ¬ PassedOver (code.drop (m + 1)) ∨ '\x7d' ∉ code.drop (m + 1))
    ∧ (PassedOver (code.drop (m + 1)) → '\x7d' ∈ code.drop (m + 1) →
      ∃ k, m < k ∧ code[k]? = some '\x7d' ∧ (createMethod code name content visibility).value
        = insertAt k (methodText name content visibility ++ ['\n']) code) := by
  obtain ⟨n, hn, rfl⟩ := Option.map_eq_some_iff.mp hm
  have hfirst : FirstCloses (code.drop (q + 1)) n :=
    firstCloses_of_plain (fun h => hslash (mem_of_mem_drop h))
      (fun c hc => hquote c (mem_of_mem_drop hc)) hn
  rcases createMethod_cases_match hq hfirst name content visibility with
    ⟨hcond, hput⟩ | ⟨hcond, k, hk, hx, hput⟩
  · refine ⟨iff_of_true hput hcond, fun hpass hmem => ?_⟩
    exact absurd hcond (not_or.mpr ⟨not_not.mpr hpass, not_not.mpr hmem⟩)
  · refine ⟨iff_of_false ?_ ?_, fun _ _ => ⟨k, hk, hx, hput⟩⟩
    · rw [hput]
      exact insertAt_ne_of_lt rfl hfirst.1.brace hk
    · exact not_or.mpr ⟨not_not.mpr hcond.1, not_not.mpr hcond.2⟩

def modifiedNeighbour : Text := "class A \x7b\n\x7d\npublic final class B \x7b\n\x7d\n"

/-- the brace is not passed over where the keyword is not among the first ten characters -/
theorem createMethod_match_modifiedNeighbour :
    '/' ∉ modifiedNeighbour ∧ (∀ c ∈ modifiedNeighbour, isQuote c = false)
      ∧ HeaderBrace modifiedNeighbour 8
      ∧ (closingBrace 1 (modifiedNeighbour.drop 9)).map (9 + ·) = some 10
      ∧ ∀ name content visibility, (createMethod modifiedNeighbour name content visibility).value
        = insertAt 10 (methodText name content visibility ++ ['\n']) modifiedNeighbour := by
  have hslash : '/' ∉ modifiedNeighbour := by decide +kernel
  have hquote : ∀ c ∈ modifiedNeighbour, isQuote c = false := by
    simpa using (show modifiedNeighbour.any isQuote = false by decide +kernel)
  have hq : HeaderBrace modifiedNeighbour 8 := by decide +kernel
  have hm : (closingBrace 1 (modifiedNeighbour.drop (8 + 1))).map (8 + 1 + ·) = some 10 := by
    decide +kernel
  refine ⟨hslash, hquote, hq, hm, fun name content visibility => ?_⟩
  have hput := (createMethod_match_iff hslash hquote hq hm name content visibility).1
  exact hput.mpr (.inl (by decide +kernel))

def plainNeighbour : Text := "class A \x7b\n\x7d\nclass B \x7b\n\x7d\n"

/-- the new method of the first class is put into the second one -/
theorem method_in_plainNeighbour :
    '/' ∉ plainNeighbour ∧ (∀ c ∈ plainNeighbour, isQuote c = false) ∧ HeaderBrace plainNeighbour 8
      ∧ (closingBrace 1 (plainNeighbour.drop 9)).map (9 + ·) = some 10
      ∧ ∀ name content visibility, (createMethod plainNeighbour name content visibility).value
          = insertAt 22 (methodText name content visibility ++ ['\n']) plainNeighbour
        ∧ (createMethod plainNeighbour name content visibility).value
          ≠ insertAt 10 (methodText name content visibility ++ ['\n']) plainNeighbour := by
  have hquote : ∀ c ∈ plainNeighbour, isQuote c = false := by
    simpa using (show plainNeighbour.any isQuote = false by decide +kernel)
  refine ⟨by decide +kernel, hquote, by decide +kernel, by decide +kernel, ?_⟩
  intro name content visibility
  have hend : (classEnd plainNeighbour).value = some (22 + 1) := by decide +kernel
  have hput := createMethod_of_end hend name content visibility
  refine ⟨hput, ?_⟩
  rw [hput]
  exact insertAt_ne_of_lt rfl (by decide +kernel) (by omega)

end Rebind
