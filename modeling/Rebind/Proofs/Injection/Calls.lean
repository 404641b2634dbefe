import Mathlib
import Rebind.Proofs.Injection.Cleaning
import Rebind.Proofs.Pattern.Locality
import Rebind.Proofs.Source.Pairing

/-!
# The calls of the initialisers

`addInitialiserCalls` looks for the header of `onCreate`, for the brace that ends its body and for
the two calls in between, and puts in the ones that are missing.  All three are looked for again
when it is applied to its own result, on a text that has grown.

* `Matched.insertAt`, `Pattern.Heading.ends_insertAt`: a text without braces inside a body moves the
  brace that ends it, and leaves the header the first one;
* `infix_of_ended`: a call that was there is not torn apart: it ends with a semicolon,
  and calls are put in behind one or at the end of the body;
* `addInitialiserCalls_completes`: the calls are both there, they were put in once, and nothing is
  left to do.
-/

namespace Rebind

open List Pattern

/-! ## insertions into a body -/

def textBetween (t : Text) (a e : Nat) : Text := (t.take e).drop (a + 1)

section
variable {t w : Text} {a e k : Nat}

theorem drop_insertAt (hk : a < k) (hlen : k ≤ t.length) :
    (insertAt k w t).drop (a + 1) = textBetween t a k ++ w ++ t.drop k := by
  have hfront : a + 1 ≤ (t.take k).length := by
    rw [length_take]
    omega
  rw [insertAt, append_assoc, drop_append_of_le_length hfront, textBetween, append_assoc]

theorem textBetween_split (hk : a < k) (hke : k ≤ e) (hlen : k ≤ t.length) :
    textBetween t a e = textBetween t a k ++ (t.take e).drop k := by
  have hfront : (t.take e).take k = t.take k := by rw [take_take, Nat.min_eq_left hke]
  have hle : a + 1 ≤ (t.take k).length := by
    rw [length_take]
    omega
  rw [textBetween, textBetween]
  conv_lhs => rw [← take_append_drop k (t.take e), hfront]
  rw [drop_append_of_le_length hle]

theorem textBetween_insertAt (hk : a < k) (hke : k ≤ e) (hlen : k ≤ t.length) :
    textBetween (insertAt k w t) a (e + w.length) = textBetween t a k ++ w
      ++ (t.take e).drop k := by
  have hlength : (textBetween t a k ++ w).length = k - (a + 1) + w.length := by
    rw [length_append, textBetween, length_drop, length_take, Nat.min_eq_left hlen]
  rw [textBetween, drop_take, drop_insertAt hk hlen,
    show e + w.length - (a + 1) = (textBetween t a k ++ w).length + (e - k) by omega,
    take_length_add_append, drop_take]

theorem Matched.insertAt_paired (h : Matched t a e) (hk : a < k) (hke : k ≤ e) (hw : Paired w) :
    Matched (insertAt k w t) a (e + w.length) := by
  have hlen : k ≤ t.length := hke.trans (List.getElem?_eq_some_iff.mp h.2.2.1).1.le
  have hbrace : (Rebind.insertAt k w t)[a]? = some '\x7b' := by
    rw [Rebind.insertAt, append_assoc, getElem?_append_left (by rw [length_take]; omega),
      getElem?_take_of_lt hk]
    exact h.1
  have hbody : t.drop (a + 1) = textBetween t a k ++ t.drop k := by
    have hnone := drop_insertAt (w := []) hk hlen
    rw [append_nil] at hnone
    rw [← hnone, Rebind.insertAt, append_nil, take_append_drop]
  have hlength : (textBetween t a k).length = k - (a + 1) := by
    rw [textBetween, length_drop, length_take, Nat.min_eq_left hlen]
  have hopen : 1 ≤ 1 + braceBalance (textBetween t a k) := by
    have hlt := h.balance_lt hk hke
    have htake := h.balance_take hk
    rw [← textBetween] at htake
    omega
  obtain ⟨n, hn, rfl⟩ := h.closingBrace
  rw [hbody] at hn
  refine (matched_iff _ _ _).mpr ⟨hbrace, ?_⟩
  rw [drop_insertAt hk hlen, closingBrace_insert_of_none hn (by omega) (hw.closingBrace_none hopen)
    hw.balance, Option.map_some, ← Nat.add_assoc]

theorem Matched.insertAt (h : Matched t a e) (hk : a < k) (hke : k ≤ e) (hopen : '\x7b' ∉ w)
    (hclose : '\x7d' ∉ w) : Matched (insertAt k w t) a (e + w.length) :=
  h.insertAt_paired hk hke (paired_of_flat hopen hclose)

end

/-- what is put in behind the first heading leaves it the first one -/
theorem Pattern.Heading.ends_insertAt {p : Pattern} (hp : p.Heading) {code : Text} {a k : Nat}
    (h : HeaderEnds p code a) (hk : a < k) (hlen : k ≤ code.length) (w : Text) :
    HeaderEnds p (insertAt k w code) a := by
  obtain ⟨m, hm, hstop⟩ := Option.map_eq_some_iff.mp h
  rw [← take_append_drop k code] at hm
  have hle : m.stop ≤ (code.take k).length := by
    rw [length_take]
    omega
  obtain ⟨m', hm', hsame⟩ : ∃ m', p.search (code.take k ++ (w ++ code.drop k)) = some m'
    ∧ m'.stop = m.stop :=
    hp.search_local hm hle
  rw [HeaderEnds, insertAt, append_assoc, hm', Option.map_some, hsame, hstop]

theorem heading_onCreateHeader : onCreateHeader.Heading := by
  refine heading_seq [keyword "protected", keyword "void", lit "onCreate", blanks] (fun p hp => ?_)
  simp only [mem_cons, not_mem_nil, or_false] at hp
  rcases hp with rfl | rfl | rfl | rfl
  · exact ⟨rfl, avoids_keyword (by decide) (by decide)⟩
  · exact ⟨rfl, avoids_keyword (by decide) (by decide)⟩
  · exact ⟨rfl, avoids_text (by decide)⟩
  · exact ⟨rfl, avoids_run (by decide)⟩

/-! ## calls that are there -/

/-- a text that ends with the only `x` in it does not reach over another `x` -/
theorem infix_of_ended {x : Char} {s u v : Text} (hx : x ∉ s) (h : s ++ [x] <:+: u ++ [x] ++ v) :
    s ++ [x] <:+: u ++ [x] ∨ s ++ [x] <:+: v := by
  rcases infix_append_iff.mp h with hu | hv | ⟨l, r, hs, hl, hr⟩
  · exact .inl hu
  · exact .inr hv
  · rcases eq_nil_or_concat r with rfl | ⟨r', y, rfl⟩
    · rw [append_nil] at hs
      exact .inl (hs ▸ hl.isInfix)
    rcases eq_nil_or_concat l with rfl | ⟨l', z, rfl⟩
    · exact .inr (hs ▸ hr.isInfix)
    -- the part before the place ends with `x`, which then stands inside
    have hz : z = x := by
      obtain ⟨p, hp⟩ := hl
      have := congrArg List.getLast? hp
      simpa using this
    rw [concat_eq_append, concat_eq_append, ← append_assoc] at hs
    have hinner : s = l' ++ [z] ++ r' := (append_inj' hs rfl).1
    exact absurd (by rw [hinner, hz]; simp) hx

def CallPlace (code : Text) (e k : Nat) : Prop := k = e ∨ ∃ j, k = j + 1 ∧ code[j]? = some ';'

theorem CallPlace.keeps {code s w : Text} {a e k : Nat} (h : CallPlace code e k) (hk : a < k)
    (hke : k ≤ e)
    (hlen : k ≤ code.length) (hs : ';' ∉ s) (hi : s ++ [';'] <:+: textBetween code a e) :
    s ++ [';'] <:+: textBetween (insertAt k w code) a (e + w.length) := by
  rw [textBetween_insertAt hk hke hlen]
  rw [textBetween_split hk hke hlen] at hi
  have hside : s ++ [';'] <:+: textBetween code a k ∨ s ++ [';'] <:+: (code.take e).drop k := by
    rcases h with rfl | ⟨j, rfl, hj⟩
    · have hnil : (code.take k).drop k = [] := drop_eq_nil_of_le (length_take_le _ _)
      rw [hnil, append_nil] at hi
      exact .inl hi
    · by_cases hja : j = a
      · -- nothing of the body stands before the place
        have hnil : textBetween code a (j + 1) = [] := by
          rw [hja]
          exact drop_eq_nil_of_le (length_take_le _ _)
        rw [hnil, nil_append] at hi
        exact .inr hi
      · have hlast : textBetween code a (j + 1) = textBetween code a j ++ [';'] := by
          obtain ⟨hlt, hget⟩ := List.getElem?_eq_some_iff.mp hj
          rw [textBetween, take_succ_eq_append_getElem hlt, hget,
            drop_append_of_le_length (by rw [length_take]; omega), textBetween]
        rw [hlast] at hi ⊢
        exact infix_of_ended hs hi
  rcases hside with hi | hi
  · exact infix_append_of_infix_left (infix_append_of_infix_left hi)
  · exact infix_append_of_infix_right hi

/-! ## the calls that are put in -/

/-- the calls that the body between two braces lacks -/
def lackingCalls (code : Text) (a e : Nat) : Text :=
  missingCalls (occursIn "initViews();" (textBetween code a e))
    (occursIn "initListener();" (textBetween code a e))

def callSite (code : Text) (a e : Nat) : Nat :=
  ((contentViewStatement.searchBetween code (a + 1) e).map (·.stop)).getD e

theorem missingCalls_flat (v l : Bool) : '\x7b' ∉ missingCalls v l ∧ '\x7d' ∉ missingCalls v l := by
  cases v <;> cases l <;> decide

theorem missingCalls_views (l : Bool) : "initViews();" <:+: missingCalls false l := by
  cases l <;> decide

theorem missingCalls_listener (v : Bool) : "initListener();" <:+: missingCalls v false := by
  cases v <;> decide

section
variable {code : Text} {a e : Nat}

theorem addInitialiserCalls_of_no_header (h : onCreateHeader.search code = none) :
    (addInitialiserCalls code).value = code := by
  unfold addInitialiserCalls
  simp only [Traced.value_note_bind, h]
  rfl

theorem addInitialiserCalls_of_matched (ha : HeaderEnds onCreateHeader code a)
    (hm : Matched code a e) :
    (addInitialiserCalls code).value = insertAt (callSite code a e) (lackingCalls code a e)
      code := by
  obtain ⟨m, hsearch, hstop⟩ := Option.map_eq_some_iff.mp ha
  have hbody : (code.drop (a + 1)).take (e - (a + 1)) = textBetween code a e := by
    rw [textBetween, drop_take]
  unfold addInitialiserCalls
  simp only [Traced.value_note_bind, hsearch, hstop, bodyEnd_of_matched hm, hbody]
  split
  · next hboth =>
    obtain ⟨hviews, hlistener⟩ := Bool.and_eq_true_iff.mp hboth
    rw [lackingCalls, hviews, hlistener]
    show code = insertAt _ [] code
    rw [insertAt, append_nil, take_append_drop]
  · cases hc : contentViewStatement.searchBetween code (a + 1) e with
    | none =>
      rw [callSite, hc]
      rfl
    | some c =>
      rw [callSite, hc]
      rfl

theorem callSite_place (hm : Matched code a e) :
    a < callSite code a e ∧ callSite code a e ≤ e ∧ CallPlace code e (callSite code a e) := by
  cases hc : contentViewStatement.searchBetween code (a + 1) e with
  | none =>
    rw [callSite, hc]
    exact ⟨hm.2.1, le_refl e, .inl rfl⟩
  | some c =>
    have hof := searchFrom_some (p := contentViewStatement) hc
    obtain ⟨j, hj, hx⟩ := hof.last_part [lit "setContentView", blanks, parameters, blanks] ';'
    have hle : c.stop ≤ e := by
      obtain ⟨x, y, hxy, hstart⟩ := hof.place
      have hlength := congrArg length hxy
      rw [length_take, length_append, length_append] at hlength
      have hstop := hof.stop
      have hlt := hm.2.1
      omega
    rw [callSite, hc]
    exact ⟨by show a < c.stop; omega, hle, .inr ⟨a + 1 + j, hj, hx⟩⟩

theorem call_after {call s : Text} {k : Nat} (hcall : call = s ++ [';']) (hs : ';' ∉ s)
    (hm : Matched code a e) (hk : a < k) (hke : k ≤ e) (hplace : CallPlace code e k)
    (hmissing : occursIn call (textBetween code a e) = false → call <:+: lackingCalls code a e) :
    call <:+: textBetween (insertAt k (lackingCalls code a e) code) a
      (e + (lackingCalls code a e).length) := by
  have hlen : k ≤ code.length := hke.trans (List.getElem?_eq_some_iff.mp hm.2.2.1).1.le
  cases hthere : occursIn call (textBetween code a e) with
  | false =>
    rw [textBetween_insertAt hk hke hlen]
    exact infix_append_of_infix_left (infix_append_of_infix_right (hmissing hthere))
  | true =>
    rw [occursIn_iff, hcall] at hthere
    rw [hcall]
    exact hplace.keeps hk hke hlen hs hthere

theorem calls_after (hm : Matched code a e) {k : Nat} (hk : a < k) (hke : k ≤ e)
    (hplace : CallPlace code e k) :
    "initViews();" <:+: textBetween (insertAt k (lackingCalls code a e) code) a
        (e + (lackingCalls code a e).length)
      ∧ "initListener();" <:+: textBetween (insertAt k (lackingCalls code a e) code) a
        (e + (lackingCalls code a e).length) := by
  constructor
  · refine call_after (s := "initViews()") (by decide) (by decide) hm hk hke hplace fun hnot => ?_
    rw [lackingCalls, hnot]
    exact missingCalls_views _
  · refine call_after (s := "initListener()") (by decide) (by decide) hm hk hke hplace fun hnot =>
      ?_
    rw [lackingCalls, hnot]
    exact missingCalls_listener _

theorem addInitialiserCalls_of_calls (ha : HeaderEnds onCreateHeader code a) (hm : Matched code a e)
    (hviews : "initViews();" <:+: textBetween code a e)
    (hlistener : "initListener();" <:+: textBetween code a e) :
    (addInitialiserCalls code).value = code := by
  rw [addInitialiserCalls_of_matched ha hm, lackingCalls, (occursIn_iff _ _).mpr hviews,
    (occursIn_iff _ _).mpr hlistener]
  show insertAt _ [] code = code
  rw [insertAt, append_nil, take_append_drop]

end

/-- Without a header of `onCreate` the code stays as it is.  Where its body is closed the calls that
it lacks are put in, all at one place in the body and behind its first content view if it has one;
then the body has both calls, and nothing changes a second time. -/
theorem addInitialiserCalls_completes (code : Text) :
    (onCreateHeader.search code = none → (addInitialiserCalls code).value = code)
    ∧ ∀ a e, HeaderEnds onCreateHeader code a → Matched code a e → ∃ k w out,
      (addInitialiserCalls code).value = out ∧ out = insertAt k w code
      ∧ w = missingCalls (occursIn "initViews();" (textBetween code a e))
        (occursIn "initListener();" (textBetween code a e))
      ∧ a < k ∧ k ≤ e
      ∧ (∀ c, contentViewStatement.searchBetween code (a + 1) e = some c → k = c.stop)
      ∧ HeaderEnds onCreateHeader out a ∧ Matched out a (e + w.length)
      ∧ "initViews();".toList <:+: textBetween out a (e + w.length)
      ∧ "initListener();".toList <:+: textBetween out a (e + w.length)
      ∧ (addInitialiserCalls out).value = out := by
  refine ⟨addInitialiserCalls_of_no_header, fun a e ha hm => ?_⟩
  obtain ⟨hk, hke, hplace⟩ := callSite_place hm
  have hlen : callSite code a e ≤ code.length :=
    hke.trans (List.getElem?_eq_some_iff.mp hm.2.2.1).1.le
  have hflat := missingCalls_flat (occursIn "initViews();" (textBetween code a e))
    (occursIn "initListener();" (textBetween code a e))
  have hheader := heading_onCreateHeader.ends_insertAt ha hk hlen (lackingCalls code a e)
  have hclosed : Matched (insertAt (callSite code a e) (lackingCalls code a e) code) a
      (e + (lackingCalls code a e).length) := hm.insertAt hk hke hflat.1 hflat.2
  obtain ⟨hviews, hlistener⟩ := calls_after hm hk hke hplace
  refine ⟨callSite code a e, lackingCalls code a e, _, addInitialiserCalls_of_matched ha hm, rfl,
    rfl, hk, hke, fun c hc => ?_, hheader, hclosed, hviews, hlistener, ?_⟩
  · rw [callSite, hc]
    rfl
  · exact addInitialiserCalls_of_calls hheader hclosed hviews hlistener

/-- an activity that calls one initialiser before its content view, in a block -/
def halfCalling : Text :=
  "class A \x7b\nprotected void onCreate(Bundle b) \x7b\nif (b == x) \x7b initViews(); \x7d\n"
    ++ "setContentView(R.layout.a);\ny();\n\x7d\n\x7d\n"

theorem addInitialiserCalls_completes_halfCalling :
    HeaderEnds onCreateHeader halfCalling 44 ∧ Matched halfCalling 44 108
      ∧ (addInitialiserCalls halfCalling).value
        = insertAt 102 "\n        initListener();" halfCalling
      ∧ Matched (addInitialiserCalls halfCalling).value 44 132
      ∧ "initViews();".toList <:+: textBetween (addInitialiserCalls halfCalling).value 44 132
      ∧ (addInitialiserCalls (addInitialiserCalls halfCalling).value).value
        = (addInitialiserCalls halfCalling).value := by
  have hfacts : HeaderEnds onCreateHeader halfCalling 44 ∧ Matched halfCalling 44 108
      ∧ (contentViewStatement.searchBetween halfCalling 45 108).map (·.stop) = some 102
      ∧ missingCalls (occursIn "initViews();" (textBetween halfCalling 44 108))
        (occursIn "initListener();" (textBetween halfCalling 44 108))
          = "\n        initListener();" := by
    decide +kernel
  obtain ⟨ha, hm, hsite, hmissing⟩ := hfacts
  obtain ⟨k, w, out, hout, hins, hw, -, -, hk, -, hclosed, hviews, -, hagain⟩ :=
    (addInitialiserCalls_completes halfCalling).2 44 108 ha hm
  obtain ⟨c, hc, hstop⟩ := Option.map_eq_some_iff.mp hsite
  rw [hmissing] at hw
  rw [hk c hc, hstop, hw] at hins
  rw [hw] at hclosed hviews
  rw [hout]
  exact ⟨ha, hm, hins, hclosed, hviews, hagain⟩

end Rebind
