import Mathlib
import Rebind.Proofs.Injection.InnerHolders
import Rebind.Proofs.Source.Matching

/-!
# Two ways into a constructor

The block of a holder is put into the first public constructor that takes a view, by one function
for a file that is a holder and by another one for a class inside a file, which counts from the
start of the class and leaves a class alone that has look-ups already.

* `injectInConstructor_whole`: on a class that is the whole file the second does what the first
  does, if there are no look-ups yet;
* `injectInHolder_inside`: the block goes behind the brace of the constructor, and not behind the
  brace that matches it.

`injectForHolder_constructor` says both of every source and of the findings of every source.
-/

namespace Rebind

open List Pattern

theorem constructor_ends_of_search {code : Text} {m : Match}
    (h : holderConstructor.search code = some m) :
    ∃ a, m.stop = a + 1 ∧ HeaderEnds holderConstructor code a := by
  obtain ⟨a, ha, -⟩ := (search_some h).last
    [keyword "public", word, blanks, lit "(", butNot ')', keyword "View", word, butNot ')', lit ")",
      blanks] '\x7b'
  rw [Nat.zero_add] at ha
  exact ⟨a, ha, by rw [HeaderEnds, h, Option.map_some, ha]⟩

section
variable {block code : Text}

theorem constructorPoint_drop (code : Text) (start : Nat) :
    constructorPoint code start = start + constructorPoint (code.drop start) 0 := by
  unfold constructorPoint
  simp only [drop_zero, Nat.zero_add]
  split <;> rfl

theorem constructorPoint_append {w : Text} (h : (closingBrace 1 w).isSome) (post : Text) :
    constructorPoint (w ++ post) 0 = constructorPoint w 0 := by
  obtain ⟨n, hn⟩ := Option.isSome_iff_exists.mp h
  have hlt := closingBrace_lt hn
  have htake : (w ++ post).take n = w.take n := take_append_of_le_length (by omega)
  simp only [constructorPoint, drop_zero, closingBrace_append_left hn, hn, htake]

theorem constructorPoint_window {pre w post : Text} {s : Nat} (hs : s ≤ w.length)
    (hclosed : post = [] ∨ (closingBrace 1 (w.drop s)).isSome) :
    constructorPoint (pre ++ w ++ post) (pre.length + s) = pre.length + constructorPoint w s := by
  rw [constructorPoint_drop, constructorPoint_drop w, append_assoc, drop_length_add_append,
    drop_append_of_le_length hs]
  rcases hclosed with rfl | hsome
  · rw [append_nil, add_assoc]
  · rw [constructorPoint_append hsome, add_assoc]

theorem constructorPoint_le {w : Text} {s : Nat} (hs : s ≤ w.length) :
    constructorPoint w s ≤ w.length := by
  rcases constructorPoint_cases w s with hp | ⟨n, c, hc, hp⟩
  · omega
  · have hle := (search_some hc).stop_le
    rw [length_take, length_drop] at hle
    omega

/-- a class without look-ups is treated as if it were a file of its own -/
theorem injectInConstructor_window {pre w post : Text} (hblock : block ≠ [])
    (hmark : ¬ lookupComment <:+: w) (hclosed : post = [] ∨ ∀ a, HeaderEnds holderConstructor w a
      → (closingBrace 1 (w.drop (a + 1))).isSome) :
    injectInConstructor (pre ++ w ++ post) pre.length (pre.length + w.length) block
      = pre ++ injectInHolder block w ++ post := by
  have hwindow : ((pre ++ w ++ post).drop pre.length).take (pre.length + w.length - pre.length)
      = w := by
    rw [append_assoc, drop_left, Nat.add_sub_cancel_left, take_left]
  have hunmarked : occursIn lookupComment w = false := (occursIn_eq_false_iff _ _).mpr hmark
  have hfull : block.isEmpty = false := isEmpty_eq_false_iff.mpr hblock
  unfold injectInConstructor injectInHolder
  simp only [hwindow, hunmarked, hfull, Bool.false_eq_true, if_false]
  cases hm : holderConstructor.search w with
  | none => rfl
  | some m =>
    obtain ⟨a, ha⟩ := constructor_ends_of_search hm
    have hs : m.stop ≤ w.length := (search_some hm).stop_le
    have hk := constructorPoint_le hs
    have hpoint : constructorPoint (pre ++ w ++ post) (pre.length + m.stop)
        = pre.length + constructorPoint w m.stop := by
      apply constructorPoint_window hs
      rcases hclosed with hnil | hall
      · exact .inl hnil
      · right
        rw [ha.1]
        exact hall a ha.2
    show putInConstructor block (pre ++ w ++ post) (pre.length + m.stop)
      = pre ++ putInConstructor block w m.stop ++ post
    unfold putInConstructor insertAt
    rw [hpoint, append_assoc pre, take_length_add_append, drop_length_add_append,
      take_append_of_le_length hk, drop_append_of_le_length hk]
    simp only [append_assoc]

theorem injectInConstructor_whole (hblock : block ≠ []) (hmark : ¬ lookupComment <:+: code) :
    injectInConstructor code 0 code.length block = injectInHolder block code := by
  have h : injectInConstructor ([] ++ code ++ []) 0 (0 + code.length) block
      = [] ++ injectInHolder block code ++ [] :=
    injectInConstructor_window hblock hmark (.inl rfl)
  simpa using h

theorem injectInHolder_found {a : Nat} (hblock : block ≠ [])
    (ha : HeaderEnds holderConstructor code a) :
    injectInHolder block code = insertAt (constructorPoint code (a + 1)) ('\n' :: block) code := by
  obtain ⟨m, hm, hstop⟩ := Option.map_eq_some_iff.mp ha
  have hfull : block.isEmpty = false := isEmpty_eq_false_iff.mpr hblock
  rw [injectInHolder, hfull, hm]
  simp only [Bool.false_eq_true, if_false]
  rw [hstop, putInConstructor]

theorem injectInHolder_inside {a e : Nat} (hblock : block ≠ [])
    (ha : HeaderEnds holderConstructor code a) (he : Matched code a e) :
    ∃ k, a < k ∧ k ≤ e ∧ injectInHolder block code = insertAt k ('\n' :: block) code := by
  obtain ⟨n, hn, rfl⟩ := he.closingBrace
  obtain ⟨k, hk, hpoint⟩ := constructorPoint_within hn
  refine ⟨a + 1 + k, by omega, by omega, ?_⟩
  rw [injectInHolder_found hblock ha, hpoint]

end

/-- Let the annotations of the findings of any source be dropped from any code.  The findings have a
block; if it is not empty, it is put into a code without look-ups as it is into a class that is the
whole code, and where the first public constructor that takes a view is closed it is put between its
braces. -/
theorem injectForHolder_constructor (source code : Text) {c : Text}
    (hc : dropAnnotations (.detect source) code = .ok c) :
    ∃ block, holderBlock (.detect source) = .ok block ∧ (block ≠ [] →
      (¬ lookupComment <:+: c →
        injectForHolder (.detect source) code = .ok (injectInConstructor c 0 c.length block))
      ∧ ∀ a e, HeaderEnds holderConstructor c a → Matched c a e → ∃ k, a < k ∧ k ≤ e
        ∧ injectForHolder (.detect source) code = .ok (insertAt k ('\n' :: block) c)) := by
  obtain ⟨fs, cs, ls, hl, -⟩ := detect_lists source
  have hblock := holderBlock_eq hl
  have hput : injectForHolder (.detect source) code
      = .ok (injectInHolder (itemBlock fs cs ls) c) := by
    rw [injectForHolder, hc, ok_bind, hblock, ok_bind, pure_eq_ok]
  refine ⟨_, hblock, fun hne => ⟨fun hmark => ?_, fun a e ha he => ?_⟩⟩
  · rw [hput, injectInConstructor_whole hne hmark]
  · obtain ⟨k, hak, hke, hk⟩ := injectInHolder_inside hne ha he
    exact ⟨k, hak, hke, by rw [hput, hk]⟩

/-- a holder with one field, whose constructor calls the base's and has a block of its own -/
def holderOf (field : Text) : Text :=
  "public class AHolder \x7b\n" ++ field
    ++ "\npublic AHolder(View v) \x7b\nsuper(v);\nif (x) \x7b\n\x7d\n\x7d\n\x7d\n"

def nestedHolder : Text := holderOf "@BindView(R.id.a) A a;"

theorem injectForHolder_constructor_nestedHolder :
    dropAnnotations (.detect nestedHolder) nestedHolder = .ok (holderOf [])
      ∧ HeaderEnds holderConstructor (holderOf []) 47 ∧ Matched (holderOf []) 47 70
      ∧ ∃ block, holderBlock (.detect nestedHolder) = .ok block ∧ block ≠ []
        ∧ injectForHolder (.detect nestedHolder) nestedHolder
          = .ok (injectInConstructor (holderOf []) 0 (holderOf []).length block)
        ∧ ∃ k, 47 < k ∧ k ≤ 70 ∧ injectForHolder (.detect nestedHolder) nestedHolder
          = .ok (insertAt k ('\n' :: block) (holderOf [])) := by
  have hfacts : dropAnnotations (.detect nestedHolder) nestedHolder = .ok (holderOf [])
      ∧ (holderBlock (.detect nestedHolder)).toOption.map (·.isEmpty) = some false
      ∧ occursIn lookupComment (holderOf []) = false
      ∧ HeaderEnds holderConstructor (holderOf []) 47 ∧ Matched (holderOf []) 47 70 := by
        decide +kernel
  obtain ⟨hc, hfull, hmark, ha, he⟩ := hfacts
  obtain ⟨block, hblock, hput⟩ := injectForHolder_constructor nestedHolder nestedHolder hc
  have hne : block ≠ [] := by
    rw [hblock] at hfull
    exact isEmpty_eq_false_iff.mp (Option.some.inj hfull)
  obtain ⟨hsame, hinside⟩ := hput hne
  exact ⟨hc, ha, he, block, hblock, hne, hsame ((occursIn_eq_false_iff _ _).mp hmark),
    hinside 47 70 ha he⟩

end Rebind
