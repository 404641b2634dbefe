import Mathlib
import Rebind.Proofs.Findings.Quiet
import Rebind.Proofs.Injection.Routes
import Rebind.Proofs.Source.Braces

/-!
# Where blocks are put in

Every block is put in at a `Cut`: behind a brace or a semicolon, before a closing brace, or at the
end of the code.  `Inserted block t t'` says that `t'` is `t` with `block` put in at such a place; a
quiet text stays quiet if the block starts on a new line and is `Settled`, so that it may stand
before any quiet text (`Inserted.quietFor`).  One lemma for each way a block is placed says that the
code stays as it is or that one block is inserted:

* `injectInHolder_cases`, `injectInConstructor_cases`, `innerPlaced_cases`: constructors of holders;
* `createOverride_cases`, `createMethod_cases`: new initialisers;
* `addInitialiserCalls_cases`, `injectInOnCreate_cases`: `onCreate`.
-/

namespace Rebind

open List Pattern

/-! ## cuts -/

def Cut (pre post : Text) : Prop :=
  (∃ p c, pre = p ++ [c] ∧ (c = '\x7b' ∨ c = ';' ∨ c = '\x7d')) ∨ (∃ q, post = '\x7d' :: q)
    ∨ post = []

def Inserted (block t t' : Text) : Prop :=
  ∃ pre post, t = pre ++ post ∧ t' = pre ++ block ++ post ∧ Cut pre post

theorem Inserted.sublist {block t t' : Text} (h : Inserted block t t') : t.Sublist t' := by
  obtain ⟨pre, post, rfl, rfl, -⟩ := h
  rw [append_assoc]
  exact (List.Sublist.refl pre).append (sublist_append_right block post)

section
variable {block t : Text} {k : Nat}

theorem inserted_of_cut (h : Cut (t.take k) (t.drop k)) : Inserted block t (insertAt k block t) :=
  ⟨t.take k, t.drop k, (take_append_drop k t).symm, rfl, h⟩

theorem inserted_before (h : t[k]? = some '\x7d') : Inserted block t (insertAt k block t) := by
  obtain ⟨hk, hx⟩ := List.getElem?_eq_some_iff.mp h
  refine inserted_of_cut (.inr (.inl ⟨t.drop (k + 1), ?_⟩))
  rw [drop_eq_getElem_cons hk, hx]

theorem inserted_behind {c : Char} (h : t[k]? = some c) (hc : c = '\x7b' ∨ c = ';' ∨ c = '\x7d') :
    Inserted block t (insertAt (k + 1) block t) := by
  obtain ⟨hk, hx⟩ := List.getElem?_eq_some_iff.mp h
  refine inserted_of_cut (.inl ⟨t.take k, c, ?_, hc⟩)
  rw [take_succ_eq_append_getElem hk, hx]

theorem inserted_end : Inserted block t (insertAt t.length block t) :=
  inserted_of_cut (.inr (.inr (drop_length)))

end

/-! ## quiet insertions -/

section
variable {pre post block t t' mark : Text}

theorem Cut.quietFor_iff (h : Cut pre post) (hm : mark ∈ annotationMarks) :
    QuietFor mark (pre ++ post) ↔ QuietFor mark pre ∧ QuietFor mark post := by
  have hne := mark_ne_nil hm
  have hnil : QuietFor mark [] := quietFor_nil hne
  rcases h with ⟨p, c, rfl, hc⟩ | ⟨q, rfl⟩ | rfl
  · have hx : c ∈ ['\n', '\x7b', '\x7d', ';'] := by rcases hc with rfl | rfl | rfl <;> decide
    have hsign : c ≠ markSign := by rcases hc with rfl | rfl | rfl <;> decide
    have hcut := fun b => quietFor_around (a := p) (b := b) (not_mem_mark hm hx) hne hsign
    rw [append_assoc, singleton_append, hcut post, hcut []]
    simp [hnil]
  · have hcut := fun a => quietFor_around (x := '\x7d') (a := a) (b := q)
      (not_mem_mark hm (by decide)) hne (by decide)
    have hfront := hcut []
    rw [nil_append] at hfront
    rw [hcut pre, hfront]
    simp [hnil]
  · simp [hnil]

theorem Cut.quiet_iff (h : Cut pre post) : Quiet (pre ++ post) ↔ Quiet pre ∧ Quiet post :=
  ⟨fun hq => ⟨fun mark hm => ((h.quietFor_iff hm).mp (hq mark hm)).1,
    fun mark hm => ((h.quietFor_iff hm).mp (hq mark hm)).2⟩,
    fun hq mark hm => (h.quietFor_iff hm).mpr ⟨hq.1 mark hm, hq.2 mark hm⟩⟩

def SettledFor (mark s : Text) : Prop := ∀ post, QuietFor mark post → QuietFor mark (s ++ post)

def Settled (s : Text) : Prop := ∀ mark ∈ annotationMarks, SettledFor mark s

theorem mark_head (h : mark ∈ annotationMarks) : ∃ m, mark = '@' :: m ∨ mark = 'B' :: m := by
  simp only [annotationMarks, mem_cons, not_mem_nil, or_false] at h
  rcases h with rfl | rfl | rfl | rfl
  · exact ⟨_, .inl rfl⟩
  · exact ⟨_, .inl rfl⟩
  · exact ⟨_, .inl rfl⟩
  · exact ⟨_, .inr rfl⟩

theorem settled_of_not_mem {s : Text} (hat : '@' ∉ s) (hb : 'B' ∉ s) : Settled s := by
  intro mark hm post hpost
  obtain ⟨m, rfl | rfl⟩ := mark_head hm
  · exact (quietFor_skip hat).mpr hpost
  · exact (quietFor_skip hb).mpr hpost

theorem SettledFor.behind {a s : Text} (hs : SettledFor mark s) (hm : mark ∈ annotationMarks)
    (ha : QuietFor mark a) : SettledFor mark (a ++ '\n' :: s) := by
  intro post hpost
  rw [append_assoc, cons_append,
    quietFor_around (not_mem_mark hm (by simp)) (mark_ne_nil hm) (by decide)]
  exact ⟨ha, hs post hpost⟩

theorem settled_of_quiet {a s : Text} (ha : Quiet a) (hat : '@' ∉ s) (hb : 'B' ∉ s) :
    Settled (a ++ '\n' :: s) :=
  fun mark hm => (settled_of_not_mem hat hb mark hm).behind hm (ha mark hm)

/-- a block that starts with a new line and is settled keeps the mark quiet -/
theorem Inserted.quietFor (h : Inserted ('\n' :: block) t t') (hm : mark ∈ annotationMarks)
    (hblock : SettledFor mark block) (ht : QuietFor mark t) : QuietFor mark t' := by
  obtain ⟨pre, post, rfl, rfl, hcut⟩ := h
  obtain ⟨hpre, hpost⟩ := (hcut.quietFor_iff hm).mp ht
  rw [append_assoc, cons_append,
    quietFor_around (not_mem_mark hm (by simp)) (mark_ne_nil hm) (by decide)]
  exact ⟨hpre, hblock post hpost⟩

theorem Inserted.quiet (h : Inserted ('\n' :: block) t t') (hblock : Settled block) (ht : Quiet t) :
    Quiet t' := fun mark hm => h.quietFor hm (hblock mark hm) (ht mark hm)

end

/-! ## constructors of holders -/

section
variable {code block : Text}

theorem constructorPoint_cases (code : Text) (start : Nat) :
    constructorPoint code start = start
      ∨ ∃ n s, superCall.search ((code.drop start).take n) = some s
      ∧ constructorPoint code start = start + s.stop := by
  unfold constructorPoint
  cases closingBrace 1 (code.drop start) with
  | some n =>
    dsimp only
    cases hs : superCall.search ((code.drop start).take n) with
    | some s => exact .inr ⟨n, s, hs, rfl⟩
    | none => exact .inl rfl
  | none =>
    dsimp only
    cases hs : superCall.search [] with
    | some s => exact .inr ⟨0, s, hs, rfl⟩
    | none => exact .inl rfl

theorem putInConstructor_inserted {j : Nat} (h : code[j]? = some '\x7b') :
    Inserted ('\n' :: block) code (putInConstructor block code (j + 1)) := by
  unfold putInConstructor
  rcases constructorPoint_cases code (j + 1) with hp | ⟨n, s, hs, hp⟩
  · rw [hp]
    exact inserted_behind h (by simp)
  · obtain ⟨i, hi, hx⟩ := (search_some (p := superCall) hs).last_part
      [lit "super", blanks, parameters, blanks] ';'
    rw [hp, show j + 1 + s.stop = j + 1 + i + 1 by omega]
    exact inserted_behind hx (by simp)

theorem injectInHolder_cases (block code : Text) :
    (injectInHolder block code = code ∧ (block = [] ∨ holderConstructor.found code = false))
      ∨ (holderConstructor.found code
        ∧ Inserted ('\n' :: block) code (injectInHolder block code)) := by
  unfold injectInHolder Pattern.found
  split
  · next h => exact .inl ⟨rfl, .inl (isEmpty_iff.mp h)⟩
  · cases hm : holderConstructor.search code with
    | none => exact .inl ⟨rfl, .inr rfl⟩
    | some m =>
      obtain ⟨j, hj, hx⟩ := (search_some hm).last
        [keyword "public", word, blanks, lit "(", butNot ')', keyword "View", word, butNot ')',
          lit ")", blanks] '\x7b'
      refine .inr ⟨rfl, ?_⟩
      simp only [hj, Nat.zero_add]
      exact putInConstructor_inserted hx

theorem injectInConstructor_cases (code : Text) (start stop : Nat) (block : Text) :
    injectInConstructor code start stop block = code
      ∨ Inserted ('\n' :: block) code (injectInConstructor code start stop block) := by
  unfold injectInConstructor
  simp only
  split
  · exact .inl rfl
  · split
    · next m hm =>
      obtain ⟨j, hj, hx⟩ := (search_some (p := holderConstructor) hm).last_part
        [keyword "public", word, blanks, lit "(", butNot ')', keyword "View", word, butNot ')',
          lit ")", blanks] '\x7b'
      right
      rw [show start + m.stop = start + j + 1 by omega]
      exact putInConstructor_inserted hx
    · exact .inl rfl

theorem innerPlaced_cases (fs : List Field) (code : Text) (c : InnerClass) :
    innerPlaced fs code c = code ∨ ∃ own : List Field, own ⊆ fs
      ∧ Inserted ('\n' :: itemBlock own [] []) code (innerPlaced fs code c) := by
  unfold innerPlaced
  split
  · exact .inl rfl
  · rcases injectInConstructor_cases code c.start c.stop
      (itemBlock (ownFields code c.start c.stop fs) [] []) with h | h
    · exact .inl h
    · exact .inr ⟨_, fun F hF => (mem_filter.mp hF).1, h⟩

/-! ## initialisers -/

theorem createOverride_cases (method code : Text) :
    (createOverride method code).value = code
      ∨ Inserted (method ++ ['\n']) code (createOverride method code).value := by
  unfold createOverride
  rw [Traced.value_bind]
  cases h : (classEnd code).value with
  | none => exact .inl rfl
  | some k =>
    obtain ⟨j, rfl, hj⟩ := classEnd_some h
    exact .inr (inserted_before hj)

/-- the text of a new initialiser -/
def methodText (name content visibility : Text) : Text :=
  "\n    " ++ visibility ++ " void " ++ name ++ "() \x7b\n" ++ content
    ++ "\n    \x7d"

/-- a new initialiser is put in unless there is no brace to put it before -/
theorem createMethod_cases (code name content visibility : Text) :
    ((createMethod code name content visibility).value = code ∧ '\x7d' ∉ code)
      ∨ Inserted (methodText name content visibility ++ ['\n']) code
        (createMethod code name content visibility).value := by
  unfold createMethod
  simp only [Traced.value_bind]
  cases h : (classEnd code).value with
  | some k =>
    obtain ⟨j, rfl, hj⟩ := classEnd_some h
    exact .inr (inserted_before hj)
  | none =>
    simp only [Traced.value_bind]
    cases hl : lastIndexOf '\x7d' code with
    | some k => exact .inr (inserted_before (lastIndexOf_some hl))
    | none =>
      refine .inl ⟨rfl, ?_⟩
      simpa [lastIndexOf] using hl

/-! ## `onCreate` -/

theorem onCreateHeader_stop {m : Match} (h : onCreateHeader.search code = some m) :
    ∃ j, m.stop = j + 1 ∧ code[j]? = some '\x7b' := by
  obtain ⟨j, hj, hx⟩ := (search_some h).last
    [keyword "protected", keyword "void", lit "onCreate", blanks, parameters, blanks] '\x7b'
  exact ⟨j, by omega, hx⟩

theorem drop_eq_body (code : Text) (start : Nat) :
    code.drop start = (code.drop start).take (bodyEnd code start - start)
      ++ code.drop (bodyEnd code start) := by
  have hle : start ≤ bodyEnd code start := by
    unfold bodyEnd
    split <;> omega
  conv_lhs => rw [← take_append_drop (bodyEnd code start - start) (code.drop start)]
  rw [drop_drop, Nat.add_sub_cancel' hle]

theorem body_closed (code : Text) (start : Nat) :
    (code.drop start).take (bodyEnd code start - start) = []
      ∨ ∃ q, code.drop (bodyEnd code start) = '\x7d' :: q := by
  rcases bodyEnd_cases code start with he | hb
  · exact .inl (by rw [he, Nat.sub_self, take_zero])
  · obtain ⟨hk, hx⟩ := List.getElem?_eq_some_iff.mp hb
    exact .inr ⟨_, by rw [drop_eq_getElem_cons hk, hx]⟩

theorem cut_onCreateHeader {m : Match} (h : onCreateHeader.search code = some m) (post : Text) :
    Cut (code.take m.stop) post := by
  obtain ⟨j, hj, hx⟩ := onCreateHeader_stop h
  obtain ⟨hlt, hget⟩ := List.getElem?_eq_some_iff.mp hx
  exact .inl ⟨code.take j, '\x7b', by rw [hj, take_succ_eq_append_getElem hlt, hget], by simp⟩

theorem inserted_at_bodyEnd {m : Match} (h : onCreateHeader.search code = some m) :
    Inserted block code (insertAt (bodyEnd code m.stop) block code) := by
  rcases bodyEnd_cases code m.stop with he | hb
  · obtain ⟨j, hj, hx⟩ := onCreateHeader_stop h
    rw [he, hj]
    exact inserted_behind hx (by simp)
  · exact inserted_before hb

theorem addInitialiserCalls_cases (code : Text) :
    (addInitialiserCalls code).value = code
      ∨ ∃ hasViews hasListener, Inserted (missingCalls hasViews hasListener) code
        (addInitialiserCalls code).value := by
  unfold addInitialiserCalls
  rw [Traced.value_note_bind]
  cases hm : onCreateHeader.search code with
  | none => exact .inl rfl
  | some m =>
    simp only [Traced.value_note_bind]
    split
    · exact .inl rfl
    · right
      split
      · next c hc =>
        obtain ⟨j, hj, hx⟩ := (searchFrom_some (p := contentViewStatement) hc).last_part
          [lit "setContentView", blanks, parameters, blanks] ';'
        rw [Traced.value_note_bind, Traced.value_pure, hj]
        exact ⟨_, _, inserted_behind hx (by simp)⟩
      · rw [Traced.value_note_bind, Traced.value_pure]
        exact ⟨_, _, inserted_at_bodyEnd hm⟩

theorem injectInOnCreate_cases (code block : Text) :
    (injectInOnCreate code block).value = code
      ∨ Inserted ('\n' :: block ++ ['\n']) code (injectInOnCreate code block).value
      ∨ Inserted ('\n' :: block ++ "\n    ") code (injectInOnCreate code block).value := by
  unfold injectInOnCreate
  simp only [Traced.value_note_bind]
  cases hm : onCreateMethod.search code with
  | none => exact .inl rfl
  | some m =>
    simp only [Traced.value_note_bind]
    split
    · next c hc =>
      obtain ⟨j, hj, hx⟩ := (searchFrom_some (p := contentViewStatement) hc).last
        [lit "setContentView", blanks, parameters, blanks] ';'
      rw [getElem?_drop] at hx
      rw [Traced.value_note_bind]
      split
      · exact .inl rfl
      · refine .inr (.inl ?_)
        rw [Traced.value_note_bind, Traced.value_note_bind, Traced.value_pure, hj]
        exact inserted_behind hx (by simp)
    · rw [Traced.value_note_bind]
      split
      · split
        · exact .inl rfl
        · refine .inr (.inr ?_)
          rw [Traced.value_note_bind, Traced.value_note_bind, Traced.value_pure]
          rcases onCreateEnd_cases (search_some hm).stop_le with h | ⟨j, hj, hx⟩ | h
          · exact inserted_before h
          · rw [hj]
            exact inserted_behind hx (by simp)
          · rw [h]
            exact inserted_end
      · exact .inl rfl

end

end Rebind
