import Mathlib
import Rebind.Edit.Insertion
import Rebind.Proofs.Injection.Insertions

/-!
# What a block does to the code around it

A dozen functions put a block into the code, each at a place of its own: before the end of a class,
at the end of a method or behind a statement in it, into a constructor, behind a class.  They read
the code with different patterns and brace counts, and on odd code a count finds no brace, or leads
past the end.

Whatever place they come to, they leave every character of the code where it was: `Extends block t
t'` says that `t'` is `t`, or `t` with one text put in that starts on a new line and holds the
block.  A place past the end is the end (`extends_insertAt`), so that no bound on the places is
needed.  `insertions_extend` says it of all of them.
-/

namespace Rebind

open List Pattern

def Carries (block s : Text) : Prop := s.head? = some '\n' ∧ block <:+: s

/-- `t'` is `t`, or `t` with one text put in that carries the block -/
def Extends (block t t' : Text) : Prop :=
  t' = t ∨ ∃ k ≤ t.length, ∃ s, Carries block s ∧ t' = insertAt k s t

section
variable {block s t t' code : Text}

theorem carries_between {front back : Text} (h : front.head? = some '\n') :
    Carries block (front ++ block ++ back) := by
  refine ⟨?_, front, back, rfl⟩
  cases front with
  | nil => simp at h
  | cons c front => exact h

theorem Carries.append (h : Carries block s) (r : Text) : Carries block (s ++ r) := by
  refine ⟨?_, infix_append_of_infix_left h.2⟩
  rw [head?_append, h.1]
  rfl

theorem extends_refl (block t : Text) : Extends block t t := .inl rfl

theorem insertAt_min (k : Nat) (s t : Text) : insertAt (min k t.length) s t = insertAt k s t := by
  unfold insertAt
  rcases Nat.le_total k t.length with h | h
  · rw [Nat.min_eq_left h]
  · rw [Nat.min_eq_right h, take_of_length_le h, drop_of_length_le h, take_length,
      drop_length]

theorem extends_insertAt (k : Nat) (hs : Carries block s) : Extends block t (insertAt k s t) :=
  .inr ⟨min k t.length, Nat.min_le_right _ _, s, hs, (insertAt_min k s t).symm⟩

theorem Inserted.extends (h : Inserted s t t') (hs : Carries block s) : Extends block t t' := by
  obtain ⟨pre, post, rfl, rfl, -⟩ := h
  refine .inr ⟨pre.length, by simp, s, hs, ?_⟩
  rw [insertAt, take_left, drop_left]

/-! ## new methods -/

theorem createOverride_extends {front : Text} (h : front.head? = some '\n')
    (block back code : Text) :
    Extends block code (createOverride (front ++ block ++ back) code).value := by
  rcases createOverride_cases (front ++ block ++ back) code with he | hins
  · exact .inl he
  · exact hins.extends ((carries_between h).append ['\n'])

theorem createMethod_extends (code name block visibility : Text) :
    Extends block code (createMethod code name block visibility).value := by
  rcases createMethod_cases code name block visibility with ⟨he, -⟩ | hins
  · exact .inl he
  · exact hins.extends (Carries.append (carries_between rfl) ['\n'])

theorem createInitViews_extends (code block : Text) :
    Extends block code (createInitViews code block).value := createOverride_extends rfl block _ code

theorem createInitListener_extends (code block : Text) :
    Extends block code (createInitListener code block).value :=
      createOverride_extends rfl block _ code

theorem createInitialiser_extends (code block : Text) :
    Extends block code (createInitialiser code block) := by
  unfold createInitialiser
  split
  · exact extends_refl block code
  · exact extends_insertAt _ (carries_between rfl)

theorem addMethodAfterClass_extends (name code block : Text) :
    Extends block code (addMethodAfterClass name code block) := by
  unfold addMethodAfterClass
  split
  · exact extends_insertAt _ (carries_between rfl)
  · exact extends_refl block code

/-! ## existing methods -/

theorem injectAt?_extends {start : Nat} (h : injectAt? code block start = some t') :
    Extends block code t' := by
  unfold injectAt? at h
  simp only at h
  split at h
  · obtain rfl := Option.some.inj h
    exact extends_insertAt _ (carries_between rfl)
  · cases h

theorem injectInMethod_extends (p : Pattern) (code block : Text) :
    Extends block code (injectInMethod p code block) := by
  unfold injectInMethod
  cases h : (p.search code).bind (fun m => injectAt? code block m.stop) with
  | none => exact extends_refl block code
  | some t' =>
    obtain ⟨m, -, hm⟩ := Option.bind_eq_some_iff.mp h
    exact injectAt?_extends hm

theorem injectInAnyMethod_extends (code block : Text) :
    Extends block code (injectInAnyMethod code block) := by
  unfold injectInAnyMethod
  -- the first method that takes the block decides, whichever it is
  generalize hfirst : findSome? _ (anyMethod.findAll code) = first
  cases first with
  | none => exact extends_refl block code
  | some t' =>
    obtain ⟨m, -, hm⟩ := exists_of_findSome?_eq_some hfirst
    simp only at hm
    split at hm
    · exact injectAt?_extends hm
    · cases hm

theorem injectInOnCreate_extends (code block : Text) :
    Extends block code (injectInOnCreate code block).value := by
  rcases injectInOnCreate_cases code block with he | hins | hins
  · exact .inl he
  · exact hins.extends (carries_between (show ['\n'].head? = _ from rfl))
  · exact hins.extends (carries_between (show ['\n'].head? = _ from rfl))

theorem insertInOnCreate_extends (code block : Text) :
    Extends block code (insertInOnCreate code block) := by
  unfold insertInOnCreate
  split
  · exact extends_insertAt _ (carries_between rfl)
  · exact extends_refl block code

theorem insertInOnViewCreated_extends (code block : Text) :
    Extends block code (insertInOnViewCreated code block) := by
  unfold insertInOnViewCreated
  split
  · exact extends_insertAt _ (carries_between rfl)
  · exact extends_refl block code

/-! ## constructors -/

theorem injectInConstructor_extends (code : Text) (start stop : Nat) (block : Text) :
    Extends block code (injectInConstructor code start stop block) := by
  rcases injectInConstructor_cases code start stop block with he | hins
  · exact .inl he
  · exact hins.extends ⟨rfl, (List.suffix_cons '\n' block).isInfix⟩

end

/-- every function that puts a block into the code leaves the code as it is, or puts in one text
that holds the block and changes nothing else -/
theorem insertions_extend (code block : Text) :
    (∀ name visibility, Extends block code (createMethod code name block visibility).value)
    ∧ Extends block code (createInitViews code block).value
    ∧ Extends block code (createInitListener code block).value
    ∧ Extends block code (createInitialiser code block)
    ∧ (∀ p, Extends block code (injectInMethod p code block))
    ∧ Extends block code (injectInAnyMethod code block)
    ∧ Extends block code (injectInOnCreate code block).value
    ∧ (∀ start stop, Extends block code (injectInConstructor code start stop block))
    ∧ Extends block code (insertInOnCreate code block)
    ∧ Extends block code (insertInOnViewCreated code block)
    ∧ (∀ name, Extends block code (addMethodAfterClass name code block)) :=
  ⟨fun name visibility => createMethod_extends code name block visibility,
    createInitViews_extends code block, createInitListener_extends code block,
    createInitialiser_extends code block, fun p => injectInMethod_extends p code block,
    injectInAnyMethod_extends code block, injectInOnCreate_extends code block,
    fun start stop => injectInConstructor_extends code start stop block,
    insertInOnCreate_extends code block, insertInOnViewCreated_extends code block,
    fun name => addMethodAfterClass_extends name code block⟩

end Rebind
