import Rebind.Edit.Editor
import Rebind.Proofs.Outcome

/-!
# A registry at work

A registry filled by a list of calls holds one entry per name, at the place where the name was first
used and with what was put there last (`entries_registered`).  Applying it sends the source through
these entries.  An entry either edits the source, the whole way through, or hands it on as it came
(`Turns`); the main statement is `applyAll_registered_eq_iff`.
-/

namespace Rebind

variable {t : Editor} {code data result : Value}

/-! ### One editor -/

/-- `result` is what the editor makes of the source: the input is acceptable, there is something to
do, and neither the editing nor the last touch fails -/
structure Editor.Edits (t : Editor) (data code result : Value) : Prop where
  dict : ∃ kvs, data = .dict kvs
  text : ∃ cs, code = .text cs ∧ ∃ c ∈ cs, isBlank c = false
  applies : ∃ v, t.applies data = .ok v ∧ v.truthy = true
  edited : ∃ v, t.edit data code = .ok v ∧ t.finish v = .ok result

namespace Editor

theorem isAcceptable_iff (data code : Value) :
    isAcceptable data code ↔
      (∃ kvs, data = .dict kvs) ∧ ∃ cs, code = .text cs ∧ ∃ c ∈ cs, isBlank c = false := by
  cases data <;> cases code <;> simp [isAcceptable, isBlankText]

theorem accept_eq_ok {p : Value × Value} :
    accept data code = .ok p ↔ isAcceptable data code ∧ p = (data, code) := by
  unfold accept
  by_cases h : isAcceptable data code
  · simp [h, eq_comm]
  · simp [h]

theorem attempt_eq_ok : t.attempt data code = .ok result ↔ t.Edits data code result ∨
        isAcceptable data code ∧ result = code ∧ ∃ v, t.applies data = .ok v
          ∧ v.truthy = false := by
  simp only [attempt, bind_eq_ok, accept_eq_ok]
  constructor
  · rintro ⟨_, ⟨hacc, rfl⟩, v, hv, h⟩
    cases ht : v.truthy with
    | false =>
      simp only [ht, Bool.not_false, if_true, pure_eq_ok, Except.ok.injEq] at h
      exact .inr ⟨hacc, h.symm, v, hv, ht⟩
    | true =>
      simp only [ht, Bool.not_true, Bool.false_eq_true, if_false, bind_eq_ok] at h
      obtain ⟨hdict, htext⟩ := (isAcceptable_iff data code).1 hacc
      exact .inl ⟨hdict, htext, ⟨v, hv, ht⟩, h⟩
  · rintro (h | ⟨hacc, rfl, v, hv, ht⟩)
    · obtain ⟨v, hv, ht⟩ := h.applies
      refine ⟨(data, code), ⟨(isAcceptable_iff data code).2 ⟨h.dict, h.text⟩, rfl⟩, v, hv, ?_⟩
      simp only [ht, Bool.not_true, Bool.false_eq_true, if_false, bind_eq_ok]
      exact h.edited
    · exact ⟨(data, result), ⟨hacc, rfl⟩, v, hv, by simp [ht]⟩

theorem Edits.attempt (h : t.Edits data code result) : t.attempt data code = .ok result :=
  attempt_eq_ok.2 (.inl h)

theorem run_of_edits (h : t.Edits data code result) : t.run data code = result := by
  simp only [run, h.attempt]

theorem run_of_not_edits (h : ∀ result, ¬ t.Edits data code result) : t.run data code = code := by
  unfold run
  split
  · rename_i result hok
    obtain hed | ⟨-, rfl, -⟩ := attempt_eq_ok.1 hok
    · exact absurd hed (h result)
    · rfl
  · rfl

end Editor

namespace Registry

/-! ### One entry after the other -/

/-- what an entry makes of the source `r` -/
inductive Turns (data : Value) : Option Editor → Value → Value → Prop
  | edits {t : Editor} {r result : Value} (h : t.Edits data r result) :
      Turns data (some t) r result
  | spares {t : Editor} {r : Value} (h : ∀ result, ¬ t.Edits data r result) :
      Turns data (some t) r r
  | free (r : Value) : Turns data none r r

theorem turns_applyEntry (data r : Value) (e : Option Editor) :
    Turns data e r (applyEntry data r e) := by
  cases e with
  | none => exact .free r
  | some t =>
    show Turns data (some t) r (t.run data r)
    by_cases h : ∃ result, t.Edits data r result
    · obtain ⟨result, h⟩ := h
      rw [Editor.run_of_edits h]
      exact .edits h
    · have hnone : ∀ result, ¬ t.Edits data r result := fun result hr => h ⟨result, hr⟩
      rw [Editor.run_of_not_edits hnone]
      exact .spares hnone

theorem Turns.eq_applyEntry {r : Value} {e : Option Editor}
    (h : Turns data e r result) : applyEntry data r e = result := by
  cases h with
  | edits h => exact Editor.run_of_edits h
  | spares h => exact Editor.run_of_not_edits h
  | free r => rfl

/-- `result` is what the entries, from the first to the last, make of the source `r` -/
inductive Passes (data : Value) : List (Option Editor) → Value → Value → Prop
  | done (r : Value) : Passes data [] r r
  | next {e : Option Editor} {es : List (Option Editor)} {r mid result : Value}
      (h : Turns data e r mid) (hs : Passes data es mid result) : Passes data (e :: es) r result

theorem passes_iff {r : Value} {es : List (Option Editor)} :
    Passes data es r result ↔ es.foldl (applyEntry data) r = result := by
  constructor
  · intro h
    induction h with
    | done r => rfl
    | next h hs ih => rw [List.foldl_cons, h.eq_applyEntry, ih]
  · intro h
    induction es generalizing r with
    | nil =>
      cases h
      exact .done r
    | cons e es ih => exact .next (turns_applyEntry data r e) (ih h)

/-! ### What the calls leave -/

def registered (calls : List (Text × Option Editor)) : Registry :=
  calls.foldl (fun reg c => reg.register c.1 c.2) empty

def lastUnder (calls : List (Text × Option Editor)) (name : Text) : Option Editor :=
  (calls.reverse.lookup name).join

def namesOf (calls : List (Text × Option Editor)) : List Text := (calls.map (·.1)).eraseDups

def standing (calls : List (Text × Option Editor)) : List (Option Editor) :=
  (namesOf calls).map (lastUnder calls)

variable (calls : List (Text × Option Editor)) (c : Text × Option Editor)

theorem registered_snoc :
    registered (calls ++ [c]) = (registered calls).register c.1 c.2 := by
  simp [registered]

theorem lastUnder_snoc (name : Text) :
    lastUnder (calls ++ [c]) name = if name = c.1 then c.2 else lastUnder calls name := by
  by_cases h : name = c.1
  · simp [lastUnder, List.lookup, h]
  · have hne : (name == c.1) = false := by simpa using h
    simp [lastUnder, List.lookup, h, hne]

theorem namesOf_snoc :
    namesOf (calls ++ [c]) =
      if c.1 ∈ namesOf calls then namesOf calls else namesOf calls ++ [c.1] := by
  unfold namesOf
  rw [List.map_append, List.eraseDups_append]
  by_cases h : c.1 ∈ calls.map (·.1)
  · simp [List.removeAll, h, List.mem_eraseDups]
  · simp [List.removeAll, h, List.mem_eraseDups, List.eraseDups_cons]

theorem nodup_namesOf : (namesOf calls).Nodup := by
  induction calls using List.reverseRecOn with
  | nil => simp [namesOf]
  | append_singleton calls c ih =>
    rw [namesOf_snoc]
    split
    · exact ih
    · rename_i h
      exact List.nodup_append.2 ⟨ih, by simp, by grind⟩

theorem putEntry_map (f : Text → Option Editor) (name : Text) (r : Option Editor)
    {names : List Text} (h : names.Nodup) :
    putEntry name r (names.map fun n => (n, f n)) =
      (if name ∈ names then names else names ++ [name]).map
        fun n => (n, if n = name then r else f n) := by
  induction names with
  | nil => simp [putEntry]
  | cons n names ih =>
    obtain ⟨hn, hnames⟩ := List.nodup_cons.1 h
    by_cases he : n = name
    · subst he
      -- further on the name does not come again, so nothing else changes
      have hrest : ∀ m ∈ names, f m = if m = n then r else f m := by
        intro m hm
        have hmn : m ≠ n := fun hmn => hn (hmn ▸ hm)
        rw [if_neg hmn]
      simpa [putEntry] using hrest
    · have hmem : name ∈ n :: names ↔ name ∈ names := by
        simp [Ne.symm he]
      simp only [List.map_cons, putEntry, if_neg he, ih hnames, hmem]
      split <;> simp [he]

theorem entries_registered :
    (registered calls).entries = (namesOf calls).map fun n => (n, lastUnder calls n) := by
  induction calls using List.reverseRecOn with
  | nil => rfl
  | append_singleton calls c ih =>
    rw [registered_snoc, register, ih, putEntry_map _ _ _ (nodup_namesOf calls), namesOf_snoc]
    simp only [lastUnder_snoc]

/-- **Applying a registry is one pass through its entries**, in the order of the first calls and
with what was put there last; an entry that cannot edit the source to the end leaves it alone. -/
theorem applyAll_registered_eq_iff (data code result : Value) :
    (registered calls).applyAll data code = result ↔
      Passes data (standing calls) code result := by
  have hfold : (registered calls).applyAll data code =
      (standing calls).foldl (applyEntry data) code := by
    simp only [applyAll, entries_registered, standing, List.foldl_map]
  rw [hfold, passes_iff]

end Registry

end Rebind
