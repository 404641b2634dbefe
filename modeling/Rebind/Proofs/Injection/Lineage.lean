import Mathlib
import Rebind.Injection.Inheritance
import Rebind.Proofs.Findings.Shape
import Rebind.Proofs.Outcome

/-!
# Ancestors

`ancestor code n` is the `n`-th ancestor of the first class that names a parent.  The search for a
base that calls the initialisers stops with a fault exactly where the ancestors go on for ever
without one (`EndlessLineage`): `isNewBase_fault_iff`.

* `EndsAfter code n name`: the search from `name` ends `n` classes further up;
* `EndsAfter.unique`: a class has one such distance, so no class is met twice on a way that ends;
* `EndsAfter.le_length`: each class on the way has a declaration of its own in the text, so the
  length of the text bounds the distance, and the search has enough fuel.
-/

namespace Rebind

open List Pattern

variable {n : Nat} {name parent : Text}

/-- the parent of the first class that names one -/
def firstParent (code : Text) : Option Text :=
  ((seq [keyword "class", word, blanks1, keyword "extends", .group 1 word]).search code).map
    (·.group 1)

/-- the ancestors of the first class that names a parent, nearest first -/
def ancestor (code : Text) : Nat → Option Text
  | 0 => firstParent code
  | n + 1 => (ancestor code n).bind (parentOf code)

/-- there is an ancestor at every distance, and none is a base that calls the initialisers -/
def EndlessLineage (code : Text) : Prop :=
  ∀ n, ∃ a, ancestor code n = some a ∧ isNewBaseName a = false

/-- the search from `name` ends `n` classes further up: that class has no declared parent, or one
that is a base that calls the initialisers -/
def EndsAfter (code : Text) : Nat → Text → Prop
  | 0, name => ∀ p, parentOf code name = some p → isNewBaseName p
  | n + 1, name => ∃ p, parentOf code name = some p ∧ isNewBaseName p = false ∧ EndsAfter code n p

section
variable {code : Text}

theorem EndsAfter.unique {m : Nat} (hn : EndsAfter code n name) (hm : EndsAfter code m name) :
    n = m := by
  induction n generalizing m name with
  | zero =>
    cases m with
    | zero => rfl
    | succ m =>
      obtain ⟨p, hp, hbase, -⟩ := hm
      exact absurd (hn p hp) (by simp [hbase])
  | succ n ih =>
    obtain ⟨p, hp, hbase, hn⟩ := hn
    cases m with
    | zero => exact absurd (hm p hp) (by simp [hbase])
    | succ m =>
      obtain ⟨q, hq, -, hm⟩ := hm
      obtain rfl : p = q := Option.some.inj (hp.symm.trans hq)
      rw [ih hn hm]

/-! ## each class on the way has a declaration of its own -/

def nameAt (code : Text) (k : Nat) : Text :=
  ((code.drop (k + 5)).dropWhile isBlank).takeWhile (fun c => !isBlank c)

theorem nameAt_of_declaration {a gap rest : Text} {c : Char}
    (hgap : ∀ c ∈ gap, isBlank c) (hname : word.Covers name) (hc : isBlank c)
    (h : code = a ++ ("class" ++ gap ++ name ++ c :: rest)) : nameAt code a.length = name := by
  have hdrop : code.drop (a.length + 5) = gap ++ (name ++ c :: rest) := by
    rw [h, ← drop_drop, drop_left]
    simp
  have hhead : (name ++ c :: rest).dropWhile isBlank = name ++ c :: rest := by
    obtain ⟨x, t, rfl⟩ := exists_cons_of_ne_nil (covers_word.mp hname).1
    simp [isBlank_of_mem_word hname x mem_cons_self]
  rw [nameAt, hdrop, dropWhile_append_of_pos hgap, hhead,
    takeWhile_append_of_pos (by simpa using isBlank_of_mem_word hname)]
  simp [hc]

theorem exists_nameAt (hname : word.Covers name)
    (h : parentOf code name = some parent) : ∃ k < code.length, nameAt code k = name := by
  obtain ⟨m, hm, -⟩ := Option.map_eq_some_iff.mp h
  have hof := search_some hm
  obtain ⟨_, _, htext, ⟨_, gap, rfl, rfl, hgap⟩, w, _, rfl, hw, space, tail, rfl, hspace, -⟩ :=
    hof.covers
  obtain ⟨c, blank, rfl⟩ := exists_cons_of_ne_nil (covers_run1.mp hspace).1
  obtain ⟨a, b, hcode, -⟩ := hof.place
  rw [htext, show w = name from hw] at hcode
  have hplace : code = a ++ ("class" ++ gap ++ name ++ c :: (blank ++ tail ++ b)) := by
    rw [hcode]
    simp
  refine ⟨a.length, ?_, nameAt_of_declaration (covers_run1.mp hgap).2 hname
    ((covers_run1.mp hspace).2 c mem_cons_self) hplace⟩
  rw [hplace]
  simp

theorem covers_extended {p : Pattern} (hp : ∀ q, ¬ p.HasGroup 1 q)
    (h : ((seq [keyword "class", p, blanks1, keyword "extends", .group 1 word]).search code).map
      (·.group 1) = some parent) : word.Covers parent := by
  obtain ⟨m, hm, rfl⟩ := Option.map_eq_some_iff.mp h
  obtain ⟨q, hq, hc, -⟩ := (search_some hm).group (n := 1) (by simp [seq, records])
  simp [seq, lit, keyword, word, run1, blanks1, HasGroup, hp] at hq
  subst hq
  exact hc

theorem covers_parent (h : parentOf code name = some parent) :
    word.Covers parent := covers_extended (by simp [HasGroup]) h

theorem EndsAfter.exists_between (hname : word.Covers name) (h : EndsAfter code n name) :
    ∀ k < n, ∃ i < code.length, EndsAfter code (k + 1) (nameAt code i) := by
  induction n generalizing name with
  | zero => intro k hk; omega
  | succ n ih =>
    intro k hk
    obtain ⟨p, hp, hbase, hn⟩ := h
    rcases Nat.lt_succ_iff_lt_or_eq.mp hk with hlt | rfl
    · exact ih (covers_parent hp) hn k hlt
    · obtain ⟨i, hi, he⟩ := exists_nameAt hname hp
      exact ⟨i, hi, p, he ▸ hp, hbase, hn⟩

/-- the length of the text bounds the distance -/
theorem EndsAfter.le_length (hname : word.Covers name) (h : EndsAfter code n name) :
    n ≤ code.length := by
  choose place hplace hends using h.exists_between hname
  -- different distances belong to different places
  let f : Fin n → Fin code.length := fun k => ⟨place k k.2, hplace k k.2⟩
  have hf : Function.Injective f := by
    intro k l hkl
    have hsame : place k k.2 = place l l.2 := congrArg Fin.val hkl
    have hk := hends k k.2
    rw [hsame] at hk
    have := hk.unique (hends l l.2)
    exact Fin.ext (by omega)
  simpa using Fintype.card_le_of_injective f hf

/-! ## the search -/

theorem descendsFrom_returns {fuel : Nat} {seen : List Text} (h : EndsAfter code n name)
    (hfuel : n < fuel) (hseen : ∀ s ∈ seen, ∀ k < n, ¬ EndsAfter code k s) :
    ∃ b, descendsFrom code seen name fuel = .ok b := by
  induction n generalizing name seen fuel with
  | zero =>
    obtain ⟨fuel, rfl⟩ := Nat.exists_eq_succ_of_ne_zero (by omega : fuel ≠ 0)
    rw [descendsFrom]
    cases hp : parentOf code name with
    | none => exact ⟨false, rfl⟩
    | some p => exact ⟨true, by simp [h p hp]⟩
  | succ n ih =>
    obtain ⟨fuel, rfl⟩ := Nat.exists_eq_succ_of_ne_zero (by omega : fuel ≠ 0)
    obtain ⟨p, hp, hbase, hn⟩ := h
    have hnew : p ∉ seen := fun hmem => hseen p hmem n (by omega) hn
    have hstep : descendsFrom code seen name (fuel + 1) = descendsFrom code (p :: seen) p fuel := by
      simp [descendsFrom, hp, hbase, hnew]
    rw [hstep]
    refine ih hn (by omega) (fun s hs k hk hend => ?_)
    rcases List.mem_cons.mp hs with rfl | hs
    · have := hend.unique hn
      omega
    · exact hseen s hs k (by omega) hend

theorem descendsFrom_fault {fuel : Nat} {seen : List Text} (h : ∀ n, ¬ EndsAfter code n name) :
    descendsFrom code seen name fuel = .error .endlessInheritance := by
  induction fuel generalizing name seen with
  | zero => rfl
  | succ fuel ih =>
    obtain ⟨p, hp, hbase⟩ : ∃ p, parentOf code name = some p ∧ isNewBaseName p = false := by
      simpa [EndsAfter] using h 0
    have hup : ∀ n, ¬ EndsAfter code n p := fun n hn => h (n + 1) ⟨p, hp, hbase, hn⟩
    rw [descendsFrom]
    simp only [hp, hbase, Bool.false_eq_true, if_false]
    split
    · rfl
    · exact ih hup

theorem ancestorIsNewBase_fault_iff (hname : word.Covers name) :
    ancestorIsNewBase code name = .error .endlessInheritance ↔ ∀ n, ¬ EndsAfter code n name := by
  constructor
  · intro h n hn
    have hle := hn.le_length hname
    obtain ⟨b, hb⟩ : ∃ b, descendsFrom code [name] name (code.length + 1) = .ok b :=
      descendsFrom_returns hn (by omega) (fun s hs k hk hend => by
        have := (mem_singleton.mp hs ▸ hend).unique hn
        omega)
    rw [ancestorIsNewBase, hb] at h
    cases h
  · exact descendsFrom_fault

/-- the ancestors go on for ever iff no distance ends the search above the first of them -/
theorem endlessLineage_iff : EndlessLineage code ↔
    ∃ p, firstParent code = some p ∧ isNewBaseName p = false ∧ ∀ n, ¬ EndsAfter code n p := by
  constructor
  · intro h
    -- an end above any ancestor would be an end of the ancestors
    have no_end : ∀ n k a, ancestor code k = some a → ¬ EndsAfter code n a := by
      intro n
      induction n with
      | zero =>
        intro k a ha hend
        obtain ⟨b, hb, hbase⟩ := h (k + 1)
        rw [ancestor, ha, Option.bind_some] at hb
        exact absurd (hend b hb) (by simp [hbase])
      | succ n ih =>
        rintro k a ha ⟨b, hb, -, hend⟩
        refine ih (k + 1) b ?_ hend
        rw [ancestor, ha, Option.bind_some, hb]
    obtain ⟨p, hp, hbase⟩ := h 0
    exact ⟨p, hp, hbase, fun n => no_end n 0 p hp⟩
  · rintro ⟨p, hp, hbase, hend⟩ n
    have further : ∃ a, ancestor code n = some a ∧ isNewBaseName a = false
        ∧ ∀ k, ¬ EndsAfter code k a := by
      induction n with
      | zero => exact ⟨p, hp, hbase, hend⟩
      | succ n ih =>
        obtain ⟨a, ha, -, hna⟩ := ih
        obtain ⟨b, hb, hbbase⟩ : ∃ b, parentOf code a = some b ∧ isNewBaseName b = false := by
          simpa [EndsAfter] using hna 0
        refine ⟨b, by rw [ancestor, ha, Option.bind_some, hb], hbbase, fun k hk => ?_⟩
        exact hna (k + 1) ⟨b, hb, hbbase, hk⟩
    obtain ⟨a, ha, hb, -⟩ := further
    exact ⟨a, ha, hb⟩

theorem endless_parent_iff (hp : parentOf code name = some parent)
    (hbase : isNewBaseName parent = false) :
    (∀ n, ¬ EndsAfter code n name) ↔ ∀ n, ¬ EndsAfter code n parent := by
  constructor
  · intro h n hn
    exact h (n + 1) ⟨parent, hp, hbase, hn⟩
  · rintro h (- | n) hn
    · exact absurd (hn parent hp) (by simp [hbase])
    · obtain ⟨q, hq, -, hn⟩ := hn
      obtain rfl : parent = q := Option.some.inj (hp.symm.trans hq)
      exact h n hn

theorem inheritsNewBase_fault_iff :
    inheritsNewBase code = .error .endlessInheritance ↔ EndlessLineage code := by
  rw [endlessLineage_iff]
  unfold inheritsNewBase
  cases hm : (seq [keyword "class", word, blanks1, keyword "extends", .group 1 word]).search
    code with
  | none => simp [firstParent, hm]
  | some m =>
    have hfirst : firstParent code = some (m.group 1) := by rw [firstParent, hm]; rfl
    simp only [hfirst, Option.some.injEq, exists_eq_left']
    generalize m.group 1 = p
    cases hbase : isNewBaseName p with
    | true => simp
    | false =>
      simp only [Bool.false_eq_true, if_false, true_and]
      cases hp : parentOf code p with
      | none =>
        have hend : EndsAfter code 0 p := by simp [EndsAfter, hp]
        simp only [reduceCtorEq, false_iff, not_forall, not_not]
        exact ⟨0, hend⟩
      | some g =>
        cases hg : isNewBaseName g with
        | true =>
          have hend : EndsAfter code 0 p := by simp [EndsAfter, hp, hg]
          simp only [hg, if_true, reduceCtorEq, false_iff, not_forall, not_not]
          exact ⟨0, hend⟩
        | false =>
          simp only [hg, Bool.false_eq_true, if_false]
          rw [endless_parent_iff hp hg, ancestorIsNewBase_fault_iff (covers_parent hp)]

/-- the kind of a class stays open iff no header settles it and its ancestors go on for ever -/
theorem isNewBase_fault_iff : isNewBase code = .error .endlessInheritance ↔
    newBaseHeaders.any (·.found code) = false ∧ layoutMethod.found code = false
      ∧ EndlessLineage code := by
  unfold isNewBase
  split
  · next h =>
    simp only [reduceCtorEq, false_iff]
    rintro ⟨hh, hl, -⟩
    simp [hh, hl] at h
  · next h =>
    rw [inheritsNewBase_fault_iff]
    simp only [Bool.or_eq_true, not_or, Bool.not_eq_true] at h
    simp [h.1, h.2]

theorem isNewBase_fault {e : Fault} (h : isNewBase code = .error e) : e = .endlessInheritance := by
  have hdesc : ∀ fuel seen name e, descendsFrom code seen name fuel = .error e →
      e = .endlessInheritance := by
    intro fuel
    induction fuel with
    | zero => intro seen name e h; exact (Except.error.inj h).symm
    | succ fuel ih =>
      intro seen name e h
      rw [descendsFrom] at h
      split at h
      · cases h
      · split_ifs at h
        · exact (Except.error.inj h).symm
        · exact ih _ _ _ h
  unfold isNewBase inheritsNewBase at h
  split at h
  · cases h
  · split at h
    · cases h
    · simp only at h
      split_ifs at h
      split at h
      · split_ifs at h
        exact hdesc _ _ _ _ h
      · cases h

end

end Rebind
