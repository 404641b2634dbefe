import Mathlib
import Rebind.Proofs.Injection.Lineage

/-!
# What the search among the ancestors answers

The search for a base that calls the initialisers goes from a class to its declared parent, and
nothing but the end of the ancestors stops it.  `Climbs code name b` and `Concludes code b` are its
rules, without a bound on the number of classes that are passed: a search that goes on for ever has
no answer `b`.

* `ancestorIsNewBase_eq_ok_iff`, `inheritsNewBase_eq_ok_iff`: the search gives the answers of these
  rules;
* `Concludes.answer`: the answer, read off the ancestors;
* `endlessLineage_iff_recurs`: ancestors go on for ever iff one of them comes back, since each has a
  declaration of its own in the text.

`inheritsNewBase_exact` puts them together.
-/

namespace Rebind

open Pattern

/-- the search above the class `name` comes to the answer `b` -/
inductive Climbs (code : Text) : Text → Bool → Prop
  | top {name : Text} (h : parentOf code name = none) : Climbs code name false
  | base {name p : Text} (h : parentOf code name = some p) (hp : isNewBaseName p) :
    Climbs code name true
  | up {name p : Text} {b : Bool} (h : parentOf code name = some p) (hp : isNewBaseName p = false)
      (hb : Climbs code p b) : Climbs code name b

/-- the search from the first class that names a parent comes to the answer `b` -/
inductive Concludes (code : Text) : Bool → Prop
  | parentless (h : firstParent code = none) : Concludes code false
  | parent {p : Text} (h : firstParent code = some p) (hp : isNewBaseName p) : Concludes code true
  | undeclared {p : Text} (h : firstParent code = some p) (hp : isNewBaseName p = false)
      (hg : parentOf code p = none) : Concludes code (commonBases.contains p)
  | grandparent {p g : Text} (h : firstParent code = some p) (hp : isNewBaseName p = false)
      (hg : parentOf code p = some g) (hbase : isNewBaseName g) : Concludes code true
  | further {p g : Text} {b : Bool} (h : firstParent code = some p) (hp : isNewBaseName p = false)
      (hg : parentOf code p = some g) (hbase : isNewBaseName g = false) (hb : Climbs code g b) :
      Concludes code b

section
variable {code name : Text} {b : Bool}

/-! ## the answers of the search -/

theorem Climbs.unique {b' : Bool} (h : Climbs code name b) (h' : Climbs code name b') : b = b' := by
  induction h with
  | top hp =>
    cases h' with
    | top _ => rfl
    | base hp' _ => simp [hp] at hp'
    | up hp' _ _ => simp [hp] at hp'
  | base hp hbase =>
    cases h' with
    | top hp' => simp [hp] at hp'
    | base _ _ => rfl
    | up hp' hbase' _ =>
      obtain rfl := Option.some.inj (hp.symm.trans hp')
      simp [hbase] at hbase'
  | up hp hbase _ ih =>
    cases h' with
    | top hp' => simp [hp] at hp'
    | base hp' hbase' =>
      obtain rfl := Option.some.inj (hp.symm.trans hp')
      simp [hbase] at hbase'
    | up hp' _ hb' =>
      obtain rfl := Option.some.inj (hp.symm.trans hp')
      exact ih hb'

theorem exists_climbs_iff : (∃ b, Climbs code name b) ↔ ∃ n, EndsAfter code n name := by
  constructor
  · rintro ⟨b, h⟩
    induction h with
    | top hp => exact ⟨0, fun p hp' => by simp [hp] at hp'⟩
    | base hp hbase => exact ⟨0, fun p hp' => Option.some.inj (hp.symm.trans hp') ▸ hbase⟩
    | up hp hbase _ ih =>
      obtain ⟨n, hn⟩ := ih
      exact ⟨n + 1, _, hp, hbase, hn⟩
  · rintro ⟨n, hn⟩
    induction n generalizing name with
    | zero =>
      cases hp : parentOf code name with
      | none => exact ⟨false, .top hp⟩
      | some p => exact ⟨true, .base hp (hn p hp)⟩
    | succ n ih =>
      obtain ⟨p, hp, hbase, hend⟩ := hn
      obtain ⟨b, hb⟩ := ih hend
      exact ⟨b, .up hp hbase hb⟩

theorem climbs_of_descendsFrom {seen : List Text} {fuel : Nat}
    (h : descendsFrom code seen name fuel = .ok b) : Climbs code name b := by
  induction fuel generalizing seen name with
  | zero => cases h
  | succ fuel ih =>
    rw [descendsFrom] at h
    split at h
    · next hp =>
      obtain rfl := Except.ok.inj h
      exact .top hp
    · next p hp =>
      split_ifs at h with hbase hseen
      · obtain rfl := Except.ok.inj h
        exact .base hp hbase
      · exact .up hp (by simpa using hbase) (ih h)

theorem ancestorIsNewBase_eq_ok_iff (hname : word.Covers name) :
    ancestorIsNewBase code name = .ok b ↔ Climbs code name b := by
  constructor
  · exact climbs_of_descendsFrom
  · intro h
    obtain ⟨n, hn⟩ := exists_climbs_iff.mp ⟨b, h⟩
    -- no class on the way is met twice, and the text bounds their number
    obtain ⟨b', hb'⟩ : ∃ b', ancestorIsNewBase code name = .ok b' := by
      have hle := hn.le_length hname
      refine descendsFrom_returns hn (by omega) (fun s hs k hk hend => ?_)
      have := (List.mem_singleton.mp hs ▸ hend).unique hn
      omega
    rw [hb', h.unique (climbs_of_descendsFrom hb')]

theorem inheritsNewBase_eq : inheritsNewBase code = match firstParent code with
    | none => .ok false
    | some p =>
      if isNewBaseName p then .ok true
      else match parentOf code p with
        | some g => if isNewBaseName g then .ok true else ancestorIsNewBase code g
        | none => .ok (commonBases.contains p) := by
  unfold inheritsNewBase firstParent
  cases (seq [keyword "class", word, blanks1, keyword "extends", .group 1 word]).search code <;> rfl

theorem inheritsNewBase_eq_ok_iff : inheritsNewBase code = .ok b ↔ Concludes code b := by
  rw [inheritsNewBase_eq]
  constructor
  · intro h
    cases hfirst : firstParent code with
    | none =>
      obtain rfl : false = b := by simpa [hfirst] using h
      exact .parentless hfirst
    | some p =>
      simp only [hfirst] at h
      split_ifs at h with hp
      · obtain rfl := Except.ok.inj h
        exact .parent hfirst hp
      · have hp' : isNewBaseName p = false := by simpa using hp
        cases hg : parentOf code p with
        | none =>
          obtain rfl : commonBases.contains p = b := by simpa [hg] using h
          exact .undeclared hfirst hp' hg
        | some g =>
          simp only [hg] at h
          split_ifs at h with hbase
          · obtain rfl := Except.ok.inj h
            exact .grandparent hfirst hp' hg hbase
          · exact .further hfirst hp' hg (by simpa using hbase)
              ((ancestorIsNewBase_eq_ok_iff (covers_parent hg)).mp h)
  · rintro (hfirst | ⟨hfirst, hp⟩ | ⟨hfirst, hp, hg⟩ | ⟨hfirst, hp, hg, hbase⟩
      | ⟨hfirst, hp, hg, hbase, hb⟩)
    · simp [hfirst]
    · simp [hfirst, hp]
    · simp [hfirst, hp, hg]
    · simp [hfirst, hp, hg, hbase]
    · simpa [hfirst, hp, hg, hbase] using (ancestorIsNewBase_eq_ok_iff (covers_parent hg)).mpr hb

theorem Concludes.cases_declared (h : Concludes code b) :
    (firstParent code = none ∧ b = false)
      ∨ ∃ p, firstParent code = some p ∧ ((isNewBaseName p ∧ b)
        ∨ isNewBaseName p = false ∧ parentOf code p = none ∧ b = commonBases.contains p
        ∨ isNewBaseName p = false ∧ (parentOf code p).isSome ∧ Climbs code p b) := by
  rcases h with hfirst | ⟨hfirst, hp⟩ | ⟨hfirst, hp, hg⟩ | ⟨hfirst, hp, hg, hbase⟩
    | ⟨hfirst, hp, hg, hbase, hb⟩
  · exact .inl ⟨hfirst, rfl⟩
  · exact .inr ⟨_, hfirst, .inl ⟨hp, rfl⟩⟩
  · exact .inr ⟨_, hfirst, .inr (.inl ⟨hp, hg, rfl⟩)⟩
  · exact .inr ⟨_, hfirst, .inr (.inr ⟨hp, by simp [hg], .base hg hbase⟩)⟩
  · exact .inr ⟨_, hfirst, .inr (.inr ⟨hp, by simp [hg], .up hg hbase hb⟩)⟩

theorem exists_concludes_iff : (∃ b, Concludes code b) ↔ ¬ EndlessLineage code := by
  rw [← inheritsNewBase_fault_iff]
  constructor
  · rintro ⟨b, hb⟩ hfault
    rw [inheritsNewBase_eq_ok_iff.mpr hb] at hfault
    cases hfault
  · intro hreturns
    rw [inheritsNewBase_fault_iff, endlessLineage_iff] at hreturns
    cases hfirst : firstParent code with
    | none => exact ⟨false, .parentless hfirst⟩
    | some p =>
      cases hp : isNewBaseName p with
      | true => exact ⟨true, .parent hfirst hp⟩
      | false =>
        obtain ⟨b, hb⟩ : ∃ b, Climbs code p b := exists_climbs_iff.mpr (by
          by_contra hend
          exact hreturns ⟨p, hfirst, hp, fun n hn => hend ⟨n, hn⟩⟩)
        cases hb with
        | top hg => exact ⟨_, .undeclared hfirst hp hg⟩
        | base hg hbase => exact ⟨true, .grandparent hfirst hp hg hbase⟩
        | up hg hbase hb => exact ⟨b, .further hfirst hp hg hbase hb⟩

/-! ## the answer and the ancestors -/

/-- an ancestor of the first class that names a parent is a base that calls the initialisers -/
def HasNewBase (code : Text) : Prop := ∃ n a, ancestor code n = some a ∧ isNewBaseName a = true

theorem ancestor_succ {n : Nat} (h : ancestor code n = some name) :
    ancestor code (n + 1) = parentOf code name := by
  rw [ancestor, h, Option.bind_some]

theorem ancestor_eq_none {n m : Nat} (h : ancestor code n = none) (hle : n ≤ m) :
    ancestor code m = none := by
  induction m, hle using Nat.le_induction with
  | base => exact h
  | succ m _ ih => rw [ancestor, ih, Option.bind_none]

theorem Climbs.answer {k : Nat} (h : Climbs code name b) (hk : ancestor code k = some name) :
    b = true ↔ ∃ n a, k < n ∧ ancestor code n = some a ∧ isNewBaseName a := by
  induction h generalizing k with
  | top hp =>
    have hnone : ancestor code (k + 1) = none := (ancestor_succ hk).trans hp
    simp only [Bool.false_eq_true, false_iff]
    rintro ⟨n, a, hn, ha, -⟩
    rw [ancestor_eq_none hnone hn] at ha
    cases ha
  | base hp hbase => exact iff_of_true rfl ⟨k + 1, _, by omega, (ancestor_succ hk).trans hp, hbase⟩
  | up hp hbase _ ih =>
    have hnext := (ancestor_succ hk).trans hp
    rw [ih hnext]
    constructor
    · rintro ⟨n, a, hn, h⟩
      exact ⟨n, a, by omega, h⟩
    · rintro ⟨n, a, hn, ha, hnew⟩
      rcases Nat.eq_or_lt_of_le hn with rfl | hlt
      · obtain rfl := Option.some.inj (hnext.symm.trans ha)
        rw [hbase] at hnew
        cases hnew
      · exact ⟨n, a, hlt, ha, hnew⟩

/-- the search answers whether such a base is among the ancestors, and takes some undeclared parents
for one -/
theorem Concludes.answer (h : Concludes code b) : b
    ↔ HasNewBase code ∨ ∃ p, firstParent code = some p ∧ parentOf code p = none
      ∧ p ∈ commonBases := by
  rcases h.cases_declared with ⟨hfirst, rfl⟩
    | ⟨p, hfirst, ⟨hp, rfl⟩ | ⟨hp, hg, rfl⟩ | ⟨hp, hg, hb⟩⟩
  · refine iff_of_false (by simp) ?_
    rintro (⟨n, a, ha, -⟩ | ⟨p, hp, -⟩)
    · rw [ancestor_eq_none (n := 0) hfirst (Nat.zero_le n)] at ha
      cases ha
    · rw [hfirst] at hp
      cases hp
  · exact iff_of_true rfl (.inl ⟨0, p, hfirst, hp⟩)
  · have hnone : ancestor code 1 = none := (ancestor_succ (n := 0) hfirst).trans hg
    have hno : ¬ HasNewBase code := by
      rintro ⟨n, a, ha, hnew⟩
      cases n with
      | zero =>
        obtain rfl := Option.some.inj (hfirst.symm.trans ha)
        rw [hp] at hnew
        cases hnew
      | succ n =>
        rw [ancestor_eq_none hnone (by omega)] at ha
        cases ha
    simp [hno, hfirst, hg]
  · rw [hb.answer (k := 0) hfirst]
    constructor
    · rintro ⟨n, a, -, h⟩
      exact .inl ⟨n, a, h⟩
    · rintro (⟨n, a, ha, hnew⟩ | ⟨q, hq, hnone, -⟩)
      · refine ⟨n, a, Nat.pos_of_ne_zero ?_, ha, hnew⟩
        rintro rfl
        obtain rfl := Option.some.inj (hfirst.symm.trans ha)
        rw [hp] at hnew
        cases hnew
      · obtain rfl := Option.some.inj (hfirst.symm.trans hq)
        simp [hnone] at hg

/-! ## ancestors that come back -/

/-- one of the ancestors comes back -/
def Recurs (code : Text) : Prop := ∃ i j, i < j ∧ ancestor code i = ancestor code j
    ∧ (ancestor code j).isSome

theorem covers_firstParent {p : Text} (h : firstParent code = some p) : word.Covers p :=
  covers_extended (by simp [word, run1, HasGroup]) h

theorem covers_ancestor {n : Nat} (h : ancestor code n = some name) : word.Covers name := by
  cases n with
  | zero => exact covers_firstParent h
  | succ n =>
    obtain ⟨a, -, hp⟩ := Option.bind_eq_some_iff.mp h
    exact covers_parent hp

theorem recurs_of_endless (h : ∀ n, (ancestor code n).isSome) : Recurs code := by
  choose name hname using fun n => Option.isSome_iff_exists.mp (h n)
  have hplace : ∀ n, ∃ k < code.length, nameAt code k = name n := fun n =>
    exists_nameAt (covers_ancestor (hname n)) ((ancestor_succ (hname n)).symm.trans (hname (n + 1)))
  choose place hlt hat using hplace
  obtain ⟨i, j, hne, hij⟩ := Finite.exists_ne_map_eq_of_infinite
    (fun n => (⟨place n, hlt n⟩ : Fin code.length))
  have hsame : ancestor code i = ancestor code j := by
    rw [hname i, hname j, ← hat i, ← hat j, show place i = place j from congrArg Fin.val hij]
  rcases Nat.lt_or_gt_of_ne hne with hlt' | hlt'
  · exact ⟨i, j, hlt', hsame, h j⟩
  · exact ⟨j, i, hlt', hsame.symm, h i⟩

theorem Recurs.endless (h : Recurs code) (n : Nat) : (ancestor code n).isSome := by
  obtain ⟨i, j, hij, hsame, hj⟩ := h
  have hshift : ∀ d, ancestor code (i + d) = ancestor code (j + d) := by
    intro d
    induction d with
    | zero => exact hsame
    | succ d ih =>
      rw [← Nat.add_assoc, ← Nat.add_assoc, ancestor, ancestor, ih]
  induction n using Nat.strong_induction_on with
  | _ n ih =>
    by_cases hn : n ≤ j
    · by_contra hnone
      rw [ancestor_eq_none (by simpa using hnone) hn] at hj
      cases hj
    · have hd := hshift (n - j)
      rw [Nat.add_sub_cancel' (by omega : j ≤ n)] at hd
      rw [← hd]
      exact ih _ (by omega)

theorem endlessLineage_iff_recurs : EndlessLineage code ↔ Recurs code ∧ ¬ HasNewBase code := by
  constructor
  · intro h
    refine ⟨recurs_of_endless (fun n => ?_), ?_⟩
    · obtain ⟨a, ha, -⟩ := h n
      simp [ha]
    · rintro ⟨n, a, ha, hnew⟩
      obtain ⟨a', ha', hbase⟩ := h n
      obtain rfl := Option.some.inj (ha.symm.trans ha')
      rw [hnew] at hbase
      cases hbase
  · rintro ⟨hrecurs, hno⟩ n
    obtain ⟨a, ha⟩ := Option.isSome_iff_exists.mp (hrecurs.endless n)
    exact ⟨a, ha, by simpa using fun hnew => hno ⟨n, a, ha, hnew⟩⟩

/-- the search goes on for ever, which the fault says, iff the ancestors do and none of them is a
base that calls the initialisers; that is so iff an ancestor comes back.  In all other cases it
answers whether there is such a base, or a parent without a declaration that is taken to descend
from one; without a parent it answers no -/
theorem inheritsNewBase_exact (code : Text) :
    (inheritsNewBase code = .error .endlessInheritance ↔ EndlessLineage code)
    ∧ (EndlessLineage code ↔ ∀ b, ¬ Concludes code b)
    ∧ (EndlessLineage code ↔ Recurs code ∧ ¬ HasNewBase code)
    ∧ (∀ b, inheritsNewBase code = .ok b ↔ ¬ EndlessLineage code ∧ (b = true ↔ HasNewBase code
      ∨ ∃ p, firstParent code = some p ∧ parentOf code p = none ∧ p ∈ commonBases))
    ∧ (firstParent code = none → inheritsNewBase code = .ok false) := by
  refine ⟨inheritsNewBase_fault_iff, ?_, endlessLineage_iff_recurs, fun b => ⟨fun h => ?_, ?_⟩,
    fun h => ?_⟩
  · rw [← not_exists, exists_concludes_iff, not_not]
  · have hb := inheritsNewBase_eq_ok_iff.mp h
    exact ⟨exists_concludes_iff.mp ⟨b, hb⟩, hb.answer⟩
  · rintro ⟨hends, hanswer⟩
    obtain ⟨b', hb'⟩ := exists_concludes_iff.mpr hends
    have hsame : b = b' := Bool.eq_iff_iff.mpr (hanswer.trans hb'.answer.symm)
    exact inheritsNewBase_eq_ok_iff.mpr (hsame ▸ hb')
  · exact inheritsNewBase_eq_ok_iff.mpr (.parentless h)

end

def orphanClass : Text := "public class A implements B \x7b\n\x7d\n"

theorem inheritsNewBase_orphanClass :
    firstParent orphanClass = none ∧ inheritsNewBase orphanClass = .ok false := by
  have h : firstParent orphanClass = none := by decide +kernel
  exact ⟨h, (inheritsNewBase_exact orphanClass).2.2.2.2 h⟩

/-- two classes that are each other's parents, behind a third -/
example :
    inheritsNewBase
      "class A extends B \x7b\x7d class B extends C \x7b\x7d class C extends B \x7b\x7d"
    = .error .endlessInheritance := by
  decide +kernel

end Rebind
