import Mathlib
import Rebind.Note

/-!
# Outcomes

What a computation that may stop with a fault gives, apart from its notes:

* `ok_bind`, `error_bind`, `bind_eq_ok`: one step after another;
* `Returns`, `returns_bind_iff`, `foldlM_returns_iff`: whether there is a result;
* `mapM_ok`, `foldlM_ok`, `filterM_map_ok`, `forM_ok`: loops whose steps all return are plain loops;
* `foldlM_inv`: what every step of a loop keeps, the loop keeps;
* `Step.outcome`: a step without its notes, with one equation for each way
  steps are put together.
-/

namespace Rebind

open List

section
variable {ε α β γ : Type}

@[simp] theorem ok_bind (a : α) (f : α → Except ε β) : (Except.ok a >>= f) = f a := rfl

@[simp] theorem error_bind (e : ε) (f : α → Except ε β) : (Except.error e >>= f) = .error e := rfl

@[simp] theorem pure_eq_ok (a : α) : (pure a : Except ε α) = .ok a := rfl

theorem bind_eq_ok {x : Except ε α} {f : α → Except ε β} {b : β} :
    (x >>= f) = .ok b ↔ ∃ a, x = .ok a ∧ f a = .ok b := by
  cases x with
  | error e => simp
  | ok a => simp

/-- the computation returns a result -/
def Returns (x : Except ε α) : Prop := ∃ a, x = .ok a

theorem returns_ok (a : α) : Returns (.ok a : Except ε α) := ⟨a, rfl⟩

theorem not_returns_error (e : ε) : ¬ Returns (.error e : Except ε α) := by
  rintro ⟨a, h⟩
  cases h

theorem exists_ok_of_check {x : Except ε α} {P : α → Prop} [DecidablePred P]
    (h : x.toOption.map (fun a => decide (P a)) = some true) : ∃ a, x = .ok a ∧ P a := by
  cases x with
  | error e => cases h
  | ok a => exact ⟨a, rfl, by simpa [Except.toOption] using h⟩

theorem Returns.bind {x : Except ε α} {f : α → Except ε β} (hx : Returns x)
    (hf : ∀ a, Returns (f a)) : Returns (x >>= f) := by
  obtain ⟨a, rfl⟩ := hx
  exact hf a

/-- two steps of which the second returns or not whatever the first gives -/
theorem returns_bind_iff {x : Except ε α} {f : α → Except ε β} {Q : Prop}
    (hf : ∀ a, Returns (f a) ↔ Q) : Returns (x >>= f) ↔ Returns x ∧ Q := by
  constructor
  · rintro ⟨b, h⟩
    obtain ⟨a, ha, hb⟩ := bind_eq_ok.mp h
    exact ⟨⟨a, ha⟩, (hf a).mp ⟨b, hb⟩⟩
  · rintro ⟨hx, hq⟩
    exact hx.bind (fun a => (hf a).mpr hq)

theorem returns_bind_total {x : Except ε α} {f : α → Except ε β} (hf : ∀ a, Returns (f a)) :
    Returns (x >>= f) ↔ Returns x := by
  rw [returns_bind_iff (fun a => iff_of_true (hf a) trivial), and_true]

theorem mapM_ok {l : List α} {f : α → Except ε β} {g : α → β} (h : ∀ a ∈ l, f a = .ok (g a)) :
    l.mapM f = .ok (l.map g) := by
  induction l with
  | nil => rfl
  | cons a l ih =>
    rw [mapM_cons, h a mem_cons_self, ih (fun x hx => h x (mem_cons_of_mem _ hx))]
    rfl

theorem forM_ok {l : List α} {f : α → Except ε PUnit.{1}} (h : ∀ a ∈ l, f a = .ok ⟨⟩) :
    l.forM f = .ok ⟨⟩ := by
  induction l with
  | nil => rfl
  | cons a l ih =>
    show (f a >>= fun _ => l.forM f) = _
    rw [h a mem_cons_self, ok_bind, ih (fun x hx => h x (mem_cons_of_mem _ hx))]

theorem foldlM_ok {l : List α} {f : β → α → Except ε β} {g : β → α → β}
    (h : ∀ b, ∀ a ∈ l, f b a = .ok (g b a)) (b : β) : l.foldlM f b = .ok (l.foldl g b) := by
  induction l generalizing b with
  | nil => rfl
  | cons a l ih =>
    rw [foldlM_cons, h b a mem_cons_self, ok_bind,
      ih (fun b x hx => h b x (mem_cons_of_mem _ hx)), foldl_cons]

theorem filterM_map_ok {e : γ → α} {l : List γ} {f : α → Except ε Bool} {g : γ → Bool}
    (h : ∀ c ∈ l, f (e c) = .ok (g c)) : (l.map e).filterM f = .ok ((l.filter g).map e) := by
  -- the loop carries the items kept so far, latest first
  have aux : ∀ (l : List γ) (kept : List α), (∀ c ∈ l, f (e c) = .ok (g c)) →
      filterAuxM f (l.map e) kept = .ok (((l.filter g).map e).reverse ++ kept) := by
    intro l
    induction l with
    | nil => intro kept _; rfl
    | cons c l ih =>
      intro kept h
      rw [map_cons, filterAuxM, h c mem_cons_self, ok_bind,
        ih _ (fun x hx => h x (mem_cons_of_mem _ hx))]
      cases hg : g c <;> simp [hg]
  rw [filterM, aux l [] h]
  simp

/-- a loop returns iff each item lets its step return -/
theorem foldlM_returns_iff {f : β → α → Except ε β} {P : α → Prop} {l : List α}
    (h : ∀ b, ∀ a ∈ l, (Returns (f b a) ↔ P a)) (b : β) :
    Returns (l.foldlM f b) ↔ ∀ a ∈ l, P a := by
  induction l generalizing b with
  | nil => simp [Returns]
  | cons a l ih =>
    have hl := ih (fun b x hx => h b x (mem_cons_of_mem _ hx))
    rw [foldlM_cons, forall_mem_cons, ← h b a mem_cons_self]
    constructor
    · rintro ⟨r, hr⟩
      obtain ⟨b', h1, h2⟩ := bind_eq_ok.mp hr
      exact ⟨⟨b', h1⟩, (hl b').mp ⟨r, h2⟩⟩
    · rintro ⟨h1, h2⟩
      exact h1.bind (fun b' => (hl b').mpr h2)

theorem foldlM_returns {f : β → α → Except ε β} {l : List α} (h : ∀ b, ∀ a ∈ l, Returns (f b a))
    (b : β) : Returns (l.foldlM f b) :=
  (foldlM_returns_iff (P := fun _ => True) (fun b a ha => iff_of_true (h b a ha) trivial) b).mpr
    (fun _ _ => trivial)

/-- what every step of a loop keeps, the loop keeps -/
theorem foldlM_inv (P : β → Prop) {f : β → α → Except ε β} {l : List α}
    (step : ∀ b, ∀ a ∈ l, ∀ b', P b → f b a = .ok b' → P b') {b r : β} (hb : P b)
    (h : l.foldlM f b = .ok r) : P r := by
  induction l generalizing b with
  | nil =>
    rw [foldlM_nil, pure_eq_ok] at h
    exact Except.ok.inj h ▸ hb
  | cons a l ih =>
    rw [foldlM_cons] at h
    obtain ⟨b', h1, h2⟩ := bind_eq_ok.mp h
    exact ih (fun b x hx => step b x (mem_cons_of_mem _ hx))
      (step b a mem_cons_self b' hb h1) h2

end

/-! ## steps without their notes -/

def Step.outcome {α : Type} (x : Step α) : Except Fault α := x.run.value

namespace Step

variable {α β : Type}

@[simp] theorem outcome_pure (a : α) : outcome (pure a : Step α) = .ok a := rfl

@[simp] theorem outcome_bind (x : Step α) (f : α → Step β) :
    outcome (x >>= f) = outcome x >>= fun a => outcome (f a) := by
  show (ExceptT.run (x >>= f)).value = _
  rw [ExceptT.run_bind]
  show Traced.value (x.run >>= _) = _
  rw [Traced.value_bind]
  unfold outcome
  cases x.run.value <;> rfl

end Step

end Rebind
