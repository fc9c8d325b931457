import Mathlib.Data.List.Forall2

/-!
# De1Soc.Loops

Loops that may fail, as folds into `Except`.

`foldlM_eq_ok_iff` is the rule for a loop whose body accepts an item in one way:
the loop succeeds exactly when the body accepts every item, and then it has
folded what the items stand for.
-/

namespace Loops

variable {ε σ α β : Type}

/-- A sequence succeeds when both of its parts do. -/
theorem bind_eq_ok {x : Except ε α} {f : α → Except ε β} {b : β} :
    (x >>= f) = .ok b ↔ ∃ a, x = .ok a ∧ f a = .ok b := by
  cases x with
  | error e =>
      constructor
      · intro h
        contradiction
      · rintro ⟨a, ha, _⟩
        contradiction
  | ok a =>
      constructor
      · intro h
        exact ⟨a, rfl, h⟩
      · rintro ⟨a', ha, h⟩
        obtain rfl := Except.ok.inj ha
        exact h

/-- **A loop succeeds when its body accepts every item.**  `R a b`: the item `a`
is accepted and stands for `b`; `g` is what the body then does. -/
theorem foldlM_eq_ok_iff {f : σ → α → Except ε σ} {R : α → β → Prop} {g : σ → β → σ}
    (hf : ∀ s a s', f s a = .ok s' ↔ ∃ b, R a b ∧ g s b = s') {as : List α} {s s' : σ} :
    as.foldlM f s = .ok s' ↔ ∃ bs, List.Forall₂ R as bs ∧ bs.foldl g s = s' := by
  induction as generalizing s with
  | nil =>
      constructor
      · intro h
        exact ⟨[], .nil, Except.ok.inj h⟩
      · rintro ⟨bs, hall, rfl⟩
        cases hall with
        | nil => rfl
  | cons a as ih =>
      rw [List.foldlM_cons, bind_eq_ok]
      constructor
      · rintro ⟨s₁, hstep, hrest⟩
        obtain ⟨b, hab, rfl⟩ := (hf s a s₁).mp hstep
        obtain ⟨bs, hall, rfl⟩ := ih.mp hrest
        exact ⟨b :: bs, .cons hab hall, rfl⟩
      · rintro ⟨bs, hall, rfl⟩
        cases hall with
        | cons hab hall => exact ⟨_, (hf s a _).mpr ⟨_, hab, rfl⟩, ih.mpr ⟨_, hall, rfl⟩⟩

end Loops
