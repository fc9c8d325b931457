import Mathlib.Logic.Basic

/-!
# De1Soc.Scripts

Programs that change a state and may stop on the way.

Unlike in `Except`, the state at the stop is still there: what a program leaves
behind when it gives up can be asked for.  `Spec P m Q E` says that `m`, from a
state in `P`, ends in `Q` or stops in `E`.
-/

namespace Scripts

variable {ε σ α β : Type}

/-- A program over the states `σ` that may stop with an `ε`. -/
def Stoppable (ε σ α : Type) : Type := σ → Except ε α × σ

namespace Stoppable

instance : Monad (Stoppable ε σ) where
  pure a w := (.ok a, w)
  bind m f w :=
    match m w with
    | (.ok a, w') => f a w'
    | (.error e, w') => (.error e, w')

/-- Stop. -/
def stop (e : ε) : Stoppable ε σ α := fun w => (.error e, w)

/-- A part of the state. -/
def read (f : σ → α) : Stoppable ε σ α := fun w => (.ok (f w), w)

/-- Change the state. -/
def change (f : σ → σ) : Stoppable ε σ Unit := fun w => (.ok (), f w)

variable {m : Stoppable ε σ α} {w : σ}

@[simp] theorem pure_run (a : α) : (pure a : Stoppable ε σ α) w = (.ok a, w) := rfl

@[simp] theorem bind_run (f : α → Stoppable ε σ β) :
    (m >>= f) w =
      match m w with
      | (.ok a, w') => f a w'
      | (.error e, w') => (.error e, w') := rfl

@[simp] theorem read_run (f : σ → α) : (read f : Stoppable ε σ α) w = (.ok (f w), w) := rfl

@[simp] theorem change_run (f : σ → σ) :
    (change f : Stoppable ε σ Unit) w = (.ok (), f w) := rfl

theorem exists_run {a : α} (h : (m w).1 = .ok a) : ∃ w', m w = (.ok a, w') :=
  ⟨(m w).2, Prod.ext h rfl⟩

end Stoppable

open Stoppable

/-- From a state in `P` the program ends in `Q`, or stops in `E`. -/
def Spec (P : σ → Prop) (m : Stoppable ε σ α) (Q : α → σ → Prop) (E : σ → Prop) : Prop :=
  ∀ w, P w →
    match m w with
    | (.ok a, w') => Q a w'
    | (.error _, w') => E w'

namespace Spec

variable {P P' : σ → Prop} {Q Q' : α → σ → Prop} {E E' : σ → Prop} {m : Stoppable ε σ α}

theorem pure {a : α} (h : ∀ w, P w → Q a w) : Spec P (Pure.pure a : Stoppable ε σ α) Q E := h

theorem stop {e : ε} (h : ∀ w, P w → E w) : Spec P (Stoppable.stop e : Stoppable ε σ α) Q E := h

theorem read {f : σ → α} (h : ∀ w, P w → Q (f w) w) :
    Spec P (Stoppable.read f : Stoppable ε σ α) Q E := h

theorem change {f : σ → σ} {Q : Unit → σ → Prop} (h : ∀ w, P w → Q () (f w)) :
    Spec P (Stoppable.change f : Stoppable ε σ Unit) Q E := h

/-- One after the other. -/
theorem bind {R : β → σ → Prop} {l : Stoppable ε σ β} {f : β → Stoppable ε σ α} (hl : Spec P l R E)
    (hf : ∀ b, Spec (R b) (f b) Q E) : Spec P (l >>= f) Q E := by
  intro w hw
  have h := hl w hw
  rw [bind_run]
  cases hrun : l w with
  | mk r w' =>
      rw [hrun] at h
      cases r with
      | ok b => exact hf b w' h
      | error e => exact h

/-- Weaker before, stronger behind. -/
theorem weaken (h : Spec P' m Q' E') (hP : ∀ w, P w → P' w) (hQ : ∀ a w, Q' a w → Q a w)
    (hE : ∀ w, E' w → E w) : Spec P m Q E := by
  intro w hw
  have hm := h w (hP w hw)
  cases hrun : m w with
  | mk r w' =>
      rw [hrun] at hm
      cases r with
      | ok a => exact hQ a w' hm
      | error e => exact hE w' hm

theorem pre (h : Spec P' m Q E) (hP : ∀ w, P w → P' w) : Spec P m Q E :=
  h.weaken hP (fun _ _ hw => hw) fun _ hw => hw

theorem post (h : Spec P m Q' E) (hQ : ∀ a w, Q' a w → Q a w) : Spec P m Q E :=
  h.weaken (fun _ hw => hw) hQ fun _ hw => hw

theorem stops (h : Spec P m Q E') (hE : ∀ w, E' w → E w) : Spec P m Q E :=
  h.weaken (fun _ hw => hw) (fun _ _ hw => hw) hE

/-- Either of two conditions before. -/
theorem or (h : Spec P m Q E) (h' : Spec P' m Q E) : Spec (fun w => P w ∨ P' w) m Q E := by
  intro w hw
  cases hw with
  | inl hw => exact h w hw
  | inr hw => exact h' w hw

/-- Both of two conditions. -/
theorem and (h : Spec P m Q E) (h' : Spec P' m Q' E') :
    Spec (fun w => P w ∧ P' w) m (fun a w => Q a w ∧ Q' a w) fun w => E w ∧ E' w := by
  rintro w ⟨hw, hw'⟩
  have hm := h w hw
  have hm' := h' w hw'
  cases hrun : m w with
  | mk r w' =>
      rw [hrun] at hm hm'
      cases r with
      | ok a => exact ⟨hm, hm'⟩
      | error e => exact ⟨hm, hm'⟩

/-- What is not about the state stays. -/
theorem const (p : Prop) (m : Stoppable ε σ α) :
    Spec (fun _ => p) m (fun _ _ => p) fun _ => p := by
  intro w hp
  cases m w with
  | mk r w' =>
      cases r with
      | ok a => exact hp
      | error e => exact hp

/-- So does a fact that was there before. -/
theorem keep {p : Prop} (h : Spec P m Q E) :
    Spec (fun w => P w ∧ p) m (fun a w => Q a w ∧ p) E :=
  (h.and (const p m)).stops fun _ hw => hw.1

/-- **Loops**, with an invariant about the part that is done. -/
theorem forM {I : List β → σ → Prop} {xs : List β} {body : β → Stoppable ε σ Unit}
    (h : ∀ done x rest, xs = done ++ x :: rest →
      Spec (I done) (body x) (fun _ => I (done ++ [x])) E) :
    Spec (I []) (xs.forM body) (fun _ => I xs) E := by
  suffices hrest : ∀ rest done, xs = done ++ rest →
      Spec (I done) (rest.forM body) (fun _ => I xs) E from hrest xs [] rfl
  intro rest
  induction rest with
  | nil =>
      rintro done rfl
      rw [List.append_nil]
      exact pure fun _ hw => hw
  | cons x rest ih =>
      intro done hxs
      exact bind (h done x rest hxs) fun _ => ih (done ++ [x]) (by rw [hxs, List.append_assoc]; rfl)

end Spec

end Scripts
