import Mathlib.Logic.Basic

/-!
# De1Soc.Mealy

Synchronous machines and what can be seen of them.

A machine steps from state to state with its inputs, and its output is a
function of the state and the input of the cycle.  Two states are `Equivalent`
when no experiment, that is no sequence of inputs, tells them apart.  A view of
the states that the steps respect and the outputs factor through contains all
that can be seen (`equivalent_of_view`); that it contains nothing else is to be
shown by experiments (`Equivalent.run`, `Equivalent.out`).
-/

namespace Mealy

/-- A synchronous machine. -/
structure Machine (σ ι ο : Type) where
  step : σ → ι → σ
  out : σ → ι → ο

variable {σ ι ο ν : Type} {M : Machine σ ι ο} {s t : σ}

namespace Machine

/-- The state behind a sequence of inputs. -/
def run (M : Machine σ ι ο) (s : σ) (is : List ι) : σ := is.foldl M.step s

/-- No experiment tells the states apart. -/
def Equivalent (M : Machine σ ι ο) (s t : σ) : Prop :=
  ∀ is i, M.out (M.run s is) i = M.out (M.run t is) i

end Machine

theorem Equivalent.symm (h : M.Equivalent s t) : M.Equivalent t s := fun is i => (h is i).symm

/-- Equivalent states show the same. -/
theorem Equivalent.out (h : M.Equivalent s t) (i : ι) : M.out s i = M.out t i := h [] i

/-- Equivalent states remain equivalent. -/
theorem Equivalent.run (h : M.Equivalent s t) (is : List ι) :
    M.Equivalent (M.run s is) (M.run t is) := by
  intro js i
  have hjoined := h (is ++ js) i
  rwa [Machine.run, Machine.run, List.foldl_append, List.foldl_append] at hjoined

/-- **A view that decides the outputs** and that the steps respect decides all
that can be seen. -/
theorem equivalent_of_view {view : σ → ν}
    (hstep : ∀ s t i, view s = view t → view (M.step s i) = view (M.step t i))
    (hout : ∀ s t i, view s = view t → M.out s i = M.out t i) (h : view s = view t) :
    M.Equivalent s t := by
  intro is
  induction is generalizing s t with
  | nil => exact fun i => hout s t i h
  | cons j is ih => exact ih (hstep s t j h)

end Mealy
