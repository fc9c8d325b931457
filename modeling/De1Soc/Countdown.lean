import Mathlib.Algebra.Order.Floor.Div
import Mathlib.GroupTheory.GroupAction.Ring

/-!
# De1Soc.Countdown

A down-counter that reloads at zero.

`tick n d` is one tick of a counter that stands at `n`: at zero it takes the
reload value `d` that it is offered in that tick, otherwise it counts down.
The offered values may be different in every tick; only those offered at zero
matter.  `reloads` counts how often the counter reloads over a list of offered
values.  A reload with `d` is followed by exactly `d` ticks without one
(`length_of_silent`), and under a constant offer the reloads are evenly spaced
(`reloads_replicate`).
-/

namespace Countdown

/-- One tick: reload at zero, count down otherwise. -/
def tick (n d : Nat) : Nat := if n = 0 then d else n - 1

/-- The counter after a tick for each offered value. -/
def run (n : Nat) (ds : List Nat) : Nat := ds.foldl tick n

/-- How often the counter reloads. -/
def reloads : Nat → List Nat → Nat
  | _, [] => 0
  | n, d :: ds => (if n = 0 then 1 else 0) + reloads (tick n d) ds

theorem run_cons (n d : Nat) (ds : List Nat) : run n (d :: ds) = run (tick n d) ds := rfl

@[simp] theorem tick_zero (d : Nat) : tick 0 d = d := rfl

@[simp] theorem tick_succ (n d : Nat) : tick (n + 1) d = n := by
  rw [tick, if_neg (by omega), Nat.add_sub_cancel]

/-- Without a reload the counter goes down by one in every tick. -/
theorem run_add_length {n : Nat} {ds : List Nat} (h : reloads n ds = 0) :
    run n ds + ds.length = n := by
  induction ds generalizing n with
  | nil => rfl
  | cons d ds ih =>
      rw [reloads] at h
      cases n with
      | zero =>
          rw [if_pos rfl] at h
          omega
      | succ n =>
          rw [tick_succ] at h
          have hrest := ih (n := n) (by omega)
          rw [run_cons, tick_succ, List.length_cons]
          omega

/-- **The stretch between two reloads**: after a reload with `d`, ticks without
a reload that lead to zero are `d` ticks. -/
theorem length_of_silent {d : Nat} {ds : List Nat} (h : reloads d ds = 0) (hz : run d ds = 0) :
    ds.length = d := by
  have hlen := run_add_length h
  omega

/-- **Constant offer**: from `n` the first reload comes after `n` ticks, and
the next ones every `d + 1`. -/
theorem reloads_replicate_from (n d r : Nat) :
    reloads n (List.replicate r d) = (r - n) ⌈/⌉ (d + 1) := by
  induction r generalizing n with
  | zero => rw [Nat.zero_sub, zero_ceilDiv, List.replicate_zero, reloads]
  | succ r ih =>
      rw [List.replicate_succ, reloads, ih]
      cases n with
      | zero =>
          have hr : (r + 1 - 0 + (d + 1) - 1) / (d + 1) = r / (d + 1) + 1 := by
            rw [show r + 1 - 0 + (d + 1) - 1 = r + (d + 1) by omega,
              Nat.add_div_right _ (Nat.succ_pos d)]
          have hd : (r - d + (d + 1) - 1) / (d + 1) = r / (d + 1) := by
            by_cases hle : d ≤ r
            · rw [show r - d + (d + 1) - 1 = r by omega]
            · rw [show r - d + (d + 1) - 1 = d by omega, Nat.div_eq_of_lt (Nat.lt_succ_self d),
                Nat.div_eq_of_lt (by omega)]
          rw [if_pos rfl, tick_zero, Nat.ceilDiv_eq_add_pred_div, Nat.ceilDiv_eq_add_pred_div, hr,
            hd, Nat.add_comm]
      | succ n => rw [if_neg (by omega), tick_succ, Nat.zero_add, Nat.succ_sub_succ]

theorem reloads_replicate (d r : Nat) :
    reloads 0 (List.replicate r d) = r ⌈/⌉ (d + 1) := by
  rw [reloads_replicate_from, Nat.sub_zero]

end Countdown
