import De1Soc.Blinker.Shift
import De1Soc.Prefix

/-!
# De1Soc.Blinker.Leds

The LED pattern as a function of the number of advances.

`position` counts the advances since the last reset modulo 14
(`position_eq_steps`).  In sweep mode the table of the leds manager then has
one LED lit, which walks up to the end of the row and back (`sweep`); in blink
mode the LEDs are inverted with every advance, 14 being even.  A cycle that is
no advance leaves the number as it is, whatever its pins carry.
-/

namespace De1Soc

namespace Blinker

/-- The cycles since the last reset. -/
def sinceReset (cs : List Cycle) : List Cycle := cs.rtakeWhile fun c => !c.reset

/-- The advances of `position` since the last reset, in a trace that starts in
the reset state. -/
def steps (cs : List Cycle) : Nat := reset.advanceCount (sinceReset cs)

/-- The index of the lit LED after `a` advances. -/
def sweep (a : Nat) : Nat := if a % 14 ≤ 7 then a % 14 else 14 - a % 14

/-! ## The position -/

theorem reset_of_mem_sinceReset {cs : List Cycle} : ∀ c ∈ sinceReset cs, c.reset = false := by
  intro c hc
  simpa using List.mem_rtakeWhile_imp hc

theorem run_sinceReset (cs : List Cycle) : reset.run cs = reset.run (sinceReset cs) := by
  refine List.foldl_eq_foldl_rtakeWhile (fun s c hc => ?_) cs
  have hreset : c.reset = true := by simpa using hc
  rw [clk, if_pos hreset]

/-- An advance is a step modulo 14. -/
theorem position_clk_of_advances {s : Blinker} {c : Cycle} (h : s.Advances c)
    (hp : s.position.toNat < 14) : (s.clk c).position.toNat = (s.position.toNat + 1) % 14 := by
  obtain ⟨hr, hrun, h0⟩ := advances_iff.mp h
  have hpos : (s.clk c).position = if s.position = 13 then 0 else s.position + 1 := by
    simp [clk, hr, shiftPosition, hrun, h0]
  rw [hpos]
  split
  · next h13 =>
      rw [h13]
      rfl
  · next h13 => bv_omega

theorem position_run {s : Blinker} {cs : List Cycle} (h : ∀ c ∈ cs, c.reset = false)
    (hp : s.position.toNat < 14) :
    (s.run cs).position.toNat = (s.position.toNat + s.advanceCount cs) % 14 := by
  induction cs generalizing s with
  | nil => exact (Nat.mod_eq_of_lt hp).symm
  | cons c cs ih =>
      rw [List.forall_mem_cons] at h
      rw [run_cons, advanceCount]
      by_cases hadv : s.Advances c
      · have hstep := position_clk_of_advances hadv hp
        rw [ih h.2 (by omega), hstep, if_pos hadv]
        omega
      · have hstay : (s.clk c).position = s.position := by
          by_contra hne
          exact hadv ⟨h.1, hne⟩
        rw [ih h.2 (by rwa [hstay]), hstay, if_neg hadv, Nat.zero_add]

/-- **`position` counts the advances modulo 14.** -/
theorem position_eq_steps (cs : List Cycle) : (reset.run cs).position.toNat = steps cs % 14 := by
  rw [run_sinceReset, position_run reset_of_mem_sinceReset (by decide), steps]
  rw [show reset.position.toNat = 0 from rfl, Nat.zero_add]

theorem advanceCount_append (s : Blinker) (cs ds : List Cycle) :
    s.advanceCount (cs ++ ds) = s.advanceCount cs + (s.run cs).advanceCount ds := by
  induction cs generalizing s with
  | nil => rw [List.nil_append, run_nil, advanceCount, Nat.zero_add]
  | cons c cs ih => rw [List.cons_append, advanceCount, advanceCount, ih, run_cons, Nat.add_assoc]

/-- One more cycle: it is an advance or leaves the number of advances. -/
theorem steps_snoc (cs : List Cycle) {c : Cycle} (h : c.reset = false) :
    steps (cs ++ [c]) =
      steps cs + if (reset.run cs).running = true ∧ (reset.run cs).count = 0 then 1 else 0 := by
  have hsnoc : sinceReset (cs ++ [c]) = sinceReset cs ++ [c] :=
    List.rtakeWhile_concat_pos _ _ _ (by simp [h])
  rw [steps, hsnoc, advanceCount_append, ← run_sinceReset, advanceCount, advanceCount, steps,
    Nat.add_zero]
  simp only [advances_iff, h, true_and]

/-! ## The LEDs -/

/-- The lit LED moves by one place with every advance. -/
theorem sweep_succ (a : Nat) : sweep (a + 1) = sweep a + 1 ∨ sweep a = sweep (a + 1) + 1 := by
  unfold sweep
  split <;> split <;> omega

theorem sweep_le (a : Nat) : sweep a ≤ 7 := by
  unfold sweep
  split <;> omega

/-- In sweep mode one LED is lit. -/
theorem leds_of_sweep {s : Blinker} (c : Cycle) {a : Nat} (hm : s.mode = false)
    (hp : s.position.toNat = a % 14) :
    ∀ i < 8, ((s.leds c).getLsbD i = true ↔ i = sweep a) := by
  have hpos : s.position = BitVec.ofNat 4 (a % 14) := by
    rw [← hp, BitVec.ofNat_toNat, BitVec.setWidth_eq]
  have hlt : a % 14 < 14 := Nat.mod_lt _ (by omega)
  rw [leds, if_pos hm, hpos, sweep]
  generalize a % 14 = p at hlt ⊢
  revert p
  decide

/-- In blink mode the LEDs are the switches or their complement. -/
theorem leds_of_blink {s : Blinker} (c : Cycle) {a : Nat} (hm : s.mode = true)
    (hp : s.position.toNat = a % 14) :
    s.leds c = if a % 2 = 0 then c.switches else ~~~c.switches := by
  have hbit : s.position[0] = decide (a % 2 = 1) := by
    rw [← BitVec.getLsbD_eq_getElem, BitVec.getLsbD, Nat.testBit_zero, hp]
    rw [show a % 14 % 2 = a % 2 by omega]
  rw [leds, if_neg (by simp [hm]), hbit]
  by_cases heven : a % 2 = 0
  · rw [if_pos heven, if_pos (by simp [heven])]
  · rw [if_neg heven, if_neg (by simp; omega)]

/-- **The LED pattern**, along every trace from reset, as a function of the
number of advances since the last reset. -/
theorem leds_pattern (cs : List Cycle) (c : Cycle) :
    (reset.run cs).position.toNat = steps cs % 14 ∧
      ((reset.run cs).mode = false → sweep (steps cs) ≤ 7 ∧
        ∀ i < 8, (((reset.run cs).leds c).getLsbD i = true ↔ i = sweep (steps cs))) ∧
      (∀ a, sweep (a + 1) = sweep a + 1 ∨ sweep a = sweep (a + 1) + 1) ∧
      ((reset.run cs).mode = true →
        (reset.run cs).leds c = if steps cs % 2 = 0 then c.switches else ~~~c.switches) ∧
      (c.reset = false → steps (cs ++ [c]) =
        steps cs + if (reset.run cs).running = true ∧ (reset.run cs).count = 0 then 1 else 0) := by
  have hpos := position_eq_steps cs
  refine ⟨hpos, ?_, sweep_succ, ?_, steps_snoc cs⟩
  · intro hm
    exact ⟨sweep_le _, leds_of_sweep c hm hpos⟩
  · intro hm
    exact leds_of_blink c hm hpos

end Blinker

end De1Soc
