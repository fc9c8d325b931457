import De1Soc.Blinker
import De1Soc.Prefix

/-!
# De1Soc.Blinker.Speed

The range of the speed register.

The help text of the tools gives 1 as the slowest and 15 as the fastest
setting, and `delay = 16 - speed` is meant to be in `1..15`.  The button
branches of the speed control guard both ends, the bus write guards neither
(`-- 0 behandeln`): a SPEED write whose low nibble is zero stores zero, the
delay wraps, and from there the slower button *raises* the speed.  The range
holds along a run exactly as long as no such write takes effect
(`speed_range_iff`).
-/

namespace De1Soc

/-- What the faster and slower buttons make of a speed. -/
def speedStep (v : BitVec 4) (c : Cycle) : BitVec 4 :=
  if c.faster && v != 15 then v + 1
  else if c.slower && v != 1 then v - 1
  else v

namespace Blinker

/-- The speed is a setting: it is in `1..15`, the delay is `16 - speed`
without wrap, and from here a cycle without a SPEED write follows the
buttons (slower alone never raises, faster alone never lowers). -/
def SpeedInRange (s : Blinker) : Prop :=
  (1 ≤ s.speed.toNat ∧ s.speed.toNat ≤ 15) ∧
    (s.delay.toNat = 16 - s.speed.toNat ∧ 1 ≤ s.delay.toNat ∧ s.delay.toNat ≤ 15) ∧
    ∀ c : Cycle, c.reset = false → c.writesSpeed = false →
      (c.slower = true → c.faster = false → (s.clk c).speed.toNat ≤ s.speed.toNat) ∧
      (c.faster = true → c.slower = false → s.speed.toNat ≤ (s.clk c).speed.toNat)

/-- The cycle stores zero: a SPEED write with a zero low nibble that no
button branch overrides. -/
def StoresZero (s : Blinker) (c : Cycle) : Prop :=
  c.reset = false ∧ c.writesSpeed = true ∧ c.writedata.setWidth 4 = 0 ∧
    ¬ (c.faster = true ∧ s.speed ≠ 15) ∧ ¬ (c.slower = true ∧ s.speed ≠ 1)

/-! ## One cycle -/

theorem speed_clk (s : Blinker) {c : Cycle} (hr : c.reset = false) :
    (s.clk c).speed = s.speedControl c := by
  simp [clk, hr]

/-- The speed control, branch by branch. -/
theorem speedControl_eq (s : Blinker) (c : Cycle) :
    s.speedControl c =
      if c.faster = true ∧ s.speed ≠ 15 then s.speed + 1
      else if c.slower = true ∧ s.speed ≠ 1 then s.speed - 1
      else if c.writesSpeed = true then c.writedata.setWidth 4
      else s.speed := by
  simp [speedControl, Cycle.writesSpeed]

theorem speedStep_eq (v : BitVec 4) (c : Cycle) :
    speedStep v c =
      if c.faster = true ∧ v ≠ 15 then v + 1
      else if c.slower = true ∧ v ≠ 1 then v - 1
      else v := by
  simp [speedStep]

/-- Without a SPEED write, slower alone does not raise a nonzero speed. -/
theorem speedControl_slower_le (s : Blinker) {c : Cycle} (h0 : s.speed ≠ 0)
    (hf : c.faster = false) (hw : c.writesSpeed = false) :
    (s.speedControl c).toNat ≤ s.speed.toNat := by
  rw [speedControl_eq, if_neg (by simp [hf]), hw]
  split
  · bv_omega
  · simp

/-- Without a SPEED write, faster alone does not lower the speed. -/
theorem le_speedControl_faster (s : Blinker) {c : Cycle} (hs : c.slower = false)
    (hw : c.writesSpeed = false) : s.speed.toNat ≤ (s.speedControl c).toNat := by
  rw [speedControl_eq]
  split
  · bv_omega
  · simp [hs, hw]

/-- The range property says just that the register is not zero. -/
theorem speedInRange_iff (s : Blinker) : s.SpeedInRange ↔ s.speed ≠ 0 := by
  constructor
  · rintro ⟨⟨h1, _⟩, _⟩ h0
    rw [h0] at h1
    exact absurd h1 (by decide)
  · intro h0
    have hpos : 1 ≤ s.speed.toNat := by bv_omega
    have hle : s.speed.toNat ≤ 15 := by omega
    have hdelay : s.delay.toNat = 16 - s.speed.toNat := by
      rw [delay]
      bv_omega
    refine ⟨⟨hpos, hle⟩, ⟨hdelay, by omega, by omega⟩, ?_⟩
    intro c hr hw
    rw [speed_clk s hr]
    constructor
    · intro _ hf
      exact speedControl_slower_le s h0 hf hw
    · intro _ hs
      exact le_speedControl_faster s hs hw

/-- From a nonzero speed only a write that stores zero leads to zero. -/
theorem speed_clk_eq_zero_iff (s : Blinker) (c : Cycle) (h0 : s.speed ≠ 0) :
    (s.clk c).speed = 0 ↔ s.StoresZero c := by
  cases hr : c.reset with
  | true => simp [clk, reset, StoresZero, hr]
  | false =>
      rw [speed_clk s hr, speedControl_eq, StoresZero]
      by_cases hf : c.faster = true ∧ s.speed ≠ 15
      · have hup : s.speed + 1 ≠ 0 := by bv_omega
        rw [if_pos hf]
        exact iff_of_false hup fun h => h.2.2.2.1 hf
      · by_cases hs : c.slower = true ∧ s.speed ≠ 1
        · have hdown : s.speed - 1 ≠ 0 := by bv_omega
          rw [if_neg hf, if_pos hs]
          exact iff_of_false hdown fun h => h.2.2.2.2 hs
        · rw [if_neg hf, if_neg hs]
          cases hw : c.writesSpeed with
          | true => simp only [if_true, hf, hs, hr, true_and, not_false_eq_true, and_true]
          | false => simpa using h0

/-! ## Runs from reset -/

/-- No cycle of the run, started in `s`, stores zero. -/
def KeepsRange (s : Blinker) (cs : List Cycle) : Prop :=
  ∀ pre c, pre ++ [c] <+: cs → ¬ (s.run pre).StoresZero c

theorem keepsRange_cons (s : Blinker) (c : Cycle) (cs : List Cycle) :
    s.KeepsRange (c :: cs) ↔ ¬ s.StoresZero c ∧ (s.clk c).KeepsRange cs :=
  List.forall_snoc_prefix_cons

/-- A run keeps a nonzero speed nonzero in all its states exactly when no
cycle stores zero. -/
theorem run_speed_ne_zero_iff (s : Blinker) (cs : List Cycle) (h0 : s.speed ≠ 0) :
    (∀ pre, pre <+: cs → (s.run pre).speed ≠ 0) ↔ s.KeepsRange cs := by
  induction cs generalizing s with
  | nil =>
      refine iff_of_true (fun pre hp => ?_) (fun pre c hp => ?_)
      · rw [List.prefix_nil.mp hp]
        exact h0
      · simp at hp
  | cons c cs ih =>
      rw [keepsRange_cons]
      constructor
      · intro h
        have h1 : (s.clk c).speed ≠ 0 := h [c] (by simp)
        have hz : ¬ s.StoresZero c := fun hz => h1 ((speed_clk_eq_zero_iff s c h0).mpr hz)
        have hrest : ∀ pre, pre <+: cs → ((s.clk c).run pre).speed ≠ 0 := by
          intro pre hp
          exact h (c :: pre) (by simpa using hp)
        exact ⟨hz, (ih _ h1).mp hrest⟩
      · rintro ⟨hz, hcs⟩ pre hp
        have h1 : (s.clk c).speed ≠ 0 := fun h => hz ((speed_clk_eq_zero_iff s c h0).mp h)
        cases pre with
        | nil => exact h0
        | cons x pre =>
            obtain ⟨rfl, hp'⟩ : x = c ∧ pre <+: cs := by simpa using hp
            exact (ih _ h1).mpr hcs pre hp'

/-- **The speed range, along every run from reset**: every state reached
keeps the range exactly when no cycle of the run is a SPEED write of a zero
nibble that takes effect. -/
theorem speed_range_iff (cs : List Cycle) :
    (∀ pre, pre <+: cs → (reset.run pre).SpeedInRange) ↔ reset.KeepsRange cs := by
  rw [← run_speed_ne_zero_iff reset cs (by decide)]
  simp only [speedInRange_iff]

/-- One SPEED write of zero after reset leaves the range, and the slower
button then raises the speed. -/
theorem speed_range_fails_on_zero_write :
    ¬ (reset.run [{ write := true, writedata := 0 }]).SpeedInRange ∧
      (reset.run [{ write := true, writedata := 0 }, { buttons := 0b0010 }]).speed = 15 := by
  rw [speedInRange_iff]
  decide

end Blinker

end De1Soc
