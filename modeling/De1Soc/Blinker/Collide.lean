import De1Soc.Blinker.Config
import De1Soc.Blinker.Speed

/-!
# De1Soc.Blinker.Collide

A bus write and a button in the same cycle.

Each controller tests its button first and the bus after it.  For `mode` and
`running` the loser is still explained by an order: the toggled flag is what
button after write or write after button gives, and the other registers take
the write.  In the speed control a button that moves the speed replaces the
write, and no order of the two gives that, except by coincidence of the values
(`collide`).
-/

namespace De1Soc

namespace Cycle

/-- At most one button is active. -/
def Single (c : Cycle) : Prop :=
  ∀ i j : Fin 4, c.buttons.getLsbD i = true → c.buttons.getLsbD j = true → i = j

/-- The cycle without its buttons: the bus write alone. -/
def writeOnly (c : Cycle) : Cycle := { c with buttons := 0 }

/-- The cycle without its bus write: the button alone. -/
def buttonOnly (c : Cycle) : Cycle := { c with write := false }

theorem Single.pause_changeMode {c : Cycle} (h : c.Single) (hp : c.pause = true) :
    c.changeMode = false := by
  by_contra hm
  exact absurd (h 2 3 hp (Bool.not_eq_false _ ▸ hm)) (by decide)

theorem Single.faster_slower {c : Cycle} (h : c.Single) (hf : c.faster = true) :
    c.slower = false := by
  by_contra hs
  exact absurd (h 0 1 hf (Bool.not_eq_false _ ▸ hs)) (by decide)

end Cycle

/-! ## The configuration over one edge -/

/-- What one edge makes of a configuration. -/
def Config.edge (g : Config) (c : Cycle) : Config where
  running := if c.pause then !g.running else if c.writesConfig then c.writedata.getLsbD 1
    else g.running
  mode := if c.changeMode then !g.mode else if c.writesConfig then c.writedata.getLsbD 0
    else g.mode
  enaIrq := if c.writesConfig then c.writedata.getLsbD 2 else g.enaIrq
  speed := if speedStep g.speed c = g.speed ∧ c.writesSpeed then c.writedata.setWidth 4
    else speedStep g.speed c

/-- What the buttons of a cycle make of a configuration. -/
def Config.press (g : Config) (c : Cycle) : Config :=
  { g with running := g.running ^^ c.pause, mode := g.mode ^^ c.changeMode,
           speed := speedStep g.speed c }

/-- A toggle under a button. -/
theorem ite_not_eq_xor : ∀ a p : Bool, (if p = true then !a else a) = (a ^^ p) := by
  decide

/-- Without a bus write an edge is what the buttons do. -/
theorem Config.edge_of_not_write {g : Config} {c : Cycle} (hw : c.write = false) :
    g.edge c = g.press c := by
  have hwc : c.writesConfig = false := by simp [Cycle.writesConfig, hw]
  have hws : c.writesSpeed = false := by simp [Cycle.writesSpeed, hw]
  simp [edge, press, hwc, hws, ite_not_eq_xor]

namespace Blinker

/-- The speed buttons move the speed. -/
def Moves (s : Blinker) (c : Cycle) : Prop :=
  (c.faster = true ∧ s.speed ≠ 15) ∨ (c.slower = true ∧ s.speed ≠ 1)

/-- The write and the button one after the other, in one of the two orders. -/
def Serializable (s : Blinker) (c : Cycle) : Prop :=
  (s.clk c).config = ((s.clk c.writeOnly).clk c.buttonOnly).config ∨
    (s.clk c).config = ((s.clk c.buttonOnly).clk c.writeOnly).config

/-- A SPEED write falls into a cycle whose button moves the speed, and its
nibble is neither the speed before the move nor the one after it. -/
def Overrides (s : Blinker) (c : Cycle) : Prop :=
  c.reset = false ∧ c.writesSpeed = true ∧ s.Moves c ∧ c.writedata.setWidth 4 ≠ s.speed ∧
    c.writedata.setWidth 4 ≠ speedStep s.speed c

/-- The buttons move the speed exactly where the step changes it. -/
theorem moves_iff (s : Blinker) (c : Cycle) : s.Moves c ↔ speedStep s.speed c ≠ s.speed := by
  rw [Moves, speedStep_eq]
  by_cases hf : c.faster = true ∧ s.speed ≠ 15
  · rw [if_pos hf]
    exact iff_of_true (.inl hf) (by bv_omega)
  · rw [if_neg hf]
    by_cases hs : c.slower = true ∧ s.speed ≠ 1
    · rw [if_pos hs]
      exact iff_of_true (.inr hs) (by bv_omega)
    · rw [if_neg hs]
      exact iff_of_false (not_or.mpr ⟨hf, hs⟩) (fun h => h rfl)

theorem speedStep_of_not_moves {s : Blinker} {c : Cycle} (h : ¬ s.Moves c) :
    speedStep s.speed c = s.speed := by
  by_contra hne
  exact h ((s.moves_iff c).mpr hne)

/-- The speed control is the step of the buttons, or the write where they do
not move. -/
theorem speedControl_eq_speedStep (s : Blinker) (c : Cycle) :
    s.speedControl c =
      if speedStep s.speed c = s.speed ∧ c.writesSpeed = true then c.writedata.setWidth 4
      else speedStep s.speed c := by
  by_cases hm : s.Moves c
  · rw [if_neg (fun h => (s.moves_iff c).mp hm h.1), speedControl_eq, speedStep_eq]
    obtain hf | hs := hm
    · rw [if_pos hf, if_pos hf]
    · by_cases hf : c.faster = true ∧ s.speed ≠ 15
      · rw [if_pos hf, if_pos hf]
      · rw [if_neg hf, if_neg hf, if_pos hs, if_pos hs]
  · obtain ⟨hf, hs⟩ := not_or.mp hm
    rw [speedControl_eq, if_neg hf, if_neg hs, speedStep_of_not_moves hm]
    simp

/-- **One edge**, on the configuration. -/
theorem config_clk (s : Blinker) {c : Cycle} (hr : c.reset = false) :
    (s.clk c).config = s.config.edge c := by
  have hspeed := s.speedControl_eq_speedStep c
  simp only [clk, hr, config, Config.edge, runningController, modeController, enableControl,
    hspeed, Cycle.writesConfig]
  rfl

/-! ## The two orders -/

section Orders

variable {s : Blinker} {c : Cycle}

/-- The bus write alone. -/
theorem config_clk_writeOnly (s : Blinker) (hr : c.reset = false) (hw : c.write = true) :
    (s.clk c.writeOnly).config = s.config.write c.address c.writedata := by
  have hquiet : c.writeOnly.Quiet := ⟨hr, rfl⟩
  have hwrite : c.writeOnly.write = true := hw
  rw [config_clk_of_quiet s hquiet, hwrite, if_pos rfl]
  rfl

/-- The button alone. -/
theorem config_clk_buttonOnly (s : Blinker) (hr : c.reset = false) :
    (s.clk c.buttonOnly).config = s.config.press c := by
  rw [config_clk s (c := c.buttonOnly) hr, Config.edge_of_not_write rfl]
  rfl

/-- The two orders, on the configuration. -/
theorem serializable_iff (s : Blinker) (hr : c.reset = false) (hw : c.write = true) :
    s.Serializable c ↔
      s.config.edge c = (s.config.write c.address c.writedata).press c ∨
        s.config.edge c = (s.config.press c).write c.address c.writedata := by
  rw [Serializable, config_clk s hr, config_clk_buttonOnly _ hr, config_clk_writeOnly s hr hw,
    config_clk_writeOnly _ hr hw, config_clk_buttonOnly s hr]

/-- A CONFIG write against any one button: the toggled flag ends on one of its
two values, and the order that gives that value gives the others as well. -/
theorem serializable_of_writesConfig (hr : c.reset = false) (hw : c.write = true)
    (ha : c.address = true) (hc : c.Single) : s.Serializable c := by
  have hwc : c.writesConfig = true := by simp [Cycle.writesConfig, hw, ha]
  have hws : c.writesSpeed = false := by simp [Cycle.writesSpeed, ha]
  have htoggle : ∀ a b : Bool, a = b ∨ (!a) = b := by decide
  rw [serializable_iff s hr hw, ha]
  cases hp : c.pause with
  | true =>
      have hm := hc.pause_changeMode hp
      simpa [Config.edge, Config.press, Config.write, Config.writeConfig, hwc, hws, hp, hm]
        using htoggle s.config.running (c.writedata.getLsbD 1)
  | false =>
      cases hm : c.changeMode with
      | true =>
          simpa [Config.edge, Config.press, Config.write, Config.writeConfig, hwc, hws, hp, hm]
            using htoggle s.config.mode (c.writedata.getLsbD 0)
      | false =>
          simp [Config.edge, Config.press, Config.write, Config.writeConfig, hwc, hws, hp, hm]

/-- The nibbles that an order explains: moved they give the moved speed, or
they are the moved speed already. -/
theorem speedStep_eq_or_iff (hc : c.Single) (hm : s.Moves c) (v : BitVec 4) :
    (speedStep s.speed c = speedStep v c ∨ speedStep s.speed c = v) ↔
      v = s.speed ∨ v = speedStep s.speed c := by
  -- `v` takes the same step as the speed, over all pairs of values
  have hup : ∀ x v : BitVec 4, x ≠ 15 →
      (((if x ≠ 15 then x + 1 else x) = (if v ≠ 15 then v + 1 else v) ∨
        (if x ≠ 15 then x + 1 else x) = v) ↔ (v = x ∨ v = if x ≠ 15 then x + 1 else x)) := by
    decide
  have hdown : ∀ x v : BitVec 4, x ≠ 1 →
      (((if x ≠ 1 then x - 1 else x) = (if v ≠ 1 then v - 1 else v) ∨
        (if x ≠ 1 then x - 1 else x) = v) ↔ (v = x ∨ v = if x ≠ 1 then x - 1 else x)) := by
    decide
  rw [speedStep_eq, speedStep_eq]
  cases hf : c.faster with
  | true =>
      have hs := hc.faster_slower hf
      have h15 : s.speed ≠ 15 := by
        obtain ⟨_, h⟩ | ⟨h, _⟩ := hm
        · exact h
        · rw [hs] at h
          contradiction
      simpa [hs] using hup s.speed v h15
  | false =>
      obtain ⟨h, _⟩ | ⟨hs, h1⟩ := hm
      · rw [hf] at h
        contradiction
      · simpa [hs] using hdown s.speed v h1

/-- A SPEED write against any one button. -/
theorem serializable_of_writesSpeed (hr : c.reset = false) (hw : c.write = true)
    (ha : c.address = false) (hc : c.Single) : s.Serializable c ↔ ¬ s.Overrides c := by
  have hwc : c.writesConfig = false := by simp [Cycle.writesConfig, ha]
  have hws : c.writesSpeed = true := by simp [Cycle.writesSpeed, hw, ha]
  have horders : s.Serializable c ↔
      (s.config.edge c).speed = speedStep (c.writedata.setWidth 4) c ∨
        (s.config.edge c).speed = c.writedata.setWidth 4 := by
    rw [serializable_iff s hr hw, ha]
    simp [Config.edge, Config.press, Config.write, Config.writeSpeed, hwc, ite_not_eq_xor]
  have hspeed : (s.config.edge c).speed =
      if speedStep s.speed c = s.speed ∧ c.writesSpeed = true then c.writedata.setWidth 4
      else speedStep s.speed c := rfl
  rw [horders, hspeed]
  by_cases hm : s.Moves c
  · have hstep := (s.moves_iff c).mp hm
    rw [if_neg (fun h => hstep h.1), speedStep_eq_or_iff hc hm]
    simp only [Overrides, hr, hws, hm, true_and]
    tauto
  · rw [if_pos ⟨speedStep_of_not_moves hm, hws⟩]
    exact iff_of_true (.inr rfl) (fun h => hm h.2.2.1)

/-- A SPEED write loses to a button that moves. -/
theorem config_clk_of_moves (hr : c.reset = false) (ha : c.writesSpeed = true) (hm : s.Moves c) :
    (s.clk c).config = (s.clk c.buttonOnly).config := by
  have hwc : c.writesConfig = false := by
    have hpins : c.write = true ∧ c.address = false := by simpa [Cycle.writesSpeed] using ha
    simp [Cycle.writesConfig, hpins.2]
  have hstep : speedStep s.config.speed c ≠ s.config.speed := (s.moves_iff c).mp hm
  rw [config_clk s hr, config_clk_buttonOnly s hr]
  simp [Config.edge, Config.press, hwc, ite_not_eq_xor, hstep]

end Orders

/-- **A bus write in the same cycle as a button**: the configuration is that of
the write and the button's action one after the other, in one of the two
orders, unless a SPEED write meets a button that moves the speed and writes
neither the speed before nor the one after the move; a SPEED write that meets a
moving button is not performed, the button's action is. -/
theorem collide (s : Blinker) (c : Cycle) (hw : c.write = true) (hc : c.Single) :
    (s.Serializable c ↔ ¬ s.Overrides c) ∧
      (c.writesSpeed = true → s.Moves c → (s.clk c).config = (s.clk c.buttonOnly).config) := by
  cases hr : c.reset with
  | true =>
      have hreset : ∀ (t : Blinker) (d : Cycle), d.reset = true → t.clk d = reset := by
        intro t d hd
        simp [clk, hd]
      have hb : c.buttonOnly.reset = true := hr
      refine ⟨iff_of_true (.inl ?_) (fun h => ?_), fun _ _ => ?_⟩
      · rw [hreset s c hr, hreset _ _ hb]
      · rw [h.1] at hr
        contradiction
      · rw [hreset s c hr, hreset _ _ hb]
  | false =>
      refine ⟨?_, config_clk_of_moves hr⟩
      cases ha : c.address with
      | true =>
          refine iff_of_true (serializable_of_writesConfig hr hw ha hc) (fun h => ?_)
          have hno : c.writesSpeed = false := by simp [Cycle.writesSpeed, ha]
          rw [h.2.1] at hno
          contradiction
      | false => exact serializable_of_writesSpeed hr hw ha hc

/-- Faster and a SPEED write of 9 at speed 8: the write after the button, and
the button's action alone. -/
theorem collide_faster_nine :
    ({ buttons := 0b0001, write := true, writedata := 9 } : Cycle).Single ∧
      reset.Serializable { buttons := 0b0001, write := true, writedata := 9 } := by
  have hc : ({ buttons := 0b0001, write := true, writedata := 9 } : Cycle).Single := by
    unfold Cycle.Single
    decide
  refine ⟨hc, (collide reset _ rfl hc).1.mpr fun h => ?_⟩
  exact absurd h.2.2.2.2 (by decide)

/-- Faster and a SPEED write of 3 at speed 8: the result is 9, and no order of
the two gives it. -/
theorem speed_write_lost_to_faster :
    ({ buttons := 0b0001, write := true, writedata := 3 } : Cycle).Single ∧
      (reset.clk { buttons := 0b0001, write := true, writedata := 3 }).speed = 9 ∧
      ¬ reset.Serializable { buttons := 0b0001, write := true, writedata := 3 } := by
  unfold Cycle.Single Serializable
  decide

end Blinker

end De1Soc
