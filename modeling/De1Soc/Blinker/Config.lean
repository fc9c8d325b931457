import De1Soc.Blinker

/-!
# De1Soc.Blinker.Config

The configuration registers as the bus sees them: what a write to SPEED or
CONFIG and a quiet cycle do to them, and what a STATE read shows of them.

The two directions do not agree.  `stateByte` shows `mode` in bit 1 and
`running` in bit 0, while the two controllers take `mode` from bit 0 and
`running` from bit 1 of a CONFIG write (`Config.writeConfig`), so a byte
written to CONFIG comes back with its low two bits exchanged.
-/

namespace De1Soc

/-- The registers that the bus can write. -/
@[ext] structure Config where
  running : Bool
  mode : Bool
  enaIrq : Bool
  speed : BitVec 4
deriving DecidableEq, Repr

namespace Blinker

/-- The configuration part of the registers. -/
def config (s : Blinker) : Config := ⟨s.running, s.mode, s.enaIrq, s.speed⟩

end Blinker

namespace Config

/-- What a byte written to CONFIG stores. -/
def writeConfig (g : Config) (w : BitVec 8) : Config :=
  { g with mode := w.getLsbD 0, running := w.getLsbD 1, enaIrq := w.getLsbD 2 }

/-- What a byte written to SPEED stores. -/
def writeSpeed (g : Config) (w : BitVec 8) : Config := { g with speed := w.setWidth 4 }

/-- A bus write to either address. -/
def write (g : Config) (address : Bool) (w : BitVec 8) : Config :=
  if address then g.writeConfig w else g.writeSpeed w

/-- The STATE byte of a configuration. -/
def stateByte (g : Config) : BitVec 8 :=
  g.speed ++ 0#1 ++ BitVec.ofBool g.enaIrq ++ BitVec.ofBool g.mode ++ BitVec.ofBool g.running

end Config

namespace Cycle

/-- No reset and no active button. -/
def Quiet (c : Cycle) : Prop := c.reset = false ∧ c.buttons = 0

/-- No bus access (and no reset). -/
def Idle (c : Cycle) : Prop := c.reset = false ∧ c.read = false ∧ c.write = false

/-- A bus read of `address`. -/
def Reads (c : Cycle) (address : Bool) : Prop :=
  c.reset = false ∧ c.read = true ∧ c.write = false ∧ c.address = address

/-- A bus write of `w` to `address`. -/
def Writes (c : Cycle) (address : Bool) (w : BitVec 8) : Prop :=
  c.reset = false ∧ c.read = false ∧ c.write = true ∧ c.address = address ∧ c.writedata = w

instance (c : Cycle) : Decidable c.Quiet := inferInstanceAs (Decidable (_ ∧ _))
instance (c : Cycle) : Decidable c.Idle := inferInstanceAs (Decidable (_ ∧ _))
instance (c : Cycle) (a : Bool) : Decidable (c.Reads a) := inferInstanceAs (Decidable (_ ∧ _))
instance (c : Cycle) (a : Bool) (w : BitVec 8) : Decidable (c.Writes a w) :=
  inferInstanceAs (Decidable (_ ∧ _))

end Cycle

/-! ## Encoding and decoding -/

namespace Config

/-- The STATE byte, bit by bit. -/
theorem getLsbD_stateByte (g : Config) (i : Nat) :
    g.stateByte.getLsbD i =
      if i < 1 then (BitVec.ofBool g.running).getLsbD i
      else if i - 1 < 1 then (BitVec.ofBool g.mode).getLsbD (i - 1)
      else if i - 1 - 1 < 1 then (BitVec.ofBool g.enaIrq).getLsbD (i - 1 - 1)
      else if i - 1 - 1 - 1 < 1 then (0#1).getLsbD (i - 1 - 1 - 1)
      else g.speed.getLsbD (i - 1 - 1 - 1 - 1) := by
  rw [stateByte, BitVec.getLsbD_append, BitVec.getLsbD_append, BitVec.getLsbD_append,
    BitVec.getLsbD_append]

@[simp] theorem getElem_stateByte_zero (g : Config) (h : 0 < 8) : g.stateByte[0] = g.running := by
  rw [← BitVec.getLsbD_eq_getElem, getLsbD_stateByte]
  simp

@[simp] theorem getElem_stateByte_one (g : Config) (h : 1 < 8) : g.stateByte[1] = g.mode := by
  rw [← BitVec.getLsbD_eq_getElem, getLsbD_stateByte]
  simp

@[simp] theorem getElem_stateByte_two (g : Config) (h : 2 < 8) : g.stateByte[2] = g.enaIrq := by
  rw [← BitVec.getLsbD_eq_getElem, getLsbD_stateByte]
  simp

@[simp] theorem getElem_stateByte_three (g : Config) (h : 3 < 8) : g.stateByte[3] = false := by
  rw [← BitVec.getLsbD_eq_getElem, getLsbD_stateByte]
  simp

/-- The high nibble of STATE is the speed. -/
theorem extractLsb'_stateByte (g : Config) : g.stateByte.extractLsb' 4 4 = g.speed := by
  ext i hi
  rw [BitVec.getElem_extractLsb', getLsbD_stateByte, if_neg (by omega), if_neg (by omega),
    if_neg (by omega), if_neg (by omega), ← BitVec.getLsbD_eq_getElem]
  congr 1
  omega

/-- `mode` and `running` exchanged. -/
def exchange (g : Config) : Config := { g with mode := g.running, running := g.mode }

theorem exchange_eq_iff (g : Config) : g.exchange = g ↔ g.mode = g.running := by
  constructor
  · intro h
    exact (congrArg Config.running h)
  · intro h
    ext <;> simp [exchange, h]

/-- **A CONFIG write stores what STATE would show, exchanged**: a byte whose
low three bits are those of the STATE byte of `h` stores `h` with `mode` and
`running` exchanged. -/
theorem writeConfig_eq_exchange (g h : Config) (w : BitVec 8) (hs : h.speed = g.speed)
    (h0 : w.getLsbD 0 = h.running) (h1 : w.getLsbD 1 = h.mode) (h2 : w.getLsbD 2 = h.enaIrq) :
    g.writeConfig w = h.exchange := by
  rw [writeConfig, h0, h1, h2, exchange, hs]

/-- `x`, read from STATE while the speed is `speed`, shows the CONFIG byte
`w`: its low three bits are those of `w`, bit 3 is clear, and the high
nibble is the speed. -/
def ReadsBack (w x : BitVec 8) (speed : BitVec 4) : Prop :=
  x.extractLsb' 0 3 = w.extractLsb' 0 3 ∧ x.getLsbD 3 = false ∧ x.extractLsb' 4 4 = speed

theorem extractLsb'_low_eq_iff (x w : BitVec 8) :
    x.extractLsb' 0 3 = w.extractLsb' 0 3 ↔
      x.getLsbD 0 = w.getLsbD 0 ∧ x.getLsbD 1 = w.getLsbD 1 ∧ x.getLsbD 2 = w.getLsbD 2 := by
  constructor
  · intro h
    have hbit : ∀ i, i < 3 → x.getLsbD i = w.getLsbD i := by
      intro i hi
      have hi' := congrArg (fun y => BitVec.getLsbD y i) h
      simpa [BitVec.getLsbD_extractLsb', hi] using hi'
    exact ⟨hbit 0 (by omega), hbit 1 (by omega), hbit 2 (by omega)⟩
  · rintro ⟨h0, h1, h2⟩
    ext i hi
    rw [BitVec.getElem_extractLsb', BitVec.getElem_extractLsb', Nat.zero_add]
    match i, hi with
    | 0, _ => exact h0
    | 1, _ => exact h1
    | 2, _ => exact h2

/-- What is shown of a configuration that a CONFIG write of `w` left is `w`
exactly when `w` gives `mode` and `running` the same value. -/
theorem readsBack_iff (g : Config) (w : BitVec 8) (hr : g.running = w.getLsbD 1)
    (hm : g.mode = w.getLsbD 0) (he : g.enaIrq = w.getLsbD 2) :
    ReadsBack w g.stateByte g.speed ↔ w.getLsbD 0 = w.getLsbD 1 := by
  have h0 : g.stateByte.getLsbD 0 = g.running := g.getElem_stateByte_zero (by decide)
  have h1 : g.stateByte.getLsbD 1 = g.mode := g.getElem_stateByte_one (by decide)
  have h2 : g.stateByte.getLsbD 2 = g.enaIrq := g.getElem_stateByte_two (by decide)
  have h3 : g.stateByte.getLsbD 3 = false := g.getElem_stateByte_three (by decide)
  rw [ReadsBack, extractLsb'_low_eq_iff, extractLsb'_stateByte, h0, h1, h2, h3, hr, hm, he]
  exact ⟨fun h => h.1.2.1, fun h => ⟨⟨h.symm, h, rfl⟩, rfl, rfl⟩⟩

end Config

namespace Blinker

@[simp] theorem stateByte_config (s : Blinker) : s.config.stateByte = s.stateByte := rfl

/-! ## Quiet cycles -/

theorem quiet_buttons {c : Cycle} (h : c.Quiet) :
    c.faster = false ∧ c.slower = false ∧ c.pause = false ∧ c.changeMode = false := by
  obtain ⟨_, hb⟩ := h
  simp [Cycle.faster, Cycle.slower, Cycle.pause, Cycle.changeMode, Cycle.syncButtons, hb]

/-- Without a button the configuration changes by bus writes only. -/
theorem config_clk_of_quiet (s : Blinker) {c : Cycle} (h : c.Quiet) :
    (s.clk c).config = if c.write then s.config.write c.address c.writedata else s.config := by
  obtain ⟨hf, hs, hp, hm⟩ := quiet_buttons h
  obtain ⟨hr, _⟩ := h
  cases hw : c.write <;> cases ha : c.address <;>
    simp [clk, config, Config.write, Config.writeConfig, Config.writeSpeed, speedControl,
      modeController, runningController, enableControl, hr, hf, hs, hp, hm, hw, ha]

/-- Quiet cycles without a bus write keep the configuration. -/
theorem config_run_of_quiet (s : Blinker) {cs : List Cycle}
    (h : ∀ c ∈ cs, c.Quiet ∧ c.write = false) : (s.run cs).config = s.config := by
  induction cs generalizing s with
  | nil => rfl
  | cons c cs ih =>
      rw [List.forall_mem_cons] at h
      rw [run_cons, ih _ h.2, config_clk_of_quiet s h.1.1, h.1.2]
      rfl

/-- Quiet cycles without a CONFIG write keep `running`, `mode` and
`enaIrq`; a SPEED write among them may change the speed. -/
theorem flags_run_of_quiet (s : Blinker) {cs : List Cycle}
    (h : ∀ c ∈ cs, c.Quiet ∧ c.writesConfig = false) :
    (s.run cs).running = s.running ∧ (s.run cs).mode = s.mode ∧
      (s.run cs).enaIrq = s.enaIrq := by
  induction cs generalizing s with
  | nil => exact ⟨rfl, rfl, rfl⟩
  | cons c cs ih =>
      rw [List.forall_mem_cons] at h
      obtain ⟨⟨hq, hw⟩, hcs⟩ := h
      obtain ⟨_, _, hp, hm⟩ := quiet_buttons hq
      have hw' : (c.write && c.address) = false := hw
      have hstep : (s.clk c).running = s.running ∧ (s.clk c).mode = s.mode ∧
          (s.clk c).enaIrq = s.enaIrq := by
        simp [clk, hq.1, runningController, modeController, enableControl, hp, hm, hw']
      obtain ⟨hr', hm', he'⟩ := ih (s.clk c) hcs
      rw [run_cons, hr', hm', he']
      exact hstep

/-- Only a CONFIG write changes the interrupt enable. -/
theorem enaIrq_run_of_not_writesConfig (s : Blinker) {cs : List Cycle}
    (h : ∀ c ∈ cs, c.reset = false ∧ c.writesConfig = false) : (s.run cs).enaIrq = s.enaIrq := by
  induction cs generalizing s with
  | nil => rfl
  | cons c cs ih =>
      rw [List.forall_mem_cons] at h
      have hw : (c.write && c.address) = false := h.1.2
      rw [run_cons, ih _ h.2]
      simp [clk, enableControl, h.1.1, hw]

theorem readdata_of_reads (s : Blinker) {c : Cycle} (h : c.Reads true) :
    s.readdata c = s.config.stateByte := by
  obtain ⟨_, hr, _, ha⟩ := h
  simp [readdata, hr, ha]

theorem config_clk_of_writes (s : Blinker) {c : Cycle} {address : Bool} {w : BitVec 8}
    (h : c.Writes address w) (hq : c.Quiet) : (s.clk c).config = s.config.write address w := by
  obtain ⟨_, _, hw, ha, hd⟩ := h
  rw [config_clk_of_quiet s hq, hw, ha, hd, if_pos rfl]

/-! ## Round trips -/

/-- Where the flags are those that a CONFIG write of `w` stores, `w` is read
back from STATE, after any quiet cycles without a CONFIG write, exactly when
its bits 0 and 1 agree. -/
theorem readsBack_of_stored_iff (s : Blinker) {g : Config} {w : BitVec 8} {cr : Cycle}
    {cs : List Cycle} (hs : s.config = g.writeConfig w)
    (hcs : ∀ c ∈ cs, c.Quiet ∧ c.writesConfig = false) (hr : cr.Reads true) :
    Config.ReadsBack w ((s.run cs).readdata cr) (s.run cs).speed ↔ w.getLsbD 0 = w.getLsbD 1 := by
  obtain ⟨hrun, hmode, hena⟩ := flags_run_of_quiet s hcs
  rw [readdata_of_reads _ hr]
  refine Config.readsBack_iff _ w (hrun.trans ?_) (hmode.trans ?_) (hena.trans ?_)
  · exact congrArg Config.running hs
  · exact congrArg Config.mode hs
  · exact congrArg Config.enaIrq hs

/-- **Encode, then decode**: a byte written to CONFIG is read back exactly
when its bits 0 and 1 agree. -/
theorem readsBack_after_write_iff (s : Blinker) {w : BitVec 8} {cw cr : Cycle} {cs : List Cycle}
    (hw : cw.Writes true w) (hq : cw.Quiet) (hcs : ∀ c ∈ cs, c.Quiet ∧ c.writesConfig = false)
    (hr : cr.Reads true) :
    Config.ReadsBack w (((s.clk cw).run cs).readdata cr) ((s.clk cw).run cs).speed ↔
      w.getLsbD 0 = w.getLsbD 1 :=
  readsBack_of_stored_iff (s.clk cw) (config_clk_of_writes s hw hq) hcs hr

/-- **Decode, then encode**: writing the low three bits of a STATE byte back
to CONFIG, however many cycles later, leaves the three flags exactly when
`mode` and `running` agreed at the read. -/
theorem flags_after_writeBack_iff (s : Blinker) {cr cw : Cycle} {cs : List Cycle}
    (hr : cr.Reads true) (hw : cw.Writes true (s.readdata cr &&& 7)) (hwq : cw.Quiet) :
    ((((s.clk cr).run cs).clk cw).running = s.running ∧
      (((s.clk cr).run cs).clk cw).mode = s.mode ∧
      (((s.clk cr).run cs).clk cw).enaIrq = s.enaIrq) ↔ s.mode = s.running := by
  have hstored := config_clk_of_writes ((s.clk cr).run cs) hw hwq
  rw [readdata_of_reads s hr] at hstored
  have hrun : (((s.clk cr).run cs).clk cw).running = s.mode := by
    simpa [Config.write, Config.writeConfig, config] using congrArg Config.running hstored
  have hmode : (((s.clk cr).run cs).clk cw).mode = s.running := by
    simpa [Config.write, Config.writeConfig, config] using congrArg Config.mode hstored
  have hena : (((s.clk cr).run cs).clk cw).enaIrq = s.enaIrq := by
    simpa [Config.write, Config.writeConfig, config] using congrArg Config.enaIrq hstored
  rw [hrun, hmode, hena]
  exact ⟨fun h => h.1, fun h => ⟨h, h.symm, rfl⟩⟩

end Blinker

end De1Soc
