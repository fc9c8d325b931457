import De1Soc.Blinker.Config
import De1Soc.Blinker.Leds
import De1Soc.Mealy

/-!
# De1Soc.Blinker.Observe

What can be seen of the blinker from outside.

Its outputs are the LEDs, the read data and the interrupt; in a cycle with
`reset` they are already those of the reset state.  The registers of the
pulse shaper reach none of them; every other register can be told from them, the
configuration and the interrupt at once and the shift registers by waiting.
Two states that can occur are therefore indistinguishable exactly when they
agree on all registers but those of the shaper (`equivalent_iff`).

The proof of the hard half is an experiment.  A CONFIG write makes both devices
run in shift mode; there the one with the smaller `count` advances first, and a
position and its successor never show the same LED.
-/

namespace De1Soc

namespace Blinker

/-- The registers during a cycle: `reset` does not wait for the clock edge. -/
def during (s : Blinker) (c : Cycle) : Blinker := if c.reset then reset else s

/-- The entity with its output ports. -/
def entity : Mealy.Machine Blinker Cycle (BitVec 8 × BitVec 8 × Bool) where
  step := clk
  out s c := ((s.during c).leds c, (s.during c).readdata c, (s.during c).irq)

/-- The registers without those of the pulse shaper. -/
def live (s : Blinker) : Blinker := { s with curValue := 0, lastValue := 0 }

/-! ## The pulse shaper is not seen -/

theorem live_clk (s : Blinker) (c : Cycle) : (s.clk c).live = (s.live.clk c).live := by
  unfold clk
  cases c.reset with
  | true => rfl
  | false => rfl

theorem live_during (s : Blinker) (c : Cycle) : (s.during c).live = (s.live.during c).live := by
  unfold during
  cases c.reset with
  | true => rfl
  | false => rfl

theorem equivalent_of_live {s t : Blinker} (h : s.live = t.live) : entity.Equivalent s t := by
  refine Mealy.equivalent_of_view (fun s t c hst => ?_) (fun s t c hst => ?_) h
  · show (s.clk c).live = (t.clk c).live
    rw [live_clk, hst, ← live_clk]
  · have hlive : (s.during c).live = (t.during c).live := by rw [live_during, hst, ← live_during]
    show ((s.during c).live.leds c, (s.during c).live.readdata c, (s.during c).live.irq) =
      ((t.during c).live.leds c, (t.during c).live.readdata c, (t.during c).live.irq)
    rw [hlive]

/-! ## Waiting -/

/-- A cycle with nothing on the pins. -/
def rest : Cycle := {}

/-- The position behind `p`. -/
def next (p : BitVec 4) : BitVec 4 := if p = 13 then 0 else p + 1

/-- The LEDs of a position in shift mode. -/
def lit (p : BitVec 4) : BitVec 8 := leds { reset with mode := false, position := p } rest

theorem leds_of_shift {s : Blinker} (h : s.mode = false) (c : Cycle) :
    s.leds c = lit s.position := by
  simp [leds, lit, h]

/-- Running in shift mode. -/
def Shifting (s : Blinker) : Prop := s.running = true ∧ s.mode = false

theorem run_snoc (s : Blinker) (cs : List Cycle) (c : Cycle) :
    s.run (cs ++ [c]) = (s.run cs).clk c := run_append s cs [c]

/-- While `count` goes down the position stays. -/
theorem shifting_rest {s : Blinker} (h : s.Shifting) {n : Nat} (hn : n ≤ s.count.toNat) :
    (s.run (List.replicate n rest)).Shifting ∧
      (s.run (List.replicate n rest)).position = s.position ∧
      (s.run (List.replicate n rest)).count.toNat = s.count.toNat - n := by
  induction n with
  | zero => exact ⟨h, rfl, rfl⟩
  | succ n ih =>
      obtain ⟨hshift, hpos, hcount⟩ := ih (by omega)
      rw [List.replicate_succ', run_snoc]
      generalize s.run (List.replicate n rest) = t at hshift hpos hcount
      have hne : t.count ≠ 0 := by
        intro hzero
        have hnil : t.count.toNat = 0 := by rw [hzero]; rfl
        omega
      have hcount' : (t.clk rest).count = t.count - 1 := by
        show t.shiftCount = t.count - 1
        rw [shiftCount, if_pos hshift.1, if_neg hne]
      have hpos' : (t.clk rest).position = t.position := by
        show t.shiftPosition = t.position
        rw [shiftPosition, if_neg (by simpa using fun _ => hne)]
      refine ⟨hshift, hpos'.trans hpos, ?_⟩
      rw [hcount', BitVec.toNat_sub_of_le (by rw [BitVec.le_def]; simp; omega), hcount]
      simp
      omega

/-- One cycle later it has moved on. -/
theorem shifting_advance {s : Blinker} (h : s.Shifting) :
    (s.run (List.replicate (s.count.toNat + 1) rest)).Shifting ∧
      (s.run (List.replicate (s.count.toNat + 1) rest)).position = next s.position := by
  obtain ⟨hshift, hpos, hcount⟩ := shifting_rest h (Nat.le_refl _)
  rw [List.replicate_succ', run_snoc]
  generalize s.run (List.replicate s.count.toNat rest) = t at hshift hpos hcount
  have hzero : t.count = 0 := by
    rw [← BitVec.toNat_inj, hcount]
    simp
  refine ⟨hshift, ?_⟩
  show t.shiftPosition = next s.position
  rw [← hpos]
  simp [shiftPosition, next, hshift.1, hzero]

/-! ## The shift registers are seen in shift mode -/

theorem lit_next_ne : ∀ p q : BitVec 4, p.toNat ≤ 13 → q.toNat ≤ 13 → lit p = lit q →
    lit (next p) ≠ lit q := by decide

theorem eq_of_lit_next : ∀ p q : BitVec 4, p.toNat ≤ 13 → q.toNat ≤ 13 → lit p = lit q →
    lit (next p) = lit (next q) → p = q := by decide

theorem next_inj : ∀ p q : BitVec 4, p.toNat ≤ 13 → q.toNat ≤ 13 → next p = next q → p = q := by
  decide

theorem next_le : ∀ p : BitVec 4, p.toNat ≤ 13 → (next p).toNat ≤ 13 := by decide

section Shifting

variable {s t : Blinker}

theorem lit_of_equivalent (h : entity.Equivalent s t) (hs : s.mode = false) (ht : t.mode = false) :
    lit s.position = lit t.position := by
  have hout := congrArg Prod.fst (Mealy.Equivalent.out h rest)
  change s.leds rest = t.leds rest at hout
  rwa [leds_of_shift hs, leds_of_shift ht] at hout

/-- The device with the smaller `count` moves on first. -/
theorem count_le_of_equivalent (h : entity.Equivalent s t) (hs : s.Shifting) (ht : t.Shifting)
    (hsp : s.position.toNat ≤ 13) (htp : t.position.toNat ≤ 13) : t.count.toNat ≤ s.count.toNat := by
  by_contra hlt
  have hsame := lit_of_equivalent h hs.2 ht.2
  obtain ⟨hshift, hpos⟩ := shifting_advance hs
  obtain ⟨hshift', hpos', _⟩ := shifting_rest ht (n := s.count.toNat + 1) (by omega)
  have hlater := lit_of_equivalent (Mealy.Equivalent.run h _) hshift.2 hshift'.2
  change lit (s.run _).position = lit (t.run _).position at hlater
  rw [hpos, hpos'] at hlater
  exact lit_next_ne _ _ hsp htp hsame hlater

/-- **In shift mode** equivalent devices stand at the same place. -/
theorem shift_of_equivalent (h : entity.Equivalent s t) (hs : s.Shifting) (ht : t.Shifting)
    (hsp : s.position.toNat ≤ 13) (htp : t.position.toNat ≤ 13) :
    s.position = t.position ∧ s.count = t.count := by
  have hle := count_le_of_equivalent h hs ht hsp htp
  have hge := count_le_of_equivalent (Mealy.Equivalent.symm h) ht hs htp hsp
  have hcount : s.count.toNat = t.count.toNat := by omega
  obtain ⟨hshift, hpos⟩ := shifting_advance hs
  obtain ⟨hshift', hpos'⟩ := shifting_advance ht
  rw [← hcount] at hshift' hpos'
  have hlater := lit_of_equivalent (Mealy.Equivalent.run h _) hshift.2 hshift'.2
  change lit (s.run _).position = lit (t.run _).position at hlater
  rw [hpos, hpos'] at hlater
  exact ⟨eq_of_lit_next _ _ hsp htp (lit_of_equivalent h hs.2 ht.2) hlater,
    BitVec.toNat_inj.mp hcount⟩

end Shifting

/-! ## All of it -/

/-- A write to CONFIG that starts shift mode. -/
def startShift : Cycle := { write := true, address := true, writedata := 2 }

section Equivalent

variable {s t : Blinker}

/-- The configuration is seen in STATE. -/
theorem config_of_equivalent (h : entity.Equivalent s t) : s.config = t.config := by
  have hout := congrArg (fun o => o.2.1) (Mealy.Equivalent.out h { read := true, address := true })
  have hbyte : s.config.stateByte = t.config.stateByte := hout
  have hspeed := congrArg (BitVec.extractLsb' 4 4) hbyte
  rw [Config.extractLsb'_stateByte, Config.extractLsb'_stateByte] at hspeed
  refine Config.ext ?_ ?_ ?_ hspeed
  · rw [← Config.getElem_stateByte_zero s.config (by omega), ← Config.getElem_stateByte_zero t.config
      (by omega), hbyte]
  · rw [← Config.getElem_stateByte_one s.config (by omega), ← Config.getElem_stateByte_one t.config
      (by omega), hbyte]
  · rw [← Config.getElem_stateByte_two s.config (by omega), ← Config.getElem_stateByte_two t.config
      (by omega), hbyte]

theorem getLsbD_next_ne : ∀ p : BitVec 4, (next p).getLsbD 0 ≠ p.getLsbD 0 := by decide

/-- A position and the one behind it are told apart at once. -/
theorem position_ne_next (h : entity.Equivalent s t) (hmode : s.mode = t.mode)
    (hsp : s.position.toNat ≤ 13) (htp : t.position.toNat ≤ 13) : t.position ≠ next s.position := by
  intro hnext
  cases hm : s.mode with
  | false =>
      have hlit := lit_of_equivalent h hm (hmode ▸ hm)
      have hne := lit_next_ne _ _ hsp htp hlit
      rw [hnext] at hne
      exact hne rfl
  | true =>
      have hout := congrArg Prod.fst (Mealy.Equivalent.out h rest)
      change s.leds rest = t.leds rest at hout
      have hbit := getLsbD_next_ne s.position
      rw [← hnext, BitVec.getLsbD_eq_getElem (by omega), BitVec.getLsbD_eq_getElem (by omega)] at hbit
      rw [leds, leds, ← hmode, hm] at hout
      cases hp : s.position[0] <;> cases hq : t.position[0]
      · exact hbit (hq.trans hp.symm)
      · simp [hp, hq, rest] at hout
      · simp [hp, hq, rest] at hout
      · exact hbit (hq.trans hp.symm)

/-- One cycle of shifting is undone. -/
theorem shift_inj (h : entity.Equivalent s t) (hmode : s.mode = t.mode)
    (hrunning : s.running = t.running) (hsp : s.position.toNat ≤ 13)
    (htp : t.position.toNat ≤ 13) (hpos : s.shiftPosition = t.shiftPosition)
    (hcount : s.shiftCount = t.shiftCount) :
    s.position = t.position ∧ s.count = t.count := by
  cases hr : s.running with
  | false =>
      simp only [shiftPosition, shiftCount, ← hrunning, hr] at hpos hcount
      exact ⟨by simpa using hpos, by simpa using hcount⟩
  | true =>
      simp only [shiftPosition, shiftCount, ← hrunning, hr, if_true, Bool.true_and, beq_iff_eq]
        at hpos hcount
      by_cases hs : s.count = 0
      · by_cases ht : t.count = 0
        · rw [if_pos hs, if_pos ht] at hpos
          exact ⟨next_inj _ _ hsp htp hpos, hs.trans ht.symm⟩
        · rw [if_pos hs, if_neg ht] at hpos
          exact absurd hpos.symm (position_ne_next h hmode hsp htp)
      · by_cases ht : t.count = 0
        · rw [if_neg hs, if_pos ht] at hpos
          exact absurd hpos (position_ne_next (Mealy.Equivalent.symm h) hmode.symm htp hsp)
        · rw [if_neg hs, if_neg ht] at hpos hcount
          exact ⟨hpos, by simpa using hcount⟩

/-- **Equivalent devices agree** on all registers but those of the pulse
shaper. -/
theorem live_of_equivalent (h : entity.Equivalent s t) (hsp : s.position.toNat ≤ 13)
    (htp : t.position.toNat ≤ 13) : s.live = t.live := by
  have hconfig := config_of_equivalent h
  have hrunning : s.running = t.running := congrArg Config.running hconfig
  have hmode : s.mode = t.mode := congrArg Config.mode hconfig
  have hena : s.enaIrq = t.enaIrq := congrArg Config.enaIrq hconfig
  have hspeed : s.speed = t.speed := congrArg Config.speed hconfig
  have hirq : s.irq = t.irq := congrArg (fun o => o.2.2) (Mealy.Equivalent.out h rest)
  have hle : ∀ u : Blinker, u.position.toNat ≤ 13 → u.shiftPosition.toNat ≤ 13 := by
    intro u hu
    rw [shiftPosition]
    split
    · exact next_le _ hu
    · exact hu
  obtain ⟨hpos', hcount'⟩ := shift_of_equivalent (s := s.clk startShift) (t := t.clk startShift)
    (Mealy.Equivalent.run h [startShift]) ⟨rfl, rfl⟩ ⟨rfl, rfl⟩ (hle s hsp) (hle t htp)
  obtain ⟨hpos, hcount⟩ := shift_inj h hmode hrunning hsp htp hpos' hcount'
  simp only [live, hrunning, hmode, hena, hspeed, hirq, hpos, hcount]

end Equivalent

/-- **What can be seen of the blinker.**  Two states that the device can reach
are told apart by no inputs exactly when they agree on all registers but
`cur_value` and `last_value`. -/
theorem equivalent_iff (cs ds : List Cycle) :
    entity.Equivalent (reset.run cs) (reset.run ds) ↔ (reset.run cs).live = (reset.run ds).live := by
  have hle : ∀ cs, (reset.run cs).position.toNat ≤ 13 := by
    intro cs
    rw [position_eq_steps]
    omega
  exact ⟨fun h => live_of_equivalent h (hle cs) (hle ds), equivalent_of_live⟩

end Blinker

end De1Soc
