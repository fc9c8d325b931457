import De1Soc.Blinker.Config

/-!
# De1Soc.Blinker.Latch

The interrupt line.

A cycle with an active button and the interrupt enabled raises `irq`
(`Raises`); a STATE read that does not raise it acknowledges (`Acks`); every
other cycle leaves it.  So `irq` is up exactly when some press since the last
reset has not been acknowledged after it (`irq_iff_latched`).  A read holds its
strobe over several cycles and captures the data in the last one: what it may
clear in an earlier cycle it shows, and what falls into the last cycle stays
pending (`irq_latch`).
-/

namespace De1Soc

namespace Blinker

/-- A button is active and the interrupt enabled. -/
def Raises (s : Blinker) (c : Cycle) : Prop := c.press = true ∧ s.enaIrq = true

/-- STATE is read in a cycle that does not raise `irq`. -/
def Acks (s : Blinker) (c : Cycle) : Prop :=
  c.read = true ∧ c.address = true ∧ (c.press = false ∨ s.enaIrq = false)

/-! ## One cycle -/

theorem irq_clk_of_raises {s : Blinker} {c : Cycle} (hr : c.reset = false) (h : s.Raises c) :
    (s.clk c).irq = true := by
  simp [clk, hr, interruptControl, h.1, h.2]

/-- A STATE read clears `irq` unless the cycle raises it. -/
theorem irq_clk_of_reads_state {s : Blinker} {c : Cycle} (hc : c.Reads true) :
    (s.clk c).irq = false ↔ ¬ s.Raises c := by
  obtain ⟨hreset, hread, _, haddr⟩ := hc
  simp [clk, hreset, interruptControl, Raises, hread, haddr]

/-- Any other cycle keeps a pending `irq`. -/
theorem irq_clk_of_not_readsState {s : Blinker} {c : Cycle} (hr : c.reset = false)
    (hc : c.readsState = false) (h : s.irq = true) : (s.clk c).irq = true := by
  have hread : (c.read && c.address) = false := hc
  simp [clk, hr, interruptControl, hread, h]

/-- A cycle that neither raises nor acknowledges leaves `irq`. -/
theorem irq_clk_of_neither {s : Blinker} {c : Cycle} (hr : c.reset = false) (h : ¬ s.Raises c)
    (ha : ¬ s.Acks c) : (s.clk c).irq = s.irq := by
  have hraise : (c.press && s.enaIrq) = false := by
    simpa [Raises] using h
  have hread : (c.read && c.address) = false := by
    by_contra hread
    have hpins : c.read = true ∧ c.address = true := by simpa using hread
    refine ha ⟨hpins.1, hpins.2, ?_⟩
    exact Bool.and_eq_false_iff.mp hraise
  simp [clk, hr, interruptControl, hraise, hread]

/-- Cycles without a button and off the bus leave `irq`. -/
theorem irq_run_of_quiet (s : Blinker) {cs : List Cycle}
    (h : ∀ c ∈ cs, c.Quiet ∧ c.read = false) : (s.run cs).irq = s.irq := by
  induction cs generalizing s with
  | nil => rfl
  | cons c cs ih =>
      rw [List.forall_mem_cons] at h
      obtain ⟨⟨⟨hr, hb⟩, hread⟩, hcs⟩ := h
      have hraise : ¬ s.Raises c := fun h => by simp [Cycle.press, Cycle.syncButtons, hb, Raises] at h
      have hack : ¬ s.Acks c := fun h => by simp [hread, Acks] at h
      rw [run_cons, ih _ hcs, irq_clk_of_neither hr hraise hack]

/-- **`irq` after one cycle.** -/
theorem irq_clk_iff {s : Blinker} {c : Cycle} (hr : c.reset = false) :
    (s.clk c).irq = true ↔ s.Raises c ∨ (s.irq = true ∧ ¬ s.Acks c) := by
  by_cases hraise : s.Raises c
  · exact iff_of_true (irq_clk_of_raises hr hraise) (.inl hraise)
  · by_cases hack : s.Acks c
    · have hclear : (s.clk c).irq = false := by
        have hgate : (c.press && s.enaIrq) = false := by simpa [Raises] using hraise
        simp [clk, hr, interruptControl, hgate, hack.1, hack.2.1]
      refine iff_of_false (by simp [hclear]) ?_
      rintro (h | ⟨_, h⟩)
      · exact hraise h
      · exact h hack
    · rw [irq_clk_of_neither hr hraise hack]
      simp [hraise, hack]

/-! ## The latch -/

/-- Since the last reset of the trace there was a press that no later cycle
acknowledged. -/
def Latched (cs : List Cycle) : Prop :=
  ∃ pre c post, cs = pre ++ c :: post ∧ (∀ d ∈ c :: post, d.reset = false) ∧
    (reset.run pre).Raises c ∧
    ∀ mid d, mid ++ [d] <+: post → ¬ (reset.run (pre ++ c :: mid)).Acks d

theorem not_latched_nil : ¬ Latched [] := by
  rintro ⟨pre, c, post, h, _⟩
  simp at h

theorem latched_snoc (cs : List Cycle) (c : Cycle) :
    Latched (cs ++ [c]) ↔ c.reset = false ∧
      ((reset.run cs).Raises c ∨ (Latched cs ∧ ¬ (reset.run cs).Acks c)) := by
  constructor
  · rintro ⟨pre, x, post, h, hreset, hraise, hno⟩
    rcases List.eq_nil_or_concat post with rfl | ⟨post, y, rfl⟩
    · obtain ⟨rfl, hx⟩ := List.append_inj' h rfl
      obtain rfl : c = x := by simpa using hx
      exact ⟨hreset c (by simp), .inl hraise⟩
    · rw [List.concat_eq_append] at h hreset hno
      have hsplit : cs ++ [c] = (pre ++ x :: post) ++ [y] := by simpa using h
      obtain ⟨rfl, hy⟩ := List.append_inj' hsplit rfl
      obtain rfl : c = y := by simpa using hy
      refine ⟨hreset c (by simp), .inr ⟨⟨pre, x, post, rfl, ?_, hraise, ?_⟩, ?_⟩⟩
      · intro d hd
        exact hreset d (by simp only [List.mem_cons, List.mem_append] at hd ⊢; tauto)
      · intro mid d hp
        exact hno mid d (hp.trans (List.prefix_append _ _))
      · exact hno post c (List.prefix_refl _)
  · rintro ⟨hreset, hraise | ⟨⟨pre, x, post, rfl, hno, hraise, hack⟩, hlast⟩⟩
    · exact ⟨cs, c, [], rfl, by simpa using hreset, hraise, by simp⟩
    · refine ⟨pre, x, post ++ [c], by simp, ?_, hraise, ?_⟩
      · intro d hd
        rw [← List.cons_append, List.mem_append, List.mem_singleton] at hd
        obtain hd | rfl := hd
        · exact hno d hd
        · exact hreset
      · intro mid d hp
        rw [List.prefix_concat_iff] at hp
        obtain heq | hp := hp
        · obtain ⟨rfl, hd⟩ := List.append_inj' heq rfl
          obtain rfl : d = c := by simpa using hd
          exact hlast
        · exact hack mid d hp

/-- **`irq` is up exactly when a press is latched.** -/
theorem irq_iff_latched (cs : List Cycle) : (reset.run cs).irq = true ↔ Latched cs := by
  induction cs using List.reverseRecOn with
  | nil => exact iff_of_false (by decide) not_latched_nil
  | append_singleton cs c ih =>
      rw [latched_snoc, run_append, run_cons, run_nil]
      cases hr : c.reset with
      | true =>
          have hclear : ((reset.run cs).clk c).irq = false := by simp [clk, hr, reset]
          simp [hclear]
      | false =>
          rw [irq_clk_iff hr, ih]
          simp

/-- A STATE read shows the configuration registers of its cycle. -/
theorem readdata_bits (s : Blinker) {c : Cycle} (h : c.Reads true) :
    (s.readdata c).extractLsb' 4 4 = s.speed ∧ (s.readdata c).getLsbD 2 = s.enaIrq ∧
      (s.readdata c).getLsbD 1 = s.mode ∧ (s.readdata c).getLsbD 0 = s.running := by
  rw [readdata_of_reads s h]
  exact ⟨Config.extractLsb'_stateByte _, s.config.getElem_stateByte_two (by decide),
    s.config.getElem_stateByte_one (by decide), s.config.getElem_stateByte_zero (by decide)⟩

/-! ## Rising and falling -/

/-- `irq` goes from 1 to 0 in one of the cycles. -/
def Falls (s : Blinker) (cs : List Cycle) : Prop :=
  ∃ pre c, pre ++ [c] <+: cs ∧ (s.run pre).irq = true ∧ ((s.run pre).clk c).irq = false

/-- One of the cycles finds `irq` pending and does not raise it. -/
def FindsPending (s : Blinker) (cs : List Cycle) : Prop :=
  ∃ pre c, pre ++ [c] <+: cs ∧ (s.run pre).irq = true ∧ ¬ (s.run pre).Raises c

/-- One of the cycles raises `irq`. -/
def Pressed (s : Blinker) (cs : List Cycle) : Prop :=
  ∃ pre c, pre ++ [c] <+: cs ∧ (s.run pre).Raises c

/-- A line that was up and is down has fallen. -/
theorem falls_of_run {s : Blinker} {cs : List Cycle} (h : s.irq = true)
    (h' : (s.run cs).irq = false) : s.Falls cs := by
  induction cs generalizing s with
  | nil =>
      rw [run_nil, h] at h'
      contradiction
  | cons c cs ih =>
      cases hc : (s.clk c).irq with
      | false => exact ⟨[], c, by simp, h, hc⟩
      | true =>
          obtain ⟨pre, d, hp, h1, h2⟩ := ih hc h'
          exact ⟨c :: pre, d, by simpa using hp, h1, h2⟩

/-- STATE reads clear a pending interrupt exactly when they find one. -/
theorem falls_iff_findsPending {s : Blinker} {cs : List Cycle} (h : ∀ c ∈ cs, c.Reads true) :
    s.Falls cs ↔ s.FindsPending cs := by
  have hmem : ∀ pre c, pre ++ [c] <+: cs → c.Reads true := by
    intro pre c hp
    exact h c (hp.subset (by simp))
  constructor
  · rintro ⟨pre, c, hp, h1, h2⟩
    exact ⟨pre, c, hp, h1, (irq_clk_of_reads_state (hmem pre c hp)).mp h2⟩
  · rintro ⟨pre, c, hp, h1, h2⟩
    exact ⟨pre, c, hp, h1, (irq_clk_of_reads_state (hmem pre c hp)).mpr h2⟩

theorem not_falls_of_not_readsState {s : Blinker} {cs : List Cycle}
    (h : ∀ c ∈ cs, c.reset = false ∧ c.readsState = false) : ¬ s.Falls cs := by
  rintro ⟨pre, c, hp, h1, h2⟩
  obtain ⟨hreset, hread⟩ := h c (hp.subset (by simp))
  rw [irq_clk_of_not_readsState hreset hread h1] at h2
  contradiction

theorem Falls.append {s : Blinker} {pre cs : List Cycle} (h : (s.run pre).Falls cs) :
    s.Falls (pre ++ cs) := by
  obtain ⟨mid, c, hp, h1, h2⟩ := h
  refine ⟨pre ++ mid, c, ?_, ?_, ?_⟩
  · rw [List.append_assoc]
    exact (List.prefix_append_right_inj pre).mpr hp
  · rwa [run_append]
  · rwa [run_append]

/-- A line that was raised and has not fallen is up. -/
theorem irq_of_pressed {s : Blinker} {cs : List Cycle} (hreset : ∀ c ∈ cs, c.reset = false)
    (h : s.Pressed cs) (hf : ¬ s.Falls cs) : (s.run cs).irq = true := by
  obtain ⟨pre, c, ⟨post, rfl⟩, hraise⟩ := h
  have hup : (s.run (pre ++ [c])).irq = true := by
    rw [run_append]
    exact irq_clk_of_raises (hreset c (by simp)) hraise
  cases hend : (s.run (pre ++ [c] ++ post)).irq with
  | true => rfl
  | false =>
      rw [run_append] at hend
      exact absurd (falls_of_run hup hend).append hf

/-! ## The contract of the line -/

/-- **The interrupt latch**, along every trace from reset: `irq` is up exactly
when a press since the last reset has not been acknowledged after it; a cycle
that neither raises nor acknowledges, such as a write of the enable, leaves it;
and of a STATE read held over `held` and `c` the byte captured in `c` shows the
registers after all earlier cycles, so that every enabled press so far was in a
cycle before `c` and is in them, or was in `c` and leaves `irq` up. -/
theorem irq_latch (cs : List Cycle) :
    ((reset.run cs).irq = true ↔
      ∃ pre c post, cs = pre ++ c :: post ∧ (∀ d ∈ c :: post, d.reset = false) ∧
        (reset.run pre).Raises c ∧
        ∀ mid d, mid ++ [d] <+: post → ¬ (reset.run (pre ++ c :: mid)).Acks d) ∧
    (∀ c : Cycle, c.reset = false → ¬ (reset.run cs).Raises c → ¬ (reset.run cs).Acks c →
      (reset.run (cs ++ [c])).irq = (reset.run cs).irq) ∧
    ∀ pre held c, cs = pre ++ held ++ [c] → (∀ d ∈ held ++ [c], d.Reads true) →
      (((reset.run (pre ++ held)).readdata c).extractLsb' 4 4 = (reset.run (pre ++ held)).speed ∧
        ((reset.run (pre ++ held)).readdata c).getLsbD 2 = (reset.run (pre ++ held)).enaIrq ∧
        ((reset.run (pre ++ held)).readdata c).getLsbD 1 = (reset.run (pre ++ held)).mode ∧
        ((reset.run (pre ++ held)).readdata c).getLsbD 0 = (reset.run (pre ++ held)).running) ∧
      ∀ as d bs, cs = as ++ d :: bs → (reset.run as).Raises d →
        (bs = [] ∧ (reset.run cs).irq = true) ∨
          ∃ bs', bs = bs' ++ [c] ∧ reset.run (pre ++ held) = ((reset.run as).clk d).run bs' := by
  refine ⟨irq_iff_latched cs, ?_, ?_⟩
  · intro c hr hraise hack
    rw [run_append]
    exact irq_clk_of_neither hr hraise hack
  · intro pre held c hcs hread
    refine ⟨readdata_bits _ (hread c (by simp)), fun as d bs hsplit hraise => ?_⟩
    rcases List.eq_nil_or_concat bs with rfl | ⟨bs', y, rfl⟩
    · obtain ⟨rfl, hd⟩ := List.append_inj' (hcs.symm.trans hsplit) rfl
      obtain rfl : c = d := by simpa using hd
      rw [hcs, run_append]
      exact .inl ⟨rfl, irq_clk_of_raises (hread c (by simp)).1 hraise⟩
    · have heq : pre ++ held ++ [c] = (as ++ d :: bs') ++ [y] := by
        rw [← hcs, hsplit]
        simp
      obtain ⟨hpre, hy⟩ := List.append_inj' heq rfl
      obtain rfl : c = y := by simpa using hy
      rw [hpre, run_append]
      exact .inr ⟨bs', by simp, rfl⟩

end Blinker

end De1Soc
