import De1Soc.Blinker
import De1Soc.Countdown

/-!
# De1Soc.Blinker.Shift

The step timing of the blinker.

While `running` is set, `count` is a down-counter that reloads at zero with
`delay * 2^20` and advances `position` as it does (`count_clk_of_running`,
`advances_iff`); while it is clear, neither moves.  What the buttons and the
bus do to `speed` and `running` between two advances therefore matters only
through the speed in the cycle of the first one: over the running cycles the
two registers are a function of the speeds seen there (`shifts_eq_trail`), and
the advances are the reloads of a `Countdown` (`advanceCount_eq_reloads`).
-/

namespace De1Soc

namespace Blinker

/-- The cycle moves `position`. -/
def Advances (s : Blinker) (c : Cycle) : Prop :=
  c.reset = false ∧ (s.clk c).position ≠ s.position

instance (s : Blinker) (c : Cycle) : Decidable (s.Advances c) := inferInstanceAs (Decidable (_ ∧ _))

/-- How often `position` moves in a stretch of cycles. -/
def advanceCount (s : Blinker) : List Cycle → Nat
  | [] => 0
  | c :: cs => (if s.Advances c then 1 else 0) + (s.clk c).advanceCount cs

/-- The speed in each running cycle of a stretch. -/
def runningSpeeds (s : Blinker) : List Cycle → List (BitVec 4)
  | [] => []
  | c :: cs => (if s.running then [s.speed] else []) ++ (s.clk c).runningSpeeds cs

/-- `count` and `position` after each running cycle of a stretch. -/
def shifts (s : Blinker) : List Cycle → List (BitVec 24 × BitVec 4)
  | [] => []
  | c :: cs =>
      (if s.running then [((s.clk c).count, (s.clk c).position)] else []) ++ (s.clk c).shifts cs

/-- The number that `delay & X"00000"` stands for. -/
def reloadValue (speed : BitVec 4) : Nat := (16 - speed.toNat) % 16 * 2 ^ 20

/-! ## One cycle -/

theorem toNat_delay (s : Blinker) : s.delay.toNat = (16 - s.speed.toNat) % 16 := by
  rw [delay]
  bv_omega

theorem toNat_reload (s : Blinker) : (s.delay ++ 0#20).toNat = reloadValue s.speed := by
  rw [BitVec.toNat_append, toNat_delay, reloadValue, BitVec.toNat_ofNat, Nat.zero_mod, Nat.or_zero,
    Nat.shiftLeft_eq]

/-- A running cycle is a tick of the counter. -/
theorem count_clk_of_running {s : Blinker} {c : Cycle} (hr : c.reset = false)
    (h : s.running = true) :
    (s.clk c).count.toNat = Countdown.tick s.count.toNat (reloadValue s.speed) := by
  have hcount : (s.clk c).count = if s.count = 0 then s.delay ++ 0#20 else s.count - 1 := by
    simp [clk, hr, shiftCount, h]
  rw [hcount]
  by_cases h0 : s.count = 0
  · rw [if_pos h0, toNat_reload, h0]
    rfl
  · have hne : s.count.toNat ≠ 0 := by bv_omega
    rw [if_neg h0, Countdown.tick, if_neg hne]
    bv_omega

/-- A paused cycle moves neither register. -/
theorem shift_clk_of_paused {s : Blinker} {c : Cycle} (hr : c.reset = false)
    (h : s.running = false) : (s.clk c).count = s.count ∧ (s.clk c).position = s.position := by
  simp [clk, hr, shiftCount, shiftPosition, h]

/-- **An advance is a running cycle with `count` at zero.** -/
theorem advances_iff {s : Blinker} {c : Cycle} :
    s.Advances c ↔ c.reset = false ∧ s.running = true ∧ s.count = 0 := by
  unfold Advances
  refine and_congr_right fun hr => ?_
  have hpos : (s.clk c).position = s.shiftPosition := by simp [clk, hr]
  rw [hpos, shiftPosition]
  by_cases h : s.running = true ∧ s.count = 0
  · have hmove : (if s.position = 13 then 0 else s.position + 1) ≠ s.position := by
      split
      · bv_omega
      · bv_omega
    simpa [h.1, h.2] using hmove
  · have hstay : (s.running && s.count == 0) = false := by
      simpa using h
    rw [hstay, if_neg Bool.false_ne_true]
    exact iff_of_false (fun hne => hne rfl) h

/-! ## Stretches of cycles -/

section Runs

variable {s : Blinker} {cs : List Cycle}

/-- **`count` over a stretch** is a countdown over its running cycles. -/
theorem count_run (h : ∀ c ∈ cs, c.reset = false) :
    (s.run cs).count.toNat =
      Countdown.run s.count.toNat ((s.runningSpeeds cs).map reloadValue) := by
  induction cs generalizing s with
  | nil => rfl
  | cons c cs ih =>
      rw [List.forall_mem_cons] at h
      rw [run_cons, ih h.2, runningSpeeds]
      cases hrun : s.running with
      | true =>
          rw [count_clk_of_running h.1 hrun]
          rfl
      | false =>
          rw [(shift_clk_of_paused h.1 hrun).1]
          rfl

/-- **The advances of a stretch** are the reloads of the countdown. -/
theorem advanceCount_eq_reloads (h : ∀ c ∈ cs, c.reset = false) :
    s.advanceCount cs =
      Countdown.reloads s.count.toNat ((s.runningSpeeds cs).map reloadValue) := by
  induction cs generalizing s with
  | nil => rfl
  | cons c cs ih =>
      rw [List.forall_mem_cons] at h
      rw [advanceCount, ih h.2, runningSpeeds]
      cases hrun : s.running with
      | true =>
          have hzero : s.Advances c ↔ s.count.toNat = 0 := by
            rw [advances_iff]
            simp only [h.1, hrun, true_and]
            constructor
            · intro h0
              rw [h0]
              rfl
            · intro h0
              bv_omega
          rw [count_clk_of_running h.1 hrun]
          simp only [hzero]
          rfl
      | false =>
          have hno : ¬ s.Advances c := by
            rw [advances_iff, hrun]
            simp
          rw [(shift_clk_of_paused h.1 hrun).1, if_neg hno, Nat.zero_add]
          rfl

/-- What one running cycle with speed `v` makes of the two registers. -/
def shift (p : BitVec 24 × BitVec 4) (v : BitVec 4) : BitVec 24 × BitVec 4 :=
  if p.1 = 0 then ((16 - v) ++ 0#20, if p.2 = 13 then 0 else p.2 + 1) else (p.1 - 1, p.2)

/-- The registers after each of a list of speeds. -/
def trail (p : BitVec 24 × BitVec 4) : List (BitVec 4) → List (BitVec 24 × BitVec 4)
  | [] => []
  | v :: vs => shift p v :: trail (shift p v) vs

theorem shift_clk_of_running {c : Cycle} (hr : c.reset = false) (h : s.running = true) :
    ((s.clk c).count, (s.clk c).position) = shift (s.count, s.position) s.speed := by
  by_cases h0 : s.count = 0#24
  · simp [clk, hr, shiftCount, shiftPosition, shift, delay, h, h0]
  · simp [clk, hr, shiftCount, shiftPosition, shift, h, h0]

/-- **The registers over the running cycles** follow the speeds seen there. -/
theorem shifts_eq_trail (h : ∀ c ∈ cs, c.reset = false) :
    s.shifts cs = trail (s.count, s.position) (s.runningSpeeds cs) := by
  induction cs generalizing s with
  | nil => rfl
  | cons c cs ih =>
      rw [List.forall_mem_cons] at h
      rw [shifts, runningSpeeds, ih h.2]
      cases hrun : s.running with
      | true =>
          rw [shift_clk_of_running h.1 hrun]
          rfl
      | false =>
          rw [(shift_clk_of_paused h.1 hrun).1, (shift_clk_of_paused h.1 hrun).2]
          rfl

/-- After an advance with speed `v` the next one comes after `reloadValue v`
running cycles. -/
theorem running_between_advances {c d : Cycle} (hc : c.reset = false)
    (h : ∀ c ∈ cs, c.reset = false) (hadv : s.Advances c) (hnone : (s.clk c).advanceCount cs = 0)
    (hnext : ((s.clk c).run cs).Advances d) :
    ((s.clk c).runningSpeeds cs).length = reloadValue s.speed := by
  obtain ⟨_, hrun, h0⟩ := advances_iff.mp hadv
  have hcount : (s.clk c).count.toNat = reloadValue s.speed := by
    rw [count_clk_of_running hc hrun, h0]
    rfl
  obtain ⟨_, _, hzero⟩ := advances_iff.mp hnext
  have hend := count_run (s := s.clk c) h
  rw [advanceCount_eq_reloads h, hcount] at hnone
  rw [hcount, hzero] at hend
  have hlen := Countdown.length_of_silent hnone hend.symm
  rwa [List.length_map] at hlen

/-- At a constant speed `v ≥ 1`, from `count = 0`, the advances come every
`(16 - v) * 2^20 + 1` running cycles, the first at once. -/
theorem advanceCount_of_constant {v : BitVec 4} (h : ∀ c ∈ cs, c.reset = false)
    (h0 : s.count = 0) (hv : 1 ≤ v.toNat) (hconst : ∀ u ∈ s.runningSpeeds cs, u = v) :
    s.advanceCount cs = (s.runningSpeeds cs).length ⌈/⌉ ((16 - v.toNat) * 2 ^ 20 + 1) := by
  have hvalue : reloadValue v = (16 - v.toNat) * 2 ^ 20 := by
    rw [reloadValue, Nat.mod_eq_of_lt (by omega)]
  have hspeeds : s.runningSpeeds cs = List.replicate (s.runningSpeeds cs).length v :=
    List.eq_replicate_of_mem hconst
  rw [advanceCount_eq_reloads h, h0]
  nth_rewrite 1 [hspeeds]
  rw [List.map_replicate, hvalue]
  exact Countdown.reloads_replicate _ _

end Runs

/-- **Step timing**, along every trace from reset without a further reset:
between two consecutive advances there are `((16 - speed) mod 16) * 2^20`
running cycles, `speed` being that of the first; paused cycles move neither
register, and over the running cycles both are determined by the speeds seen
there; and from `count = 0` at a constant speed the advances are evenly
spaced. -/
theorem step_timing (cs : List Cycle) (h : ∀ c ∈ cs, c.reset = false) :
    (∀ pre c mid d post, cs = pre ++ c :: (mid ++ d :: post) → (reset.run pre).Advances c →
      ((reset.run pre).clk c).advanceCount mid = 0 →
      (((reset.run pre).clk c).run mid).Advances d →
      (((reset.run pre).clk c).runningSpeeds mid).length =
        (16 - (reset.run pre).speed.toNat) % 16 * 2 ^ 20) ∧
    (∀ pre c, pre ++ [c] <+: cs → (reset.run pre).running = false →
      ((reset.run pre).clk c).count = (reset.run pre).count ∧
        ((reset.run pre).clk c).position = (reset.run pre).position) ∧
    (∀ ds : List Cycle, (∀ d ∈ ds, d.reset = false) →
      reset.runningSpeeds ds = reset.runningSpeeds cs → reset.shifts ds = reset.shifts cs) ∧
    ∀ (pre post : List Cycle) (v : BitVec 4), cs = pre ++ post → (reset.run pre).count = 0 →
      1 ≤ v.toNat → (∀ u ∈ (reset.run pre).runningSpeeds post, u = v) →
      (reset.run pre).advanceCount post =
        ((reset.run pre).runningSpeeds post).length ⌈/⌉ ((16 - v.toNat) * 2 ^ 20 + 1) := by
  refine ⟨?_, ?_, ?_, ?_⟩
  · intro pre c mid d post hcs hadv hnone hnext
    subst hcs
    have hmid : ∀ e ∈ mid, e.reset = false := fun e he => h e (by simp [he])
    exact running_between_advances hadv.1 hmid hadv hnone hnext
  · intro pre c hp hpaused
    exact shift_clk_of_paused (h c (hp.subset (by simp))) hpaused
  · intro ds hds heq
    rw [shifts_eq_trail h, shifts_eq_trail hds, heq]
  · intro pre post v hcs h0 hv hconst
    subst hcs
    exact advanceCount_of_constant (fun c hc => h c (by simp [hc])) h0 hv hconst

/-- The first two cycles after reset, at speed 8: one advance. -/
theorem step_timing_after_reset :
    reset.advanceCount [{}, {}] = 2 ⌈/⌉ ((16 - 8) * 2 ^ 20 + 1) ∧
      reset.advanceCount [{}, {}] = 1 := by
  have hidle : ∀ c ∈ [({} : Cycle), {}], c.reset = false := by decide
  obtain ⟨_, _, _, hconst⟩ := step_timing [{}, {}] hidle
  exact ⟨hconst [] [{}, {}] 8 rfl rfl (by decide) (by decide), by decide⟩

end Blinker

end De1Soc
