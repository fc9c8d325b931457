import De1Soc.Blinker.Latch
import De1Soc.Blinker.Speed

/-!
# De1Soc.Blinker.Held

A button held down.

The pulse shaper registers the buttons twice, and nothing reads the registers:
`sync_buttons` is the level.  So a held button acts in every cycle it is held.
Over a stretch of cycles with one button vector the speed moves, the two toggles
flip and the interrupt is raised again as often as there are cycles, up to the
ends of the speed; the stretch acts once exactly when it is too short, or the
button has nothing left to do (`actsOnce_iff`).
-/

namespace De1Soc

namespace Blinker

/-- The buttons are `b` in every cycle, without a bus write or a reset. -/
def Held (b : BitVec 4) (cs : List Cycle) : Prop :=
  ∀ c ∈ cs, c.buttons = b ∧ c.write = false ∧ c.reset = false

/-- How far the cycles move a quantity, each single move counted. -/
def travel (d : Blinker → Blinker → Nat) : Blinker → List Cycle → Nat
  | _, [] => 0
  | s, c :: cs => d s (s.clk c) + travel d (s.clk c) cs

/-- The distance of two speeds. -/
def speedDist (v v' : BitVec 4) : Nat := (v.toNat - v'.toNat) + (v'.toNat - v.toNat)

/-- The sum of the moves of the speed. -/
def speedTravel : Blinker → List Cycle → Nat := travel fun s s' => speedDist s.speed s'.speed

/-- How often `mode` toggles. -/
def modeToggles : Blinker → List Cycle → Nat := travel fun s s' => if s'.mode = s.mode then 0 else 1

/-- How often `running` toggles. -/
def runningToggles : Blinker → List Cycle → Nat :=
  travel fun s s' => if s'.running = s.running then 0 else 1

/-- From the third cycle on a STATE read clears `irq`, and it stays down. -/
def ReadSilences (s : Blinker) (cs : List Cycle) : Prop :=
  ∀ pre c post, cs = pre ++ c :: post → 2 ≤ pre.length → c.readsState = true →
    ∀ mid, mid <+: post → (s.run (pre ++ c :: mid)).irq = false

/-- The stretch of cycles acts at most once. -/
def ActsOnce (s : Blinker) (cs : List Cycle) : Prop :=
  s.speedTravel cs ≤ 1 ∧ s.modeToggles cs ≤ 1 ∧ s.runningToggles cs ≤ 1 ∧ s.ReadSilences cs

/-- Holding `b` for `n` cycles at speed `v` leaves the speed buttons nothing to
do after the first move: no speed button, one cycle (but not slower at speed
zero, which wraps), or one of them next to its end of the range. -/
def SpeedSettles (b v : BitVec 4) (n : Nat) : Prop :=
  n = 0 ∨ (b.getLsbD 0 = false ∧ b.getLsbD 1 = false) ∨
    (n = 1 ∧ (b.getLsbD 0 = true ∨ v ≠ 0)) ∨
    (b.getLsbD 0 = true ∧ b.getLsbD 1 = false ∧ 14 ≤ v.toNat) ∨
    (b.getLsbD 0 = false ∧ b.getLsbD 1 = true ∧ (v = 1 ∨ v = 2))

instance (b v : BitVec 4) (n : Nat) : Decidable (SpeedSettles b v n) :=
  inferInstanceAs (Decidable (_ ∨ _))

theorem held_cons {b : BitVec 4} {c : Cycle} {cs : List Cycle} :
    Held b (c :: cs) ↔ (c.buttons = b ∧ c.write = false ∧ c.reset = false) ∧ Held b cs :=
  List.forall_mem_cons

/-! ## The toggles -/

/-- A quantity that moves by `k` in every cycle of the stretch. -/
theorem travel_eq_mul {d : Blinker → Blinker → Nat} {k : Nat} {b : BitVec 4} {cs : List Cycle}
    (hk : ∀ s c, c.buttons = b → c.write = false → c.reset = false → d s (s.clk c) = k)
    (s : Blinker) (h : Held b cs) : travel d s cs = k * cs.length := by
  induction cs generalizing s with
  | nil => rfl
  | cons c cs ih =>
      rw [held_cons] at h
      obtain ⟨⟨hb, hw, hr⟩, hcs⟩ := h
      rw [travel, hk s c hb hw hr, ih _ hcs, List.length_cons, Nat.mul_succ,
        Nat.add_comm]

theorem modeToggles_eq (s : Blinker) {b : BitVec 4} {cs : List Cycle} (h : Held b cs) :
    s.modeToggles cs = (b.getLsbD 3).toNat * cs.length := by
  unfold modeToggles
  refine travel_eq_mul (fun s c hb hw hr => ?_) s h
  have hbit : c.changeMode = b.getLsbD 3 := by
    rw [← hb]
    rfl
  rw [← hbit]
  cases hm : c.changeMode <;> simp [clk, hr, modeController, hm, hw]

theorem runningToggles_eq (s : Blinker) {b : BitVec 4} {cs : List Cycle} (h : Held b cs) :
    s.runningToggles cs = (b.getLsbD 2).toNat * cs.length := by
  unfold runningToggles
  refine travel_eq_mul (fun s c hb hw hr => ?_) s h
  have hbit : c.pause = b.getLsbD 2 := by
    rw [← hb]
    rfl
  rw [← hbit]
  cases hm : c.pause <;> simp [clk, hr, runningController, hm, hw]

theorem toNat_mul_le_one_iff (b : Bool) (n : Nat) : b.toNat * n ≤ 1 ↔ n ≤ 1 ∨ b = false := by
  cases b <;> simp

/-! ## The speed -/

/-- What holding `b` for one cycle makes of the speed. -/
def heldStep (b v : BitVec 4) : BitVec 4 := speedStep v { buttons := b }

theorem speed_clk_of_held (s : Blinker) {b : BitVec 4} {c : Cycle} (hb : c.buttons = b)
    (hw : c.write = false) (hr : c.reset = false) : (s.clk c).speed = heldStep b s.speed := by
  subst hb
  simp [clk, hr, speedControl, hw, heldStep, speedStep, Cycle.faster, Cycle.slower,
    Cycle.syncButtons]

theorem speedTravel_cons (s : Blinker) (c : Cycle) (cs : List Cycle) :
    s.speedTravel (c :: cs) =
      speedDist s.speed (s.clk c).speed + (s.clk c).speedTravel cs := rfl

/-- A speed that the button leaves alone stays. -/
theorem speedTravel_of_fixed {s : Blinker} {b : BitVec 4} {cs : List Cycle} (h : Held b cs)
    (hv : heldStep b s.speed = s.speed) : s.speedTravel cs = 0 := by
  induction cs generalizing s with
  | nil => rfl
  | cons c cs ih =>
      rw [held_cons] at h
      obtain ⟨⟨hb, hw, hr⟩, hcs⟩ := h
      have hstep : (s.clk c).speed = s.speed := (speed_clk_of_held s hb hw hr).trans hv
      have hrest : (s.clk c).speedTravel cs = 0 := ih hcs (by rw [hstep, hv])
      rw [speedTravel_cons, hstep, hrest]
      simp [speedDist]

/-- One cycle, over all speeds and buttons. -/
theorem speedSettles_one : ∀ b v : BitVec 4,
    SpeedSettles b v 1 ↔ speedDist v (heldStep b v) ≤ 1 := by
  decide

/-- Two cycles. -/
theorem speedSettles_two : ∀ b v : BitVec 4, SpeedSettles b v 2 ↔
    speedDist v (heldStep b v) + speedDist (heldStep b v) (heldStep b (heldStep b v)) ≤ 1 := by
  decide

/-- A stretch that has settled after two cycles has settled. -/
theorem heldStep_fixed_of_settles : ∀ b v : BitVec 4, SpeedSettles b v 2 →
    heldStep b (heldStep b (heldStep b v)) = heldStep b (heldStep b v) := by
  decide

/-- Whether it has settled does not depend on how long it goes on. -/
theorem speedSettles_add_two (b v : BitVec 4) (n : Nat) :
    SpeedSettles b v (n + 2) ↔ SpeedSettles b v 2 := by
  simp [SpeedSettles]

/-- **How far a held button moves the speed.** -/
theorem speedTravel_le_one_iff (s : Blinker) {b : BitVec 4} {cs : List Cycle} (h : Held b cs) :
    s.speedTravel cs ≤ 1 ↔ SpeedSettles b s.speed cs.length := by
  match cs, h with
  | [], _ => exact iff_of_true (Nat.zero_le 1) (.inl rfl)
  | [c], h =>
      obtain ⟨⟨hb, hw, hr⟩, _⟩ := held_cons.mp h
      rw [speedTravel_cons, speed_clk_of_held s hb hw hr]
      exact (speedSettles_one b s.speed).symm
  | c :: c' :: cs, h =>
      obtain ⟨⟨hb, hw, hr⟩, h⟩ := held_cons.mp h
      obtain ⟨⟨hb', hw', hr'⟩, hcs⟩ := held_cons.mp h
      have h1 := speed_clk_of_held s hb hw hr
      have h2 := speed_clk_of_held (s.clk c) hb' hw' hr'
      rw [List.length_cons, List.length_cons, speedSettles_add_two, speedTravel_cons,
        speedTravel_cons, h2, h1]
      constructor
      · intro hle
        exact (speedSettles_two b s.speed).mpr (by omega)
      · intro hset
        have hfix : ((s.clk c).clk c').speedTravel cs = 0 :=
          speedTravel_of_fixed hcs (by rw [h2, h1, heldStep_fixed_of_settles b s.speed hset])
        have htwo := (speedSettles_two b s.speed).mp hset
        omega

/-! ## The interrupt -/

theorem press_eq_false_iff (c : Cycle) : c.press = false ↔ c.buttons = 0 := by
  have h : ∀ b : BitVec 4, ({ buttons := b } : Cycle).press = false ↔ b = 0 := by decide
  exact h c.buttons

/-- In a stretch without a bus write every cycle raises `irq` or none does. -/
theorem raises_of_held {s : Blinker} {b : BitVec 4} {pre post : List Cycle} {c : Cycle}
    (h : Held b (pre ++ c :: post)) :
    (s.run pre).Raises c ↔ b ≠ 0 ∧ s.enaIrq = true := by
  have hpre : ∀ d ∈ pre, d.reset = false ∧ d.writesConfig = false := by
    intro d hd
    obtain ⟨_, hw, hr⟩ := h d (by simp [hd])
    exact ⟨hr, by simp [Cycle.writesConfig, hw]⟩
  obtain ⟨hb, _, _⟩ := h c (by simp)
  have hpress : c.press = true ↔ b ≠ 0 := by
    rw [← hb, ← Bool.not_eq_false, press_eq_false_iff]
  rw [Raises, hpress, enaIrq_run_of_not_writesConfig s hpre]

/-- Where the stretch raises nothing, a STATE read clears `irq`, and no later
cycle sets it. -/
theorem irq_run_of_read {s : Blinker} {b : BitVec 4} {pre mid post : List Cycle} {c : Cycle}
    (h : Held b (pre ++ c :: post)) (hquiet : ¬ (b ≠ 0 ∧ s.enaIrq = true))
    (hread : c.readsState = true) (hmid : mid <+: post) :
    (s.run (pre ++ c :: mid)).irq = false := by
  induction mid using List.reverseRecOn with
  | nil =>
      rw [run_append, run_cons, run_nil]
      have hpins : c.read = true ∧ c.address = true := by
        simpa [Cycle.readsState] using hread
      have hraise : ¬ (s.run pre).Raises c := fun hr => hquiet ((raises_of_held h).mp hr)
      rw [← Bool.not_eq_true, irq_clk_iff (h c (by simp)).2.2]
      rintro (hr | ⟨_, hack⟩)
      · exact hraise hr
      · refine hack ⟨hpins.1, hpins.2, ?_⟩
        rw [← Bool.and_eq_false_iff]
        simpa [Raises] using hraise
  | append_singleton mid d ih =>
      obtain ⟨rest, rfl⟩ := hmid
      have hheld : Held b ((pre ++ c :: mid) ++ d :: rest) := by simpa using h
      have hraise : ¬ (s.run (pre ++ c :: mid)).Raises d := fun hr =>
        hquiet ((raises_of_held hheld).mp hr)
      have hdown := ih ⟨[d] ++ rest, by simp⟩
      have hsplit : pre ++ c :: (mid ++ [d]) = (pre ++ c :: mid) ++ [d] := by simp
      rw [hsplit, run_append, run_cons, run_nil, ← Bool.not_eq_true,
        irq_clk_iff (hheld d (by simp)).2.2, hdown]
      simp [hraise]

/-- **When a STATE read silences a held button.** -/
theorem readSilences_iff (s : Blinker) {b : BitVec 4} {cs : List Cycle} (h : Held b cs) :
    s.ReadSilences cs ↔
      b = 0 ∨ s.enaIrq = false ∨ ∀ c ∈ cs.drop 2, c.readsState = false := by
  constructor
  · intro hsil
    by_contra hno
    simp only [not_or, not_forall, Bool.not_eq_false] at hno
    obtain ⟨hb, hena, c, hc, hread⟩ := hno
    obtain ⟨mid, post, hdrop⟩ := List.append_of_mem hc
    have hcs : cs = (cs.take 2 ++ mid) ++ c :: post := by
      rw [List.append_assoc, ← hdrop, List.take_append_drop]
    have hlen : 2 ≤ (cs.take 2 ++ mid).length := by
      have hpos : 0 < (cs.drop 2).length := List.length_pos_of_mem hc
      rw [List.length_drop] at hpos
      rw [List.length_append, List.length_take]
      omega
    have hdown := hsil _ c post hcs hlen hread [] (by simp)
    have hup : ((s.run (cs.take 2 ++ mid)).clk c).irq = true :=
      irq_clk_of_raises (h c (by rw [hcs]; simp)).2.2 ((raises_of_held (hcs ▸ h)).mpr ⟨hb, hena⟩)
    rw [run_append, run_cons, run_nil, hup] at hdown
    contradiction
  · intro hcond pre c post hcs hlen hread mid hmid
    subst hcs
    have hquiet : ¬ (b ≠ 0 ∧ s.enaIrq = true) := by
      rintro ⟨hb, hena⟩
      obtain hb' | hena' | hno := hcond
      · exact hb hb'
      · rw [hena] at hena'
        contradiction
      · have hmem : c ∈ (pre ++ c :: post).drop 2 := by
          rw [List.drop_append_of_le_length hlen]
          simp
        rw [hno c hmem] at hread
        contradiction
    exact irq_run_of_read h hquiet hread hmid

/-! ## The stretch -/

/-- **A button level acts at most once** exactly when the stretch is too short
for more or the buttons have nothing more to do: the speed settles after one
move, a toggle button is held for one cycle only, and the interrupt is not
enabled or STATE not read from the third cycle on. -/
theorem actsOnce_iff (s : Blinker) (b : BitVec 4) (cs : List Cycle) (h : Held b cs) :
    s.ActsOnce cs ↔
      SpeedSettles b s.speed cs.length ∧
      (cs.length ≤ 1 ∨ b.getLsbD 3 = false) ∧
      (cs.length ≤ 1 ∨ b.getLsbD 2 = false) ∧
      (b = 0 ∨ s.enaIrq = false ∨ ∀ c ∈ cs.drop 2, c.readsState = false) := by
  rw [ActsOnce, speedTravel_le_one_iff s h, modeToggles_eq s h, runningToggles_eq s h,
    readSilences_iff s h, toNat_mul_le_one_iff, toNat_mul_le_one_iff]

/-- The slower button held over three cycles at speed 2, with a STATE read in
the last one: it has nothing to do after the first. -/
theorem actsOnce_slower_at_two :
    Held 0b0010 [{ buttons := 0b0010 }, { buttons := 0b0010 },
        { buttons := 0b0010, read := true, address := true }] ∧
      ActsOnce { reset with speed := 2 } [{ buttons := 0b0010 }, { buttons := 0b0010 },
        { buttons := 0b0010, read := true, address := true }] := by
  have hheld : Held 0b0010 [{ buttons := 0b0010 }, { buttons := 0b0010 },
      { buttons := 0b0010, read := true, address := true }] := by
    unfold Held
    decide
  exact ⟨hheld, (actsOnce_iff _ _ _ hheld).mpr (by decide)⟩

/-- Two cycles of the faster button after reset move the speed twice. -/
theorem faster_held_acts_twice :
    Held 0b0001 [{ buttons := 0b0001 }, { buttons := 0b0001 }] ∧
      reset.speedTravel [{ buttons := 0b0001 }, { buttons := 0b0001 }] = 2 ∧
      (reset.run [{ buttons := 0b0001 }, { buttons := 0b0001 }]).speed = 10 ∧
      ¬ reset.ActsOnce [{ buttons := 0b0001 }, { buttons := 0b0001 }] := by
  refine ⟨by unfold Held; decide, by decide, by decide, fun h => ?_⟩
  exact absurd h.1 (by decide)

end Blinker

end De1Soc
