import De1Soc.Prefix
import Mathlib.Data.BitVec
import Mathlib.Data.Fintype.Prod

/-!
# De1Soc.Displays

The animation of the six seven-segment displays
(`ip/displays_test/displays_test.vhd`).

Three counters in separate processes: `counter` makes a tick every tenth of a
second, with every tick `segments` lights one more segment of the current
display, and when that display is full `num_disp` goes on to the next.
`state_eq_after` gives all three in closed form as a function of the number of
clock edges since the last reset; of the outputs, which are active low, exactly
the first `1 + (t mod 42)` segments in display order are lit after `t` ticks
(`displays_animation`).
-/

namespace De1Soc

/-- The input pins of `displays_test` during one clock cycle. -/
structure DisplaysCycle where
  nRst : Bool := true
  dispEnaN : BitVec 6 := 0
deriving DecidableEq, Repr

/-- The registers of the architecture. -/
@[ext] structure DisplaysTest where
  counter : BitVec 23
  segments : BitVec 7
  numDisp : BitVec 3
deriving DecidableEq, Repr

namespace DisplaysTest

def tenthSec : Nat := 4999999

def tic (s : DisplaysTest) : Bool := s.counter.toNat == tenthSec

/-! ## The clocked processes -/

/-- The state that `nRst = '0'` forces. -/
def reset : DisplaysTest where
  counter := 0
  segments := 0b1111110
  numDisp := 0

def nextCounter (s : DisplaysTest) : BitVec 23 := if s.tic then 0 else s.counter + 1

/-- The segment process: `segments(5 downto 0)&'0'`, started over when all are
lit. -/
def nextSegments (s : DisplaysTest) : BitVec 7 :=
  if s.tic then
    if s.segments = 0 then 0b1111110 else s.segments.extractLsb' 0 6 ++ 0#1
  else s.segments

def nextNumDisp (s : DisplaysTest) : BitVec 3 :=
  if s.segments = 0 ∧ s.tic then
    if s.numDisp = 5 then 0 else s.numDisp + 1
  else s.numDisp

/-- One rising clock edge. -/
def clk (s : DisplaysTest) (c : DisplaysCycle) : DisplaysTest :=
  if c.nRst = false then reset
  else
    { counter := s.nextCounter
      segments := s.nextSegments
      numDisp := s.nextNumDisp }

/-- A stretch of clock cycles. -/
def run (s : DisplaysTest) (cs : List DisplaysCycle) : DisplaysTest := cs.foldl clk s

/-! ## The displays -/

/-- The output for display `j`; a segment is lit when its bit is `'0'`. -/
def disp (s : DisplaysTest) (c : DisplaysCycle) (j : Nat) : BitVec 7 :=
  if c.dispEnaN.getLsbD j = false ∧ s.numDisp.toNat = j then s.segments
  else if c.dispEnaN.getLsbD j = false ∧ s.numDisp.toNat > j then 0
  else 0b1111111

def disp0 (s : DisplaysTest) (c : DisplaysCycle) : BitVec 7 := s.disp c 0
def disp1 (s : DisplaysTest) (c : DisplaysCycle) : BitVec 7 := s.disp c 1
def disp2 (s : DisplaysTest) (c : DisplaysCycle) : BitVec 7 := s.disp c 2
def disp3 (s : DisplaysTest) (c : DisplaysCycle) : BitVec 7 := s.disp c 3
def disp4 (s : DisplaysTest) (c : DisplaysCycle) : BitVec 7 := s.disp c 4
def disp5 (s : DisplaysTest) (c : DisplaysCycle) : BitVec 7 := s.disp c 5

/-- All outputs. -/
def displays (s : DisplaysTest) (c : DisplaysCycle) : Fin 6 → BitVec 7
  | 0 => s.disp0 c
  | 1 => s.disp1 c
  | 2 => s.disp2 c
  | 3 => s.disp3 c
  | 4 => s.disp4 c
  | 5 => s.disp5 c

theorem displays_eq (s : DisplaysTest) (c : DisplaysCycle) (j : Fin 6) :
    s.displays c j = s.disp c j := by
  match j with
  | 0 | 1 | 2 | 3 | 4 | 5 => rfl

/-! ## The closed form -/

/-- The state `n` clock edges after a reset. -/
def after (n : Nat) : DisplaysTest where
  counter := BitVec.ofNat 23 (n % 5000000)
  segments := 0b1111110#7 <<< (n / 5000000 % 7)
  numDisp := BitVec.ofNat 3 (n / 5000000 / 7 % 6)

theorem toNat_counter_after (n : Nat) : (after n).counter.toNat = n % 5000000 := by
  rw [after, BitVec.toNat_ofNat, Nat.mod_eq_of_lt]
  omega

theorem toNat_numDisp_after (n : Nat) : (after n).numDisp.toNat = n / 5000000 / 7 % 6 := by
  rw [after, BitVec.toNat_ofNat, Nat.mod_eq_of_lt]
  omega

theorem tic_after (n : Nat) : (after n).tic = true ↔ n % 5000000 = 4999999 := by
  rw [tic, toNat_counter_after, tenthSec, beq_iff_eq]

/-- All segments are lit after six shifts. -/
theorem segments_eq_zero_iff (n : Nat) : (after n).segments = 0 ↔ n / 5000000 % 7 = 6 := by
  have hlt : n / 5000000 % 7 < 7 := Nat.mod_lt _ (by omega)
  have hcases : ∀ k < 7, (0b1111110#7 <<< k = 0 ↔ k = 6) := by decide
  exact hcases _ hlt

/-- One more shift. -/
theorem shift_segments {k : Nat} (hk : k < 6) :
    (0b1111110#7 <<< k).extractLsb' 0 6 ++ 0#1 = 0b1111110#7 <<< (k + 1) := by
  revert k
  decide

theorem nextCounter_after (n : Nat) : (after n).nextCounter = (after (n + 1)).counter := by
  apply BitVec.eq_of_toNat_eq
  rw [toNat_counter_after, nextCounter]
  by_cases h : n % 5000000 = 4999999
  · rw [if_pos ((tic_after n).mpr h)]
    have hwrap : (n + 1) % 5000000 = 0 := by omega
    rw [hwrap]
    rfl
  · rw [if_neg (mt (tic_after n).mp h), BitVec.toNat_add, toNat_counter_after]
    have hstep : (n + 1) % 5000000 = n % 5000000 + 1 := by omega
    rw [hstep]
    exact Nat.mod_eq_of_lt (show n % 5000000 + 1 < 2 ^ 23 by omega)

theorem nextSegments_after (n : Nat) : (after n).nextSegments = (after (n + 1)).segments := by
  rw [nextSegments]
  by_cases h : n % 5000000 = 4999999
  · rw [if_pos ((tic_after n).mpr h)]
    by_cases hfull : n / 5000000 % 7 = 6
    · have hwrap : (n + 1) / 5000000 % 7 = 0 := by omega
      rw [if_pos ((segments_eq_zero_iff n).mpr hfull)]
      show _ = 0b1111110#7 <<< ((n + 1) / 5000000 % 7)
      rw [hwrap]
      rfl
    · have hstep : (n + 1) / 5000000 % 7 = n / 5000000 % 7 + 1 := by omega
      rw [if_neg (mt (segments_eq_zero_iff n).mp hfull)]
      show _ = 0b1111110#7 <<< ((n + 1) / 5000000 % 7)
      rw [hstep, ← shift_segments (by omega)]
      rfl
  · have hsame : (n + 1) / 5000000 = n / 5000000 := by omega
    rw [if_neg (mt (tic_after n).mp h)]
    show _ = 0b1111110#7 <<< ((n + 1) / 5000000 % 7)
    rw [hsame]
    rfl

theorem nextNumDisp_after (n : Nat) : (after n).nextNumDisp = (after (n + 1)).numDisp := by
  apply BitVec.eq_of_toNat_eq
  rw [toNat_numDisp_after, nextNumDisp]
  by_cases h : n / 5000000 % 7 = 6 ∧ n % 5000000 = 4999999
  · rw [if_pos ⟨(segments_eq_zero_iff n).mpr h.1, (tic_after n).mpr h.2⟩]
    by_cases hlast : n / 5000000 / 7 % 6 = 5
    · have hfive : (after n).numDisp = 5 := by
        apply BitVec.eq_of_toNat_eq
        rw [toNat_numDisp_after, hlast]
        rfl
      have hwrap : (n + 1) / 5000000 / 7 % 6 = 0 := by omega
      rw [if_pos hfive, hwrap]
      rfl
    · have hfive : (after n).numDisp ≠ 5 := by
        intro heq
        have hnat := congrArg BitVec.toNat heq
        rw [toNat_numDisp_after] at hnat
        exact hlast hnat
      have hstep : (n + 1) / 5000000 / 7 % 6 = n / 5000000 / 7 % 6 + 1 := by omega
      rw [if_neg hfive, BitVec.toNat_add, toNat_numDisp_after, hstep]
      exact Nat.mod_eq_of_lt (show n / 5000000 / 7 % 6 + 1 < 2 ^ 3 by omega)
  · have hsame : (n + 1) / 5000000 / 7 = n / 5000000 / 7 := by omega
    rw [if_neg, toNat_numDisp_after, hsame]
    rintro ⟨hzero, htic⟩
    exact h ⟨(segments_eq_zero_iff n).mp hzero, (tic_after n).mp htic⟩

/-- **One edge.** -/
theorem clk_after (n : Nat) {c : DisplaysCycle} (h : c.nRst = true) :
    (after n).clk c = after (n + 1) := by
  rw [clk, if_neg (by simp [h]), nextCounter_after, nextSegments_after, nextNumDisp_after]

theorem run_after (n : Nat) {cs : List DisplaysCycle} (h : ∀ c ∈ cs, c.nRst = true) :
    (after n).run cs = after (n + cs.length) := by
  induction cs generalizing n with
  | nil => rfl
  | cons c cs ih =>
      rw [List.forall_mem_cons] at h
      have hrest := ih (n + 1) h.2
      rw [← clk_after n h.1, Nat.add_assoc, Nat.add_comm 1] at hrest
      exact hrest

/-- The clock edges since the last reset. -/
def edges (cs : List DisplaysCycle) : Nat := (cs.rtakeWhile DisplaysCycle.nRst).length

/-- **The closed form**, along every trace from reset. -/
theorem state_eq_after (cs : List DisplaysCycle) : reset.run cs = after (edges cs) := by
  have hstart : reset.run cs = reset.run (cs.rtakeWhile DisplaysCycle.nRst) := by
    refine List.foldl_eq_foldl_rtakeWhile (fun s c hc => ?_) cs
    rw [clk, if_pos hc]
  have hzero : reset = after 0 := rfl
  rw [hstart, hzero, run_after 0 fun c hc => List.mem_rtakeWhile_imp hc, Nat.zero_add, edges]

/-! ## The lit segments -/

/-- What a display shows. -/
theorem disp_eq (s : DisplaysTest) (c : DisplaysCycle) (j : Nat) :
    s.disp c j =
      if c.dispEnaN.getLsbD j = true ∨ s.numDisp.toNat < j then 0b1111111
      else if j < s.numDisp.toNat then 0 else s.segments := by
  rw [disp]
  cases hena : c.dispEnaN.getLsbD j with
  | true => simp
  | false =>
      obtain hlt | heq | hgt := Nat.lt_trichotomy s.numDisp.toNat j
      · simp [hlt, Nat.ne_of_lt hlt, Nat.not_lt_of_gt hlt]
      · simp [heq]
      · simp [hgt, Nat.ne_of_gt hgt, Nat.not_lt_of_gt hgt]

/-- The segments of the current display that are lit after `k` shifts. -/
theorem getLsbD_segments {k i : Nat} (hk : k < 7) (hi : i < 7) :
    (0b1111110#7 <<< k).getLsbD i = false ↔ i ≤ k := by
  have hcases : ∀ k < 7, ∀ i < 7, ((0b1111110#7 <<< k).getLsbD i = false ↔ i ≤ k) := by decide
  exact hcases k hk i hi

/-- **In display order the lit segments are the first ones.** -/
theorem lit_iff {c : DisplaysCycle} (hc : c.dispEnaN = 0) (n : Nat) {j i : Nat} (hj : j < 6)
    (hi : i < 7) :
    ((after n).disp c j).getLsbD i = false ↔ 7 * j + i ≤ n / 5000000 % 42 := by
  have hena : c.dispEnaN.getLsbD j = false := by
    rw [hc]
    simp
  rw [disp_eq, hena, toNat_numDisp_after]
  generalize ht : n / 5000000 = t
  by_cases hlt : t / 7 % 6 < j
  · have hones : ((0b1111111 : BitVec 7)).getLsbD i = true := by
      revert i
      decide
    rw [if_pos (.inr hlt), hones]
    exact iff_of_false Bool.true_eq_false_eq_False (by omega)
  · rw [if_neg (by simp [hlt])]
    by_cases hgt : j < t / 7 % 6
    · rw [if_pos hgt]
      exact iff_of_true (by simp) (by omega)
    · have hcur : (after n).segments = 0b1111110#7 <<< (t % 7) := by rw [after, ht]
      rw [if_neg hgt, hcur, getLsbD_segments (Nat.mod_lt _ (by omega)) hi]
      omega

/-- The lit segments, as pairs of display and segment. -/
def lit (s : DisplaysTest) (c : DisplaysCycle) : Finset (Fin 6 × Fin 7) :=
  Finset.univ.filter fun p => (s.displays c p.1).getLsbD p.2 = false

/-- There are `k + 1` segments up to the `k`-th. -/
theorem card_first {k : Nat} (hk : k < 42) :
    (Finset.univ.filter fun p : Fin 6 × Fin 7 => 7 * p.1.val + p.2.val ≤ k).card = k + 1 := by
  revert k
  decide

theorem mem_lit {c : DisplaysCycle} (hc : c.dispEnaN = 0) (n : Nat) (p : Fin 6 × Fin 7) :
    p ∈ (after n).lit c ↔ 7 * p.1.val + p.2.val ≤ n / 5000000 % 42 := by
  rw [lit, Finset.mem_filter, displays_eq, lit_iff hc n p.1.isLt p.2.isLt]
  exact and_iff_right (Finset.mem_univ p)

theorem card_lit {c : DisplaysCycle} (hc : c.dispEnaN = 0) (n : Nat) :
    ((after n).lit c).card = 1 + n / 5000000 % 42 := by
  have hfirst : (after n).lit c =
      Finset.univ.filter fun p : Fin 6 × Fin 7 => 7 * p.1.val + p.2.val ≤ n / 5000000 % 42 := by
    ext p
    rw [mem_lit hc, Finset.mem_filter]
    exact (and_iff_right (Finset.mem_univ p)).symm
  rw [hfirst, card_first (Nat.mod_lt _ (by omega)), Nat.add_comm]

/-- **The animation**, along every trace from reset, `edges` clock edges after
the last reset: the three counters in closed form; what each display shows for
every enable vector; and, with all displays enabled, which segments are lit and
how many. -/
theorem displays_animation (cs : List DisplaysCycle) (c : DisplaysCycle) :
    (reset.run cs).counter.toNat = edges cs % 5000000 ∧
      (reset.run cs).segments = 0b1111110#7 <<< (edges cs / 5000000 % 7) ∧
      (reset.run cs).numDisp.toNat = edges cs / 5000000 / 7 % 6 ∧
      (∀ j : Fin 6, (c.dispEnaN.getLsbD j = true → (reset.run cs).displays c j = 0b1111111) ∧
        (c.dispEnaN.getLsbD j = false →
          (j.val < (reset.run cs).numDisp.toNat → (reset.run cs).displays c j = 0b0000000) ∧
          (j.val = (reset.run cs).numDisp.toNat →
            (reset.run cs).displays c j = (reset.run cs).segments) ∧
          ((reset.run cs).numDisp.toNat < j.val → (reset.run cs).displays c j = 0b1111111))) ∧
      (c.dispEnaN = 0 → ((reset.run cs).lit c).card = 1 + edges cs / 5000000 % 42 ∧
        ∀ p, p ∈ (reset.run cs).lit c ↔ 7 * p.1.val + p.2.val ≤ edges cs / 5000000 % 42) := by
  rw [state_eq_after]
  refine ⟨toNat_counter_after _, rfl, toNat_numDisp_after _, ?_, ?_⟩
  · intro j
    rw [displays_eq, disp_eq]
    constructor
    · intro hena
      rw [if_pos (.inl hena)]
    · intro hena
      rw [hena]
      refine ⟨fun hlt => ?_, fun heq => ?_, fun hgt => ?_⟩
      · rw [if_neg (by simp; omega), if_pos hlt]
      · rw [if_neg (by simp [heq]), if_neg (by omega)]
      · rw [if_pos (.inr hgt)]
  · intro hc
    exact ⟨card_lit hc _, mem_lit hc _⟩

end DisplaysTest

end De1Soc
