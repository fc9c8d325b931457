import De1Soc.Displays
import De1Soc.Mealy

/-!
# De1Soc.Displays.Observe

What can be seen of `displays_test` from outside.

The animation has a period of 42 tenths of a second, that is of `period` clock
edges, and nothing in the three counters goes beyond it: the states after two
stretches of edges are the same exactly when the stretches are the same modulo
`period`, and if they are not the displays tell, at the latest when one of the
two ticks before the other (`equivalent_iff_edges`).
-/

namespace De1Soc

namespace DisplaysTest

/-- The entity with its output ports.  `nRst` does not wait for the clock edge:
while it is low the displays are those of the reset state. -/
def entity : Mealy.Machine DisplaysTest DisplaysCycle (Fin 6 → BitVec 7) where
  step := clk
  out s c := if c.nRst then s.displays c else reset.displays c

/-- The clock edges of one round through all segments of all displays. -/
def period : Nat := 42 * (tenthSec + 1)

/-- A round leaves the state. -/
theorem after_of_mod_eq {n m : Nat} (h : n % period = m % period) : after n = after m := by
  have hcounter : n % 5000000 = m % 5000000 := by
    simp only [period, tenthSec] at h
    omega
  have hsegments : n / 5000000 % 7 = m / 5000000 % 7 := by
    simp only [period, tenthSec] at h
    omega
  have hdisp : n / 5000000 / 7 % 6 = m / 5000000 / 7 % 6 := by
    simp only [period, tenthSec] at h
    omega
  rw [after, after, hcounter, hsegments, hdisp]

/-- A cycle with all displays enabled. -/
def showAll : DisplaysCycle := {}

theorem run_replicate (n k : Nat) :
    entity.run (after n) (List.replicate k showAll) = after (n + k) := by
  have hrst : ∀ c ∈ List.replicate k showAll, c.nRst = true := fun c hc => by
    rw [List.eq_of_mem_replicate hc]
    rfl
  have hrun := run_after n hrst
  rwa [List.length_replicate] at hrun

/-- Equivalent states have shown the same number of ticks, now and later. -/
theorem ticks_of_equivalent {n m : Nat} (h : entity.Equivalent (after n) (after m)) (k : Nat) :
    (n + k) / 5000000 % 42 = (m + k) / 5000000 % 42 := by
  have hout := h (List.replicate k showAll) showAll
  rw [run_replicate, run_replicate] at hout
  have hlit : (after (n + k)).lit showAll = (after (m + k)).lit showAll := by
    rw [lit, lit]
    change (after (n + k)).displays showAll = (after (m + k)).displays showAll at hout
    rw [hout]
  have hcard := congrArg Finset.card hlit
  rw [card_lit rfl, card_lit rfl] at hcard
  omega

/-- The one that ticks first is told from the other. -/
theorem counter_le_of_ticks {n m : Nat}
    (h : ∀ k, (n + k) / 5000000 % 42 = (m + k) / 5000000 % 42) : m % 5000000 ≤ n % 5000000 := by
  have hnow := h 0
  have htick := h (5000000 - m % 5000000)
  by_contra hlt
  have hn : (n + (5000000 - m % 5000000)) / 5000000 = n / 5000000 := by omega
  have hm : (m + (5000000 - m % 5000000)) / 5000000 = m / 5000000 + 1 := by omega
  rw [hn, hm] at htick
  rw [Nat.add_zero, Nat.add_zero] at hnow
  omega

/-- **What can be seen of the displays.**  Two states that the device can reach
are told apart by no inputs exactly when the clock edges since the last reset
agree modulo the period, and then they are the same. -/
theorem equivalent_iff_edges (cs ds : List DisplaysCycle) :
    (entity.Equivalent (reset.run cs) (reset.run ds) ↔ edges cs % period = edges ds % period) ∧
      (edges cs % period = edges ds % period ↔ reset.run cs = reset.run ds) := by
  rw [state_eq_after, state_eq_after]
  have hsame : edges cs % period = edges ds % period → after (edges cs) = after (edges ds) :=
    after_of_mod_eq
  have hseen : entity.Equivalent (after (edges cs)) (after (edges ds)) →
      edges cs % period = edges ds % period := by
    intro h
    have hticks := ticks_of_equivalent h
    have hle := counter_le_of_ticks hticks
    have hge := counter_le_of_ticks fun k => (hticks k).symm
    have hnow := hticks 0
    rw [Nat.add_zero, Nat.add_zero] at hnow
    simp only [period, tenthSec]
    omega
  have hequal : after (edges cs) = after (edges ds) →
      entity.Equivalent (after (edges cs)) (after (edges ds)) := by
    intro h
    rw [h]
    exact fun _ _ => rfl
  exact ⟨⟨hseen, fun h => hequal (hsame h)⟩, hsame, fun h => hseen (hequal h)⟩

end DisplaysTest

end De1Soc
