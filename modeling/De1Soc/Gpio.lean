import De1Soc.Bus
import De1Soc.Driver.Machine

/-!
# De1Soc.Gpio

The `gpio_test` peripheral (`gpio_test.vhd`) on the bus.

It has one register, the LEDs, which a write of address 0 loads; a read of
address 0 gives the switches of that cycle, and address 1 gives zero and takes
nothing.  The LEDs cannot be read back.  On the bus it is served as the blinker
is: one cycle for a write, a held strobe for a read (`gpio_test_hw.tcl` has the
same wait times).
-/

namespace De1Soc

/-- The inputs of `gpio_test` in one clock cycle. -/
structure GpioCycle where
  reset : Bool := false
  switches : BitVec 8 := 0
  address : Bool := false
  write : Bool := false
  writedata : BitVec 8 := 0
  read : Bool := false
deriving DecidableEq, Repr

namespace GpioCycle

/-- No bus access and no reset. -/
def Idle (c : GpioCycle) : Prop := c.reset = false ∧ c.read = false ∧ c.write = false

/-- A read strobe at `address`. -/
def Reads (c : GpioCycle) (address : Bool) : Prop :=
  c.reset = false ∧ c.read = true ∧ c.write = false ∧ c.address = address

/-- A write of `w` to `address`. -/
def Writes (c : GpioCycle) (address : Bool) (w : BitVec 8) : Prop :=
  c.reset = false ∧ c.read = false ∧ c.write = true ∧ c.address = address ∧ c.writedata = w

end GpioCycle

/-- The register `leds_out`. -/
structure GpioTest where
  ledsOut : BitVec 8
deriving DecidableEq, Repr

namespace GpioTest

def reset : GpioTest := ⟨0x00⟩

/-- The process `output`. -/
def clk (s : GpioTest) (c : GpioCycle) : GpioTest :=
  if c.reset then reset else if c.write && !c.address then ⟨c.writedata⟩ else s

def readdata (c : GpioCycle) : BitVec 8 :=
  if c.read && !c.address then c.switches else 0

def leds (s : GpioTest) : BitVec 8 := s.ledsOut

/-- The cycles `cs` carry out the access `a`. -/
def Serves : Access → List GpioCycle → Prop
  | .read address x, cs => ∃ held c, cs = held ++ [c] ∧ (∀ d ∈ cs, d.Reads address) ∧ x = readdata c
  | .write address w, cs => ∃ c, cs = [c] ∧ c.Writes address w

/-- What an access leaves of the LEDs. -/
def effect (leds : BitVec 8) : Access → BitVec 8
  | .read _ _ => leds
  | .write address w => if address then leds else w

theorem leds_clk_of_idle (s : GpioTest) {c : GpioCycle} (h : c.Idle) : (s.clk c).leds = s.leds := by
  obtain ⟨hreset, _, hwrite⟩ := h
  simp [clk, hreset, hwrite]

theorem leds_clk_of_reads (s : GpioTest) {c : GpioCycle} {address : Bool} (h : c.Reads address) :
    (s.clk c).leds = s.leds := by
  obtain ⟨hreset, _, hwrite, _⟩ := h
  simp [clk, hreset, hwrite]

theorem leds_clk_of_writes (s : GpioTest) {c : GpioCycle} {address : Bool} {w : BitVec 8}
    (h : c.Writes address w) : (s.clk c).leds = effect s.leds (.write address w) := by
  obtain ⟨hreset, _, hwrite, rfl, rfl⟩ := h
  cases ha : c.address <;> simp [clk, hreset, hwrite, ha, leds, effect]

theorem leds_foldl_of_reads (s : GpioTest) {cs : List GpioCycle} {address : Bool}
    (h : ∀ c ∈ cs, c.Reads address) : (cs.foldl clk s).leds = s.leds := by
  induction cs generalizing s with
  | nil => rfl
  | cons c cs ih =>
      rw [List.forall_mem_cons] at h
      rw [List.foldl_cons, ih _ h.2, leds_clk_of_reads s h.1]

/-- `gpio_test` as a device on the bus. -/
def device : Bus.Device GpioTest GpioCycle Access where
  clk := clk
  Idle := GpioCycle.Idle
  Serves _ := Serves

/-- The view of the LEDs: what a read shows has nothing to do with them. -/
def ledsView : Bus.View device (BitVec 8) where
  abs := leds
  effect := effect
  Shows _ _ := True
  Fair _ := True
  idle s _ _ hc := leds_clk_of_idle s hc
  serve s a cs _ ha := by
    cases a with
    | read address x =>
        obtain ⟨held, c, rfl, hreads, _⟩ := ha
        exact ⟨trivial, leds_foldl_of_reads s hreads⟩
    | write address w =>
        obtain ⟨c, rfl, hc⟩ := ha
        exact ⟨trivial, leds_clk_of_writes s hc⟩

/-- What is read at address 0 are the switches of one of the cycles. -/
theorem switches_of_serves {x : BitVec 8} {cs : List GpioCycle}
    (h : Serves (.read false x) cs) : ∃ c ∈ cs, x = c.switches := by
  obtain ⟨held, c, rfl, hreads, rfl⟩ := h
  obtain ⟨_, hread, _, haddr⟩ := hreads c (by simp)
  exact ⟨c, by simp, by simp [readdata, hread, haddr]⟩

end GpioTest

end De1Soc
