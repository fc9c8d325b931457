import Mathlib.Data.BitVec

/-!
# De1Soc.Blinker

The blinker peripheral (`ip/blinker/blinker.vhd`), register for register.

One `Cycle` is what the pins carry around one rising clock edge; `Blinker`
holds the signals that the clocked processes drive; `Blinker.clk` is the
edge.  Each clocked process of the architecture is one function under the
name its comment gives it, and `clk` updates all registers from the values
they had before the edge, as VHDL signal assignment does.  `leds`, `delay`
and `readdata` are the combinational outputs of the current cycle.

`std_logic` is read as two-valued, and a button is active when its bit is
`'1'`, as every process here tests it.
-/

namespace De1Soc

/-- The input pins during one clock cycle. -/
structure Cycle where
  reset : Bool := false
  switches : BitVec 8 := 0
  buttons : BitVec 4 := 0
  address : Bool := false
  write : Bool := false
  writedata : BitVec 8 := 0
  read : Bool := false
deriving DecidableEq, Repr

/-- The registers of the architecture. -/
structure Blinker where
  curValue : BitVec 4
  lastValue : BitVec 4
  speed : BitVec 4
  count : BitVec 24
  position : BitVec 4
  running : Bool
  mode : Bool
  enaIrq : Bool
  irq : Bool
deriving DecidableEq, Repr

namespace Cycle

/-! ## The named button wires -/

/-- `sync_buttons <= buttons`: the shaper registers are not used. -/
def syncButtons (c : Cycle) : BitVec 4 := c.buttons

def faster (c : Cycle) : Bool := c.syncButtons[0]

def slower (c : Cycle) : Bool := c.syncButtons[1]

def pause (c : Cycle) : Bool := c.syncButtons[2]

def changeMode (c : Cycle) : Bool := c.syncButtons[3]

/-- Some button is active: the disjunction that gates the interrupt. -/
def press (c : Cycle) : Bool :=
  c.syncButtons[0] || c.syncButtons[1] ||
    c.syncButtons[2] || c.syncButtons[3]

/-- A bus write to SPEED (address 0). -/
def writesSpeed (c : Cycle) : Bool := c.write && !c.address

/-- A bus write to CONFIG (address 1). -/
def writesConfig (c : Cycle) : Bool := c.write && c.address

/-- A bus read of STATE (address 1). -/
def readsState (c : Cycle) : Bool := c.read && c.address

end Cycle

namespace Blinker

/-! ## The combinational outputs -/

/-- `delay <= 16 - speed`, in four bits. -/
def delay (s : Blinker) : BitVec 4 := 16 - s.speed

/-- The leds manager. -/
def leds (s : Blinker) (c : Cycle) : BitVec 8 :=
  if s.mode = false then
    match s.position with
    | 0#4 => 0b00000001#8
    | 1#4 => 0b00000010#8
    | 2#4 => 0b00000100#8
    | 3#4 => 0b00001000#8
    | 4#4 => 0b00010000#8
    | 5#4 => 0b00100000#8
    | 6#4 => 0b01000000#8
    | 7#4 => 0b10000000#8
    | 8#4 => 0b01000000#8
    | 9#4 => 0b00100000#8
    | 10#4 => 0b00010000#8
    | 11#4 => 0b00001000#8
    | 12#4 => 0b00000100#8
    | 13#4 => 0b00000010#8
    | _ => 0b00000000#8
  else if s.position[0] = false then c.switches
  else ~~~c.switches

/-- The STATE byte: `speed & '0' & ena_irq & mode & running`. -/
def stateByte (s : Blinker) : BitVec 8 :=
  s.speed ++ 0#1 ++ BitVec.ofBool s.enaIrq ++ BitVec.ofBool s.mode ++ BitVec.ofBool s.running

/-- The Avalon read control. -/
def readdata (s : Blinker) (c : Cycle) : BitVec 8 :=
  if c.read && c.address then s.stateByte
  else if c.read && !c.address then s.leds c
  else 0

/-! ## The clocked processes -/

/-- The state that `reset = '1'` forces. -/
def reset : Blinker where
  curValue := 0b1111
  lastValue := 0b1111
  speed := 8
  count := 0
  position := 0
  running := true
  mode := true
  enaIrq := false
  irq := false

/-- The speed control process. -/
def speedControl (s : Blinker) (c : Cycle) : BitVec 4 :=
  if c.faster && s.speed != 15 then s.speed + 1
  else if c.slower && s.speed != 1 then s.speed - 1
  else if c.write && !c.address then c.writedata.setWidth 4
  else s.speed

/-- The mode controller. -/
def modeController (s : Blinker) (c : Cycle) : Bool :=
  if c.changeMode then !s.mode
  else if c.write && c.address then c.writedata[0]
  else s.mode

/-- The running controller. -/
def runningController (s : Blinker) (c : Cycle) : Bool :=
  if c.pause then !s.running
  else if c.write && c.address then c.writedata[1]
  else s.running

/-- The shift generation process, `count` part: it reads `delay` and
`running` as they are before the edge. -/
def shiftCount (s : Blinker) : BitVec 24 :=
  if s.running then
    if s.count = 0 then s.delay ++ 0#20 else s.count - 1
  else s.count

/-- The shift generation process, `position` part. -/
def shiftPosition (s : Blinker) : BitVec 4 :=
  if s.running && s.count == 0 then
    if s.position = 13 then 0 else s.position + 1
  else s.position

/-- The interrupt enable control. -/
def enableControl (s : Blinker) (c : Cycle) : Bool :=
  if c.write && c.address then c.writedata[2] else s.enaIrq

/-- The interrupt generation control. -/
def interruptControl (s : Blinker) (c : Cycle) : Bool :=
  if c.press && s.enaIrq then true
  else if c.read && c.address then false
  else s.irq

/-- One rising clock edge. -/
def clk (s : Blinker) (c : Cycle) : Blinker :=
  if c.reset then reset
  else
    { curValue := c.buttons
      lastValue := s.curValue
      speed := s.speedControl c
      count := s.shiftCount
      position := s.shiftPosition
      running := s.runningController c
      mode := s.modeController c
      enaIrq := s.enableControl c
      irq := s.interruptControl c }

/-- A stretch of clock cycles. -/
def run (s : Blinker) (cs : List Cycle) : Blinker := cs.foldl clk s

@[simp] theorem run_nil (s : Blinker) : s.run [] = s := rfl

@[simp] theorem run_cons (s : Blinker) (c : Cycle) (cs : List Cycle) :
    s.run (c :: cs) = (s.clk c).run cs := rfl

theorem run_append (s : Blinker) (cs ds : List Cycle) :
    s.run (cs ++ ds) = (s.run cs).run ds := List.foldl_append

end Blinker

end De1Soc
