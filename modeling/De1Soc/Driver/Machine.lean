import De1Soc.Bus
import De1Soc.Driver
import De1Soc.Kernel.Exec

/-!
# De1Soc.Driver.Machine

The driver's operations on the device: the machine that runs its paths.

A register access is a stretch of bus cycles.  A write is one cycle; a read
holds the strobe for one or more cycles (`readWaitTime` in `blinker_hw.tcl`)
and captures the data in the last of them.  Buttons and switches may do
anything in every cycle, bus cycles included.  Between accesses the clock
runs on by itself (`Cycle.Idle`).

The device's side of a path are the bus accesses it makes, with idle cycles
around them: `accesses_of_exec` says that this is all an execution does to the
`blinkerDevice`.
-/

namespace De1Soc

open Kernel

/-- The shared data: the device and the variables of the module. -/
structure Mem where
  dev : Blinker
  irqCount : BitVec 32 := 0
  interruptFlag : Bool := false
  count : Counter → BitVec 32 := fun _ => 0

/-- The shared state that `blinker_probe` leaves: `sema_init` to 1, a fresh
lock, no interrupt seen. -/
def probed (dev : Blinker) : Shared Mem := { mem := { dev := dev }, sem := 1, lock := false }

/-! ## Bus accesses -/

/-- A bus access and its data. -/
inductive Access
  | read (address : Bool) (x : BitVec 8)
  | write (address : Bool) (w : BitVec 8)
deriving DecidableEq, Repr

/-- `s.Serves a cs`: from `s` the cycles `cs` carry out the access `a`. -/
def Blinker.Serves (s : Blinker) : Access → List Cycle → Prop
  | .read address x, cs => ∃ held c, cs = held ++ [c] ∧ (∀ d ∈ cs, d.Reads address) ∧
      x = (s.run held).readdata c
  | .write address w, cs => ∃ c, cs = [c] ∧ c.Writes address w

/-- The blinker as a device on the bus. -/
def blinkerDevice : Bus.Device Blinker Cycle Access where
  clk := Blinker.clk
  Idle := Cycle.Idle
  Serves := Blinker.Serves

theorem blinkerDevice_run (s : Blinker) (cs : List Cycle) :
    blinkerDevice.run s cs = s.run cs := rfl

/-- The bus access that an operation makes. -/
@[simp] def access? : DriverOp → Option Access
  | .io (.ioread8 address) x => some (.read address x)
  | .io (.memcpyFromio address) x => some (.read address x)
  | .io (.iowrite8 data address) _ => some (.write address data)
  | .io (.memcpyToio address data) _ => some (.write address data)
  | _ => none

/-- The bus accesses of a list of operations. -/
def accesses (ops : List DriverOp) : List Access := ops.filterMap access?

@[simp] theorem accesses_nil : accesses [] = [] := rfl

@[simp] theorem accesses_cons (o : DriverOp) (ops : List DriverOp) :
    accesses (o :: ops) = (access? o).toList ++ accesses ops := by
  cases h : access? o with
  | none => exact List.filterMap_cons_none h
  | some b => exact List.filterMap_cons_some h

/-- The bus writes of a list of operations. -/
def busWrites (os : List DriverOp) : List (Bool × BitVec 8) :=
  (accesses os).filterMap fun
    | .write address w => some (address, w)
    | .read _ _ => none

/-- What an operation does to the driver's variables. -/
def Mem.update (m : Mem) : IoOp → Mem
  | .incr c => { m with count := Function.update m.count c (m.count c + 1) }
  | .incrIrqCount => { m with irqCount := m.irqCount + 1 }
  | .setInterruptFlag b => { m with interruptFlag := b }
  | _ => m

/-- The machine of the driver.  A register access moves the device along its
bus cycles; everything else takes no cycle and moves only variables.  Readers
wait for the flag, and `wake_up_interruptible` wakes those who sleep. -/
def machine : Machine user io Mem Cycle where
  eff a m x cs m' :=
    match access? (.io a x) with
    | some b => m.dev.Serves b cs ∧ m' = { m with dev := m.dev.run cs }
    | none => cs = [] ∧ m' = m.update a
  env m c m' := c.Idle ∧ m' = { m with dev := m.dev.clk c }
  ready m := m.interruptFlag = true
  wakes
    | .wakeUp => true
    | _ => false

/-! ## The device's side of a path -/

@[simp] theorem update_dev (m : Mem) (a : IoOp) : (m.update a).dev = m.dev := by
  cases a <;> rfl

/-- An operation with no bus access takes no cycle and leaves the device. -/
theorem dev_of_does_none {o : DriverOp} {w w' : Shared Mem} {cs : List Cycle}
    (h : Does machine o w cs w') (ho : access? o = none) : cs = [] ∧ w'.mem.dev = w.mem.dev := by
  cases h with
  | io w a x ts m heff =>
      simp only [machine, ho] at heff
      obtain ⟨rfl, rfl⟩ := heff
      exact ⟨rfl, update_dev _ _⟩
  | _ => exact ⟨rfl, rfl⟩

/-- An operation with a bus access moves the device along it, and nothing
else. -/
theorem dev_of_does_some {o : DriverOp} {w w' : Shared Mem} {cs : List Cycle} {b : Access}
    (h : Does machine o w cs w') (ho : access? o = some b) :
    w.mem.dev.Serves b cs ∧ w' = { w with mem := { w.mem with dev := w.mem.dev.run cs } } := by
  cases h with
  | io w a x ts m heff =>
      simp only [machine, ho] at heff
      obtain ⟨hs, rfl⟩ := heff
      exact ⟨hs, rfl⟩
  | _ => simp [access?] at ho

/-- **The device's side of an execution** is its bus accesses. -/
theorem accesses_of_exec {α : Type} {w w' : Shared Mem} {p : Path α} {os : List DriverOp}
    {cs : List Cycle} {r : α} (h : Exec machine w p os cs r w') :
    blinkerDevice.Accesses w.mem.dev (accesses os) cs w'.mem.dev := by
  induction h with
  | ret w r => exact .nil _
  | tick m hm hx ih =>
      obtain ⟨hc, rfl⟩ := hm
      exact .idle hc ih
  | @op w w₁ w' p p' o os ts ts' r ht hd hx ih =>
      cases ho : access? o with
      | none =>
          obtain ⟨rfl, hdev⟩ := dev_of_does_none hd ho
          rw [accesses_cons, ho, ← hdev]
          exact ih
      | some b =>
          obtain ⟨hs, rfl⟩ := dev_of_does_some hd ho
          rw [accesses_cons, ho]
          exact .access hs ih
  | signalled hx ih => exact ih

/-- Every operation moves the device along its own cycles. -/
theorem dev_of_does {o : DriverOp} {w w' : Shared Mem} {cs : List Cycle}
    (h : Does machine o w cs w') : w'.mem.dev = w.mem.dev.run cs := by
  cases ho : access? o with
  | none =>
      obtain ⟨rfl, hdev⟩ := dev_of_does_none h ho
      rw [hdev, Blinker.run_nil]
  | some b =>
      obtain ⟨_, rfl⟩ := dev_of_does_some h ho
      rfl

/-- The interrupt flag after an operation. -/
@[simp] def flagAfter (b : Bool) : DriverOp → Bool
  | .io (.setInterruptFlag b') _ => b'
  | _ => b

theorem interruptFlag_of_does {o : DriverOp} {w w' : Shared Mem} {cs : List Cycle}
    (h : Does machine o w cs w') : w'.mem.interruptFlag = flagAfter w.mem.interruptFlag o := by
  cases h with
  | io w a x ts m heff =>
      cases a <;> (simp only [machine, access?] at heff; obtain ⟨_, rfl⟩ := heff; rfl)
  | _ => rfl

/-- Only a CONFIG write changes the interrupt enable. -/
theorem enaIrq_of_does {o : DriverOp} {w w' : Shared Mem} {cs : List Cycle}
    (h : Does machine o w cs w') (ho : ∀ b, access? o ≠ some (.write true b)) :
    w'.mem.dev.enaIrq = w.mem.dev.enaIrq := by
  rw [dev_of_does h]
  apply Blinker.enaIrq_run_of_not_writesConfig
  cases hacc : access? o with
  | none =>
      obtain ⟨rfl, _⟩ := dev_of_does_none h hacc
      simp
  | some a =>
      obtain ⟨hserve, _⟩ := dev_of_does_some h hacc
      cases a with
      | read address x =>
          obtain ⟨_, _, _, hread, _⟩ := hserve
          intro c hc
          obtain ⟨hreset, _, hwrite, _⟩ := hread c hc
          simp [hreset, Cycle.writesConfig, hwrite]
      | write address b =>
          cases address with
          | true => exact absurd hacc (ho b)
          | false =>
              obtain ⟨c, rfl, hreset, _, _, haddr, _⟩ := hserve
              simp [hreset, Cycle.writesConfig, haddr]

theorem accesses_reverse (ops : List DriverOp) : accesses ops.reverse = (accesses ops).reverse := by
  rw [accesses, List.filterMap_reverse, accesses]

/-! ## Without buttons -/

namespace Config

/-- What an access leaves of the configuration when no button is active. -/
def access (g : Config) : Access → Config
  | .read _ _ => g
  | .write address w => g.write address w

/-- The STATE reads among the accesses show the configuration of their
time. -/
def Shows (g : Config) : List Access → Prop
  | [] => True
  | .read address x :: as => (address = true → x = g.stateByte) ∧ g.Shows as
  | .write address w :: as => (g.write address w).Shows as

end Config

theorem reads_not_write {c : Cycle} {address : Bool} (h : c.Reads address) : c.write = false :=
  h.2.2.1

/-- A read without buttons shows the configuration and leaves it. -/
theorem config_of_serves_read {s : Blinker} {address : Bool} {x : BitVec 8} {cs : List Cycle}
    (h : s.Serves (.read address x) cs) (hq : ∀ c ∈ cs, c.Quiet) :
    (s.run cs).config = s.config ∧ (address = true → x = s.config.stateByte) := by
  obtain ⟨held, c, rfl, hr, rfl⟩ := h
  have hquiet : ∀ d ∈ held ++ [c], d.Quiet ∧ d.write = false :=
    fun d hd => ⟨hq d hd, reads_not_write (hr d hd)⟩
  refine ⟨Blinker.config_run_of_quiet s hquiet, ?_⟩
  rintro rfl
  rw [Blinker.readdata_of_reads _ (hr c (by simp)),
    Blinker.config_run_of_quiet s fun d hd => hquiet d (List.mem_append_left _ hd)]

/-- Without buttons an operation changes the configuration by its access
only. -/
theorem config_of_does {o : DriverOp} {w w' : Shared Mem} {cs : List Cycle}
    (h : Does machine o w cs w') (hq : ∀ c ∈ cs, c.Quiet) :
    w'.mem.dev.config = (access? o).elim w.mem.dev.config w.mem.dev.config.access := by
  cases ho : access? o with
  | none => rw [(dev_of_does_none h ho).2, Option.elim_none]
  | some a =>
      obtain ⟨hserve, rfl⟩ := dev_of_does_some h ho
      cases a with
      | read address x => exact (config_of_serves_read hserve hq).1
      | write address b =>
          obtain ⟨c, rfl, hc⟩ := hserve
          exact Blinker.config_clk_of_writes _ hc (hq c (by simp))

/-- **Without buttons the configuration is what the accesses make it.** -/
theorem config_of_accesses {s s' : Blinker} {as : List Access} {cs : List Cycle}
    (h : blinkerDevice.Accesses s as cs s') (hq : ∀ c ∈ cs, c.Quiet) :
    s.config.Shows as ∧ s'.config = as.foldl Config.access s.config := by
  induction h with
  | nil s => exact ⟨trivial, rfl⟩
  | @idle s s' as c cs hc h ih =>
      rw [List.forall_mem_cons] at hq
      have hkeep : (s.clk c).config = s.config := by
        rw [Blinker.config_clk_of_quiet s hq.1, hc.2.2]
        rfl
      rw [← hkeep]
      exact ih hq.2
  | @access s s' a as cs cs' ha h ih =>
      obtain ⟨hcs, hcs'⟩ := List.forall_mem_append.mp hq
      have hrest := ih hcs'
      rw [blinkerDevice_run] at hrest
      cases a with
      | read address x =>
          obtain ⟨hkeep, hx⟩ := config_of_serves_read ha hcs
          rw [hkeep] at hrest
          exact ⟨⟨hx, hrest.1⟩, hrest.2⟩
      | write address w =>
          obtain ⟨c, rfl, hc⟩ := ha
          have hstored := Blinker.config_clk_of_writes s hc (hcs c (by simp))
          rw [Blinker.run_cons, Blinker.run_nil, hstored] at hrest
          exact hrest

/-! ## A runner -/

def readCycle (address : Bool) : Cycle := { read := true, address := address }

def writeCycle (address : Bool) (w : BitVec 8) : Cycle :=
  { write := true, address := address, writedata := w }

/-- A read as the generated fabric makes it: the strobe held for one wait
state, the data captured after it. -/
def Blinker.fetch (s : Blinker) (address : Bool) : BitVec 8 × List Cycle × Blinker :=
  ((s.clk (readCycle address)).readdata (readCycle address),
    [readCycle address, readCycle address], s.run [readCycle address, readCycle address])

/-- Accesses one after the other with no button active. -/
def runner : Runner machine where
  act
    | .ioread8 address, m =>
        ((m.dev.fetch address).1, (m.dev.fetch address).2.1,
          { m with dev := (m.dev.fetch address).2.2 })
    | .memcpyFromio address, m =>
        ((m.dev.fetch address).1, (m.dev.fetch address).2.1,
          { m with dev := (m.dev.fetch address).2.2 })
    | .iowrite8 data address, m =>
        ((), [writeCycle address data], { m with dev := m.dev.clk (writeCycle address data) })
    | .memcpyToio address data, m =>
        ((), [writeCycle address data], { m with dev := m.dev.clk (writeCycle address data) })
    | .incr c, m => ((), [], m.update (.incr c))
    | .incrIrqCount, m => ((), [], m.update .incrIrqCount)
    | .setInterruptFlag b, m => ((), [], m.update (.setInterruptFlag b))
    | .wakeUp, m => ((), [], m.update .wakeUp)
  ready m := m.interruptFlag
  sound := by
    intro a m
    have hfetch : ∀ address,
        m.dev.Serves (.read address (m.dev.fetch address).1) (m.dev.fetch address).2.1 :=
      fun address => ⟨[readCycle address], readCycle address, rfl,
        by simp [Blinker.fetch, readCycle, Cycle.Reads], rfl⟩
    have hstore : ∀ address w, m.dev.Serves (.write address w) [writeCycle address w] :=
      fun address w => ⟨_, rfl, by simp [writeCycle, Cycle.Writes]⟩
    cases a with
    | ioread8 address => exact ⟨hfetch address, rfl⟩
    | memcpyFromio address => exact ⟨hfetch address, rfl⟩
    | iowrite8 data address => exact ⟨hstore address data, rfl⟩
    | memcpyToio address data => exact ⟨hstore address data, rfl⟩
    | _ => exact ⟨rfl, rfl⟩
  ready_sound _ h := h

theorem runner_quiet (a : IoOp) (m : Mem) : ∀ c ∈ (runner.act a m).2.1, c.Quiet := by
  cases a <;> simp [runner, Blinker.fetch, readCycle, writeCycle, Cycle.Quiet]

/-! ### Carrying calls out -/

/-- User memory that is always accessible and holds `value`. -/
def userHolding (value : BitVec 32) : Oracle user where
  downSignal := false
  reply
    | .getUser _ => some value
    | .putUser _ _ => false
    | .copyFromUser _ => some (value.setWidth 8)
    | .copyToUser _ _ => false

/-- With the lock free the handler runs to its end. -/
theorem exists_exec_handler (w : Shared Mem) (hlock : w.lock = false) :
    ∃ os cs w', Exec machine w blinkerDriverInterruptHandler os cs 1 w' ∧ .down true ∉ os ∧
      w'.mem.irqCount = w.mem.irqCount + 1 ∧ w'.mem.interruptFlag = true ∧ w'.sem = w.sem ∧
      w'.lock = false := by
  have hsolo : ∃ x, solo (userHolding 0) runner blinkerDriverInterruptHandler w = some x ∧
      x.2.2.1 = 1 ∧ x.2.2.2.mem.irqCount = w.mem.irqCount + 1 ∧
      x.2.2.2.mem.interruptFlag = true ∧ x.2.2.2.sem = w.sem ∧ x.2.2.2.lock = false := by
    simp [blinkerDriverInterruptHandler, solo, hlock, Outcome.cons, runner, Mem.update]
  obtain ⟨⟨os, cs, r, w'⟩, hx, rfl, hw'⟩ := hsolo
  exact ⟨os, cs, w', (valid_of_solo runner_quiet hx).1, down_true_notMem_of_solo rfl hx, hw'⟩

end De1Soc
