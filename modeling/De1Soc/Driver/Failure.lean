import De1Soc.Blinker.Collide
import De1Soc.Driver.Interrupt
import De1Soc.Driver.UserMem

/-!
# De1Soc.Driver.Failure

What a failed call has done.

An ioctl, a read and a write report an error from many places, and before some
of them they have already touched the device or the flag: a read clears
`interrupt_flag` and samples STATE before it copies to the user, and
`IOC_GET_CONFIG` reads STATE, which acknowledges the interrupt, before it does.
Step by step a call is compared with the same clock cycles without its bus
access (`Leaves`); a call that reports an error has left everything exactly when
it was not one of these (`failed_call_iff`).
-/

namespace De1Soc

open Kernel

/-- The cycle without its bus access. -/
def Cycle.unbus (c : Cycle) : Cycle := { c with read := false, write := false }

namespace Blinker

/-! ## The device with and without the bus -/

/-- A STATE read over the cycles takes an interrupt away: one was pending before
its last cycle, and the last cycle does not raise it again. -/
def Swallows (s : Blinker) (cs : List Cycle) : Prop :=
  ∃ held c, cs = held ++ [c] ∧
    (s.irq = true ∨ (s.enaIrq = true ∧ ∃ d ∈ held, d.press = true)) ∧
    ¬ (s.enaIrq = true ∧ c.press = true)

/-- A CONFIG write of `b` over the cycles stores the flags as they are, or as the
buttons leave them. -/
def StoresSame (s : Blinker) (cs : List Cycle) (b : BitVec 8) : Prop :=
  ∃ c, cs = [c] ∧ (c.pause = true ∨ b.getLsbD 1 = s.running) ∧
    (c.changeMode = true ∨ b.getLsbD 0 = s.mode) ∧ b.getLsbD 2 = s.enaIrq

theorem edge_unbus (g : Config) (c : Cycle) : g.edge c.unbus = g.press c := by
  rw [Config.edge_of_not_write rfl]
  rfl

/-- A cycle without a bus write does not need the bus for the configuration. -/
theorem config_clk_unbus {s s' : Blinker} {c : Cycle} (h : s.config = s'.config)
    (hr : c.reset = false) (hw : c.write = false) : (s.clk c).config = (s'.clk c.unbus).config := by
  rw [config_clk s hr, config_clk s' (c := c.unbus) hr, edge_unbus, Config.edge_of_not_write hw, h]

/-- Reads do not reach the configuration. -/
theorem config_run_unbus {s s' : Blinker} {cs : List Cycle} (h : s.config = s'.config)
    (hcs : ∀ c ∈ cs, c.reset = false ∧ c.write = false) :
    (s.run cs).config = (s'.run (cs.map Cycle.unbus)).config := by
  induction cs generalizing s s' with
  | nil => exact h
  | cons c cs ih =>
      rw [List.forall_mem_cons] at hcs
      obtain ⟨⟨hr, hw⟩, hcs⟩ := hcs
      exact ih (config_clk_unbus h hr hw) hcs

/-- Without a STATE read the bus does not reach the interrupt. -/
theorem irq_clk_unbus {s s' : Blinker} {c : Cycle} (he : s.enaIrq = s'.enaIrq) (h : s.irq = s'.irq)
    (hr : c.reset = false) (hc : c.readsState = false) : (s.clk c).irq = (s'.clk c.unbus).irq := by
  have hread : (c.read && c.address) = false := hc
  have hreset : c.unbus.reset = false := hr
  have hread' : (c.unbus.read && c.unbus.address) = false := rfl
  have hpress : c.unbus.press = c.press := rfl
  simp [clk, hr, hreset, interruptControl, hread, hread', hpress, he, h]

theorem irq_run_unbus {s s' : Blinker} {cs : List Cycle} (hg : s.config = s'.config)
    (h : s.irq = s'.irq)
    (hcs : ∀ c ∈ cs, c.reset = false ∧ c.write = false ∧ c.readsState = false) :
    (s.run cs).irq = (s'.run (cs.map Cycle.unbus)).irq := by
  induction cs generalizing s s' with
  | nil => exact h
  | cons c cs ih =>
      rw [List.forall_mem_cons] at hcs
      obtain ⟨⟨hr, hw, hread⟩, hcs⟩ := hcs
      exact ih (config_clk_unbus hg hr hw) (irq_clk_unbus (congrArg Config.enaIrq hg) h hr hread) hcs

/-- Without the bus the interrupt is up when it was or a press has raised it. -/
theorem irq_run_map_unbus (s : Blinker) {cs : List Cycle} (hcs : ∀ c ∈ cs, c.reset = false) :
    (s.run (cs.map Cycle.unbus)).irq = true ↔
      s.irq = true ∨ (s.enaIrq = true ∧ ∃ d ∈ cs, d.press = true) := by
  induction cs generalizing s with
  | nil => simp
  | cons c cs ih =>
      rw [List.forall_mem_cons] at hcs
      have hreset : c.unbus.reset = false := hcs.1
      have hread : (c.unbus.read && c.unbus.address) = false := rfl
      have hwrite : (c.unbus.write && c.unbus.address) = false := rfl
      have hpress : c.unbus.press = c.press := rfl
      have hena : (s.clk c.unbus).enaIrq = s.enaIrq := by
        simp [clk, hreset, enableControl, hwrite]
      have hirq : (s.clk c.unbus).irq = true ↔ (c.press = true ∧ s.enaIrq = true) ∨ s.irq = true := by
        simp [clk, hreset, interruptControl, hread, hpress]
      rw [List.map_cons, run_cons, ih _ hcs.2, hena, hirq]
      simp only [List.mem_cons, exists_eq_or_imp]
      tauto

/-- After a STATE read the interrupt is up when its last cycle raised it. -/
theorem irq_run_of_reads (s : Blinker) {held : List Cycle} {c : Cycle}
    (hcs : ∀ d ∈ held ++ [c], d.Reads true) :
    (s.run (held ++ [c])).irq = true ↔ s.enaIrq = true ∧ c.press = true := by
  have hena : (s.run held).enaIrq = s.enaIrq := by
    refine s.enaIrq_run_of_not_writesConfig fun d hd => ?_
    obtain ⟨hreset, _, hwrite, _⟩ := hcs d (List.mem_append_left _ hd)
    simp [hreset, Cycle.writesConfig, hwrite]
  have hlast := irq_clk_of_reads_state (s := s.run held) (hcs c (by simp))
  rw [Raises, hena] at hlast
  rw [run_append, run_cons, run_nil, ← Bool.not_eq_false, hlast]
  tauto

theorem swallows_concat_iff {s : Blinker} {held : List Cycle} {c : Cycle} :
    s.Swallows (held ++ [c]) ↔
      (s.irq = true ∨ (s.enaIrq = true ∧ ∃ d ∈ held, d.press = true)) ∧
        ¬ (s.enaIrq = true ∧ c.press = true) := by
  constructor
  · rintro ⟨held', c', heq, h⟩
    obtain ⟨rfl, hc⟩ := List.append_inj' heq rfl
    obtain rfl : c = c' := by simpa using hc
    exact h
  · intro h
    exact ⟨held, c, rfl, h⟩

/-- **What a STATE read does to the interrupt**: nothing, unless it takes one
away. -/
theorem irq_eq_unbus_iff (s : Blinker) {cs : List Cycle} (hcs : ∀ c ∈ cs, c.Reads true)
    (hne : cs ≠ []) : (s.run cs).irq = (s.run (cs.map Cycle.unbus)).irq ↔ ¬ s.Swallows cs := by
  obtain ⟨held, c, rfl⟩ : ∃ held c, cs = held ++ [c] :=
    ⟨cs.dropLast, cs.getLast hne, (List.dropLast_concat_getLast hne).symm⟩
  have hwith := s.irq_run_of_reads hcs
  have hreset : ∀ d ∈ held ++ [c], d.reset = false := fun d hd => (hcs d hd).1
  have hwithout := s.irq_run_map_unbus hreset
  have hpressed : (∃ d ∈ held ++ [c], d.press = true) ↔
      (∃ d ∈ held, d.press = true) ∨ c.press = true := by
    simp [or_and_right, exists_or]
  rw [swallows_concat_iff, Bool.eq_iff_iff, hwith, hwithout, hpressed]
  by_cases hlast : s.enaIrq = true ∧ c.press = true
  · exact iff_of_true (iff_of_true hlast (.inr ⟨hlast.1, .inr hlast.2⟩)) (fun h => h.2 hlast)
  · constructor
    · rintro h ⟨hirq | ⟨hena, hheld⟩, _⟩
      · exact hlast (h.mpr (.inl hirq))
      · exact hlast (h.mpr (.inr ⟨hena, .inl hheld⟩))
    · intro h
      refine iff_of_false hlast ?_
      rintro (hirq | ⟨hena, hheld | hc⟩)
      · exact h ⟨.inl hirq, hlast⟩
      · exact h ⟨.inr ⟨hena, hheld⟩, hlast⟩
      · exact hlast ⟨hena, hc⟩

/-- **What a CONFIG write does**: nothing, where it stores the flags as they
are. -/
theorem config_eq_unbus_iff (s : Blinker) {c : Cycle} {b : BitVec 8} (hc : c.Writes true b) :
    (s.run [c]).config = (s.run [c.unbus]).config ↔ s.StoresSame [c] b := by
  obtain ⟨hr, _, hw, ha, rfl⟩ := hc
  have hwc : c.writesConfig = true := by simp [Cycle.writesConfig, hw, ha]
  have hws : c.writesSpeed = false := by simp [Cycle.writesSpeed, ha]
  have hsame : s.StoresSame [c] c.writedata ↔
      (c.pause = true ∨ c.writedata.getLsbD 1 = s.running) ∧
        (c.changeMode = true ∨ c.writedata.getLsbD 0 = s.mode) ∧
        c.writedata.getLsbD 2 = s.enaIrq := by
    simp [StoresSame]
  rw [hsame, run_cons, run_cons, run_nil, run_nil, config_clk s hr,
    config_clk s (c := c.unbus) hr, edge_unbus]
  simp only [Config.edge, Config.press, hwc, hws, Config.mk.injEq, config]
  cases c.pause <;> cases c.changeMode <;> simp

end Blinker

/-! ## One operation of a call -/

/-- The shared data is what the clock alone would have left over the cycles `cs`,
the call counters apart. -/
structure Leaves (m : Mem) (cs : List Cycle) (m' : Mem) : Prop where
  config : m'.dev.config = (m.dev.run (cs.map Cycle.unbus)).config
  irq : m'.dev.irq = (m.dev.run (cs.map Cycle.unbus)).irq
  interruptFlag : m'.interruptFlag = m.interruptFlag
  irqCount : m'.irqCount = m.irqCount

/-- Operations that leave the shared data: no bus write, no STATE read, no
assignment to the variables of the interrupt. -/
def harmless : DriverOp → Bool
  | .io (.ioread8 address) _ | .io (.memcpyFromio address) _ => !address
  | .io (.iowrite8 _ _) _ | .io (.memcpyToio _ _) _ => false
  | .io .incrIrqCount _ | .io (.setInterruptFlag _) _ => false
  | _ => true

section Ops

variable {o : DriverOp} {w w' : Shared Mem} {cs : List Cycle}

theorem leaves_self (m : Mem) : Leaves m [] m := ⟨rfl, rfl, rfl, rfl⟩

/-- A harmless operation leaves the shared data. -/
theorem leaves_of_harmless (hd : Does machine o w cs w') (ho : harmless o = true) :
    Leaves w.mem cs w'.mem := by
  have hread : ∀ x, access? o = some (.read false x) → Leaves w.mem cs w'.mem := by
    intro x hx
    obtain ⟨⟨_, _, _, hcs, _⟩, rfl⟩ := dev_of_does_some hd hx
    refine ⟨Blinker.config_run_unbus rfl fun c hc => ?_, Blinker.irq_run_unbus rfl rfl fun c hc => ?_,
      rfl, rfl⟩
    · obtain ⟨hreset, _, hwrite, _⟩ := hcs c hc
      exact ⟨hreset, hwrite⟩
    · obtain ⟨hreset, _, hwrite, haddr⟩ := hcs c hc
      exact ⟨hreset, hwrite, by simp [Cycle.readsState, haddr]⟩
  cases hd with
  | io w a x ts m heff =>
      cases a with
      | ioread8 address =>
          obtain rfl : address = false := by simpa [harmless] using ho
          exact hread x rfl
      | memcpyFromio address =>
          obtain rfl : address = false := by simpa [harmless] using ho
          exact hread x rfl
      | incr c =>
          obtain ⟨rfl, rfl⟩ := heff
          exact ⟨rfl, rfl, rfl, rfl⟩
      | wakeUp =>
          obtain ⟨rfl, rfl⟩ := heff
          exact leaves_self _
      | iowrite8 data address => simp [harmless] at ho
      | memcpyToio address data => simp [harmless] at ho
      | incrIrqCount => simp [harmless] at ho
      | setInterruptFlag b => simp [harmless] at ho
  | _ => exact leaves_self _

/-- A STATE read leaves it where it takes no interrupt away. -/
theorem leaves_iff_not_swallows {x : BitVec 8} (hd : Does machine o w cs w')
    (ho : access? o = some (.read true x)) :
    Leaves w.mem cs w'.mem ↔ ¬ w.mem.dev.Swallows cs := by
  obtain ⟨⟨held, c, hcs, hread, _⟩, rfl⟩ := dev_of_does_some hd ho
  have hne : cs ≠ [] := by simp [hcs]
  rw [← w.mem.dev.irq_eq_unbus_iff hread hne]
  constructor
  · intro h
    exact h.irq
  · intro h
    refine ⟨Blinker.config_run_unbus rfl fun c hc => ?_, h, rfl, rfl⟩
    obtain ⟨hreset, _, hwrite, _⟩ := hread c hc
    exact ⟨hreset, hwrite⟩

/-- A CONFIG write leaves it where it stores the flags as they are. -/
theorem leaves_iff_storesSame {b : BitVec 8} (hd : Does machine o w cs w')
    (ho : access? o = some (.write true b)) :
    Leaves w.mem cs w'.mem ↔ w.mem.dev.StoresSame cs b := by
  obtain ⟨⟨c, rfl, hc⟩, rfl⟩ := dev_of_does_some hd ho
  rw [← w.mem.dev.config_eq_unbus_iff hc]
  constructor
  · intro h
    exact h.config
  · intro h
    refine ⟨h, Blinker.irq_clk_unbus rfl rfl hc.1 ?_, rfl, rfl⟩
    simp [Cycle.readsState, hc.2.1]

/-- An assignment to the flag leaves it where the flag has that value. -/
theorem leaves_iff_flag {b : Bool} {x : Unit} (hd : Does machine (.io (.setInterruptFlag b) x) w cs w') :
    Leaves w.mem cs w'.mem ↔ w.mem.interruptFlag = b := by
  cases hd with
  | io w a x ts m heff =>
      obtain ⟨rfl, rfl⟩ := heff
      constructor
      · intro h
        exact h.interruptFlag.symm
      · intro h
        exact ⟨rfl, rfl, h.symm, rfl⟩

end Ops

/-! ## The flag of a reader that has passed its wait -/

/-- The wait was passed, and the flag not assigned since. -/
def due : List DriverOp → Bool
  | [] => false
  | .wait false :: _ => true
  | .io (.setInterruptFlag _) _ :: _ => false
  | _ :: ops => due ops

/-- A call waits and clears the flag with the semaphore held, and it clears the
flag where it has passed the wait. -/
def dueRule : Rule user io Int where
  ok ops
    | .wait _ => semCount ops = 1
    | .up => due ops = false
    | .down _ => due ops = false
    | .io (.setInterruptFlag b) _ => b = false → semCount ops = 1 ∧ due ops = true
    | _ => True
  fin _ _ := True

theorem Call.code_obeys_dueRule (c : Call) : c.code.Obeys dueRule [] := by
  cases c with
  | devOpen => simp [Call.code, blinkerDevOpen, dueRule, due]
  | devRelease => simp [Call.code, blinkerDevRelease, dueRule, due]
  | devIoctl cmd arg =>
      cases cmd <;> simp [Call.code, blinkerDevIoctl, dueRule, due, Option.forall]
  | devRead userBuffer count => simp [Call.code, blinkerDevRead, dueRule, due, semCount]
  | devWrite userBuffer count =>
      simp [Call.code, blinkerDevWrite, dueRule, due, Option.forall]
  | storeConfig data result => simp [Call.code, configStore, dueRule]
  | interrupt => simp [Call.code, blinkerDriverInterruptHandler, dueRule]

/-- Who is due holds the semaphore. -/
theorem semCount_of_due_cons {ops : List DriverOp} {o : DriverOp} (hok : dueRule.ok ops o)
    (h : due ops = true → semCount ops = 1) (hdue : due (o :: ops) = true) :
    semCount (o :: ops) = 1 := by
  cases o with
  | down b =>
      have hno : due ops = false := hok
      have hyes : due ops = true := hdue
      rw [hno] at hyes
      contradiction
  | up =>
      have hno : due ops = false := hok
      have hyes : due ops = true := hdue
      rw [hno] at hyes
      contradiction
  | wait b => exact hok
  | io a x =>
      cases a with
      | setInterruptFlag b => simp [due] at hdue
      | _ => exact h hdue
  | _ => exact h hdue

section Runs

variable {P : Type} [DecidableEq P] {calls : Call → Prop} {dev : Blinker}
  {tr : List (DriverEvent P)} {s s' : DriverState P}

theorem run_obeys_dueRule (hr : Run (driver P calls) (initial P dev) tr s) :
    s.Obeys fun _ => dueRule :=
  hr.obeys (fun _ _ c _ => c.code_obeys_dueRule) (initial_idle dev)

theorem holdsSem_of_due (hr : Run (driver P calls) (initial P dev) tr s) {t : Tid P}
    {th : Thread user io Call Int} (ht : s.thread t = some th) (hdue : due th.ops = true) :
    s.HoldsSem t := by
  have hsem : due th.ops = true → semCount th.ops = 1 :=
    hr.history (R := fun _ => dueRule) (P := fun _ ops => due ops = true → semCount ops = 1)
      (fun _ _ c _ => c.code_obeys_dueRule) (initial_idle dev) (fun _ h => by simp [due] at h)
      (fun _ _ _ hok h => semCount_of_due_cons hok h) ht
  exact ⟨th, ht, hsem hdue⟩

/-- Who clears the flag holds the semaphore and is due. -/
theorem due_of_clear (hr : Run (driver P calls) (initial P dev) tr s) {t : Tid P} {ts : List Cycle}
    (hs : Step (driver P calls) s (.step t (.io (.setInterruptFlag false) ()) ts) s') :
    s.HoldsSem t ∧ ∃ th, s.thread t = some th ∧ due th.ops = true := by
  obtain ⟨c, ops, p, p', hrun, ht, _, _⟩ := hs.step_inv
  obtain ⟨hsem, hdue⟩ := ((run_obeys_dueRule hr t _ hrun).takes ht).1 rfl
  exact ⟨⟨_, hrun, hsem⟩, _, hrun, hdue⟩

/-- **A reader that has passed its wait finds the flag up** until it clears
it. -/
theorem flag_of_due (hr : Run (driver P calls) (initial P dev) tr s) {t : Tid P}
    {th : Thread user io Call Int} (ht : s.thread t = some th) (hdue : due th.ops = true) :
    s.mem.interruptFlag = true := by
  induction hr generalizing t th with
  | nil =>
      rw [initial_idle dev t] at ht
      contradiction
  | @cons tr s s' l hr hs ih =>
      have hr' := hr.cons hs
      have hflag := flag_of_step hs
      obtain hold | ⟨c, _, _, rfl⟩ | ⟨ops, p, o, ts, rfl, hrun, hops, htake⟩ := hs.thread_cases ht
      · -- somebody else has stepped: only a holder of the semaphore clears
        have hup := ih hold hdue
        cases hset : flagSet? l with
        | none => rw [hflag, hset, Option.getD_none, hup]
        | some b =>
            cases b with
            | true => rw [hflag, hset, Option.getD_some]
            | false =>
                obtain ⟨u, ts, rfl⟩ := label_of_flagSet? hset
                have hu := (due_of_clear hr hs).1
                obtain rfl : u = t := (run_locks hr).sem.unique (holdsSem_of_due hr hold hdue) hu
                obtain ⟨c, ops, p, p', _, _, _, hpost⟩ := hs.step_inv
                rw [hpost, Function.update_self] at ht
                obtain rfl := Option.some.inj ht
                simp [due] at hdue
      · simp [due] at hdue
      · rw [hops] at hdue
        cases o with
        | wait b =>
            cases b with
            | true => exact hflag.trans (ih hrun hdue)
            | false =>
                obtain ⟨_, _, _, _, _, _, hd, _⟩ := hs.step_inv
                have hready : s.mem.interruptFlag = true := hd.ready
                exact hflag.trans hready
        | io a x =>
            cases a with
            | setInterruptFlag b => simp [due] at hdue
            | _ => exact hflag.trans (ih hrun hdue)
        | _ => exact hflag.trans (ih hrun hdue)

end Runs

/-! ## Failed calls -/

/-- The results that report an error. -/
def IsError (r : Int) : Prop := r = -ERESTARTSYS ∨ r = -EFAULT ∨ r = -EINVAL

/-- The calls that reach the device and may report an error. -/
def Call.Reports : Call → Prop
  | .devIoctl _ _ | .devRead _ _ | .devWrite _ _ => True
  | _ => False

/-- A signal ended a sleep of the call. -/
def Signalled (ops : List DriverOp) : Prop := .down true ∈ ops ∨ .wait true ∈ ops

/-- What a call may have done when it reports an error: an ioctl nothing but a
STATE read, a read that was not signalled has cleared the flag, a write nothing
but a CONFIG write. -/
def Call.MayFail (ops : List DriverOp) : Call → Prop
  | .devIoctl _ _ => ∀ o ∈ ops, harmless o = true ∨ ∃ x, o = .io (.ioread8 ioaddrBlinkerState) x
  | .devRead _ _ => (Signalled ops ∧ ∀ o ∈ ops, harmless o = true) ∨
      (¬ Signalled ops ∧ .io (.setInterruptFlag false) () ∈ ops)
  | .devWrite _ _ =>
      ∀ o ∈ ops, harmless o = true ∨ ∃ b, o = .io (.memcpyToio ioaddrBlinkerConfig b) ()
  | _ => True

def failRule (c : Call) : Rule user io Int where
  ok _ _ := True
  fin ops r := IsError r → c.MayFail ops

theorem Call.code_obeys_failRule (c : Call) : c.code.Obeys (failRule c) [] := by
  cases c with
  | devIoctl cmd arg =>
      cases cmd <;>
        simp [Call.code, blinkerDevIoctl, failRule, Call.MayFail, IsError, harmless, Option.forall]
  | devRead userBuffer count =>
      simp [Call.code, blinkerDevRead, failRule, Call.MayFail, Signalled, harmless]
  | devWrite userBuffer count =>
      simp [Call.code, blinkerDevWrite, failRule, Call.MayFail, harmless, Option.forall]
  | _ => exact Prog.obeys_of_forall (fun _ _ => trivial) (fun _ _ _ => trivial) _ _

section Calls

variable {P : Type}

/-- The events of `t` leave the shared data, and it gives both locks back. -/
structure Effectless (t : Tid P) (ops : List DriverOp) (mid : List (DriverEvent P)) : Prop where
  leaves : ∀ e ∈ mid, e.label.thread? = some t → Leaves e.pre.mem e.label.ticks e.post.mem
  sem : semCount ops = 0
  lock : lockCount ops = 0

/-- A failed call is clean: no STATE read of an ioctl takes an interrupt away, a
read was ended by a signal, and what a write has written to CONFIG was there. -/
def FailsClean (t : Tid P) (ops : List DriverOp) (mid : List (DriverEvent P)) : Call → Prop
  | .devIoctl _ _ => ∀ e ∈ mid, ∀ x ts,
      e.label = .step t (.io (.ioread8 ioaddrBlinkerState) x) ts → ¬ e.pre.mem.dev.Swallows ts
  | .devRead _ _ => Signalled ops
  | .devWrite _ _ => ∀ e ∈ mid, ∀ b ts,
      e.label = .step t (.io (.memcpyToio ioaddrBlinkerConfig b) ()) ts →
        e.pre.mem.dev.StoresSame ts b
  | _ => True

variable [DecidableEq P] {calls : Call → Prop} {dev : Blinker} {tr mid : List (DriverEvent P)}
  {s : DriverState P} {t : Tid P} {c : Call} {ops : List DriverOp} {r : Int}

/-- The rules at the return of a call. -/
theorem fin_of_completes (hr : Run (driver P calls) (initial P dev) tr s)
    (h : Completes tr t c ops r mid) {R : Call → Rule user io Int}
    (hcode : ∀ c : Call, c.code.Obeys (R c) []) : (R c).fin ops r := by
  obtain ⟨after, ret, old, rfl, hret, _⟩ := h
  obtain ⟨hpre, hs⟩ := hr.split rfl
  rw [hret] at hs
  exact hpre.obeys (fun _ _ c _ => hcode c) (initial_idle dev) t _ hs.ret_inv

/-- The steps of a whole call make its operations. -/
theorem does_of_completes (hr : Run (driver P calls) (initial P dev) tr s)
    (h : Completes tr t c ops r mid) {e : DriverEvent P} (he : e ∈ mid) {o : DriverOp}
    {ts : List Cycle} (hl : e.label = .step t o ts) :
    o ∈ ops ∧ Does machine o e.pre.toShared ts e.post.toShared := by
  obtain ⟨old, _, hs⟩ := hr.of_mem (h.subset he)
  rw [hl] at hs
  obtain ⟨_, _, _, _, _, _, hd, _⟩ := hs.step_inv
  refine ⟨?_, hd⟩
  rw [← h.ops_eq hr]
  exact mem_opsOf.mpr ⟨e, he, ts, hl⟩

/-- A step of a thread is an operation, or leaves the shared data. -/
theorem step_or_leaves {l : DriverLabel P} {s' : DriverState P}
    (hs : Step (driver P calls) s l s') (hl : l.thread? = some t) :
    (∃ o ts, l = .step t o ts) ∨ Leaves s.mem l.ticks s'.mem := by
  cases hs with
  | tick c m hm => contradiction
  | start u c hidle hentry => exact .inr (leaves_self _)
  | ret u c ops r hrun => exact .inr (leaves_self _)
  | step u c ops p p' o ts w hrun ht hd =>
      obtain rfl : u = t := Option.some.inj hl
      exact .inl ⟨o, ts, rfl⟩

/-- A call leaves the shared data when its operations do. -/
theorem leaves_of_steps (hr : Run (driver P calls) (initial P dev) tr s)
    (h : Completes tr t c ops r mid)
    (hsteps : ∀ e ∈ mid, ∀ o ts, e.label = .step t o ts → Leaves e.pre.mem ts e.post.mem) :
    ∀ e ∈ mid, e.label.thread? = some t → Leaves e.pre.mem e.label.ticks e.post.mem := by
  intro e he hown
  obtain ⟨old, _, hs⟩ := hr.of_mem (h.subset he)
  obtain ⟨o, ts, hl⟩ | hleaves := step_or_leaves hs hown
  · rw [hl]
    exact hsteps e he o ts hl
  · exact hleaves

/-- A failed ioctl. -/
theorem ioctl_leaves_iff (hr : Run (driver P calls) (initial P dev) tr s) {cmd : Cmd}
    {arg : BitVec 32} (h : Completes tr t (.devIoctl cmd arg) ops r mid) (herr : IsError r) :
    (∀ e ∈ mid, e.label.thread? = some t → Leaves e.pre.mem e.label.ticks e.post.mem) ↔
      FailsClean t ops mid (.devIoctl cmd arg) := by
  have hfin := fin_of_completes hr h Call.code_obeys_failRule herr
  constructor
  · intro hleaves e he x ts hl
    obtain ⟨_, hd⟩ := does_of_completes hr h he hl
    have hown := hleaves e he (by rw [hl]; rfl)
    rw [hl] at hown
    exact (leaves_iff_not_swallows hd rfl).mp hown
  · intro hclean
    refine leaves_of_steps hr h fun e he o ts hl => ?_
    obtain ⟨hmem, hd⟩ := does_of_completes hr h he hl
    obtain hharm | ⟨x, rfl⟩ := hfin o hmem
    · exact leaves_of_harmless hd hharm
    · exact (leaves_iff_not_swallows hd rfl).mpr (hclean e he x ts hl)

/-- A failed read. -/
theorem read_leaves_iff (hr : Run (driver P calls) (initial P dev) tr s) {buf count : BitVec 32}
    (h : Completes tr t (.devRead buf count) ops r mid) (herr : IsError r) :
    (∀ e ∈ mid, e.label.thread? = some t → Leaves e.pre.mem e.label.ticks e.post.mem) ↔
      FailsClean t ops mid (.devRead buf count) := by
  obtain ⟨hsig, hharm⟩ | ⟨hsig, hclear⟩ :=
    fin_of_completes hr h Call.code_obeys_failRule herr
  · refine iff_of_true (leaves_of_steps hr h fun e he o ts hl => ?_) hsig
    obtain ⟨hmem, hd⟩ := does_of_completes hr h he hl
    exact leaves_of_harmless hd (hharm o hmem)
  · refine iff_of_false (fun hleaves => ?_) hsig
    -- the read has passed its wait, so the flag it clears was up
    rw [← h.ops_eq hr, mem_opsOf] at hclear
    obtain ⟨e, he, ts, hl⟩ := hclear
    obtain ⟨old, hold, hs⟩ := hr.of_mem (h.subset he)
    have hown := hleaves e he (by rw [hl]; rfl)
    obtain ⟨_, hd⟩ := does_of_completes hr h he hl
    rw [hl] at hs hown
    obtain ⟨_, th, hth, hdue⟩ := due_of_clear hold hs
    have hup := flag_of_due hold hth hdue
    have hdown := (leaves_iff_flag hd).mp hown
    rw [hup] at hdown
    contradiction

/-- A failed write. -/
theorem write_leaves_iff (hr : Run (driver P calls) (initial P dev) tr s) {buf count : BitVec 32}
    (h : Completes tr t (.devWrite buf count) ops r mid) (herr : IsError r) :
    (∀ e ∈ mid, e.label.thread? = some t → Leaves e.pre.mem e.label.ticks e.post.mem) ↔
      FailsClean t ops mid (.devWrite buf count) := by
  have hfin := fin_of_completes hr h Call.code_obeys_failRule herr
  constructor
  · intro hleaves e he b ts hl
    obtain ⟨_, hd⟩ := does_of_completes hr h he hl
    have hown := hleaves e he (by rw [hl]; rfl)
    rw [hl] at hown
    exact (leaves_iff_storesSame hd rfl).mp hown
  · intro hclean
    refine leaves_of_steps hr h fun e he o ts hl => ?_
    obtain ⟨hmem, hd⟩ := does_of_completes hr h he hl
    obtain hharm | ⟨b, rfl⟩ := hfin o hmem
    · exact leaves_of_harmless hd hharm
    · exact (leaves_iff_storesSame hd rfl).mpr (hclean e he b ts hl)

end Calls

/-- A failed call has no effect exactly when it fails clean. -/
theorem effectless_iff {P : Type} [DecidableEq P] {calls : Call → Prop} {dev : Blinker}
    {tr : List (DriverEvent P)} {s : DriverState P} {t : Tid P} {c : Call} {ops : List DriverOp}
    {r : Int} {mid : List (DriverEvent P)} (hr : Run (driver P calls) (initial P dev) tr s)
    (h : Completes tr t c ops r mid) (hc : c.Reports) (herr : IsError r) :
    Effectless t ops mid ↔ FailsClean t ops mid c := by
  have hlocks : semCount ops = 0 ∧ lockCount ops = 0 :=
    fin_of_completes hr h (R := fun _ => locking) Call.code_obeys_locking
  have hleaves : (∀ e ∈ mid, e.label.thread? = some t →
      Leaves e.pre.mem e.label.ticks e.post.mem) ↔ FailsClean t ops mid c := by
    cases c with
    | devIoctl cmd arg => exact ioctl_leaves_iff hr h herr
    | devRead buf count => exact read_leaves_iff hr h herr
    | devWrite buf count => exact write_leaves_iff hr h herr
    | _ => simp [Call.Reports] at hc
  rw [← hleaves]
  constructor
  · intro he
    exact he.leaves
  · intro hl
    exact ⟨hl, hlocks.1, hlocks.2⟩

/-- **Failed calls.**  In every run, wherever an ioctl, a read or a write returns
an error, `mid` being the events since it began: the call has left the device,
the flag and the interrupt count in each of its steps as the clock alone would,
and has given both locks back, exactly when no STATE read of an ioctl took an
interrupt away, a read was ended by a signal and not by the copy, and a write
has stored nothing new. -/
theorem failed_call_iff (P : Type) [DecidableEq P] (calls : Call → Prop) (dev : Blinker)
    (after old : List (DriverEvent P)) (e : DriverEvent P) (s : DriverState P)
    (hr : Run (driver P calls) (initial P dev) (after ++ e :: old) s) (t : Tid P) (c : Call)
    (ops : List DriverOp) (r : Int) (he : e.label = .ret t c ops r) (hc : c.Reports)
    (herr : IsError r) :
    ∃ mid, Began old t c mid ∧ (Effectless t ops mid ↔ FailsClean t ops mid c) := by
  obtain ⟨hold, hs⟩ := hr.split rfl
  rw [he] at hs
  obtain ⟨mid, hmid⟩ := hold.exists_began (initial_idle dev) hs.ret_inv
  exact ⟨mid, hmid, effectless_iff hr ⟨after, e, old, rfl, he, hmid⟩ hc herr⟩

/-- A read ended by a signal while it waits for the flag has no effect. -/
theorem signalled_read_effectless :
    ∃ (e : DriverEvent Unit) (old mid : List (DriverEvent Unit)) (s : DriverState Unit)
      (ops : List DriverOp),
      Run (driver Unit Call.FileOp) (initial Unit .reset) (e :: old) s ∧
        e.label = .ret (.proc ()) (.devRead 0 1) ops (-ERESTARTSYS) ∧ .wait true ∈ ops ∧
        Began old (.proc ()) (.devRead 0 1) mid ∧ Effectless (.proc ()) ops mid := by
  have hnil : Run (driver Unit Call.FileOp) (initial Unit .reset) [] _ := .nil
  obtain ⟨new, k, hr, hk, _⟩ := exists_run_waiting hnil () 0 1 rfl trivial rfl
  have h1 := hr.cons (.step _ (Tid.proc ()) _ _ (.wait k) _ (.wait true) [] _ rfl (.wait k true)
    (.waitIntr _ Bool.false_ne_true))
  rw [hk] at h1
  have h2 := h1.cons (.step _ (Tid.proc ()) _ _ _ _ .up [] _ rfl (.up _) (.up _))
  have h3 := h2.cons (.ret _ (Tid.proc ()) (Call.devRead 0 1) _ (-ERESTARTSYS) rfl)
  obtain ⟨mid, hmid, hiff⟩ := failed_call_iff Unit Call.FileOp .reset [] _ _ _ h3 (.proc ())
    (.devRead 0 1) _ (-ERESTARTSYS) rfl trivial (.inl rfl)
  exact ⟨_, _, mid, _, _, h3, rfl, by simp, hmid, hiff.mpr (.inr (by simp))⟩

/-- With no user memory a read that passes its wait reports a fault, and has
cleared the flag. -/
theorem exists_exec_read_fault (w : Shared Mem) (hsem : w.sem = 1) (hlock : w.lock = false)
    (hflag : w.mem.interruptFlag = true) :
    ∃ os cs w', Exec machine w (blinkerDevRead 0 1) os cs (-EFAULT) w' ∧ .down true ∉ os ∧
      ¬ Signalled os.reverse ∧ w'.mem.interruptFlag = false := by
  have hsolo : ∃ x, solo ⟨false, UserMem.reply fun _ => none⟩ runner (blinkerDevRead 0 1) w =
      some x ∧ x.2.2.1 = -EFAULT ∧ ¬ Signalled x.1.reverse ∧ x.2.2.2.mem.interruptFlag = false := by
    simp [blinkerDevRead, solo, UserMem.reply, hsem, hlock, hflag, Outcome.cons, runner, Mem.update,
      Signalled]
  obtain ⟨⟨os, cs, r, w'⟩, hx, rfl, hw'⟩ := hsolo
  exact ⟨os, cs, w', (valid_of_solo runner_quiet hx).1, down_true_notMem_of_solo rfl hx, hw'⟩

/-- A press after reset, noted by the handler, and a read into memory that is not
mapped: the read reports a fault, and the event is gone. -/
theorem failed_read_consumes :
    ∃ (tr : List (DriverEvent Unit)) (s : DriverState Unit) (ops : List DriverOp)
      (mid : List (DriverEvent Unit)),
      Run (driver Unit Call.FileOp) (initial Unit .reset) tr s ∧
        Completes tr (.proc ()) (.devRead 0 1) ops (-EFAULT) mid ∧
        ¬ Effectless (.proc ()) ops mid ∧ s.mem.interruptFlag = false := by
  obtain ⟨tr, s, hr, hidle, hsem, hlock, _, _, hirq⟩ := exists_run_pressed
  obtain ⟨os, cs, w, hx, hos, _, hflag, hsem', hlock'⟩ := exists_exec_handler s.toShared hlock
  obtain ⟨new, hr₁, _⟩ := hr.exec .irq .interrupt (hidle _) ⟨rfl, hirq⟩ hx hos
  obtain ⟨os', cs', w', hx', hos', hsig, hdown⟩ :=
    exists_exec_read_fault w (hsem'.trans hsem) hlock' hflag
  obtain ⟨new', hr₂, _, mid, h, _⟩ := hr₁.exec (.proc ()) (.devRead 0 1) (hidle _) trivial hx' hos'
  refine ⟨_, _, _, mid, hr₂, h, fun he => ?_, hdown⟩
  exact hsig ((read_leaves_iff hr₂ h (.inr (.inl rfl))).mp he.leaves)

end De1Soc
