import De1Soc.Blinker.Latch
import De1Soc.Devmem.Parse
import De1Soc.Gpio

/-!
# De1Soc.Devmem.Session

The tools at work on the devices.

An `Invocation` is one run of a tool, with its command line and what it finds of
the system.  It makes at most one bus access, which is decided by what
`parse_cmdline` has accepted (`Invocation.request`).  A session is the accesses
of one invocation after the other on a device, with clock cycles anywhere
between them.  The devices refine their views, so a session on `gpio_test`
leaves the byte of the last write in the LEDs (`gpio_session`), and one on the
blinker takes the configuration through the writes, prints it where it is read,
and acknowledges a pending interrupt where STATE is read (`blinker_session`).
-/

namespace De1Soc.Devmem

open Getopt

/-! ## What an invocation does on the bus -/

/-- The bus access of an event; an offset in the mapped page is an address as in
`__IO_CALC_ADDRESS_NATIVE`. -/
def Event.access? : Event → Option Access
  | .write offset byte => some (.write (ioCalcAddressNative offset) byte)
  | .read offset byte => some (.read (ioCalcAddressNative offset) byte)
  | _ => none

/-- The line with a number that an event prints. -/
def Event.line? : Event → Option (String × Nat)
  | .value label n => some (label, n)
  | _ => none

/-- What `parse_cmdline` has accepted: the action, and the parameter. -/
def Tool.request (tool : Tool) (argv : List (List Char)) : Option (Act × BitVec 8) :=
  match tool.parseCmdline argv with
  | some (_, .ok g) =>
      (tool.commands.find? (·.letter ∈ g.given)).map fun cmd => (cmd.act, g.paramValue)
  | _ => none

/-- One run of a tool. -/
structure Invocation where
  tool : Tool
  env : Env
  argv : List (List Char)

namespace Invocation

/-- The events of the run. -/
def events (i : Invocation) : List Event := ((i.tool.main i.env i.argv).map Prod.fst).getD []

/-- Its bus accesses. -/
def accesses (i : Invocation) : List Access := i.events.filterMap Event.access?

/-- The numbers that it prints. -/
def printed (i : Invocation) : List (String × Nat) := i.events.filterMap Event.line?

/-- The action that it performs: the one accepted, if the system is valid and
the device can be mapped. -/
def request (i : Invocation) : Option (Act × BitVec 8) :=
  if (i.tool.validateSocSystem i.env).2 && i.env.mapped then i.tool.request i.argv else none

/-- The byte that it writes. -/
def written (i : Invocation) : Option (BitVec 8) :=
  match i.request with
  | some (.write _, byte) => some byte
  | _ => none

end Invocation

/-- The event accesses a register or prints a number. -/
def Event.isData : Event → Bool
  | .write _ _ | .read _ _ | .value _ _ => true
  | _ => false

section Run

variable {tool : Tool} {env : Env} {argv : List (List Char)}

/-- Accesses and numbers are part of the actions. -/
theorem filter_isData (es : List Event) :
    es.filter Event.isData = (es.filter Event.isAction).filter Event.isData := by
  rw [List.filter_filter]
  congr 1
  funext e
  cases e <;> rfl

theorem filterMap_filter_isData {β : Type} {f : Event → Option β}
    (hf : ∀ e, e.isData = false → f e = none) (es : List Event) :
    es.filterMap f = (es.filter Event.isData).filterMap f := by
  induction es with
  | nil => rfl
  | cons e es ih =>
      cases he : e.isData with
      | true => rw [List.filter_cons_of_pos he, List.filterMap_cons, List.filterMap_cons, ih]
      | false => rw [List.filter_cons_of_neg (by simp [he]), List.filterMap_cons_none (hf e he), ih]

theorem validateSocSystem_isData (tool : Tool) (env : Env) :
    (tool.validateSocSystem env).1.filter Event.isData = [] := by
  have hnone : (tool.validateSocSystem env).1.filter Event.isAction = [] := by
    rw [List.filter_eq_nil_iff]
    intro e he
    simp [(validateSocSystem_events tool env e he).2]
  rw [filter_isData, hnone, List.filter_nil]

/-- The error exits of `parse_cmdline` access and print nothing. -/
theorem Stop.run_isData (stop : Stop) : (stop.run).1.filter Event.isData = [] := by
  cases stop with
  | error extra message =>
      by_cases hextra : extra = []
      · simp [Stop.run, hextra, Event.isData]
      · simp [Stop.run, hextra, Event.isData, List.filter_map, Function.comp_def]
  | nullOptarg => rfl

/-- What passes the checks is one command. -/
theorem find?_of_verdict {g g' : Globals} {left : List (List Char)}
    (h : tool.verdict g left = .ok g') :
    g = g' ∧ ∃ cmd, tool.commands.filter (·.letter ∈ g'.given) = [cmd] ∧
      tool.commands.find? (·.letter ∈ g'.given) = some cmd := by
  unfold Tool.verdict at h
  split at h
  · contradiction
  split at h
  · contradiction
  split at h
  · contradiction
  · next hzero hmany =>
      obtain rfl := Except.ok.inj h
      have hone : (tool.commands.filter (·.letter ∈ g.given)).length = 1 := by
        rw [← List.countP_eq_length_filter]
        show tool.actionCount g = 1
        omega
      obtain ⟨cmd, hcmd⟩ := List.length_eq_one_iff.mp hone
      refine ⟨rfl, cmd, hcmd, ?_⟩
      rw [← List.head?_filter, hcmd]
      rfl

/-- `parse_cmdline` ends the program, or accepts one action. -/
theorem parseCmdline_cases (tool : Tool) (argv : List (List Char)) :
    (∃ tr stop, tool.parseCmdline argv = some (tr, .error stop) ∧ tool.request argv = none) ∨
      ∃ tr g cmd, tool.parseCmdline argv = some (tr, .ok g) ∧
        tool.commands.filter (·.letter ∈ g.given) = [cmd] ∧
        tool.request argv = some (cmd.act, g.paramValue) := by
  have hparse := tool.parseCmdline_eq argv
  cases hfold : (tool.decoded argv).1.foldlM tool.handle .initial with
  | error stop =>
      rw [hfold] at hparse
      exact .inl ⟨_, stop, hparse, by rw [Tool.request, hparse]; rfl⟩
  | ok g =>
      rw [hfold] at hparse
      change tool.parseCmdline argv = some (_, tool.verdict g (tool.decoded argv).2) at hparse
      cases hverdict : tool.verdict g (tool.decoded argv).2 with
      | error stop =>
          rw [hverdict] at hparse
          exact .inl ⟨_, stop, hparse, by rw [Tool.request, hparse]⟩
      | ok g' =>
          rw [hverdict] at hparse
          obtain ⟨_, cmd, hfilter, hfind⟩ := find?_of_verdict hverdict
          refine .inr ⟨_, g', cmd, hparse, hfilter, ?_⟩
          simp only [Tool.request, hparse, hfind, Option.map_some]

/-- **What an invocation does**: the action of its request, and nothing else on
the bus or in numbers. -/
theorem Invocation.events_isData (i : Invocation) :
    i.events.filter Event.isData =
      i.request.elim [] fun r => (r.1.run r.2 i.env.reg).filter Event.isData := by
  obtain ⟨tool, env, argv⟩ := i
  simp only [Invocation.events, Invocation.request]
  cases hvalid : (tool.validateSocSystem env).2 with
  | false =>
      have hmain : tool.main env argv = some ((tool.validateSocSystem env).1, .status 1) := by
        rw [Tool.main, hvalid]
        rfl
      rw [hmain]
      simpa using validateSocSystem_isData tool env
  | true =>
      obtain ⟨tr, stop, hparse, hrequest⟩ | ⟨tr, g, cmd, hparse, hfilter, hrequest⟩ :=
        parseCmdline_cases tool argv
      · rw [main_of_valid hvalid hparse, hrequest]
        simp [List.filter_append, validateSocSystem_isData, Tool.afterParse, Stop.run_isData]
      · have hactions : tool.actions env g = cmd.act.run g.paramValue env.reg := by
          rw [Tool.actions, hfilter, List.flatMap_singleton]
        have haccess := congrArg (List.filter Event.isData) (access_filter tool env g)
        rw [← filter_isData, hactions] at haccess
        rw [main_of_valid hvalid hparse, hrequest]
        simp only [Option.map_some, Option.getD_some, List.filter_append, validateSocSystem_isData,
          List.nil_append, Tool.afterParse, haccess, Bool.true_and]
        cases env.mapped <;> rfl

end Run

namespace Invocation

theorem accesses_eq (i : Invocation) :
    i.accesses = i.request.elim [] fun r => (r.1.run r.2 i.env.reg).filterMap Event.access? := by
  have hnone : ∀ e : Event, e.isData = false → e.access? = none := by
    intro e he
    cases e <;> first | rfl | contradiction
  rw [accesses, filterMap_filter_isData hnone, events_isData]
  cases i.request with
  | none => rfl
  | some r => exact (filterMap_filter_isData hnone _).symm

theorem printed_eq (i : Invocation) :
    i.printed = i.request.elim [] fun r => (r.1.run r.2 i.env.reg).filterMap Event.line? := by
  have hnone : ∀ e : Event, e.isData = false → e.line? = none := by
    intro e he
    cases e <;> first | rfl | contradiction
  rw [printed, filterMap_filter_isData hnone, events_isData]
  cases i.request with
  | none => rfl
  | some r => exact (filterMap_filter_isData hnone _).symm

end Invocation

/-! ## One action on the bus -/

section Acts

variable (byte : BitVec 8) (reg : Nat → BitVec 8)

theorem Act.run_write (offset : Nat) : ((Act.write offset).run byte reg).filterMap Event.access? =
    [.write (ioCalcAddressNative offset) byte] := rfl

theorem Act.run_read (offset : Nat) (fields : List Field) :
    ((Act.read offset fields).run byte reg).filterMap Event.access? =
      [.read (ioCalcAddressNative offset) (reg offset)] := by
  simp [Act.run, Event.access?, List.filterMap_map, Function.comp_def]

theorem Act.run_help : (Act.help.run byte reg).filterMap Event.access? = [] := rfl

theorem Act.lines_read (offset : Nat) (fields : List Field) :
    ((Act.read offset fields).run byte reg).filterMap Event.line? =
      fields.map fun f => (f.label, f.value (reg offset)) := by
  rw [Act.run, List.filterMap_cons_none rfl, List.filterMap_map]
  exact congrFun List.filterMap_eq_map' fields

end Acts

/-- A field of the whole byte. -/
theorem Field.value_of_all (label : String) (x : BitVec 8) :
    Field.value ⟨label, 0xff, 0⟩ x = x.toNat := by
  have hmask : (0xff : BitVec 8) = BitVec.allOnes 8 := rfl
  rw [Field.value, hmask, BitVec.and_allOnes, BitVec.ushiftRight_zero]

/-- What is requested is an action of the tool. -/
theorem Invocation.act_mem {i : Invocation} {act : Act} {byte : BitVec 8}
    (h : i.request = some (act, byte)) : ∃ cmd ∈ i.tool.commands, cmd.act = act := by
  rw [Invocation.request] at h
  split at h
  · obtain ⟨_, _, _, hnone⟩ | ⟨tr, g, cmd, _, hfilter, hsome⟩ := parseCmdline_cases i.tool i.argv
    · rw [hnone] at h
      contradiction
    · rw [hsome] at h
      obtain ⟨rfl, rfl⟩ := Prod.mk.inj (Option.some.inj h)
      exact ⟨cmd, List.mem_of_mem_filter (by rw [hfilter]; simp), rfl⟩
  · contradiction

/-! ## `gpio_test_devmem` on `gpio_test` -/

/-- What an invocation of `gpio_test_devmem` may request. -/
theorem act_of_gpio {i : Invocation} (htool : i.tool = gpioTestDevmem) {act : Act} {byte : BitVec 8}
    (h : i.request = some (act, byte)) :
    act = doWriteLeds ∨ act = doReadSwitches ∨ act = doHelp := by
  obtain ⟨cmd, hcmd, rfl⟩ := Invocation.act_mem h
  rw [htool] at hcmd
  simp only [gpioTestDevmem, List.mem_cons, List.not_mem_nil, or_false] at hcmd
  obtain rfl | rfl | rfl := hcmd
  · exact .inl rfl
  · exact .inr (.inl rfl)
  · exact .inr (.inr rfl)

/-- An invocation leaves in the LEDs what it has written. -/
theorem effect_of_gpio {i : Invocation} (htool : i.tool = gpioTestDevmem) (leds : BitVec 8) :
    i.accesses.foldl GpioTest.effect leds = i.written.getD leds := by
  rw [Invocation.accesses_eq, Invocation.written]
  cases hrequest : i.request with
  | none => rfl
  | some r =>
      obtain ⟨act, byte⟩ := r
      obtain rfl | rfl | rfl := act_of_gpio htool hrequest
      · rfl
      · rfl
      · rfl

/-- What is kept of a sequence of bytes is the last. -/
theorem foldl_getD_eq {ι β : Type} (f : ι → Option β) (is : List ι) (x : β) :
    is.foldl (fun x i => (f i).getD x) x = ((is.filterMap f).getLast?).getD x := by
  induction is generalizing x with
  | nil => rfl
  | cons i is ih =>
      rw [List.foldl_cons, ih]
      cases hi : f i with
      | none => rw [List.filterMap_cons_none hi, Option.getD_none]
      | some y =>
          rw [List.filterMap_cons_some hi, List.getLast?_cons, Option.getD_some, Option.getD_some]

/-- **Sessions on `gpio_test`.**  However many invocations of the tool follow one
another on the peripheral, with any command lines, outcomes and clock cycles,
the LEDs end with the byte of the last one that wrote, or as they were; and each
that prints the switches prints those of a cycle of the session. -/
theorem gpio_session (is : List Invocation) (htool : ∀ i ∈ is, i.tool = gpioTestDevmem)
    (s s' : GpioTest) (cs : List GpioCycle)
    (h : GpioTest.device.Accesses s (is.flatMap Invocation.accesses) cs s') :
    s'.leds = ((is.filterMap Invocation.written).getLast?).getD s.leds ∧
      ∀ i ∈ is, i.printed ≠ [] → ∃ c ∈ cs, i.printed = [("switches", c.switches.toNat)] := by
  constructor
  · obtain ⟨_, hleds⟩ := GpioTest.ledsView.of_accesses h fun _ _ => trivial
    rw [← foldl_getD_eq]
    refine hleds.trans ?_
    rw [List.foldl_flatMap]
    exact List.foldl_ext _ _ _ fun leds i hi => effect_of_gpio (htool i hi) leds
  · intro i hi hprint
    rw [Invocation.printed_eq] at hprint ⊢
    cases hrequest : i.request with
    | none => simp [hrequest] at hprint
    | some r =>
        obtain ⟨act, byte⟩ := r
        rw [hrequest, Option.elim_some] at hprint
        obtain rfl | rfl | rfl := act_of_gpio (htool i hi) hrequest
        · exact absurd rfl hprint
        · have hmem : .read false (i.env.reg 0) ∈ is.flatMap Invocation.accesses := by
            rw [List.mem_flatMap]
            refine ⟨i, hi, ?_⟩
            rw [Invocation.accesses_eq, hrequest]
            exact List.mem_singleton_self _
          obtain ⟨_, cs₁, hserves, hsub⟩ := h.exists_serves hmem
          obtain ⟨c, hc, hx⟩ := GpioTest.switches_of_serves hserves
          refine ⟨c, hsub hc, ?_⟩
          rw [Option.elim_some, doReadSwitches, Act.lines_read, hx, List.map_singleton,
            Field.value_of_all]
        · exact absurd rfl hprint

/-- A system in which every call succeeds, with `byte` in all registers. -/
def Env.holding (byte : BitVec 8) : Env where
  opendir _ := true
  closedir := true
  pageSize := 4096
  openMem := true
  mmap := true
  munmap := true
  reg _ := byte

/-- An invocation of `gpio_test_devmem` with `byte` in the registers. -/
def gpioInvocation (byte : BitVec 8) (args : List String) : Invocation :=
  ⟨gpioTestDevmem, .holding byte, ("tool" :: args).map String.toList⟩

/-- `-l 5`, `-l 3` and `-s` on the peripheral after reset, with the switches at
`0x0c`: the LEDs keep the second byte, and the switches are printed. -/
theorem gpio_session_two_writes_read :
    ∃ s' : GpioTest,
      GpioTest.device.Accesses .reset
        ([gpioInvocation 0 ["-l", "5"], gpioInvocation 0 ["-l", "3"],
          gpioInvocation 0x0c ["-s"]].flatMap Invocation.accesses)
        [{ switches := 0x0c, write := true, writedata := 5 },
          { switches := 0x0c, write := true, writedata := 3 },
          { switches := 0x0c, read := true }] s' ∧
        s'.leds = 3 ∧ (gpioInvocation 0x0c ["-s"]).printed = [("switches", 12)] := by
  have hacc : [gpioInvocation 0 ["-l", "5"], gpioInvocation 0 ["-l", "3"],
      gpioInvocation 0x0c ["-s"]].flatMap Invocation.accesses =
        [.write false 5, .write false 3, .read false 0x0c] := by decide
  have h : GpioTest.device.Accesses .reset
      ([gpioInvocation 0 ["-l", "5"], gpioInvocation 0 ["-l", "3"],
        gpioInvocation 0x0c ["-s"]].flatMap Invocation.accesses)
      [{ switches := 0x0c, write := true, writedata := 5 },
        { switches := 0x0c, write := true, writedata := 3 },
        { switches := 0x0c, read := true }] ⟨3⟩ := by
    have hwrite (s : GpioTest) (b : BitVec 8) : GpioTest.device.Serves s (.write false b)
        [{ switches := 0x0c, write := true, writedata := b }] :=
      ⟨_, rfl, rfl, rfl, rfl, rfl, rfl⟩
    have hread (s : GpioTest) : GpioTest.device.Serves s (.read false 0x0c)
        [{ switches := 0x0c, read := true }] :=
      ⟨[], _, rfl, by simp [GpioCycle.Reads], rfl⟩
    rw [hacc]
    exact .access (hwrite _ 5) (.access (hwrite _ 3) (.access (hread _) (.nil _)))
  obtain ⟨hleds, hswitches⟩ := gpio_session _ (by simp [gpioInvocation]) _ _ _ h
  refine ⟨⟨3⟩, h, ?_, ?_⟩
  · rw [hleds]
    decide
  · obtain ⟨c, hc, hprinted⟩ := hswitches (gpioInvocation 0x0c ["-s"]) (by simp) (by decide)
    have hall : ∀ d ∈ [({ switches := 0x0c, write := true, writedata := 5 } : GpioCycle),
        { switches := 0x0c, write := true, writedata := 3 },
        { switches := 0x0c, read := true }], d.switches = 0x0c := by simp
    rw [hprinted, hall c hc]
    rfl

/-! ## The tools on the blinker -/

/-- A read of STATE. -/
def Access.readsState : Access → Bool
  | .read address _ => address
  | .write _ _ => false

/-- A cycle without a button does not raise the interrupt. -/
theorem not_raises_of_quiet (s : Blinker) {c : Cycle} (h : c.Quiet) : ¬ s.Raises c := by
  intro hraise
  simp [Blinker.Raises, Cycle.press, Cycle.syncButtons, h.2] at hraise

/-- Without a button a cycle keeps a pending interrupt unless it reads STATE. -/
theorem irq_clk_of_quiet (s : Blinker) {c : Cycle} (h : c.Quiet) :
    (s.clk c).irq = (s.irq && !c.readsState) := by
  have hraise := not_raises_of_quiet s h
  cases hread : c.readsState with
  | false =>
      have hack : ¬ s.Acks c := by
        rintro ⟨hr, ha, _⟩
        simp [Cycle.readsState, hr, ha] at hread
      rw [Blinker.irq_clk_of_neither h.1 hraise hack]
      simp
  | true =>
      have hgate : (c.press && s.enaIrq) = false := by simpa [Blinker.Raises] using hraise
      have hpins : (c.read && c.address) = true := hread
      simp [Blinker.clk, h.1, Blinker.interruptControl, hgate, hpins]

theorem irq_run_of_quiet_reads (s : Blinker) {cs : List Cycle} (h : ∀ c ∈ cs, c.Quiet) :
    (s.run cs).irq = (s.irq && cs.all fun c => !c.readsState) := by
  induction cs generalizing s with
  | nil => simp
  | cons c cs ih =>
      rw [List.forall_mem_cons] at h
      rw [Blinker.run_cons, ih _ h.2, irq_clk_of_quiet s h.1, List.all_cons, Bool.and_assoc]

/-- Without a button an access leaves a pending interrupt unless it reads
STATE. -/
theorem irq_of_serves (s : Blinker) {a : Access} {cs : List Cycle} (h : s.Serves a cs)
    (hq : ∀ c ∈ cs, c.Quiet) : (s.run cs).irq = (s.irq && !Access.readsState a) := by
  rw [irq_run_of_quiet_reads s hq]
  congr 1
  cases a with
  | read address x =>
      obtain ⟨held, c, rfl, hreads, _⟩ := h
      have hstate : ∀ d ∈ held ++ [c], d.readsState = address := by
        intro d hd
        obtain ⟨_, hread, _, haddr⟩ := hreads d hd
        simp [Cycle.readsState, hread, haddr]
      cases address with
      | false =>
          refine List.all_eq_true.mpr fun d hd => ?_
          rw [hstate d hd]
          rfl
      | true => simp [Access.readsState, hstate c (by simp)]
  | write address w =>
      obtain ⟨c, rfl, _, hread, _⟩ := h
      simp [Access.readsState, Cycle.readsState, hread]

/-- The view of the configuration and of the interrupt line, in cycles without a
button. -/
def blinkerView : Bus.View blinkerDevice (Config × Bool) where
  abs s := (s.config, s.irq)
  effect g a := (g.1.access a, g.2 && !Access.readsState a)
  Shows g a := ∀ x, a = .read true x → x = g.1.stateByte
  Fair := Cycle.Quiet
  idle s c hq hc := by
    have hconfig : (s.clk c).config = s.config := by
      rw [Blinker.config_clk_of_quiet s hq, hc.2.2]
      rfl
    have hirq : (s.clk c).irq = s.irq := by
      rw [irq_clk_of_quiet s hq, Cycle.readsState, hc.2.1]
      simp
    exact Prod.ext hconfig hirq
  serve s a cs hq ha := by
    have hirq := irq_of_serves s ha hq
    cases a with
    | read address x =>
        obtain ⟨hkeep, hx⟩ := config_of_serves_read ha hq
        refine ⟨fun y hy => ?_, Prod.ext hkeep hirq⟩
        obtain ⟨rfl, rfl⟩ := Access.read.inj hy
        exact hx rfl
    | write address w =>
        refine ⟨fun y hy => by contradiction, Prod.ext ?_ hirq⟩
        obtain ⟨c, rfl, hc⟩ := ha
        exact Blinker.config_clk_of_writes s hc (hq c (by simp))

namespace Invocation

/-- What an invocation makes of the configuration. -/
def configure (g : Config) (i : Invocation) : Config :=
  match i.request with
  | some (.write offset, byte) => g.write (ioCalcAddressNative offset) byte
  | _ => g

/-- The invocation reads STATE. -/
def readsState (i : Invocation) : Bool :=
  match i.request with
  | some (.read offset _, _) => ioCalcAddressNative offset
  | _ => false

/-- The effect of an invocation is that of its request. -/
theorem effect_eq (i : Invocation) (g : Config × Bool) :
    i.accesses.foldl blinkerView.effect g = (i.configure g.1, g.2 && !i.readsState) := by
  rw [accesses_eq, configure, readsState]
  cases i.request with
  | none => simp
  | some r =>
      obtain ⟨act, byte⟩ := r
      cases act with
      | write offset => simp [Act.run_write, blinkerView, Access.readsState, Config.access]
      | read offset fields => simp [Act.run_read, blinkerView, Access.readsState, Config.access]
      | help => simp [Act.run_help]

theorem foldl_effect (is : List Invocation) (g : Config × Bool) :
    (is.flatMap accesses).foldl blinkerView.effect g =
      (is.foldl configure g.1, g.2 && is.all fun i => !i.readsState) := by
  induction is generalizing g with
  | nil => simp
  | cons i is ih =>
      rw [List.flatMap_cons, List.foldl_append, effect_eq, ih, List.foldl_cons, List.all_cons,
        Bool.and_assoc]

end Invocation

/-- The number that `do_read_state` prints for the configuration. -/
def configurationNumber (g : Config) : Nat :=
  4 * g.enaIrq.toNat + 2 * g.mode.toNat + g.running.toNat

theorem lines_of_stateByte (g : Config) :
    Field.value ⟨"configuration", 0x0f, 0⟩ g.stateByte = configurationNumber g ∧
      Field.value ⟨"speed", 0xf0, 4⟩ g.stateByte = g.speed.toNat := by
  obtain ⟨running, mode, enaIrq, speed⟩ := g
  revert speed
  cases running <;> cases mode <;> cases enaIrq <;> decide

/-- **Sessions on the blinker.**  However many invocations of the tools follow
one another, with any command lines, outcomes and clock cycles without a button:
the configuration is what their writes make of it in order, a pending interrupt
is left exactly if none of them has read STATE, and each `do_read_state` prints
the configuration that the invocations before it have left. -/
theorem blinker_session (is : List Invocation) (s s' : Blinker) (cs : List Cycle)
    (h : blinkerDevice.Accesses s (is.flatMap Invocation.accesses) cs s')
    (hq : ∀ c ∈ cs, c.Quiet) :
    s'.config = is.foldl Invocation.configure s.config ∧
      s'.irq = (s.irq && is.all fun i => !i.readsState) ∧
      ∀ before i after byte, is = before ++ i :: after → i.request = some (doReadState, byte) →
        i.printed = [("configuration", configurationNumber (before.foldl Invocation.configure s.config)),
          ("speed", (before.foldl Invocation.configure s.config).speed.toNat)] := by
  obtain ⟨hshows, habs⟩ := blinkerView.of_accesses h hq
  rw [Invocation.foldl_effect] at habs
  obtain ⟨hconfig, hirq⟩ := Prod.mk.inj habs
  refine ⟨hconfig, hirq, ?_⟩
  rintro before i after byte rfl hrequest
  rw [List.flatMap_append, List.flatMap_cons] at hshows
  have hone := blinkerView.shows_of_append hshows
  rw [Invocation.foldl_effect, Invocation.accesses_eq, hrequest] at hone
  have hx : i.env.reg 1 = (before.foldl Invocation.configure s.config).stateByte :=
    hone.1 _ rfl
  obtain ⟨hcfg, hspeed⟩ := lines_of_stateByte (before.foldl Invocation.configure s.config)
  rw [Invocation.printed_eq, hrequest, Option.elim_some, doReadState, Act.lines_read, hx]
  simp only [List.map_cons, List.map_nil, hcfg, hspeed]

/-- `-c 1` and then `-s` on the device after reset: the bit that was written as
bit 0 is printed as bit 1. -/
theorem blinker_session_write_read :
    ∃ s' : Blinker,
      blinkerDevice.Accesses .reset
        ([⟨blinkerDevmemTest, .holding 0, ["tool".toList, "-c".toList, "1".toList]⟩,
          ⟨blinkerDevmemTest, .holding 0x82, ["tool".toList, "-s".toList]⟩].flatMap
          Invocation.accesses) [writeCycle true 1, readCycle true] s' ∧
        Invocation.printed ⟨blinkerDevmemTest, .holding 0x82, ["tool".toList, "-s".toList]⟩ =
          [("configuration", 2), ("speed", 8)] := by
  have hacc : [⟨blinkerDevmemTest, .holding 0, ["tool".toList, "-c".toList, "1".toList]⟩,
      ⟨blinkerDevmemTest, .holding 0x82, ["tool".toList, "-s".toList]⟩].flatMap
      Invocation.accesses = [.write true 1, .read true 0x82] := by decide
  have h : blinkerDevice.Accesses .reset
      ([⟨blinkerDevmemTest, .holding 0, ["tool".toList, "-c".toList, "1".toList]⟩,
        ⟨blinkerDevmemTest, .holding 0x82, ["tool".toList, "-s".toList]⟩].flatMap
        Invocation.accesses) [writeCycle true 1, readCycle true]
        (Blinker.run .reset [writeCycle true 1, readCycle true]) := by
    have hwrite : blinkerDevice.Serves .reset (.write true 1) [writeCycle true 1] := by
      show Blinker.Serves .reset (.write true 1) [writeCycle true 1]
      exact ⟨_, rfl, rfl, rfl, rfl, rfl, rfl⟩
    have hread : blinkerDevice.Serves (blinkerDevice.run .reset [writeCycle true 1])
        (.read true 0x82) [readCycle true] := by
      show Blinker.Serves (Blinker.reset.run [writeCycle true 1]) (.read true 0x82) [readCycle true]
      exact ⟨[], readCycle true, rfl, by simp [readCycle, Cycle.Reads], by decide⟩
    rw [hacc]
    exact .access hwrite (.access hread (.nil _))
  have hq : ∀ c ∈ [writeCycle true 1, readCycle true], c.Quiet := by
    simp [writeCycle, readCycle, Cycle.Quiet]
  refine ⟨_, h, ?_⟩
  rw [(blinker_session _ _ _ _ h hq).2.2 [_] _ [] 0 rfl (by decide)]
  decide

end De1Soc.Devmem
