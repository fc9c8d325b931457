import De1Soc.Driver.Machine
import De1Soc.Prefix

/-!
# De1Soc.Driver.Config

What one call does to the configuration when no button is active.

Five ioctls change one field of the configuration by reading STATE and
writing CONFIG.  The byte they write is the STATE byte of the configuration
they want (`Request.byte_bits`), but the device takes `mode` and `running`
from each other's bit, so what they leave is the wanted configuration
*exchanged* (`config_after_request`).  A call therefore does what it was
asked exactly when the wanted configuration has `mode = running`.
-/

namespace De1Soc

open Kernel

/-! ## The requests -/

/-- The ioctls that change one configuration field. -/
inductive Request
  | setRunning
  | clearRunning
  | enaInt
  | disInt
  | setMode (mode : Bool)
deriving DecidableEq, Repr

namespace Request

def cmd : Request → Cmd
  | .setRunning => .setRunning
  | .clearRunning => .clearRunning
  | .enaInt => .enaInt
  | .disInt => .disInt
  | .setMode _ => .setMode

/-- The value of `mode` in the kernel for `IOC_SET_MODE`. -/
def modeValue (mode : Bool) : BitVec 8 := if mode then 1 else 0

/-- The word in user memory that the request is made with. -/
def word : Request → BitVec 32
  | .setMode true => 1
  | _ => 0

/-- The byte written to CONFIG, of the byte read from STATE. -/
def byte : Request → BitVec 8 → BitVec 8
  | .setRunning => setRunningByte
  | .clearRunning => clearRunningByte
  | .enaInt => enaIntByte
  | .disInt => disIntByte
  | .setMode mode => setModeByte (modeValue mode)

/-- The field the ioctl names gets the value it asks for; the others stay. -/
def target (g : Config) : Request → Config
  | .setRunning => { g with running := true }
  | .clearRunning => { g with running := false }
  | .enaInt => { g with enaIrq := true }
  | .disInt => { g with enaIrq := false }
  | .setMode mode => { g with mode := mode }

/-- What `get_user` delivered is the mode that the request names. -/
def Delivered (req : Request) (ops : List DriverOp) : Prop :=
  ∀ mode, req = .setMode mode → ∀ arg v, Op.ask (Q := user) (.getUser arg) (some v) ∈ ops →
    v.setWidth 8 = modeValue mode

/-- The byte written has the STATE bits of the wanted configuration. -/
theorem byte_bits (req : Request) (g : Config) :
    (req.byte g.stateByte).getLsbD 0 = (req.target g).running ∧
      (req.byte g.stateByte).getLsbD 1 = (req.target g).mode ∧
      (req.byte g.stateByte).getLsbD 2 = (req.target g).enaIrq := by
  cases req with
  | setRunning => simp [byte, target, setRunningByte, blinkerConfigMsk, blinkerStartMsk]
  | clearRunning => simp [byte, target, clearRunningByte, blinkerConfigMsk, blinkerStopMsk]
  | enaInt => simp [byte, target, enaIntByte, blinkerConfigMsk, blinkerIenaMsk]
  | disInt => simp [byte, target, disIntByte, blinkerConfigMsk, blinkerIdisMsk]
  | setMode mode =>
      cases mode <;>
        simp [byte, target, setModeByte, modeValue, blinkerConfigMsk, blinkerShiftMsk,
          blinkerBlinkMsk]

/-- **The device stores the wanted configuration exchanged.** -/
theorem writeConfig_byte (req : Request) (g : Config) :
    g.writeConfig (req.byte g.stateByte) = (req.target g).exchange := by
  obtain ⟨h0, h1, h2⟩ := req.byte_bits g
  exact Config.writeConfig_eq_exchange g _ _ (by cases req <;> rfl) h0 h1 h2

end Request

/-! ## The bus accesses of the calls -/

/-- A successful request reads STATE and writes its byte to CONFIG. -/
def requestRule (req : Request) : Rule user io Int where
  ok _ _ := True
  fin ops r := req.Delivered ops → r = 0 →
    ∃ x, accesses ops = [.write true (req.byte x), .read true x]

theorem blinkerDevIoctl_obeys_requestRule (req : Request) (arg : BitVec 32) :
    (blinkerDevIoctl req.cmd arg).Obeys (requestRule req) [] := by
  cases req with
  | setMode mode =>
      simp only [blinkerDevIoctl, Request.cmd, requestRule]
      simp
      intro _ v
      cases v with
      | none => simp
      | some value =>
          by_cases hv : 1#8 < value.setWidth 8
          · simp [hv]
          · simp [hv, Request.byte, Request.Delivered]
            intro x hmode
            rw [hmode]
  | _ => simp [blinkerDevIoctl, Request.cmd, requestRule, Request.byte]

/-- `blinker_dev_write` makes one access at most, the CONFIG write of the
byte it accepts. -/
def writeRule : Rule user io Int where
  ok _ _ := True
  fin ops _ := ∀ b, .write true b ∈ accesses ops → accesses ops = [.write true b]

theorem blinkerDevWrite_obeys_writeRule (userBuffer count : BitVec 32) :
    (blinkerDevWrite userBuffer count).Obeys writeRule [] := by
  simp only [blinkerDevWrite, writeRule]
  simp
  intro _ v
  cases v with
  | none => simp
  | some config =>
      by_cases hc : config = 0#8 ∨ 7#8 < config
      · simp [hc]
      · simp [hc]

/-! ## One request -/

section Request

variable {w w' : Shared Mem} {req : Request} {arg : BitVec 32} {os : List DriverOp}
  {cs : List Cycle}

/-- A successful request reads STATE and then writes CONFIG. -/
theorem accesses_of_request (hx : Exec machine w (blinkerDevIoctl req.cmd arg) os cs 0 w')
    (hd : req.Delivered os) :
    ∃ x, accesses os = [.read true x, .write true (req.byte x)] := by
  have hd' : req.Delivered (os.reverse ++ []) := by
    intro mode hmode arg v hv
    exact hd mode hmode arg v (by simpa using hv)
  obtain ⟨x, hacc⟩ := hx.fin (blinkerDevIoctl_obeys_requestRule req arg) hd' rfl
  rw [List.append_nil, accesses_reverse] at hacc
  exact ⟨x, by simpa using congrArg List.reverse hacc⟩

/-- A successful request leaves the wanted configuration exchanged. -/
theorem config_after_request (hx : Exec machine w (blinkerDevIoctl req.cmd arg) os cs 0 w')
    (hd : req.Delivered os) (hq : ∀ c ∈ cs, c.Quiet) :
    w'.mem.dev.config = (req.target w.mem.dev.config).exchange := by
  obtain ⟨x, hacc⟩ := accesses_of_request hx hd
  have hdev := accesses_of_exec hx
  rw [hacc] at hdev
  obtain ⟨⟨hread, _⟩, hcfg⟩ := config_of_accesses hdev hq
  rw [hcfg, ← req.writeConfig_byte, ← hread rfl]
  rfl

/-- **One ioctl does what it names exactly when the configuration it asks
for has `mode = running`.** -/
theorem request_iff (hx : Exec machine w (blinkerDevIoctl req.cmd arg) os cs 0 w')
    (hd : req.Delivered os) (hq : ∀ c ∈ cs, c.Quiet) :
    w'.mem.dev.config = req.target w.mem.dev.config ↔
      (req.target w.mem.dev.config).mode = (req.target w.mem.dev.config).running := by
  rw [config_after_request hx hd hq]
  exact Config.exchange_eq_iff _

end Request

/-! ## Sequences of requests -/

/-- Requests made one after the other, each to a successful return with no
button active, with the configuration after each. -/
inductive Requests : Shared Mem → List (Request × Config) → Shared Mem → Prop
  | nil (w : Shared Mem) : Requests w [] w
  | cons {w w₁ w' : Shared Mem} {req : Request} {arg : BitVec 32} {os : List DriverOp}
      {cs : List Cycle} {rs : List (Request × Config)}
      (hx : Exec machine w (blinkerDevIoctl req.cmd arg) os cs 0 w₁) (hd : req.Delivered os)
      (hq : ∀ c ∈ cs, c.Quiet) (h : Requests w₁ rs w') :
      Requests w ((req, w₁.mem.dev.config) :: rs) w'

namespace Request

/-- The value asked for each field, if the request names it. -/
def running? : Request → Option Bool
  | .setRunning => some true
  | .clearRunning => some false
  | _ => none

def mode? : Request → Option Bool
  | .setMode mode => some mode
  | _ => none

def enaIrq? : Request → Option Bool
  | .enaInt => some true
  | .disInt => some false
  | _ => none

/-- Each field with the last value asked for it, or its initial value. -/
def requested (g : Config) (reqs : List Request) : Config :=
  { g with
    running := (reqs.filterMap running?).getLastD g.running
    mode := (reqs.filterMap mode?).getLastD g.mode
    enaIrq := (reqs.filterMap enaIrq?).getLastD g.enaIrq }

@[simp] theorem requested_nil (g : Config) : requested g [] = g := rfl

theorem getLastD_filterMap_cons (f : Request → Option Bool) (req : Request) (reqs : List Request)
    (b : Bool) :
    ((req :: reqs).filterMap f).getLastD b = (reqs.filterMap f).getLastD ((f req).getD b) := by
  cases h : f req with
  | none => rw [List.filterMap_cons_none h, Option.getD_none]
  | some v => rw [List.filterMap_cons_some h, List.getLastD_cons, Option.getD_some]

@[simp] theorem requested_cons (g : Config) (req : Request) (reqs : List Request) :
    requested g (req :: reqs) = requested (req.target g) reqs := by
  simp only [requested, getLastD_filterMap_cons]
  cases req <;> rfl

end Request

/-- After a request that did what it names, the rest of the sequence starts
from what was asked so far. -/
theorem requests_iff {w w' : Shared Mem} {rs : List (Request × Config)} (h : Requests w rs w') :
    (∀ ps p, ps ++ [p] <+: rs →
        p.2 = Request.requested w.mem.dev.config ((ps ++ [p]).map Prod.fst)) ↔
      ∀ ps p, ps ++ [p] <+: rs →
        (Request.requested w.mem.dev.config ((ps ++ [p]).map Prod.fst)).mode =
          (Request.requested w.mem.dev.config ((ps ++ [p]).map Prod.fst)).running := by
  induction h with
  | nil w => simp
  | @cons w w₁ w' req arg os cs rs hx hd hq h ih =>
      rw [List.forall_snoc_prefix_cons, List.forall_snoc_prefix_cons]
      have hfirst := request_iff hx hd hq
      simp only [List.nil_append, List.map_cons, List.map_nil, Request.requested_cons,
        Request.requested_nil, List.cons_append]
      constructor
      · rintro ⟨h1, hrest⟩
        rw [← h1] at hrest ⊢
        exact ⟨h1 ▸ hfirst.mp h1, ih.mp hrest⟩
      · rintro ⟨h1, hrest⟩
        have h1' := hfirst.mpr h1
        rw [← h1'] at hrest
        exact ⟨h1', h1' ▸ ih.mpr hrest⟩

/-- **The configuration ioctls**: one call leaves the field it names as asked
and the rest as it was exactly when the configuration asked for has
`mode = running`; and along a sequence of calls every field is, after each
call, the last value asked for it exactly when that holds of what was asked
after each call. -/
theorem config_ioctls_iff (w : Shared Mem) :
    (∀ (w' : Shared Mem) (req : Request) (arg : BitVec 32) (os : List DriverOp)
      (cs : List Cycle), Exec machine w (blinkerDevIoctl req.cmd arg) os cs 0 w' →
      req.Delivered os → (∀ c ∈ cs, c.Quiet) →
      (w'.mem.dev.config = req.target w.mem.dev.config ↔
        (req.target w.mem.dev.config).mode = (req.target w.mem.dev.config).running)) ∧
    ∀ (w' : Shared Mem) (rs : List (Request × Config)), Requests w rs w' →
      ((∀ ps p, ps ++ [p] <+: rs →
          p.2 = Request.requested w.mem.dev.config ((ps ++ [p]).map Prod.fst)) ↔
        ∀ ps p, ps ++ [p] <+: rs →
          (Request.requested w.mem.dev.config ((ps ++ [p]).map Prod.fst)).mode =
            (Request.requested w.mem.dev.config ((ps ++ [p]).map Prod.fst)).running) :=
  ⟨fun _ _ _ _ _ hx hd hq => request_iff hx hd hq, fun _ _ h => requests_iff h⟩

/-! ### Carrying a request out -/

/-- With the locks free every request can be carried out.  It leaves the
locks free and the driver's record of interrupts as it is, and, having read
STATE, no interrupt pending. -/
theorem exists_exec_request (req : Request) (w : Shared Mem) (hsem : w.sem = 1)
    (hlock : w.lock = false) :
    ∃ os cs w', Exec machine w (blinkerDevIoctl req.cmd 0) os cs 0 w' ∧ .down true ∉ os ∧
      req.Delivered os ∧ (∀ c ∈ cs, c.Quiet) ∧ w'.sem = 1 ∧ w'.lock = false ∧
      w'.mem.irqCount = w.mem.irqCount ∧ w'.mem.interruptFlag = w.mem.interruptFlag ∧
      w'.mem.dev.irq = false := by
  have hsolo : ∃ x, solo (userHolding req.word) runner (blinkerDevIoctl req.cmd 0) w = some x ∧
      x.2.2.1 = 0 ∧ req.Delivered x.1 ∧ x.2.2.2.sem = 1 ∧ x.2.2.2.lock = false ∧
      x.2.2.2.mem.irqCount = w.mem.irqCount ∧
      x.2.2.2.mem.interruptFlag = w.mem.interruptFlag ∧ x.2.2.2.mem.dev.irq = false := by
    cases req with
    | setMode mode =>
        cases mode <;>
          simp [blinkerDevIoctl, Request.cmd, Request.word, solo, userHolding, hsem, hlock,
            Outcome.cons, Request.Delivered, Request.modeValue, runner, Mem.update, Blinker.fetch,
            Blinker.clk, readCycle, writeCycle, Blinker.interruptControl, Cycle.press,
            Cycle.syncButtons]
    | _ =>
        simp [blinkerDevIoctl, Request.cmd, Request.word, solo, userHolding, hsem, hlock,
          Outcome.cons, Request.Delivered, runner, Mem.update, Blinker.fetch, Blinker.clk,
          readCycle, writeCycle, Blinker.interruptControl, Cycle.press, Cycle.syncButtons]
  obtain ⟨⟨os, cs, r, w'⟩, hx, rfl, hd, hw'⟩ := hsolo
  obtain ⟨hexec, hq⟩ := valid_of_solo runner_quiet hx
  exact ⟨os, cs, w', hexec, down_true_notMem_of_solo rfl hx, hd, hq, hw'⟩

/-- `IOC_CLEAR_RUNNING` right after reset: the device keeps running and its
mode is cleared instead. -/
theorem clearRunning_after_reset :
    ∃ os cs w, Exec machine (probed .reset) (blinkerDevIoctl .clearRunning 0) os cs 0 w ∧
      Request.clearRunning.Delivered os ∧ (∀ c ∈ cs, c.Quiet) ∧
      w.mem.dev.config ≠ Request.clearRunning.target Blinker.reset.config ∧
      w.mem.dev.config = { Blinker.reset.config with mode := false } := by
  obtain ⟨os, cs, w, hx, _, hd, hq, _⟩ := exists_exec_request .clearRunning (probed .reset) rfl rfl
  have hcfg := config_after_request hx hd hq
  refine ⟨os, cs, w, hx, hd, hq, ?_, ?_⟩
  · rw [hcfg]
    decide
  · rw [hcfg]
    decide

/-- `IOC_ENA_INT` right after reset does what it names, and so does `IOC_DIS_INT`
behind it. -/
theorem enaInt_disInt_after_reset :
    ∃ os cs w₁ w₂, Exec machine (probed .reset) (blinkerDevIoctl .enaInt 0) os cs 0 w₁ ∧
      w₁.mem.dev.config = Request.enaInt.target Blinker.reset.config ∧
      w₁.mem.dev.config ≠ Blinker.reset.config ∧
      Requests (probed .reset) [(.enaInt, w₁.mem.dev.config), (.disInt, w₂.mem.dev.config)] w₂ ∧
      ∀ ps p, ps ++ [p] <+: [(.enaInt, w₁.mem.dev.config), (.disInt, w₂.mem.dev.config)] →
        p.2 = Request.requested Blinker.reset.config ((ps ++ [p]).map Prod.fst) := by
  obtain ⟨os, cs, w₁, hx, _, hd, hq, hsem, hlock, _⟩ :=
    exists_exec_request .enaInt (probed .reset) rfl rfl
  obtain ⟨os', cs', w₂, hx', _, hd', hq', _⟩ := exists_exec_request .disInt w₁ hsem hlock
  obtain ⟨hcall, hcalls⟩ := config_ioctls_iff (probed .reset)
  have hfirst := (hcall _ _ _ _ _ hx hd hq).mpr (by decide)
  have hboth : Requests (probed .reset) _ w₂ := .cons hx hd hq (.cons hx' hd' hq' (.nil _))
  refine ⟨os, cs, w₁, w₂, hx, hfirst, ?_, hboth, (hcalls _ _ hboth).mpr ?_⟩
  · rw [hfirst]
    decide
  · rw [List.forall_snoc_prefix_cons, List.forall_snoc_prefix_cons]
    exact ⟨rfl, rfl, by simp⟩

/-! ## CONFIG and STATE as a round trip -/

/-- **CONFIG against STATE**: a byte written to CONFIG is read back from
STATE exactly when its bits 0 and 1 agree; writing the low three bits of a
STATE byte back leaves the flags exactly when `mode` and `running` agree;
and a byte that `blinker_dev_write` accepts is read back exactly when its
bits 0 and 1 agree. -/
theorem config_state_roundtrip_iff {cr : Cycle} (hr : cr.Reads true) :
    (∀ (s : Blinker) (b : BitVec 8) (cw : Cycle) (cs : List Cycle), cw.Writes true b →
      cw.Quiet → (∀ c ∈ cs, c.Quiet ∧ c.writesConfig = false) →
      (Config.ReadsBack b (((s.clk cw).run cs).readdata cr) ((s.clk cw).run cs).speed ↔
        b.getLsbD 0 = b.getLsbD 1)) ∧
    (∀ (s : Blinker) (cw : Cycle) (cs : List Cycle),
      cw.Writes true (s.readdata cr &&& 7) → cw.Quiet →
      (((((s.clk cr).run cs).clk cw).running = s.running ∧
        (((s.clk cr).run cs).clk cw).mode = s.mode ∧
        (((s.clk cr).run cs).clk cw).enaIrq = s.enaIrq) ↔ s.mode = s.running)) ∧
    ∀ (w w' : Shared Mem) (userBuffer count : BitVec 32) (os : List DriverOp) (r : Int)
      (b : BitVec 8) (cs cs' : List Cycle),
      Exec machine w (blinkerDevWrite userBuffer count) os cs r w' → (∀ c ∈ cs, c.Quiet) →
      .write true b ∈ accesses os → (∀ c ∈ cs', c.Quiet ∧ c.writesConfig = false) →
      (Config.ReadsBack b ((w'.mem.dev.run cs').readdata cr) (w'.mem.dev.run cs').speed ↔
        b.getLsbD 0 = b.getLsbD 1) := by
  refine ⟨fun s b cw cs hw hq hcs => s.readsBack_after_write_iff hw hq hcs hr,
    fun s cw cs hw hq => s.flags_after_writeBack_iff hr hw hq, ?_⟩
  intro w w' userBuffer count os r b cs cs' hx hq hb hcs
  have hfin := hx.fin (blinkerDevWrite_obeys_writeRule userBuffer count) b
  rw [List.append_nil, accesses_reverse, List.mem_reverse] at hfin
  have hacc : accesses os = [.write true b] := by
    simpa using congrArg List.reverse (hfin hb)
  have hdev := accesses_of_exec hx
  rw [hacc] at hdev
  exact w'.mem.dev.readsBack_of_stored_iff (config_of_accesses hdev hq).2 hcs hr

/-- The documented byte for "sweep, running" written right after reset: the
read-back shows "blink, stopped", and writing that read-back once more
changes the registers again. -/
theorem config_byte_one_after_reset :
    ¬ Config.ReadsBack 1 ((Blinker.reset.clk (writeCycle true 1)).readdata (readCycle true))
        (Blinker.reset.clk (writeCycle true 1)).speed ∧
      (Blinker.reset.clk (writeCycle true 1)).readdata (readCycle true) = 0x82 ∧
      (Blinker.reset.run [writeCycle true 1, writeCycle true 2]).config ≠
        (Blinker.reset.run [writeCycle true 1]).config := by
  refine ⟨?_, by decide, by decide⟩
  rw [Config.ReadsBack, Config.extractLsb'_low_eq_iff]
  decide

/-- With the semaphore free `blinker_dev_write` stores every byte in
`1..7`. -/
theorem exists_exec_write (b : BitVec 8) (hb : b ≠ 0 ∧ b ≤ 7) (w : Shared Mem) (hsem : 0 < w.sem) :
    ∃ os cs w', Exec machine w (blinkerDevWrite 0 1) os cs 1 w' ∧ .write true b ∈ accesses os ∧
      ∀ c ∈ cs, c.Quiet := by
  have hok : ¬ (b = 0#8 ∨ 7#8 < b) := by bv_omega
  have hsolo : ∃ x, solo (userHolding (b.setWidth 32)) runner (blinkerDevWrite 0 1) w = some x ∧
      x.2.2.1 = 1 ∧ .write true b ∈ accesses x.1 := by
    simp [blinkerDevWrite, solo, userHolding, hsem, hok, Outcome.cons]
  obtain ⟨⟨os, cs, r, w'⟩, hx, rfl, hacc⟩ := hsolo
  obtain ⟨hexec, hq⟩ := valid_of_solo runner_quiet hx
  exact ⟨os, cs, w', hexec, hacc, hq⟩

/-- The byte 3 written right after reset, on the bus and through
`blinker_dev_write`, comes back. -/
theorem config_byte_three_after_reset :
    Config.ReadsBack 3 ((Blinker.reset.clk (writeCycle true 3)).readdata (readCycle true)) 8 ∧
      (Blinker.reset.run [readCycle true, writeCycle true 3]).mode = true ∧
      ∃ os cs w, Exec machine (probed .reset) (blinkerDevWrite 0 1) os cs 1 w ∧
        Config.ReadsBack 3 (w.mem.dev.readdata (readCycle true)) w.mem.dev.speed := by
  obtain ⟨os, cs, w, hx, hacc, hq⟩ := exists_exec_write 3 (by decide) (probed .reset) (by decide)
  have hr : (readCycle true).Reads true := by decide
  obtain ⟨h1, h2, h3⟩ := config_state_roundtrip_iff hr
  have hbus := h1 .reset 3 (writeCycle true 3) [] (by decide) (by decide) (by simp)
  have hback := h2 .reset (writeCycle true 3) [] (by decide) (by decide)
  have hwrite := h3 _ _ _ _ _ _ 3 _ [] hx hq hacc (by simp)
  exact ⟨hbus.mpr (by decide), (hback.mpr rfl).2.1, os, cs, w, hx, hwrite.mpr (by decide)⟩

end De1Soc
