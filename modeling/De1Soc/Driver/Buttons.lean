import De1Soc.Blinker.Collide
import De1Soc.Driver.Config

/-!
# De1Soc.Driver.Buttons

A configuration ioctl against the buttons.

The locks keep other software out between the STATE read and the CONFIG write
of an ioctl; the buttons change `mode` and `running` inside the device all the
same.  What they do there is lost: the write puts back what was read.  Whether
the outcome is still that of an uninterrupted read-modify-write at some point
among the button cycles depends on how often the two toggles were pressed
between read and write and after, and on nothing else (`rmw_atomic_iff`).
-/

namespace De1Soc

open Kernel

/-! ## What the buttons do -/

/-- Whether `f` is on in an odd number of the cycles. -/
def odd (f : Cycle → Bool) (cs : List Cycle) : Bool := cs.foldr (fun c b => f c ^^ b) false

@[simp] theorem odd_nil (f : Cycle → Bool) : odd f [] = false := rfl

@[simp] theorem odd_cons (f : Cycle → Bool) (c : Cycle) (cs : List Cycle) :
    odd f (c :: cs) = (f c ^^ odd f cs) := rfl

@[simp] theorem odd_append (f : Cycle → Bool) (cs ds : List Cycle) :
    odd f (cs ++ ds) = (odd f cs ^^ odd f ds) := by
  induction cs with
  | nil => simp
  | cons c cs ih => rw [List.cons_append, odd_cons, odd_cons, ih, Bool.xor_assoc]

/-- What a stretch of button cycles makes of a configuration: the toggles count
by parity. -/
def Config.presses (g : Config) (cs : List Cycle) : Config where
  running := g.running ^^ odd Cycle.pause cs
  mode := g.mode ^^ odd Cycle.changeMode cs
  enaIrq := g.enaIrq
  speed := cs.foldl speedStep g.speed

@[simp] theorem Config.presses_nil (g : Config) : g.presses [] = g := by
  simp [presses]

theorem Config.presses_cons (g : Config) (c : Cycle) (cs : List Cycle) :
    g.presses (c :: cs) = (g.presses [c]).presses cs := by
  simp [presses]

namespace Blinker

/-- An idle cycle toggles `mode` and `running` and moves the speed. -/
theorem config_clk_of_idle (s : Blinker) {c : Cycle} (h : c.Idle) :
    (s.clk c).config = s.config.presses [c] := by
  rw [config_clk s h.1, Config.edge_of_not_write h.2.2]
  simp [Config.press, Config.presses]

/-- **A stretch of idle cycles** is a stretch of presses. -/
theorem config_run_of_idle (s : Blinker) {cs : List Cycle} (h : ∀ c ∈ cs, c.Idle) :
    (s.run cs).config = s.config.presses cs := by
  induction cs generalizing s with
  | nil => rw [run_nil, Config.presses_nil]
  | cons c cs ih =>
      rw [List.forall_mem_cons] at h
      rw [run_cons, ih _ h.2, config_clk_of_idle s h.1, ← Config.presses_cons]

/-- The read-modify-write of a request with nothing between: the bus cycles of
the read and then the write. -/
def rmw (s : Blinker) (req : Request) : Blinker :=
  s.run [readCycle true, readCycle true, writeCycle true (req.byte s.stateByte)]

theorem config_rmw (s : Blinker) (req : Request) :
    (s.rmw req).config = (req.target s.config).exchange := by
  have hread : (s.run [readCycle true, readCycle true]).config = s.config :=
    config_run_of_quiet s (by decide)
  have hwrite := config_clk_of_writes (s.run [readCycle true, readCycle true])
    (c := writeCycle true (req.byte s.stateByte)) ⟨rfl, rfl, rfl, rfl, rfl⟩ ⟨rfl, rfl⟩
  rw [hread] at hwrite
  rw [← req.writeConfig_byte]
  exact hwrite

end Blinker

/-! ## Where the cycles of an ioctl fall -/

/-- The device over one ioctl: idle cycles `pre`, the STATE read, idle cycles
`btw`, the CONFIG write of the byte computed from it, idle cycles `post`.  The
bus cycles themselves carry no button. -/
structure Placed (req : Request) (s s' : Blinker) (pre bus btw : List Cycle) (wr : Cycle)
    (post : List Cycle) : Prop where
  before : ∀ c ∈ pre, c.Idle
  reads : ∀ c ∈ bus, c.Reads true ∧ c.Quiet
  held : bus ≠ []
  between : ∀ c ∈ btw, c.Idle
  writes : wr.Writes true (req.byte (s.run pre).stateByte) ∧ wr.Quiet
  after : ∀ c ∈ post, c.Idle
  run : s' = s.run (pre ++ (bus ++ (btw ++ wr :: post)))

/-- Every successful request without a button in its bus cycles is so
placed. -/
theorem placed_of_exec {w w' : Shared Mem} {req : Request} {arg : BitVec 32}
    {os : List DriverOp} {cs : List Cycle}
    (hx : Exec machine w (blinkerDevIoctl req.cmd arg) os cs 0 w') (hd : req.Delivered os)
    (hq : ∀ c ∈ cs, c.Idle ∨ c.Quiet) :
    ∃ pre bus btw wr post, cs = pre ++ (bus ++ (btw ++ wr :: post)) ∧
      Placed req w.mem.dev w'.mem.dev pre bus btw wr post := by
  obtain ⟨x, hacc⟩ := accesses_of_request hx hd
  have hdev := accesses_of_exec hx
  have hrun := hdev.eq_run
  rw [hacc] at hdev
  obtain ⟨pre, bus, rest, rfl, hpre, ⟨held, c, rfl, hread, rfl⟩, hdev⟩ := hdev.cons_inv
  obtain ⟨btw, _, post, rfl, hbtw, ⟨wr, rfl, hwr⟩, hdev⟩ := hdev.cons_inv
  have hpost := hdev.idle_of_nil
  rw [blinkerDevice_run] at hwr
  have hquiet : ∀ d ∈ held ++ [c], d.Quiet := by
    intro d hd
    have hmem : d ∈ pre ++ (held ++ [c] ++ (btw ++ ([wr] ++ post))) := by
      simp only [List.mem_append] at hd ⊢
      tauto
    obtain hidle | hquiet := hq d hmem
    · obtain ⟨_, hno, _⟩ := hidle
      rw [(hread d hd).2.1] at hno
      contradiction
    · exact hquiet
  have hwrq : wr.Quiet := by
    obtain hidle | hquiet := hq wr (by simp)
    · obtain ⟨_, _, hno⟩ := hidle
      rw [hwr.2.2.1] at hno
      contradiction
    · exact hquiet
  refine ⟨pre, held ++ [c], btw, wr, post, rfl, hpre, fun d hd => ⟨hread d hd, hquiet d hd⟩,
    by simp, hbtw, ⟨?_, hwrq⟩, hpost, hrun⟩
  -- the byte was captured in the last read cycle, the configuration not having moved
  have hheld : ((w.mem.dev.run pre).run held).config = (w.mem.dev.run pre).config :=
    Blinker.config_run_of_quiet _ fun d hd =>
      ⟨hquiet d (List.mem_append_left _ hd), reads_not_write (hread d (List.mem_append_left _ hd))⟩
  rwa [Blinker.readdata_of_reads _ (hread c (by simp)), hheld] at hwr

/-! ## The outcome -/

section Outcome

variable {req : Request} {s s' : Blinker} {pre bus btw post before after : List Cycle} {wr : Cycle}

/-- The presses of the toggles between read and write are lost, those after it
count; of the speed none is lost. -/
theorem Placed.config (h : Placed req s s' pre bus btw wr post) :
    s'.config =
      Config.presses
        { (req.target (s.config.presses pre)).exchange with
          speed := btw.foldl speedStep (s.config.presses pre).speed } post := by
  have hpre := s.config_run_of_idle h.before
  have hread : ((s.run pre).run bus).config = (s.run pre).config :=
    Blinker.config_run_of_quiet _ fun c hc => ⟨(h.reads c hc).2, reads_not_write (h.reads c hc).1⟩
  have hbtw := ((s.run pre).run bus).config_run_of_idle h.between
  have hwr := Blinker.config_clk_of_writes (((s.run pre).run bus).run btw) h.writes.1 h.writes.2
  have hpost := ((((s.run pre).run bus).run btw).clk wr).config_run_of_idle h.after
  have hbyte := req.writeConfig_byte (s.run pre).config
  rw [h.run, Blinker.run_append, Blinker.run_append, Blinker.run_append, Blinker.run_cons, hpost,
    hwr, hbtw, hread, ← hpre, ← hbyte]
  rfl

/-- The uninterrupted read-modify-write between `before` and `after`. -/
theorem config_rmw_between (hb : ∀ c ∈ before, c.Idle) (ha : ∀ c ∈ after, c.Idle) :
    (((s.run before).rmw req).run after).config =
      (req.target (s.config.presses before)).exchange.presses after := by
  rw [((s.run before).rmw req).config_run_of_idle ha, Blinker.config_rmw,
    s.config_run_of_idle hb]

/-- The presses of the two toggles, by parity, that have to come after an
uninterrupted read-modify-write for it to have the same outcome: those after
the write, and, for the register that keeps the value read, those that the
write has undone. -/
def Request.Agrees (btw post after : List Cycle) : Request → Prop
  | .setRunning | .clearRunning =>
      odd Cycle.changeMode after = odd Cycle.changeMode post ∧
        odd Cycle.pause after = (odd Cycle.pause post ^^ odd Cycle.changeMode btw)
  | .setMode _ =>
      odd Cycle.pause after = odd Cycle.pause post ∧
        odd Cycle.changeMode after = (odd Cycle.changeMode post ^^ odd Cycle.pause btw)
  | .enaInt | .disInt =>
      odd Cycle.changeMode btw = odd Cycle.pause btw ∧
        (odd Cycle.changeMode after ^^ odd Cycle.pause after) =
          ((odd Cycle.changeMode post ^^ odd Cycle.pause post) ^^ odd Cycle.changeMode btw)

/-- One register written with `k`, the other with the value `u` read before:
`α` presses undone, `(a, b)` after the atomic point, `(qm, qr)` after the
write. -/
theorem xor_written_iff (k u α qm qr a b : Bool) :
    ((u ^^ qr) = ((u ^^ ((α ^^ qm) ^^ a)) ^^ b) ∧ (k ^^ qm) = (k ^^ a)) ↔
      a = qm ∧ b = (qr ^^ α) := by
  revert k u α qm qr a b
  decide

/-- Both registers written with the values `u` and `v` read before. -/
theorem xor_kept_iff (u v α β qm qr a b : Bool) :
    ((u ^^ qr) = ((u ^^ ((α ^^ qm) ^^ a)) ^^ b) ∧ (v ^^ qm) = ((v ^^ ((β ^^ qr) ^^ b)) ^^ a)) ↔
      α = β ∧ (a ^^ b) = ((qm ^^ qr) ^^ α) := by
  revert u v α β qm qr a b
  decide

/-- The toggles up to the atomic point, counted from the read. -/
theorem odd_before {f : Cycle → Bool} (h : before ++ after = pre ++ (btw ++ post)) (x : Bool) :
    (x ^^ odd f before) = ((x ^^ odd f pre) ^^ ((odd f btw ^^ odd f post) ^^ odd f after)) := by
  have hodd := congrArg (odd f) h
  rw [odd_append, odd_append, odd_append] at hodd
  generalize odd f before = o₁, odd f after = o₂, odd f pre = o₃, odd f btw = o₄,
    odd f post = o₅ at hodd ⊢
  revert x o₁ o₂ o₃ o₄ o₅
  decide

/-- The speed buttons do not care where the atomic point is. -/
theorem speed_split (h : before ++ after = pre ++ (btw ++ post)) (v : BitVec 4) :
    post.foldl speedStep (btw.foldl speedStep (pre.foldl speedStep v)) =
      after.foldl speedStep (before.foldl speedStep v) := by
  rw [← List.foldl_append, ← List.foldl_append, ← List.foldl_append, ← h]

/-- **One point of the sequence**: the uninterrupted read-modify-write there
has the outcome of the ioctl exactly when the parities agree. -/
theorem Placed.config_eq_iff (h : Placed req s s' pre bus btw wr post)
    (hsplit : before ++ after = pre ++ (btw ++ post)) :
    s'.config = (((s.run before).rmw req).run after).config ↔ req.Agrees btw post after := by
  have hidle : ∀ c ∈ before ++ after, c.Idle := by
    rw [hsplit, List.forall_mem_append, List.forall_mem_append]
    exact ⟨h.before, h.between, h.after⟩
  obtain ⟨hb, ha⟩ := List.forall_mem_append.mp hidle
  rw [h.config, config_rmw_between hb ha]
  simp only [Config.presses, Config.mk.injEq]
  cases req with
  | setRunning =>
      simp only [Request.target, Config.exchange, odd_before hsplit, speed_split hsplit, and_true]
      exact xor_written_iff ..
  | clearRunning =>
      simp only [Request.target, Config.exchange, odd_before hsplit, speed_split hsplit, and_true]
      exact xor_written_iff ..
  | enaInt =>
      simp only [Request.target, Config.exchange, odd_before hsplit, speed_split hsplit, and_true]
      exact xor_kept_iff ..
  | disInt =>
      simp only [Request.target, Config.exchange, odd_before hsplit, speed_split hsplit, and_true]
      exact xor_kept_iff ..
  | setMode mode =>
      simp only [Request.target, Config.exchange, odd_before hsplit, speed_split hsplit, and_true]
      rw [and_comm]
      exact xor_written_iff ..

end Outcome

/-- **An ioctl against the buttons.**  Of every successful request with no
button in its bus cycles, the outcome is that of an uninterrupted
read-modify-write at some point among the idle cycles before, between and after
its read and its write exactly when at some point the presses of the toggles
still to come agree with those after the write, corrected by those between. -/
theorem rmw_atomic_iff (w w' : Shared Mem) (req : Request) (arg : BitVec 32)
    (os : List DriverOp) (cs : List Cycle)
    (hx : Exec machine w (blinkerDevIoctl req.cmd arg) os cs 0 w') (hd : req.Delivered os)
    (hq : ∀ c ∈ cs, c.Idle ∨ c.Quiet) :
    ∃ pre bus btw wr post, cs = pre ++ (bus ++ (btw ++ wr :: post)) ∧
      Placed req w.mem.dev w'.mem.dev pre bus btw wr post ∧
      ((∃ before after, before ++ after = pre ++ (btw ++ post) ∧
          w'.mem.dev.config = (((w.mem.dev.run before).rmw req).run after).config) ↔
        ∃ before after, before ++ after = pre ++ (btw ++ post) ∧ req.Agrees btw post after) := by
  obtain ⟨pre, bus, btw, wr, post, hcs, h⟩ := placed_of_exec hx hd hq
  refine ⟨pre, bus, btw, wr, post, hcs, h, ?_⟩
  exact exists₂_congr fun before after => and_congr_right fun hsplit => h.config_eq_iff hsplit

/-! ### A press between read and write -/

/-- `IOC_SET_RUNNING` with one idle cycle between its read and its write. -/
theorem exists_exec_pressed (s : Blinker) (c : Cycle) (hc : c.Idle) :
    ∃ os w', Exec machine (probed s) (blinkerDevIoctl .setRunning 0) os
        [readCycle true, c, writeCycle true (setRunningByte s.stateByte)] 0 w' ∧
      w'.mem.dev = s.run [readCycle true, c, writeCycle true (setRunningByte s.stateByte)] := by
  have htake : (blinkerDevIoctl .setRunning 0).Takes (.down false)
      (.io (A := io) (.incr .ioctlCount) fun _ => .lock (.io (A := io) (.ioread8 true) fun x =>
        .io (A := io) (.iowrite8 (setRunningByte x) true) fun _ => .unlock (.up (.ret 0)))) :=
    .down _ false
  have hread : s.Serves (.read true s.stateByte) [readCycle true] :=
    ⟨[], readCycle true, rfl, by decide, rfl⟩
  have hwrite : ((s.clk (readCycle true)).clk c).Serves
      (.write true (setRunningByte s.stateByte)) [writeCycle true (setRunningByte s.stateByte)] :=
    ⟨_, rfl, rfl, rfl, rfl, rfl, rfl⟩
  refine ⟨_, _, .op_nil htake (.down _ Nat.one_pos)
    (.op_nil (.io (A := io) (.incr .ioctlCount) _ ()) (.io _ _ _ _ _ ⟨rfl, rfl⟩)
    (.op_nil (.lock _) (.lock _ rfl)
    (.op_one (.io (A := io) (.ioread8 true) _ s.stateByte) (.io _ _ _ _ _ ⟨hread, rfl⟩)
    (.tick _ ⟨hc, rfl⟩
    (.op_one (.io (A := io) (.iowrite8 (setRunningByte s.stateByte) true) _ ())
      (.io _ _ _ _ _ ⟨hwrite, rfl⟩)
    (.op_nil (.unlock _) (.unlock _) (.op_nil (.up _) (.up _) (.ret _ _)))))))), ?_⟩
  rfl

/-- The change-mode button alone. -/
def changeModeCycle : Cycle := { buttons := 0b1000 }

/-- A press of change-mode between the read and the write of `IOC_SET_RUNNING`,
from the reset state, is undone: at no point among the button cycles does the
uninterrupted read-modify-write have this outcome. -/
theorem press_undone :
    ∃ os w', Exec machine (probed .reset) (blinkerDevIoctl .setRunning 0) os
        [readCycle true, changeModeCycle, writeCycle true (setRunningByte Blinker.reset.stateByte)]
        0 w' ∧
      Request.setRunning.Delivered os ∧ w'.mem.dev.config = Blinker.reset.config ∧
      ∀ before after, before ++ after = [changeModeCycle] →
        w'.mem.dev.config ≠ (((Blinker.reset.run before).rmw .setRunning).run after).config := by
  obtain ⟨os, w', hx, hdev⟩ := exists_exec_pressed .reset changeModeCycle (by decide)
  have hcfg : w'.mem.dev.config = Blinker.reset.config := by
    rw [hdev]
    decide
  refine ⟨os, w', hx, by simp [Request.Delivered], hcfg, fun before after h => ?_⟩
  rw [hcfg]
  obtain ⟨rfl, rfl⟩ | ⟨rfl, rfl⟩ := List.append_eq_singleton_iff.mp h
  · decide
  · decide

theorem odd_eq_false {f : Cycle → Bool} {cs : List Cycle} (h : ∀ c ∈ cs, f c = false) :
    odd f cs = false := by
  induction cs with
  | nil => rfl
  | cons c cs ih =>
      rw [List.forall_mem_cons] at h
      rw [odd_cons, h.1, ih h.2]
      rfl

/-- A press of faster there is not: the outcome is that of an uninterrupted
read-modify-write. -/
theorem faster_press_kept :
    ∃ os cs w', Exec machine (probed .reset) (blinkerDevIoctl .setRunning 0) os cs 0 w' ∧
      w'.mem.dev.speed = 9 ∧ ∃ before after : List Cycle,
        w'.mem.dev.config = (((Blinker.reset.run before).rmw .setRunning).run after).config := by
  obtain ⟨os, w', hx, hdev⟩ := exists_exec_pressed .reset { buttons := 0b0001 } (by decide)
  obtain ⟨pre, bus, btw, wr, post, hcs, _, hiff⟩ :=
    rmw_atomic_iff (probed .reset) w' .setRunning 0 os _ hx (by simp [Request.Delivered]) (by decide)
  have hnone : ∀ c ∈ btw, c.changeMode = false := by
    intro c hc
    have hmem : c ∈ pre ++ (bus ++ (btw ++ wr :: post)) := by simp [hc]
    rw [← hcs] at hmem
    simp only [List.mem_cons, List.not_mem_nil, or_false] at hmem
    obtain rfl | rfl | rfl := hmem
    · decide
    · decide
    · decide
  obtain ⟨before, after, _, heq⟩ := hiff.mpr ⟨pre ++ btw, post, by simp, rfl,
    by simp [odd_eq_false hnone]⟩
  refine ⟨os, _, w', hx, ?_, before, after, heq⟩
  rw [hdev]
  decide

end De1Soc
