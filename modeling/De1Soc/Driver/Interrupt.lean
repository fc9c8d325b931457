import De1Soc.Blinker.Latch
import De1Soc.Driver.Config
import De1Soc.Driver.Reader

/-!
# De1Soc.Driver.Interrupt

Who acknowledges an interrupt.

A bus read of STATE clears `irq` unless a button is active with the interrupt
enabled in that cycle.  The handler reads STATE to that end; the configuration
ioctls, `IOC_GET_CONFIG` and `blinker_dev_read` read it for its contents and
clear a pending interrupt on the way (`ioctl_acknowledges`).  The interrupt
falls through the handler alone exactly as long as none of their STATE reads
finds it pending; along such a run every fall is counted and flagged before
the handler leaves its critical section, and a press reaches a process that
sleeps in `blinker_dev_read` (`irq_acknowledged_by_handler`).
-/

namespace De1Soc

open Kernel

/-! ## STATE reads in a run -/

section Runs

variable {P : Type} {dev : Blinker} {tr new old : List (DriverEvent P)} {s s' : DriverState P}
  {l : DriverLabel P} {e : DriverEvent P}

/-- The interrupt is acknowledged: `irq` falls in the event. -/
def Acknowledges (e : DriverEvent P) : Prop := e.pre.mem.dev.Falls e.label.ticks

/-- The STATE read of the handler. -/
def HandlerReads (e : DriverEvent P) : Prop :=
  ∃ x ts, e.label = .step .irq (.io (.ioread8 ioaddrBlinkerState) x) ts

/-- A process reads STATE and finds an interrupt pending. -/
def TakesPending (e : DriverEvent P) : Prop :=
  (∃ p o x ts, e.label = .step (.proc p) o ts ∧ access? o = some (.read ioaddrBlinkerState x)) ∧
    e.pre.mem.dev.FindsPending e.label.ticks

variable [DecidableEq P]

/-- A STATE read reads STATE in all its cycles. -/
theorem reads_of_does {o : DriverOp} {w w' : Shared Mem} {cs : List Cycle} {x : BitVec 8}
    (hd : Does machine o w cs w') (ho : access? o = some (.read ioaddrBlinkerState x)) :
    ∀ c ∈ cs, c.Reads true := by
  obtain ⟨⟨_, _, _, hread, _⟩, _⟩ := dev_of_does_some hd ho
  exact hread

/-- Any other operation reads STATE in none. -/
theorem not_readsState_of_does {o : DriverOp} {w w' : Shared Mem} {cs : List Cycle}
    (hd : Does machine o w cs w') (ho : ∀ x, access? o ≠ some (.read ioaddrBlinkerState x)) :
    ∀ c ∈ cs, c.reset = false ∧ c.readsState = false := by
  cases hacc : access? o with
  | none =>
      obtain ⟨rfl, _⟩ := dev_of_does_none hd hacc
      simp
  | some a =>
      obtain ⟨hserve, _⟩ := dev_of_does_some hd hacc
      cases a with
      | read address x =>
          obtain ⟨held, c, _, hread, _⟩ := hserve
          cases address with
          | true => exact absurd hacc (ho x)
          | false =>
              intro c hc
              obtain ⟨hreset, _, _, haddr⟩ := hread c hc
              simp [hreset, Cycle.readsState, haddr]
      | write address b =>
          obtain ⟨c, rfl, hreset, hread, _⟩ := hserve
          simp [hreset, Cycle.readsState, hread]

/-- A step is a STATE read, or none of its cycles reads STATE. -/
theorem reads_of_step {calls : Call → Prop} (hs : Step (driver P calls) s l s') :
    (∃ t o x ts, l = .step t o ts ∧ access? o = some (.read ioaddrBlinkerState x) ∧
      ∀ c ∈ ts, c.Reads true) ∨
    (∀ t o x ts, l = .step t o ts → access? o ≠ some (.read ioaddrBlinkerState x)) ∧
      ∀ c ∈ l.ticks, c.reset = false ∧ c.readsState = false := by
  cases hs with
  | tick c m h =>
      obtain ⟨⟨hreset, hread, _⟩, _⟩ := h
      right
      simp [Label.ticks, hreset, Cycle.readsState, hread]
  | start t c => exact .inr (by simp [Label.ticks])
  | ret t c ops r => exact .inr (by simp [Label.ticks])
  | step t c ops p p' o ts w hrun ht hd =>
      by_cases ho : ∃ x, access? o = some (.read ioaddrBlinkerState x)
      · obtain ⟨x, hx⟩ := ho
        exact .inl ⟨t, o, x, ts, rfl, hx, reads_of_does hd hx⟩
      · have ho' : ∀ x, access? o ≠ some (.read ioaddrBlinkerState x) := not_exists.mp ho
        refine .inr ⟨?_, not_readsState_of_does hd ho'⟩
        rintro _ _ x _ ⟨⟩
        exact ho' x

/-- The handler reads STATE with `ioread8`. -/
theorem ioread8_of_irq (hr : Run (driver P Call.FileOp) (initial P dev) tr s) {o : DriverOp}
    {x : BitVec 8} {ts : List Cycle} (hs : Step (driver P Call.FileOp) s (.step .irq o ts) s')
    (ho : access? o = some (.read ioaddrBlinkerState x)) :
    o = .io (.ioread8 ioaddrBlinkerState) x := by
  obtain ⟨th, ht, hok⟩ := flagRule_of_step hr hs
  cases o with
  | io a y =>
      cases a with
      | ioread8 address =>
          obtain ⟨rfl, rfl⟩ : address = ioaddrBlinkerState ∧ y = x := by simpa using ho
          rfl
      | memcpyFromio address =>
          have hread : th.call.IsRead := hok
          rw [call_of_irq hr ht] at hread
          exact hread.elim
      | _ => simp at ho
  | _ => simp at ho

/-- **One event**: what it acknowledges it acknowledges as the handler,
exactly when it is no STATE read of a process that finds an interrupt. -/
theorem acknowledges_iff (hr : Run (driver P Call.FileOp) (initial P dev) tr s)
    (hs : Step (driver P Call.FileOp) s l s') :
    (Acknowledges ⟨s, l, s'⟩ → HandlerReads ⟨s, l, s'⟩) ↔ ¬ TakesPending ⟨s, l, s'⟩ := by
  obtain ⟨t, o, x, ts, rfl, hacc, hread⟩ | ⟨hother, hno⟩ := reads_of_step hs
  · have hfalls := Blinker.falls_iff_findsPending (s := s.mem.dev) hread
    cases t with
    | irq =>
        obtain rfl := ioread8_of_irq hr hs hacc
        refine iff_of_true (fun _ => ⟨x, ts, rfl⟩) ?_
        rintro ⟨⟨p, _, _, _, hl, _⟩, _⟩
        cases hl
    | proc p =>
        have hproc : ¬ HandlerReads ⟨s, .step (.proc p) o ts, s'⟩ := by
          rintro ⟨_, _, hl⟩
          cases hl
        constructor
        · rintro h ⟨_, hfinds⟩
          exact hproc (h (hfalls.mpr hfinds))
        · intro h hack
          exact absurd ⟨⟨p, o, x, ts, rfl, hacc⟩, hfalls.mp hack⟩ h
  · refine iff_of_true (fun h => absurd h (Blinker.not_falls_of_not_readsState hno)) ?_
    rintro ⟨⟨p, o, x, ts, hl, hacc⟩, _⟩
    exact hother _ o x ts hl hacc

theorem run_obeys_locking (hr : Run (driver P Call.FileOp) (initial P dev) tr s) :
    s.Obeys fun _ => locking :=
  hr.obeys (fun _ _ c _ => c.code_obeys_locking) (initial_idle dev)

/-! ## Every acknowledgement is noted -/

/-- The handler counts the interrupt. -/
def Counts (e : DriverEvent P) : Prop := ∃ ts, e.label = .step .irq (.io .incrIrqCount ()) ts

/-- The handler sets the flag. -/
def Flags (e : DriverEvent P) : Prop :=
  ∃ ts, e.label = .step .irq (.io (.setInterruptFlag true) ()) ts

end Runs

/-- The handler reads STATE under the lock before it counts and flags, and
releases the lock after both. -/
def ackRule (c : Call) : Rule user io Int where
  ok ops o := c = .interrupt →
    match o with
    | .unlock => .io .incrIrqCount () ∈ ops ∧ .io (.setInterruptFlag true) () ∈ ops
    | .io (.ioread8 address) _ => address = ioaddrBlinkerState →
        lockCount ops = 1 ∧ .io .incrIrqCount () ∉ ops ∧ .io (.setInterruptFlag true) () ∉ ops
    | _ => True
  fin _ _ := True

theorem Call.code_obeys_ackRule (c : Call) : c.code.Obeys (ackRule c) [] := by
  by_cases hc : c = .interrupt
  · subst hc
    simp [Call.code, blinkerDriverInterruptHandler, ackRule, lockCount]
  · exact Prog.obeys_of_forall (fun _ _ h => absurd h hc) (fun _ _ => trivial) _ _

section Runs

variable {P : Type} [DecidableEq P] {dev : Blinker} {tr new old : List (DriverEvent P)}
  {s s' : DriverState P} {l : DriverLabel P} {e : DriverEvent P}

/-- The rule at a step of the handler. -/
theorem ackRule_of_step (hr : Run (driver P Call.FileOp) (initial P dev) tr s) {o : DriverOp}
    {ts : List Cycle} (hs : Step (driver P Call.FileOp) s (.step .irq o ts) s') :
    ∃ th q, s.thread .irq = some th ∧ s'.thread .irq = some ⟨th.call, o :: th.ops, q⟩ ∧
      th.call = .interrupt ∧ (ackRule .interrupt).ok th.ops o := by
  obtain ⟨c, ops, q, q', hrun, ht, _, hpost⟩ := hs.step_inv
  have hob := hr.obeys (fun _ _ c _ => c.code_obeys_ackRule) (initial_idle dev)
  have hcall : c = .interrupt := call_of_irq hr hrun
  subst hcall
  exact ⟨_, q', hrun, by rw [hpost, Function.update_self], rfl, ((hob _ _ hrun).takes ht).1⟩

/-- The handler has counted and flagged since, or is still in its critical
section; what it has done there it has done since. -/
def Noted (new : List (DriverEvent P)) (s : DriverState P) : Prop :=
  ((∃ d ∈ new, Counts d) ∧ ∃ d ∈ new, Flags d) ∨
    s.HoldsLock .irq ∧ ∀ th, s.thread .irq = some th →
      (.io .incrIrqCount () ∈ th.ops → ∃ d ∈ new, Counts d) ∧
        (.io (.setInterruptFlag true) () ∈ th.ops → ∃ d ∈ new, Flags d)

theorem noted_of_handlerReads (hr : Run (driver P Call.FileOp) (initial P dev) tr s)
    (hs : Step (driver P Call.FileOp) s l s') (h : HandlerReads ⟨s, l, s'⟩) : Noted [] s' := by
  obtain ⟨x, ts, rfl⟩ := h
  obtain ⟨th, q, hth, hth', hcall, hok⟩ := ackRule_of_step hr hs
  obtain ⟨hlock, hcount, hflag⟩ := hok rfl rfl
  refine .inr ⟨⟨_, hth', hlock⟩, fun th'' hth'' => ?_⟩
  obtain rfl := Option.some.inj (hth'.symm.trans hth'')
  simp [hcount, hflag]

theorem Noted.step {mid : List (DriverEvent P)}
    (hr : Run (driver P Call.FileOp) (initial P dev) tr s)
    (hs : Step (driver P Call.FileOp) s l s') (h : Noted mid s) :
    Noted (⟨s, l, s'⟩ :: mid) s' := by
  obtain ⟨hcount, hflag⟩ | ⟨hlock, hdone⟩ := h
  · exact .inl ⟨List.exists_mem_cons_of_exists hcount, List.exists_mem_cons_of_exists hflag⟩
  · obtain hlock' | ⟨ts, rfl⟩ := hs.holdsLock (run_obeys_locking hr) hlock
    · refine .inr ⟨hlock', fun th hth => ?_⟩
      obtain hold | ⟨c, _, _, rfl⟩ | ⟨ops, q, o, ts, rfl, hrun, hops, _⟩ := hs.thread_cases hth
      · obtain ⟨hc, hf⟩ := hdone th hold
        constructor
        · intro hmem
          exact List.exists_mem_cons_of_exists (hc hmem)
        · intro hmem
          exact List.exists_mem_cons_of_exists (hf hmem)
      · simp
      · obtain ⟨hc, hf⟩ := hdone _ hrun
        rw [hops]
        constructor
        · intro hmem
          obtain rfl | hmem := List.mem_cons.mp hmem
          · exact List.exists_mem_cons_of mid ⟨ts, rfl⟩
          · exact List.exists_mem_cons_of_exists (hc hmem)
        · intro hmem
          obtain rfl | hmem := List.mem_cons.mp hmem
          · exact List.exists_mem_cons_of mid ⟨ts, rfl⟩
          · exact List.exists_mem_cons_of_exists (hf hmem)
    · -- the handler releases the lock, so it has counted and flagged
      obtain ⟨th, q, hth, _, _, hok⟩ := ackRule_of_step hr hs
      obtain ⟨hcount, hflag⟩ := hok rfl
      obtain ⟨hc, hf⟩ := hdone th hth
      exact .inl ⟨List.exists_mem_cons_of_exists (hc hcount),
        List.exists_mem_cons_of_exists (hf hflag)⟩

/-- **What the handler acknowledges it has noted when it leaves its critical
section.** -/
theorem noted_of_run (hr : Run (driver P Call.FileOp) (initial P dev) (new ++ e :: old) s)
    (h : HandlerReads e) : Noted new s := by
  obtain ⟨hold, hs⟩ := hr.split rfl
  exact hr.since Noted (noted_of_handlerReads hold hs h)
    fun mid _ _ _ hmid hs _ hnoted => hnoted.step hmid hs

/-! ## No press is lost to a sleeping reader -/

/-- The interrupt is pending, the handler is in its critical section, or the
flag is up. -/
def OnItsWay (s : DriverState P) : Prop :=
  s.mem.dev.irq = true ∨ s.HoldsLock .irq ∨ s.mem.interruptFlag = true

theorem reset_of_step (hs : Step (driver P Call.FileOp) s l s') :
    ∀ c ∈ l.ticks, c.reset = false := by
  intro c hc
  obtain ⟨t, o, x, ts, rfl, _, hread⟩ | ⟨_, hno⟩ := reads_of_step hs
  · exact (hread c hc).1
  · exact (hno c hc).1

/-- An interrupt that the handler alone acknowledges is under way when it
falls. -/
theorem onItsWay_of_acknowledges (hr : Run (driver P Call.FileOp) (initial P dev) tr s)
    (hs : Step (driver P Call.FileOp) s l s') (hno : ¬ TakesPending ⟨s, l, s'⟩)
    (h : Acknowledges ⟨s, l, s'⟩) : OnItsWay s' := by
  have hread := (acknowledges_iff hr hs).mpr hno h
  obtain ⟨⟨_, ⟨⟩, _⟩, _⟩ | ⟨hlock, _⟩ := noted_of_handlerReads hr hs hread
  exact .inr (.inl hlock)

theorem onItsWay_of_press (hr : Run (driver P Call.FileOp) (initial P dev) tr s)
    (hs : Step (driver P Call.FileOp) s l s') (hno : ¬ TakesPending ⟨s, l, s'⟩)
    (h : s.mem.dev.Pressed l.ticks) : OnItsWay s' := by
  by_cases hack : Acknowledges ⟨s, l, s'⟩
  · exact onItsWay_of_acknowledges hr hs hno hack
  · left
    rw [dev_of_step hs]
    exact Blinker.irq_of_pressed (reset_of_step hs) h hack

/-- While a process sleeps, nothing on its way to it is lost. -/
theorem OnItsWay.step (hr : Run (driver P Call.FileOp) (initial P dev) tr s)
    (hs : Step (driver P Call.FileOp) s l s') (hno : ¬ TakesPending ⟨s, l, s'⟩) {p : P}
    (hp : Asleep s p) (h : OnItsWay s) : OnItsWay s' := by
  obtain hirq | hlock | hflag := h
  · cases hirq' : s'.mem.dev.irq with
    | true => exact .inl hirq'
    | false =>
        rw [dev_of_step hs] at hirq'
        exact onItsWay_of_acknowledges hr hs hno (Blinker.falls_of_run hirq hirq')
  · obtain hlock' | ⟨ts, rfl⟩ := hs.holdsLock (run_obeys_locking hr) hlock
    · exact .inr (.inl hlock')
    · have hup := flag_of_handler_unlock hr hs
      exact .inr (.inr (flag_of_asleep hr hs hp hup))
  · exact .inr (.inr (flag_of_asleep hr hs hp hflag))

/-- A process that has made no step since sleeps as it did. -/
theorem asleep_of_step (hs : Step (driver P Call.FileOp) s l s') {p : P}
    (hl : l.thread? ≠ some (.proc p)) (h : Asleep s' p) : Asleep s p := by
  obtain ⟨th, k, ht, hrest⟩ := h
  exact ⟨th, k, (hs.thread_of_ne hl).symm.trans ht, hrest⟩

/-- **A press reaches a sleeping reader**, where no process takes a pending
interrupt. -/
theorem onItsWay_of_run (hr : Run (driver P Call.FileOp) (initial P dev) (new ++ e :: old) s)
    (hno : ∀ d ∈ new ++ e :: old, ¬ TakesPending d) (h : e.pre.mem.dev.Pressed e.label.ticks)
    {p : P} (hp : Asleep s p) (hstill : ∀ d ∈ new, d.label.thread? ≠ some (.proc p)) :
    OnItsWay s := by
  obtain ⟨hold, hs⟩ := hr.split rfl
  have hfirst := onItsWay_of_press hold hs (hno e (by simp)) h
  -- carried along: the process, if it sleeps at the end, sleeps all the time
  refine hr.since (fun _ s => Asleep s p → OnItsWay s) (fun _ => hfirst) ?_ hp
  intro mid s l s' hmid hs hmem ih hp'
  have hp := asleep_of_step hs (hstill _ hmem) hp'
  exact (ih hp).step hmid hs (hno _ (List.mem_append_left _ hmem)) hp

end Runs

/-- **Who acknowledges an interrupt.**  In every run the line falls through
the handler's STATE read alone exactly when no STATE read of a process finds
an interrupt pending; and then every fall is counted and flagged by the time
the handler leaves its critical section, and an enabled press during the sleep
of a reader is on its way to it. -/
theorem irq_acknowledged_by_handler (P : Type) [DecidableEq P] (dev : Blinker)
    (tr : List (DriverEvent P)) (s : DriverState P)
    (hr : Run (driver P Call.FileOp) (initial P dev) tr s) :
    ((∀ e ∈ tr, Acknowledges e → HandlerReads e) ↔ ∀ e ∈ tr, ¬ TakesPending e) ∧
    ((∀ e ∈ tr, ¬ TakesPending e) →
      (∀ new e old, tr = new ++ e :: old → Acknowledges e →
        ((∃ d ∈ new, Counts d) ∧ ∃ d ∈ new, Flags d) ∨ s.HoldsLock .irq) ∧
      ∀ new e old p, tr = new ++ e :: old → e.pre.mem.dev.Pressed e.label.ticks → Asleep s p →
        (∀ d ∈ new, d.label.thread? ≠ some (.proc p)) →
        s.mem.dev.irq = true ∨ s.HoldsLock .irq ∨ s.mem.interruptFlag = true) := by
  have hevent : ∀ e ∈ tr, (Acknowledges e → HandlerReads e) ↔ ¬ TakesPending e := by
    intro e he
    obtain ⟨old, hold, hs⟩ := hr.of_mem he
    exact acknowledges_iff hold hs
  refine ⟨forall₂_congr hevent, fun hno => ⟨?_, ?_⟩⟩
  · rintro new e old rfl hack
    have he : e ∈ new ++ e :: old := by simp
    obtain h | ⟨hlock, _⟩ := noted_of_run hr ((hevent e he).mpr (hno e he) hack)
    · exact .inl h
    · exact .inr hlock
  · rintro new e old p rfl hpress hp hstill
    exact onItsWay_of_run hr hno hpress hp hstill

/-! ### An ioctl that takes an interrupt -/

/-- Between a state with `irq` up and a later one with `irq` down some event
acknowledges. -/
theorem exists_acknowledges {P : Type} [DecidableEq P] {dev : Blinker}
    {new tr : List (DriverEvent P)} {s s' : DriverState P}
    (hr : Run (driver P Call.FileOp) (initial P dev) tr s) (h : s.mem.dev.irq = true)
    (hr' : Run (driver P Call.FileOp) (initial P dev) (new ++ tr) s')
    (h' : s'.mem.dev.irq = false) : ∃ e ∈ new, Acknowledges e := by
  induction new generalizing s' with
  | nil =>
      obtain rfl := hr.unique hr'
      rw [h] at h'
      contradiction
  | cons d new ih =>
      cases hr' with
      | @cons _ s₁ _ l hr₁ hs =>
          cases hmid : s₁.mem.dev.irq with
          | true =>
              rw [dev_of_step hs] at h'
              exact ⟨_, List.mem_cons_self .., Blinker.falls_of_run hmid h'⟩
          | false =>
              obtain ⟨e, he, hack⟩ := ih hr₁ hmid
              exact ⟨e, List.mem_cons_of_mem _ he, hack⟩

/-- The faster button alone. -/
def fasterCycle : Cycle := { buttons := 0b0001 }

/-- One process enables the interrupt from the reset state, and a button is
pressed: the interrupt is pending and nothing has noted it yet. -/
theorem exists_run_pressed :
    ∃ (tr : List (DriverEvent Unit)) (s : DriverState Unit),
      Run (driver Unit Call.FileOp) (initial Unit .reset) tr s ∧ s.Idle ∧ s.sem = 1 ∧
        s.lock = false ∧ s.mem.irqCount = 0 ∧ s.mem.interruptFlag = false ∧
        s.mem.dev.irq = true := by
  obtain ⟨os, cs, w, hx, hos, hd, hq, hsem, hlock, hcount, hflag, _⟩ :=
    exists_exec_request .enaInt (probed .reset) rfl rfl
  have hena : w.mem.dev.enaIrq = true := by
    have hcfg := config_after_request hx hd hq
    exact congrArg Config.enaIrq hcfg
  have hnil : Run (driver Unit Call.FileOp) (initial Unit .reset) _ _ := .nil
  obtain ⟨new, hr, _⟩ := hnil.exec (.proc ()) (.devIoctl .enaInt 0) rfl trivial hx hos
  have hpress := hr.cons (.tick _ fasterCycle _ ⟨by decide, rfl⟩)
  refine ⟨_, _, hpress, fun _ => rfl, hsem, hlock, hcount, hflag, ?_⟩
  exact Blinker.irq_clk_of_raises rfl ⟨by decide, hena⟩

/-- The press is then taken by an `IOC_SET_RUNNING`: `irq` falls in an event
that is not the handler's, and the run ends with no interrupt pending, none
counted and the flag down. -/
theorem ioctl_acknowledges :
    ∃ (tr : List (DriverEvent Unit)) (s : DriverState Unit),
      Run (driver Unit Call.FileOp) (initial Unit .reset) tr s ∧
        (∃ e ∈ tr, Acknowledges e ∧ ¬ HandlerReads e) ∧ s.mem.dev.irq = false ∧
        s.mem.irqCount = 0 ∧ s.mem.interruptFlag = false := by
  obtain ⟨tr, s, hr, hidle, hsem, hlock, hcount, hflag, hirq⟩ := exists_run_pressed
  obtain ⟨os, cs, w, hx, hos, _, _, _, _, hcount', hflag', hirq'⟩ :=
    exists_exec_request .setRunning s.toShared hsem hlock
  obtain ⟨new, hr', ⟨hthread, _⟩, _⟩ :=
    hr.exec (.proc ()) (.devIoctl .setRunning 0) (hidle _) trivial hx hos
  obtain ⟨e, he, hack⟩ := exists_acknowledges hr hirq hr' hirq'
  refine ⟨_, _, hr', ⟨e, List.mem_append_left _ he, hack, ?_⟩, hirq', hcount'.trans hcount,
    hflag'.trans hflag⟩
  rintro ⟨x, ts, hl⟩
  have hmine := hthread e he
  rw [hl] at hmine
  simp [Label.thread?] at hmine

/-- The press, taken by the handler instead: the run has no other
acknowledgement, and it ends with the interrupt counted and the flag up. -/
theorem handler_acknowledges :
    ∃ (tr : List (DriverEvent Unit)) (s : DriverState Unit),
      Run (driver Unit Call.FileOp)
        (initial Unit { Blinker.reset with irq := true, enaIrq := true }) tr s ∧
        (∀ e ∈ tr, Acknowledges e → HandlerReads e) ∧ s.mem.irqCount = 1 ∧
        s.mem.interruptFlag = true := by
  obtain ⟨os, cs, w, hx, hos, hcount, hflag, _, _⟩ :=
    exists_exec_handler (probed { Blinker.reset with irq := true, enaIrq := true }) rfl
  have hnil : Run (driver Unit Call.FileOp)
      (initial Unit { Blinker.reset with irq := true, enaIrq := true }) _ _ := .nil
  obtain ⟨new, hr, ⟨hthread, _⟩, _⟩ := hnil.exec .irq .interrupt rfl ⟨rfl, rfl⟩ hx hos
  refine ⟨_, _, hr, (irq_acknowledged_by_handler Unit _ _ _ hr).1.mpr ?_,
    hcount.trans (by rfl), hflag⟩
  rintro e he ⟨⟨p, o, x, ts, hl, _⟩, _⟩
  have hmine := hthread e (by simpa using he)
  rw [hl] at hmine
  simp [Label.thread?] at hmine

end De1Soc
