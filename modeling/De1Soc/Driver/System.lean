import De1Soc.Driver.Machine
import De1Soc.Kernel.Locks
import De1Soc.Kernel.WaitQueue

/-!
# De1Soc.Driver.System

The driver as a system of processes and the interrupt.

Any number of processes (`P` is arbitrary) make calls; the handler may begin
whenever the device raises `irq`.  Between the operations of all of them the
clock runs, and with it the buttons.  The initial state is the one that
`blinker_probe` leaves, with the device in any state.

Every path of the driver obeys the locking rule (`Call.code_obeys_locking`):
each of its exits releases what that path has taken, once.  The semaphore and
`g_irq_lock` are therefore conserved in every run (`locks_conserved`).
-/

namespace De1Soc

open Kernel

/-- Who runs a path: the interrupt, or a process. -/
inductive Tid (P : Type)
  | irq
  | proc (p : P)
deriving DecidableEq

/-- The states, steps and events of the driver. -/
abbrev DriverState (P : Type) := State user io Mem (Tid P) Call Int
abbrev DriverLabel (P : Type) := Label user io Cycle (Tid P) Call Int
abbrev DriverEvent (P : Type) := Event user io Mem Cycle (Tid P) Call Int
abbrev DriverTurn (P : Type) := Turn user io Mem Cycle (Tid P) Call Int

/-- The driver with processes that make the calls in `calls`. -/
def driver (P : Type) (calls : Call → Prop) : System user io Mem Cycle (Tid P) Call Int where
  toMachine := machine
  code := Call.code
  entry
    | .irq, m, c => c = .interrupt ∧ m.dev.irq = true
    | .proc _, _, c => calls c

/-- The state after `blinker_probe`. -/
def initial (P : Type) (dev : Blinker) : DriverState P :=
  { probed dev with thread := fun _ => none }

/-- The entries of `blinker_dev_fops`. -/
def Call.FileOp : Call → Prop
  | .devOpen | .devRelease | .devIoctl _ _ | .devRead _ _ | .devWrite _ _ => True
  | .storeConfig _ _ | .interrupt => False

theorem initial_idle {P : Type} (dev : Blinker) : (initial P dev).Idle := fun _ => rfl

/-- A process begins one of its calls, the interrupt the handler. -/
theorem entry_cases {P : Type} {calls : Call → Prop} {t : Tid P} {m : Mem} {c : Call}
    (h : (driver P calls).entry t m c) : calls c ∨ c = .interrupt := by
  cases t with
  | irq => exact .inr h.1
  | proc p => exact .inl h

/-! ## What a step does to the device and the flag -/

/-- What a step assigns to the interrupt flag. -/
def flagSet? {P : Type} : DriverLabel P → Option Bool
  | .step _ (.io (.setInterruptFlag b) _) _ => some b
  | _ => none

section Steps

variable {P : Type} {calls : Call → Prop} {s s' : DriverState P} {l : DriverLabel P}

theorem label_of_flagSet? {b : Bool} (h : flagSet? l = some b) :
    ∃ t ts, l = .step t (.io (.setInterruptFlag b) ()) ts := by
  unfold flagSet? at h
  split at h
  · obtain rfl := Option.some.inj h
    exact ⟨_, _, rfl⟩
  · contradiction

variable [DecidableEq P]

/-- Every step moves the device along its own cycles. -/
theorem dev_of_step (hs : Step (driver P calls) s l s') :
    s'.mem.dev = s.mem.dev.run l.ticks := by
  cases hs with
  | tick c m h =>
      obtain ⟨_, rfl⟩ := h
      rfl
  | start t c => rfl
  | step t c ops p p' o ts w hrun ht hd => exact dev_of_does hd
  | ret t c ops r => rfl

/-- The flag moves by assignment only. -/
theorem flag_of_step (hs : Step (driver P calls) s l s') :
    s'.mem.interruptFlag = (flagSet? l).getD s.mem.interruptFlag := by
  cases hs with
  | tick c m h =>
      obtain ⟨_, rfl⟩ := h
      rfl
  | start t c => rfl
  | step t c ops p p' o ts w hrun ht hd =>
      have hflag := interruptFlag_of_does hd
      cases o with
      | io a x => cases a <;> exact hflag
      | _ => exact hflag
  | ret t c ops r => rfl

/-- The interrupt enable moves by CONFIG writes only. -/
theorem enaIrq_of_step (hs : Step (driver P calls) s l s')
    (hl : ∀ t o ts b, l = .step t o ts → access? o ≠ some (.write true b)) :
    s'.mem.dev.enaIrq = s.mem.dev.enaIrq := by
  cases hs with
  | tick c m h =>
      obtain ⟨⟨hreset, _, hwrite⟩, rfl⟩ := h
      have hc : ∀ d ∈ [c], d.reset = false ∧ d.writesConfig = false := by
        simp [hreset, Cycle.writesConfig, hwrite]
      exact s.mem.dev.enaIrq_run_of_not_writesConfig hc
  | start t c => rfl
  | step t c ops p p' o ts w hrun ht hd => exact enaIrq_of_does hd fun b => hl t o ts b rfl
  | ret t c ops r => rfl

end Steps

/-! ## Every path keeps to the locking rule -/

theorem Call.code_obeys_locking (c : Call) : c.code.Obeys locking [] := by
  cases c with
  | devOpen => simp [Call.code, blinkerDevOpen, locking, semCount, lockCount]
  | devRelease => simp [Call.code, blinkerDevRelease, locking, semCount, lockCount]
  | devIoctl cmd arg =>
      cases cmd <;>
        simp [Call.code, blinkerDevIoctl, locking, semCount, lockCount, Option.forall]
  | devRead userBuffer count => simp [Call.code, blinkerDevRead, locking, semCount, lockCount]
  | devWrite userBuffer count =>
      simp [Call.code, blinkerDevWrite, locking, semCount, lockCount, Option.forall]
  | storeConfig data result => simp [Call.code, configStore, locking, semCount, lockCount]
  | interrupt => simp [Call.code, blinkerDriverInterruptHandler, locking, semCount, lockCount]

/-- The handler leaves the semaphore alone. -/
def handlerRule (c : Call) : Rule user io Int where
  ok ops o := c = .interrupt → semCount (o :: ops) = semCount ops
  fin _ _ := True

theorem Call.code_obeys_handlerRule (c : Call) : c.code.Obeys (handlerRule c) [] := by
  by_cases hc : c = .interrupt
  · subst hc
    simp [Call.code, blinkerDriverInterruptHandler, handlerRule, semCount]
  · refine Prog.obeys_of_forall (fun _ _ h => ?_) (fun _ _ => trivial) _ _
    exact absurd h hc

/-! ## Conservation -/

section Runs

variable {P : Type} {calls : Call → Prop} {dev : Blinker} {tr : List (DriverEvent P)}
  {s : DriverState P}

/-- What the locks are in a state: the semaphore is 1 less the processes
between `down_interruptible` and `up`, of which there is one at most; the
spin lock is taken exactly when one thread, a process or the handler, has
taken it; and outside of calls both are free. -/
structure Conserved (s : DriverState P) : Prop where
  sem : s.sem + {p | s.HoldsSem (.proc p)}.ncard = 1
  critical : ∀ t u, s.HoldsSem t → s.HoldsSem u → t = u
  exclusive : ∀ t u, s.HoldsLock t → s.HoldsLock u → t = u
  lock : s.lock = true ↔ ∃ t, s.HoldsLock t
  counts : ∀ t th, s.thread t = some th →
    (semCount th.ops = 0 ∨ semCount th.ops = 1) ∧ (lockCount th.ops = 0 ∨ lockCount th.ops = 1)
  quiescent : (∀ p, s.thread (.proc p) = none) → s.sem = 1
  idle : s.Idle → s.lock = false

/-- An event releases only what its thread holds, and not twice. -/
def Releases (e : DriverEvent P) : Prop :=
  ∀ t ts, (e.label = .step t .up ts → e.pre.HoldsSem t ∧ ¬ e.post.HoldsSem t) ∧
    (e.label = .step t .unlock ts → e.pre.HoldsLock t ∧ ¬ e.post.HoldsLock t)

variable [DecidableEq P]

theorem run_locks (hr : Run (driver P calls) (initial P dev) tr s) : s.Locks :=
  hr.locks (fun _ _ c _ => c.code_obeys_locking) (initial_idle dev) rfl rfl

/-- The interrupt thread is in the handler. -/
theorem call_of_irq (hr : Run (driver P calls) (initial P dev) tr s)
    {th : Thread user io Call Int} (ht : s.thread .irq = some th) : th.call = .interrupt := by
  obtain ⟨m, h, _⟩ := hr.entered (initial_idle dev) ht
  exact h

theorem not_holdsSem_irq (hr : Run (driver P calls) (initial P dev) tr s) :
    ¬ s.HoldsSem .irq := by
  rintro ⟨th, ht, h1⟩
  have h0 : th.call = .interrupt → semCount th.ops = 0 :=
    hr.history (R := handlerRule) (P := fun c ops => c = .interrupt → semCount ops = 0)
      (fun _ _ c _ => c.code_obeys_handlerRule) (initial_idle dev) (fun _ _ => rfl)
      (fun _ _ _ hok hP hc => (hok hc).trans (hP hc)) ht
  have := h0 (call_of_irq hr ht)
  omega

/-- The holders of the semaphore are processes. -/
theorem holders_eq_image (hr : Run (driver P calls) (initial P dev) tr s) :
    {t | s.HoldsSem t} = Tid.proc '' {p | s.HoldsSem (.proc p)} := by
  ext t
  cases t with
  | irq => simpa using not_holdsSem_irq hr
  | proc p => simp

/-- **Every reachable state conserves both locks.** -/
theorem conserved_of_run (hr : Run (driver P calls) (initial P dev) tr s) : Conserved s := by
  have h := run_locks hr
  have hproc : Function.Injective (Tid.proc : P → Tid P) := fun _ _ h => Tid.proc.inj h
  have hsem := h.sem.add_ncard
  rw [holders_eq_image hr, Set.ncard_image_of_injective _ hproc] at hsem
  have hlock : s.lock = true ↔ ∃ t, s.HoldsLock t := by
    rw [← h.lock.eq_zero_iff]
    cases s.lock <;> simp
  refine ⟨hsem, fun t u ht hu => h.sem.unique hu ht, fun t u ht hu => h.lock.unique hu ht, hlock,
    fun t th ht => ⟨h.semSound t th ht, h.lockSound t th ht⟩, fun hno => ?_, fun hidle => ?_⟩
  · have hempty : {p | s.HoldsSem (.proc p)} = ∅ := by
      simp [State.HoldsSem, State.Holds, hno]
    rwa [hempty, Set.ncard_empty] at hsem
  · rw [← Bool.not_eq_true, hlock]
    simp [State.HoldsLock, State.Holds, hidle _]

/-- A step that gives a lock back is made by its holder, who then no longer
holds it. -/
theorem releases_of_run (hr : Run (driver P calls) (initial P dev) tr s) :
    ∀ e ∈ tr, Releases e := by
  intro e he t ts
  obtain ⟨old, hold, hs⟩ := hr.of_mem he
  have hob := hold.obeys (fun _ _ c _ => c.code_obeys_locking) (initial_idle dev)
  constructor
  · intro hl
    rw [hl] at hs
    obtain ⟨c, ops, p, p', hrun, ht, _, hpost⟩ := hs.step_inv
    have hone : semCount ops = 1 := ((hob t _ hrun).takes ht).1
    refine ⟨⟨_, hrun, hone⟩, ?_⟩
    simp [State.HoldsSem, State.Holds, hpost, semCount, hone]
  · intro hl
    rw [hl] at hs
    obtain ⟨c, ops, p, p', hrun, ht, _, hpost⟩ := hs.step_inv
    have hone : lockCount ops = 1 := ((hob t _ hrun).takes ht).1
    refine ⟨⟨_, hrun, hone⟩, ?_⟩
    simp [State.HoldsLock, State.Holds, hpost, lockCount, hone]

end Runs

/-- **Conservation of the semaphore and the spin lock**: with any number of
processes in any calls of the driver, every state of every run conserves both
locks and every release is made by the holder. -/
theorem locks_conserved (P : Type) [DecidableEq P] (calls : Call → Prop) (dev : Blinker)
    (tr : List (DriverEvent P)) (s : DriverState P)
    (hr : Run (driver P calls) (initial P dev) tr s) :
    Conserved s ∧ ∀ e ∈ tr, Conserved e.pre ∧ Conserved e.post ∧ Releases e := by
  refine ⟨conserved_of_run hr, fun e he => ?_⟩
  obtain ⟨old, hold, hs⟩ := hr.of_mem he
  exact ⟨conserved_of_run hold, conserved_of_run (hold.cons hs), releases_of_run hr e he⟩

/-- A process that has passed the `down_interruptible` of `blinker_dev_open`
is the one holder of the semaphore. -/
theorem locks_conserved_in_open :
    ∃ (tr : List (DriverEvent Unit)) (s : DriverState Unit),
      Run (driver Unit Call.FileOp) (initial Unit .reset) tr s ∧ s.HoldsSem (.proc ()) ∧
        Conserved s ∧ s.sem = 0 := by
  have h1 : Run (driver Unit Call.FileOp) (initial Unit .reset) _ _ :=
    .cons .nil (.start _ (Tid.proc ()) Call.devOpen rfl trivial)
  have h2 := h1.cons (.step _ (Tid.proc ()) Call.devOpen [] blinkerDevOpen _ (.down false) [] _
    rfl (.down _ false) (.down _ (by decide)))
  exact ⟨_, _, h2, ⟨_, rfl, rfl⟩, (locks_conserved Unit Call.FileOp .reset _ _ h2).1, rfl⟩

/-! ### Into a call -/

section Enter

variable {P : Type} [DecidableEq P] {calls : Call → Prop} {s₀ s : DriverState P}
  {tr : List (DriverEvent P)}

/-- With the semaphore free a process gets into a file operation `c`: it has the
semaphore and has counted the call. -/
theorem exists_run_entered (hr : Run (driver P calls) s₀ tr s) (p : P) (c : Call) (k : Counter)
    (rest : Path Int)
    (hcode : c.code.Takes (.down false) (.io (A := io) (.incr k) fun _ => rest))
    (hidle : s.thread (.proc p) = none) (hc : calls c) (hsem : s.sem = 1) :
    ∃ new, Run (driver P calls) s₀ (new ++ tr)
        { mem := s.mem.update (.incr k), sem := 0, lock := s.lock,
          thread := Function.update s.thread (.proc p)
            (some ⟨c, [.io (.incr k) (), .down false], rest⟩) } ∧
      (∀ e ∈ new, e.pre.mem.dev = s.mem.dev) ∧
      new.map Event.label = [.step (.proc p) (.io (.incr k) ()) [],
        .step (.proc p) (.down false) [], .start (.proc p) c] := by
  have h1 := hr.cons (.start s (Tid.proc p) c hidle hc)
  have h2 := h1.cons (.step _ (Tid.proc p) c [] c.code _ (.down false) [] _
    (Function.update_self ..) hcode (.down _ (by simp [hsem])))
  have h3 := h2.cons (.step _ (Tid.proc p) c _ _ _ (.io (A := io) (.incr k) ()) [] _
    (Function.update_self ..) (.io (A := io) (.incr k) _ ())
    (.io (A := io) _ (.incr k) () [] _ ⟨rfl, rfl⟩))
  simp only [Function.update_idem, hsem] at h3
  exact ⟨[_, _, _], h3, by simp, rfl⟩

/-- So a process comes to the wait of `blinker_dev_read`, and a signal there
leads it out. -/
theorem exists_run_waiting (hr : Run (driver P calls) s₀ tr s) (p : P)
    (userBuffer count : BitVec 32) (hidle : s.thread (.proc p) = none)
    (hc : calls (.devRead userBuffer count)) (hsem : s.sem = 1) :
    ∃ new k, Run (driver P calls) s₀ (new ++ tr)
        { mem := s.mem.update (.incr .readCount), sem := 0, lock := s.lock,
          thread := Function.update s.thread (.proc p)
            (some ⟨.devRead userBuffer count, [.io (.incr .readCount) (), .down false], .wait k⟩) } ∧
      k true = .up (.ret (-ERESTARTSYS)) ∧ (∀ e ∈ new, e.pre.mem.dev = s.mem.dev) ∧
      new.map Event.label = [.step (.proc p) (.io (.incr .readCount) ()) [],
        .step (.proc p) (.down false) [], .start (.proc p) (.devRead userBuffer count)] := by
  obtain ⟨new, hr', hdev, hlabels⟩ := exists_run_entered hr p (.devRead userBuffer count)
    .readCount _ (.down _ false) hidle hc hsem
  exact ⟨new, _, hr', rfl, hdev, hlabels⟩

end Enter

end De1Soc
