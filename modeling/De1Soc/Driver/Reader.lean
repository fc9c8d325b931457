import De1Soc.Driver.System

/-!
# De1Soc.Driver.Reader

`blinker_dev_read` against the interrupt handler.

The reader sleeps until `interrupt_flag` is set, clears it inside
`g_irq_lock` and then samples STATE.  The order of these steps is checked
once, as the rule `flagRule`; from it and from mutual exclusion follows that
no wake-up is lost (`no_lost_wakeup`).

The reader sleeps with the semaphore held.  If it goes to sleep while the
interrupt is disabled and the flag is down, nobody can enable it any more
(`reader_stuck_after_probe`); otherwise the enable and the flag stay as they
are for as long as it sleeps (`reader_never_stuck`).
-/

namespace De1Soc

open Kernel

/-! ## The order of clearing and sampling -/

/-- The flag was cleared and STATE (address 1) not sampled since. -/
def clearing : List DriverOp → Bool
  | [] => false
  | .io (.setInterruptFlag false) _ :: _ => true
  | .io (.memcpyFromio address) _ :: ops => !address && clearing ops
  | _ :: ops => clearing ops

/-- The flag was set and the lock not released since. -/
def raising : List DriverOp → Bool
  | [] => false
  | .io (.setInterruptFlag true) _ :: _ => true
  | .unlock :: _ => false
  | _ :: ops => raising ops

/-- A call of `blinker_dev_read`. -/
def Call.IsRead : Call → Prop
  | .devRead _ _ => True
  | _ => False

/-- The flag moves under the lock only; it is cleared by `blinker_dev_read`
only, which samples before it returns; the handler leaves the lock with the
flag set. -/
def flagRule (c : Call) : Rule user io Int where
  ok ops
    | .lock => raising ops = false
    | .unlock => c = .interrupt → raising ops = true
    | .io (.setInterruptFlag b) _ => lockCount ops = 1 ∧ (b = false → c.IsRead)
    | .io (.memcpyFromio _) _ => c.IsRead
    | _ => True
  fin ops _ := clearing ops = false

theorem Call.code_obeys_flagRule (c : Call) : c.code.Obeys (flagRule c) [] := by
  cases c with
  | devOpen => simp [Call.code, blinkerDevOpen, flagRule, clearing]
  | devRelease => simp [Call.code, blinkerDevRelease, flagRule, clearing]
  | devIoctl cmd arg =>
      cases cmd <;>
        simp [Call.code, blinkerDevIoctl, flagRule, clearing, raising, Option.forall]
  | devRead userBuffer count =>
      simp [Call.code, blinkerDevRead, flagRule, clearing, raising, lockCount, Call.IsRead]
  | devWrite userBuffer count =>
      simp [Call.code, blinkerDevWrite, flagRule, clearing, Option.forall]
  | storeConfig data result => simp [Call.code, configStore, flagRule, clearing, raising]
  | interrupt =>
      simp [Call.code, blinkerDriverInterruptHandler, flagRule, clearing, raising, lockCount]

/-! ## No lost wake-up -/

section Runs

variable {P : Type} {calls : Call → Prop} {dev : Blinker} {tr : List (DriverEvent P)}
  {s s' : DriverState P}

/-- The handler finishes its critical section, and with it everything it
does to the device and the variables. -/
def HandlerRan (e : DriverEvent P) : Prop := ∃ ts, e.label = .step .irq .unlock ts

/-- A `blinker_dev_read` samples STATE. -/
def Samples (e : DriverEvent P) : Prop :=
  ∃ p th x ts, e.label = .step (.proc p) (.io (.memcpyFromio ioaddrBlinkerState) x) ts ∧
    e.pre.thread (.proc p) = some th ∧ th.call.IsRead

/-- The handler has not run, or a sample was taken after it ran last. -/
def Sampled (tr : List (DriverEvent P)) : Prop :=
  (∀ e ∈ tr, ¬ HandlerRan e) ∨
    ∃ new e old, tr = new ++ e :: old ∧ Samples e ∧ ∀ d ∈ new, ¬ HandlerRan d

theorem Sampled.cons {e : DriverEvent P} (h : Sampled tr) (he : ¬ HandlerRan e) :
    Sampled (e :: tr) := by
  obtain h | ⟨new, d, old, rfl, hd, hnew⟩ := h
  · exact .inl (List.forall_mem_cons.mpr ⟨he, h⟩)
  · exact .inr ⟨e :: new, d, old, rfl, hd, List.forall_mem_cons.mpr ⟨he, hnew⟩⟩

variable [DecidableEq P]

theorem run_obeys_flagRule (hr : Run (driver P calls) (initial P dev) tr s) : s.Obeys flagRule :=
  hr.obeys (fun _ _ c _ => c.code_obeys_flagRule) (initial_idle dev)

/-- Setting the flag begins under the lock, and neither ends nor is the lock
taken again before the release. -/
theorem lockCount_of_raising_cons {c : Call} {ops : List DriverOp} {o : DriverOp}
    (hok : (flagRule c).ok ops o) (h : raising ops = true → lockCount ops = 1)
    (hraise : raising (o :: ops) = true) : lockCount (o :: ops) = 1 := by
  cases o with
  | lock =>
      have hno : raising ops = false := hok
      simp [raising, hno] at hraise
  | unlock => simp [raising] at hraise
  | io a x =>
      cases a with
      | setInterruptFlag b => exact hok.1
      | _ => exact h hraise
  | _ => exact h hraise

/-- A thread that is setting the flag has the lock. -/
theorem holdsLock_of_raising (hr : Run (driver P calls) (initial P dev) tr s) {t : Tid P}
    {th : Thread user io Call Int} (ht : s.thread t = some th) (h : raising th.ops = true) :
    s.HoldsLock t := by
  have hcount := hr.history (R := flagRule)
    (P := fun _ ops => raising ops = true → lockCount ops = 1)
    (fun _ _ c _ => c.code_obeys_flagRule) (initial_idle dev) (by simp [raising])
    (fun _ _ _ hok hP => lockCount_of_raising_cons hok hP) ht
  exact ⟨th, ht, hcount h⟩

/-- The rule at a step that shows an operation. -/
theorem flagRule_of_step (hr : Run (driver P calls) (initial P dev) tr s) {t : Tid P}
    {o : DriverOp} {ts : List Cycle} (hs : Step (driver P calls) s (.step t o ts) s') :
    ∃ th, s.thread t = some th ∧ (flagRule th.call).ok th.ops o := by
  obtain ⟨c, ops, p, p', hrun, ht, _⟩ := hs.step_inv
  exact ⟨_, hrun, ((run_obeys_flagRule hr t _ hrun).takes ht).1⟩

/-- The flag is cleared by processes in `blinker_dev_read`, under the lock. -/
theorem proc_of_clear (hr : Run (driver P calls) (initial P dev) tr s) {t : Tid P}
    {ts : List Cycle}
    (hs : Step (driver P calls) s (.step t (.io (.setInterruptFlag false) ()) ts) s') :
    (∃ p, t = .proc p) ∧ s.HoldsLock t := by
  obtain ⟨th, ht, hlock, hread⟩ := flagRule_of_step hr hs
  cases t with
  | irq =>
      have hcall := call_of_irq hr ht
      have hread' := hread rfl
      rw [hcall] at hread'
      exact hread'.elim
  | proc p => exact ⟨⟨p, rfl⟩, th, ht, hlock⟩

theorem raising_cons {ops : List DriverOp} {o : DriverOp} (h : raising (o :: ops) = true) :
    o = .io (.setInterruptFlag true) () ∨ raising ops = true := by
  cases o with
  | io a x =>
      cases a with
      | setInterruptFlag b => cases b <;> simp_all [raising]
      | _ => exact .inr h
  | unlock => simp [raising] at h
  | _ => exact .inr h

/-- While the handler is setting the flag, nobody clears it. -/
theorem flag_kept_of_raising (hr : Run (driver P calls) (initial P dev) tr s)
    {l : DriverLabel P} (hs : Step (driver P calls) s l s') {th : Thread user io Call Int}
    (ht : s.thread .irq = some th) (h : raising th.ops = true)
    (hflag : s.mem.interruptFlag = true) : s'.mem.interruptFlag = true := by
  rw [flag_of_step hs]
  cases hset : flagSet? l with
  | none => exact hflag
  | some b =>
      cases b with
      | true => rfl
      | false =>
          -- whoever clears holds the lock, and so does the handler
          obtain ⟨t, ts, rfl⟩ := label_of_flagSet? hset
          obtain ⟨⟨p, rfl⟩, hlock⟩ := proc_of_clear hr hs
          have heq := (run_locks hr).lock.unique hlock (holdsLock_of_raising hr ht h)
          contradiction

/-- While the handler is setting the flag, it is set. -/
theorem flag_of_raising (hr : Run (driver P calls) (initial P dev) tr s)
    {th : Thread user io Call Int} (ht : s.thread .irq = some th) (h : raising th.ops = true) :
    s.mem.interruptFlag = true := by
  induction hr generalizing th with
  | nil => exact absurd ht (by simp [initial])
  | @cons tr s s' l hr hs ih =>
      obtain hold | ⟨c, _, _, rfl⟩ | ⟨ops, p, o, ts, rfl, hrun, hops, _⟩ := hs.thread_cases ht
      · exact flag_kept_of_raising hr hs hold h (ih hold h)
      · simp [raising] at h
      · rw [hops] at h
        obtain rfl | h := raising_cons h
        · rw [flag_of_step hs]
          rfl
        · exact flag_kept_of_raising hr hs hrun h (ih hrun h)

/-- The handler releases the lock with the flag up. -/
theorem flag_of_handler_unlock (hr : Run (driver P calls) (initial P dev) tr s) {ts : List Cycle}
    (hs : Step (driver P calls) s (.step .irq .unlock ts) s') : s.mem.interruptFlag = true := by
  obtain ⟨th, hth, hraise⟩ := flagRule_of_step hr hs
  exact flag_of_raising hr hth (hraise (call_of_irq hr hth))

end Runs

/-- A file operation or the handler waits, clears the flag and writes CONFIG
with the semaphore held only; the wait directly follows the count of the
read. -/
def waitRule (c : Call) : Rule user io Int where
  ok ops
    | .wait _ => semCount ops = 1 ∧ c.IsRead ∧ ops.head? = some (.io (.incr .readCount) ())
    | .io (.setInterruptFlag b) _ => b = false → semCount ops = 1
    | .io (.iowrite8 _ address) _ => address = true → semCount ops = 1
    | .io (.memcpyToio address _) _ => address = true → semCount ops = 1
    | _ => True
  fin _ _ := True

theorem Call.code_obeys_waitRule (c : Call) (hc : c.FileOp ∨ c = .interrupt) :
    c.code.Obeys (waitRule c) [] := by
  cases c with
  | devOpen => simp [Call.code, blinkerDevOpen, waitRule]
  | devRelease => simp [Call.code, blinkerDevRelease, waitRule]
  | devIoctl cmd arg =>
      cases cmd <;>
        simp [Call.code, blinkerDevIoctl, waitRule, semCount, Option.forall]
  | devRead userBuffer count =>
      simp [Call.code, blinkerDevRead, waitRule, semCount, Call.IsRead]
  | devWrite userBuffer count =>
      simp [Call.code, blinkerDevWrite, waitRule, semCount, Option.forall]
  | storeConfig data result => simp [Call.FileOp] at hc
  | interrupt => simp [Call.code, blinkerDriverInterruptHandler, waitRule]

theorem semCount_of_writesConfig {c : Call} {ops : List DriverOp} {o : DriverOp} {b : BitVec 8}
    (hok : (waitRule c).ok ops o) (ho : access? o = some (.write true b)) : semCount ops = 1 := by
  cases o with
  | io a x =>
      cases a with
      | iowrite8 data address =>
          obtain ⟨rfl, _⟩ : address = true ∧ data = b := by simpa using ho
          exact hok rfl
      | memcpyToio address data =>
          obtain ⟨rfl, _⟩ : address = true ∧ data = b := by simpa using ho
          exact hok rfl
      | _ => simp at ho
  | _ => simp at ho

section Runs

variable {P : Type} {dev : Blinker} {tr : List (DriverEvent P)} {s s' : DriverState P}

/-- Process `p` is in the `wait_event_interruptible` of `blinker_dev_read`. -/
def Asleep (s : DriverState P) (p : P) : Prop :=
  ∃ th k, s.thread (.proc p) = some th ∧ th.call.IsRead ∧ th.rest = .wait k

/-- A process sleeps with the semaphore held, the flag is down and the
device can raise no interrupt. -/
def Stuck (s : DriverState P) : Prop :=
  ∃ p, Asleep s p ∧ s.HoldsSem (.proc p) ∧ s.mem.interruptFlag = false ∧
    s.mem.dev.irq = false ∧ s.mem.dev.enaIrq = false

/-- The flag is up or the interrupt enabled. -/
def Armed (s : DriverState P) : Prop :=
  s.mem.interruptFlag = true ∨ s.mem.dev.enaIrq = true

/-- The event takes a `blinker_dev_read` to its wait. -/
def GoesToSleep (e : DriverEvent P) : Prop :=
  ∃ p ts, e.label = .step (.proc p) (.io (.incr .readCount) ()) ts

variable [DecidableEq P]

theorem run_obeys_waitRule (hr : Run (driver P Call.FileOp) (initial P dev) tr s) :
    s.Obeys waitRule :=
  hr.obeys (fun _ _ c he => c.code_obeys_waitRule (entry_cases he)) (initial_idle dev)

/-- Who sleeps holds the semaphore and has just counted its read. -/
theorem asleep_inv (hr : Run (driver P Call.FileOp) (initial P dev) tr s) {p : P}
    (h : Asleep s p) :
    s.HoldsSem (.proc p) ∧ ∃ th, s.thread (.proc p) = some th ∧
      th.ops.head? = some (.io (.incr .readCount) ()) := by
  obtain ⟨th, k, ht, _, hrest⟩ := h
  have hob := run_obeys_waitRule hr _ _ ht
  rw [hrest] at hob
  obtain ⟨⟨hsem, _, hhead⟩, _⟩ := hob true
  exact ⟨⟨th, ht, hsem⟩, th, ht, hhead⟩

/-- While a process sleeps, nobody else makes an operation that needs the
semaphore. -/
theorem not_holdsSem_of_asleep (hr : Run (driver P Call.FileOp) (initial P dev) tr s) {p : P}
    (h : Asleep s p) {t : Tid P} {o : DriverOp} {ts : List Cycle}
    (hs : Step (driver P Call.FileOp) s (.step t o ts) s') (hwait : ∀ b, o ≠ .wait b) :
    ¬ s.HoldsSem t := by
  intro ht
  obtain rfl := (run_locks hr).sem.unique (asleep_inv hr h).1 ht
  obtain ⟨th, k, hth, _, hrest⟩ := h
  obtain ⟨c, ops, q, q', hrun, htake, _⟩ := hs.step_inv
  rw [hrun] at hth
  obtain rfl := Option.some.inj hth
  simp only at hrest
  subst hrest
  cases htake with
  | wait _ b => exact hwait b rfl

/-- While a process sleeps, nobody clears the flag. -/
theorem flag_of_asleep (hr : Run (driver P Call.FileOp) (initial P dev) tr s)
    {l : DriverLabel P} (hs : Step (driver P Call.FileOp) s l s') {p : P} (h : Asleep s p)
    (hflag : s.mem.interruptFlag = true) : s'.mem.interruptFlag = true := by
  rw [flag_of_step hs]
  cases hset : flagSet? l with
  | none => exact hflag
  | some b =>
      cases b with
      | true => rfl
      | false =>
          obtain ⟨t, ts, rfl⟩ := label_of_flagSet? hset
          obtain ⟨c, ops, q, q', hrun, htake, _⟩ := hs.step_inv
          have hsem : semCount ops = 1 := ((run_obeys_waitRule hr t _ hrun).takes htake).1 rfl
          exact absurd ⟨_, hrun, hsem⟩ (not_holdsSem_of_asleep hr h hs (by simp))

/-- While a process sleeps, the flag stays up and the interrupt enabled. -/
theorem armed_of_asleep (hr : Run (driver P Call.FileOp) (initial P dev) tr s)
    {l : DriverLabel P} (hs : Step (driver P Call.FileOp) s l s') {p : P} (h : Asleep s p)
    (harmed : Armed s) : Armed s' := by
  obtain hflag | hena := harmed
  · exact .inl (flag_of_asleep hr hs h hflag)
  · right
    rw [enaIrq_of_step hs, hena]
    rintro t o ts b rfl hacc
    obtain ⟨c, ops, q, q', hrun, htake, _⟩ := hs.step_inv
    have hsem := semCount_of_writesConfig ((run_obeys_waitRule hr t _ hrun).takes htake).1 hacc
    exact absurd ⟨_, hrun, hsem⟩ (not_holdsSem_of_asleep hr h hs (by rintro b rfl; simp at hacc))

/-- A reader that goes to sleep moves neither the flag nor the enable. -/
theorem armed_of_goesToSleep {l : DriverLabel P} (hs : Step (driver P Call.FileOp) s l s')
    (h : GoesToSleep ⟨s, l, s'⟩) :
    s'.mem.interruptFlag = s.mem.interruptFlag ∧ s'.mem.dev = s.mem.dev := by
  obtain ⟨p, ts, rfl⟩ := h
  obtain ⟨_, _, _, _, _, _, hd, _⟩ := hs.step_inv
  exact ⟨flag_of_step hs, (dev_of_does_none hd rfl).2⟩

/-- **The sleeping invariant**: where nobody goes to sleep with the flag down
and the interrupt disabled, nobody sleeps so. -/
theorem armed_of_run (hr : Run (driver P Call.FileOp) (initial P dev) tr s)
    (hsleep : ∀ e ∈ tr, GoesToSleep e → Armed e.pre) {p : P} (h : Asleep s p) : Armed s := by
  induction hr with
  | nil =>
      obtain ⟨th, _, ht, _⟩ := h
      contradiction
  | @cons tr s s' l hr hs ih =>
      rw [List.forall_mem_cons] at hsleep
      obtain ⟨_, th', ht', hhead⟩ := asleep_inv (hr.cons hs) h
      obtain ⟨th, k, ht, hread, hrest⟩ := h
      obtain rfl := Option.some.inj (ht'.symm.trans ht)
      obtain hold | ⟨c, _, _, rfl⟩ | ⟨ops, q, o, ts, rfl, _, hops, _⟩ := hs.thread_cases ht
      · have hasleep : Asleep s p := ⟨th', k, hold, hread, hrest⟩
        exact armed_of_asleep hr hs hasleep (ih hsleep.2 hasleep)
      · simp at hhead
      · rw [hops, List.head?_cons] at hhead
        obtain rfl := Option.some.inj hhead
        have hgoes : GoesToSleep ⟨s, .step (.proc p) (.io (.incr .readCount) ()) ts, s'⟩ :=
          ⟨p, ts, rfl⟩
        obtain ⟨hflag, hdev⟩ := armed_of_goesToSleep hs hgoes
        unfold Armed
        rw [hflag, hdev]
        exact hsleep.1 hgoes

theorem not_stuck_of_run (hr : Run (driver P Call.FileOp) (initial P dev) tr s)
    (hsleep : ∀ e ∈ tr, GoesToSleep e → Armed e.pre) : ¬ Stuck s := by
  rintro ⟨p, hp, _, hflag, _, hena⟩
  obtain h | h := armed_of_run hr hsleep hp
  · rw [hflag] at h
    contradiction
  · rw [hena] at h
    contradiction

end Runs

/-- **A waiting reader does not block the device**, in any state of a run in
which no `blinker_dev_read` goes to sleep with the flag down and the interrupt
disabled. -/
theorem reader_never_stuck (P : Type) [DecidableEq P] (dev : Blinker)
    (tr : List (DriverEvent P)) (s : DriverState P)
    (hr : Run (driver P Call.FileOp) (initial P dev) tr s)
    (hsleep : ∀ e ∈ tr, GoesToSleep e → Armed e.pre) :
    ¬ Stuck s ∧ ∀ e ∈ tr, ¬ Stuck e.pre := by
  refine ⟨not_stuck_of_run hr hsleep, fun e he => ?_⟩
  obtain ⟨new, old, rfl⟩ := List.append_of_mem he
  refine not_stuck_of_run (hr.split rfl).1 fun d hd => hsleep d ?_
  exact List.mem_append_right _ (List.mem_cons_of_mem _ hd)

/-- A process may be inside `blinker_dev_read` from any state of the device
after `blinker_probe`. -/
theorem exists_run_asleep (dev : Blinker) :
    ∃ (tr : List (DriverEvent Unit)) (s : DriverState Unit),
      Run (driver Unit Call.FileOp) (initial Unit dev) tr s ∧ Asleep s () ∧
        s.HoldsSem (.proc ()) ∧ s.mem.interruptFlag = false ∧ s.mem.dev = dev ∧
        ∀ e ∈ tr, e.pre.mem.dev = dev := by
  have hnil : Run (driver Unit Call.FileOp) (initial Unit dev) [] _ := .nil
  obtain ⟨new, k, hr, _, hdev, _⟩ := exists_run_waiting hnil () 0 1 rfl trivial rfl
  exact ⟨_, _, hr, ⟨_, _, rfl, trivial, rfl⟩, ⟨_, rfl, rfl⟩, rfl, rfl,
    fun e he => hdev e (by simpa using he)⟩

/-- A `blinker_dev_read` right after `blinker_probe`, the device being in its
reset state, sleeps where nobody can wake it. -/
theorem reader_stuck_after_probe :
    ∃ (tr : List (DriverEvent Unit)) (s : DriverState Unit),
      Run (driver Unit Call.FileOp) (initial Unit .reset) tr s ∧ Stuck s := by
  obtain ⟨tr, s, hr, hasleep, hsem, hflag, hdev, _⟩ := exists_run_asleep .reset
  refine ⟨tr, s, hr, (), hasleep, hsem, hflag, ?_, ?_⟩
  · rw [hdev]
    rfl
  · rw [hdev]
    rfl

/-- With the interrupt enabled the same call sleeps and is not stuck. -/
theorem reader_not_stuck_when_enabled :
    ∃ (tr : List (DriverEvent Unit)) (s : DriverState Unit),
      Run (driver Unit Call.FileOp) (initial Unit { Blinker.reset with enaIrq := true }) tr s ∧
        Asleep s () ∧ ¬ Stuck s := by
  obtain ⟨tr, s, hr, hasleep, _, _, _, hdev⟩ :=
    exists_run_asleep { Blinker.reset with enaIrq := true }
  have harmed : ∀ e ∈ tr, GoesToSleep e → Armed e.pre := by
    intro e he _
    right
    rw [hdev e he]
  exact ⟨tr, s, hr, hasleep, (reader_never_stuck Unit _ tr s hr harmed).1⟩

end De1Soc
