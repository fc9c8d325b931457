import De1Soc.Driver.Reader
import De1Soc.Kernel.Progress

/-!
# De1Soc.Driver.Progress

When the calls of the driver come to their end.

A reader that finds the flag down goes to sleep, and past the handler's
`wake_up_interruptible` nobody sleeps (`Kernel.Scheduled`).  While the flag is
up a reader sleeps only as long as the handler is between setting the flag and
that wake-up (`about_to_wake`).  So the spin lock, the semaphore and the wait
queue never deadlock: the one state with calls in progress in which none of
them goes on without a signal is a `blinker_dev_read` that waits with the
semaphore while the flag is down, everybody else being at the
`down_interruptible` of a call that has done nothing yet (`jammed_iff`).  Each
call makes at most nine operations, so the calls in progress come to their end,
or to that state, by their own steps (`calls_complete`).
-/

namespace De1Soc

open Kernel

/-! ## The code keeps to the rules -/

/-- Every access to a register or a variable has an outcome, and so has every
access to user memory. -/
theorem machine_responsive : machine.Responsive where
  act a m := ⟨_, _, _, runner.sound a m⟩
  answer q := by
    cases q with
    | getUser arg => exact ⟨none⟩
    | putUser arg x => exact ⟨true⟩
    | copyFromUser src => exact ⟨none⟩
    | copyToUser dst x => exact ⟨true⟩

theorem Call.code_obeys_sleeping (c : Call) : c.code.Obeys sleeping [] := by
  cases c with
  | devOpen => simp [Call.code, blinkerDevOpen, sleeping]
  | devRelease => simp [Call.code, blinkerDevRelease, sleeping]
  | devIoctl cmd arg =>
      cases cmd <;> simp [Call.code, blinkerDevIoctl, sleeping, Option.forall]
  | devRead userBuffer count =>
      simp [Call.code, blinkerDevRead, sleeping, semCount, lockCount]
  | devWrite userBuffer count => simp [Call.code, blinkerDevWrite, sleeping, Option.forall]
  | storeConfig data result => simp [Call.code, configStore, sleeping]
  | interrupt => simp [Call.code, blinkerDriverInterruptHandler, sleeping]

/-- The longest path is that of `blinker_dev_read`. -/
theorem Call.code_obeys_atMost (c : Call) : c.code.Obeys (atMost 9) [] := by
  cases c with
  | devOpen => simp [Call.code, blinkerDevOpen, atMost]
  | devRelease => simp [Call.code, blinkerDevRelease, atMost]
  | devIoctl cmd arg =>
      cases cmd <;> simp [Call.code, blinkerDevIoctl, atMost, Option.forall]
  | devRead userBuffer count => simp [Call.code, blinkerDevRead, atMost]
  | devWrite userBuffer count => simp [Call.code, blinkerDevWrite, atMost, Option.forall]
  | storeConfig data result => simp [Call.code, configStore, atMost]
  | interrupt => simp [Call.code, blinkerDriverInterruptHandler, atMost]

/-- The semaphore is taken first of all, by the file operations; only reads
sleep. -/
def queueRule (c : Call) : Rule user io Int where
  ok ops
    | .down _ => ops = [] ∧ c ≠ .interrupt
    | .wait _ => c.IsRead
    | _ => True
  fin _ _ := True

theorem Call.code_obeys_queueRule (c : Call) : c.code.Obeys (queueRule c) [] := by
  cases c with
  | devOpen => simp [Call.code, blinkerDevOpen, queueRule]
  | devRelease => simp [Call.code, blinkerDevRelease, queueRule]
  | devIoctl cmd arg =>
      cases cmd <;> simp [Call.code, blinkerDevIoctl, queueRule, Option.forall]
  | devRead userBuffer count => simp [Call.code, blinkerDevRead, queueRule, Call.IsRead]
  | devWrite userBuffer count => simp [Call.code, blinkerDevWrite, queueRule, Option.forall]
  | storeConfig data result => simp [Call.code, configStore, queueRule]
  | interrupt => simp [Call.code, blinkerDriverInterruptHandler, queueRule]

/-- The operations that raise the flag. -/
def raisesFlag : IoOp → Bool
  | .setInterruptFlag b => b
  | _ => false

theorem machine_raisedBy : machine.RaisedBy raisesFlag where
  env := by
    rintro m c m' ⟨_, rfl⟩ hready
    exact hready
  eff := by
    intro a m x ts m' heff hready
    cases a with
    | setInterruptFlag b =>
        obtain ⟨_, rfl⟩ := heff
        exact .inr hready
    | _ =>
        obtain ⟨_, rfl⟩ := heff
        exact .inl hready

/-- The handler alone raises the flag, and then it wakes the readers without
blocking before. -/
theorem Call.code_obeys_waking (c : Call) : c.code.Obeys (waking machine raisesFlag) [] := by
  cases c with
  | devOpen => simp [Call.code, blinkerDevOpen, waking, owesWake, raisesFlag]
  | devRelease => simp [Call.code, blinkerDevRelease, waking, owesWake, raisesFlag]
  | devIoctl cmd arg =>
      cases cmd <;> simp [Call.code, blinkerDevIoctl, waking, owesWake, raisesFlag, Option.forall]
  | devRead userBuffer count => simp [Call.code, blinkerDevRead, waking, owesWake, raisesFlag]
  | devWrite userBuffer count =>
      simp [Call.code, blinkerDevWrite, waking, owesWake, raisesFlag, Option.forall]
  | storeConfig data result => simp [Call.code, configStore, waking, owesWake, raisesFlag]
  | interrupt =>
      simp [Call.code, blinkerDriverInterruptHandler, waking, owesWake, raisesFlag, machine]

/-- Only the handler raises the flag. -/
def raiseRule (c : Call) : Rule user io Int where
  ok _
    | .io a _ => raisesFlag a = true → c = .interrupt
    | _ => True
  fin _ _ := True

theorem Call.code_obeys_raiseRule (c : Call) : c.code.Obeys (raiseRule c) [] := by
  cases c with
  | devOpen => simp [Call.code, blinkerDevOpen, raiseRule, raisesFlag]
  | devRelease => simp [Call.code, blinkerDevRelease, raiseRule, raisesFlag]
  | devIoctl cmd arg =>
      cases cmd <;> simp [Call.code, blinkerDevIoctl, raiseRule, raisesFlag, Option.forall]
  | devRead userBuffer count => simp [Call.code, blinkerDevRead, raiseRule, raisesFlag]
  | devWrite userBuffer count =>
      simp [Call.code, blinkerDevWrite, raiseRule, raisesFlag, Option.forall]
  | storeConfig data result => simp [Call.code, configStore, raiseRule, raisesFlag]
  | interrupt => simp [Call.code, blinkerDriverInterruptHandler, raiseRule, raisesFlag]

/-- The calls of the driver cannot block each other for good. -/
theorem driver_fair (P : Type) (calls : Call → Prop) : (driver P calls).Fair raisesFlag where
  responsive := machine_responsive
  raisedBy := machine_raisedBy
  locking _ _ c _ := c.code_obeys_locking
  sleeping _ _ c _ := c.code_obeys_sleeping
  waking _ _ c _ := c.code_obeys_waking

/-! ## Jams -/

section Runs

variable {P : Type} {calls : Call → Prop} {dev : Blinker} {tr : List (DriverEvent P)}
  {s s' : DriverState P} {turns : List (DriverTurn P)} {Z : Set (Tid P)}

/-- The handler has set the flag and has not come to its
`wake_up_interruptible` yet. -/
def AboutToWake (s : DriverState P) : Prop :=
  ∃ t th new old, s.thread t = some th ∧ th.call = .interrupt ∧
    th.ops = new ++ .io (.setInterruptFlag true) () :: old ∧ .io .wakeUp () ∉ new

/-- Process `p` waits in `blinker_dev_read` with the semaphore and the flag is
down; every other call in progress is at its `down_interruptible` and has done
nothing, and the handler is not running. -/
structure BehindReader (s : DriverState P) (p : P) : Prop where
  asleep : Asleep s p
  holds : s.HoldsSem (.proc p)
  flag : s.mem.interruptFlag = false
  handler : s.thread .irq = none
  queued : ∀ q th, s.thread (.proc q) = some th → q ≠ p → th.ops = [] ∧ ∃ k, th.rest = .down k

variable [DecidableEq P]

theorem run_obeys_queueRule (hr : Run (driver P calls) (initial P dev) tr s) :
    s.Obeys queueRule :=
  hr.obeys (fun _ _ c _ => c.code_obeys_queueRule) (initial_idle dev)

/-- A thread at a `down` is a process that has done nothing yet. -/
theorem queued_inv (hr : Run (driver P calls) (initial P dev) tr s) {t : Tid P}
    {th : Thread user io Call Int} (ht : s.thread t = some th) {k : Bool → Path Int}
    (hk : th.rest = .down k) : th.ops = [] ∧ t ≠ .irq := by
  have hrule := run_obeys_queueRule hr t th ht
  rw [hk] at hrule
  obtain ⟨⟨hops, hcall⟩, _⟩ := hrule true
  refine ⟨hops, ?_⟩
  rintro rfl
  exact hcall (call_of_irq hr ht)

/-- **Readers are woken**: where one sleeps and the flag is up, the handler is
about to wake it. -/
theorem about_to_wake (h : Scheduled (driver P calls) (initial P dev) turns s Z) (hne : Z.Nonempty)
    (hflag : s.mem.interruptFlag = true) : AboutToWake s := by
  obtain ⟨t, th, ht, howes⟩ := h.woken machine_raisedBy (fun _ _ c _ => c.code_obeys_waking)
    (initial_idle dev) hne hflag
  obtain ⟨new, a, x, old, hops, hraise, hnew⟩ := exists_raised_of_owesWake howes
  obtain ⟨b, rfl⟩ : ∃ b, a = .setInterruptFlag b := by
    cases a with
    | setInterruptFlag b => exact ⟨b, rfl⟩
    | _ => contradiction
  obtain rfl : b = true := hraise
  have hcall : ∀ a x, .io a x ∈ th.ops → raisesFlag a = true → th.call = .interrupt :=
    h.run.history (R := raiseRule)
      (P := fun c ops => ∀ a x, .io a x ∈ ops → raisesFlag a = true → c = .interrupt)
      (fun _ _ c _ => c.code_obeys_raiseRule) (initial_idle dev) (by simp)
      (fun c ops o hok ih a x hmem ha => by
        obtain rfl | hmem := List.mem_cons.mp hmem
        · exact hok ha
        · exact ih a x hmem ha) ht
  refine ⟨t, th, new, old, ht, hcall (.setInterruptFlag true) x (by simp [hops]) rfl, hops,
    fun hwake => ?_⟩
  have hno : machine.wakes .wakeUp = false := hnew _ _ hwake
  contradiction

/-- Who sleeps is a process in a `blinker_dev_read`. -/
theorem asleep_of_mem (h : Scheduled (driver P calls) (initial P dev) turns s Z) {t : Tid P}
    (ht : t ∈ Z) : ∃ p, t = .proc p ∧ Asleep s p := by
  obtain ⟨th, k, hth, hk⟩ := h.atWait ht
  have hrule := run_obeys_queueRule h.run t th hth
  rw [hk] at hrule
  have hread : th.call.IsRead := (hrule true).1
  cases t with
  | irq =>
      rw [call_of_irq h.run hth] at hread
      exact hread.elim
  | proc p => exact ⟨p, rfl, th, k, hth, hread, hk⟩

theorem behindReader_of_queuesBehind (hr : Run (driver P calls) (initial P dev) tr s)
    {t : Tid P} (h : s.QueuesBehind (driver P calls) t) :
    ∃ p, BehindReader s p := by
  obtain ⟨hholds, ⟨th, k, ht, hk⟩, hready, hqueued⟩ := h
  cases t with
  | irq => exact absurd hholds (not_holdsSem_irq hr)
  | proc p =>
      have hrule := run_obeys_queueRule hr _ _ ht
      rw [hk] at hrule
      have hread : th.call.IsRead := (hrule true).1
      refine ⟨p, ⟨th, k, ht, hread, hk⟩, hholds, Bool.eq_false_of_not_eq_true hready, ?_, ?_⟩
      · by_contra hirq
        obtain ⟨thi, hi⟩ := Option.ne_none_iff_exists'.mp hirq
        obtain ⟨k', hk'⟩ := hqueued .irq thi hi (by simp)
        exact (queued_inv hr hi hk').2 rfl
      · intro q thq hq hne
        obtain ⟨k', hk'⟩ := hqueued _ thq hq fun heq => hne (Tid.proc.inj heq)
        exact ⟨(queued_inv hr hq hk').1, k', hk'⟩

/-- A step that advances a call takes the code that remains of it. -/
theorem advances_inv {l : DriverLabel P} (hs : Step (driver P calls) s l s')
    (hl : l.advances = true) :
    ∃ t th, s.thread t = some th ∧ ((∃ r, th.rest = .ret r) ∨
      ∃ o p' ts, th.rest.Takes o p' ∧ o.signalled = false ∧
        Does machine o s.toShared ts s'.toShared) := by
  cases hs with
  | tick c m => contradiction
  | start t c => contradiction
  | step t c ops p p' o ts w hrun ht hd =>
      have hsig : o.signalled = false := by simpa [Label.advances] using hl
      exact ⟨t, _, hrun, .inr ⟨o, p', ts, ht, hsig, hd⟩⟩
  | ret t c ops r hrun => exact ⟨t, _, hrun, .inl ⟨r, rfl⟩⟩

theorem jammed_of_idle (h : s.Idle) : s.Jammed (driver P calls) Z := by
  rintro t ⟨l, s', hs, _, hadv, _⟩
  obtain ⟨u, th, hu, _⟩ := advances_inv hs hadv
  rw [h u] at hu
  contradiction

theorem jammed_of_behindReader (hr : Run (driver P calls) (initial P dev) tr s) {p : P}
    (h : BehindReader s p) : s.Jammed (driver P calls) Z := by
  rintro t ⟨l, s', hs, _, hadv, _⟩
  have hsem : s.sem = 0 := (run_locks hr).sem.zero_of_holder h.holds
  obtain ⟨u, th, hu, hnext⟩ := advances_inv hs hadv
  -- at a `down` with the semaphore taken, and at the wait with the flag down, nothing is taken
  cases u with
  | irq =>
      rw [h.handler] at hu
      contradiction
  | proc q =>
      by_cases hqp : q = p
      · subst hqp
        obtain ⟨th', k, hq, _, hk⟩ := h.asleep
        obtain rfl := Option.some.inj (hq.symm.trans hu)
        rw [hk] at hnext
        obtain ⟨r, hr⟩ | ⟨o, p', ts, htake, hsig, hd⟩ := hnext
        · contradiction
        · cases htake with
          | wait _ b =>
              obtain rfl : b = false := hsig
              exact absurd (hd.ready.symm.trans h.flag) (by decide)
      · obtain ⟨_, k, hk⟩ := h.queued q th hu hqp
        rw [hk] at hnext
        obtain ⟨r, hr⟩ | ⟨o, p', ts, htake, hsig, hd⟩ := hnext
        · contradiction
        · cases htake with
          | down _ b =>
              obtain rfl : b = false := hsig
              have hpos := hd.sem_pos
              omega

theorem idle_or_behindReader_of_jammed
    (h : Scheduled (driver P calls) (initial P dev) turns s Z)
    (hj : s.Jammed (driver P calls) Z) : s.Idle ∨ ∃ p, BehindReader s p := by
  obtain hidle | ⟨t, ht⟩ := h.jammed (driver_fair P calls) (initial_idle dev) rfl rfl hj
  · exact .inl hidle
  · exact .inr (behindReader_of_queuesBehind h.run ht)

end Runs

/-- **No deadlock but behind a reader.**  In every state of every run, the
calls in progress are all kept from going on without a signal exactly when there
is none, or when one of them waits in `blinker_dev_read` with the semaphore and
the flag down; the rest are then at the beginning of their calls.  A reader that
sleeps while the flag is up does so only until the handler comes to its
`wake_up_interruptible`. -/
theorem jammed_iff (P : Type) [DecidableEq P] (calls : Call → Prop) (dev : Blinker)
    (turns : List (DriverTurn P)) (s : DriverState P) (Z : Set (Tid P))
    (h : Scheduled (driver P calls) (initial P dev) turns s Z) :
    (s.Jammed (driver P calls) Z ↔ s.Idle ∨ ∃ p, BehindReader s p) ∧
      ∀ t ∈ Z, (∃ p, t = .proc p ∧ Asleep s p) ∧
        (s.mem.interruptFlag = true → AboutToWake s) := by
  refine ⟨⟨idle_or_behindReader_of_jammed h, ?_⟩, fun t ht => ?_⟩
  · rintro (hidle | ⟨p, hp⟩)
    · exact jammed_of_idle hidle
    · exact jammed_of_behindReader h.run hp
  · exact ⟨asleep_of_mem h ht, about_to_wake h ⟨t, ht⟩⟩

/-- A reader that has gone to sleep where nobody has raised the flag is such a
jam. -/
theorem jammed_asleep_reader :
    ∃ (turns : List (DriverTurn Unit)) (s : DriverState Unit),
      Scheduled (driver Unit Call.FileOp) (initial Unit .reset) turns s {.proc ()} ∧ Asleep s () ∧
        s.Jammed (driver Unit Call.FileOp) {.proc ()} := by
  obtain ⟨tr, s, hr, hasleep, hholds, hflag, _, hdev⟩ := exists_run_asleep .reset
  -- the device never raised the interrupt, so the handler was never let in
  have hirq : s.thread .irq = none := by
    by_contra hin
    obtain ⟨th, ht⟩ := Option.ne_none_iff_exists'.mp hin
    obtain ⟨mid, start, before, rfl, hstart, _⟩ := hr.exists_began (initial_idle _) ht
    have hs := (hr.split rfl).2
    rw [hstart] at hs
    have hentry := hs.start_entry.2
    rw [hdev start (by simp)] at hentry
    contradiction
  obtain ⟨th, k, ht, hread, hk⟩ := id hasleep
  have hsleep := hr.scheduled.sleep (.proc ()) ⟨th, k, ht, hk⟩ (by simp [driver, machine, hflag])
  rw [insert_empty_eq] at hsleep
  have hiff := (jammed_iff Unit Call.FileOp .reset _ s _ hsleep).1
  refine ⟨_, s, hsleep, hasleep, hiff.mpr (.inr ⟨(), ?_⟩)⟩
  exact ⟨hasleep, hholds, hflag, hirq, fun q th _ hne => absurd rfl hne⟩

/-- **The calls in progress complete.**  A run makes at most ten steps for each
call that it has begun.  From every state of it, whoever sleeps there, the calls
in progress go on, by their own steps and within that bound, until all have
returned or one waits in `blinker_dev_read` with the flag down; where none of
them is a read, all return. -/
theorem calls_complete (P : Type) [DecidableEq P] (calls : Call → Prop) (dev : Blinker)
    (turns : List (DriverTurn P)) (s : DriverState P) (Z : Set (Tid P))
    (h : Scheduled (driver P calls) (initial P dev) turns s Z) :
    ∃ new s' Z', Scheduled (driver P calls) (initial P dev) (new ++ turns) s' Z' ∧
      (∀ x ∈ new, x.advances = true) ∧
      worked (events turns) + new.length ≤ 10 * begun (events turns) ∧
      (s'.Idle ∨ ∃ p, BehindReader s' p) ∧
      ((∀ t th, s.thread t = some th → ¬ th.call.IsRead) → s'.Idle) := by
  obtain ⟨F, k, hk, hbound⟩ :=
    h.run.potential (fun _ _ c _ => c.code_obeys_atMost) (initial_idle dev)
  obtain ⟨new, s', Z', h', hall, hlen, hjam⟩ := h.exists_settled
    (fun _ _ c _ => c.code_obeys_atMost) (initial_idle dev) hk
  have hcases := idle_or_behindReader_of_jammed h' hjam
  refine ⟨new, s', Z', h', hall, by omega, hcases, fun hno => ?_⟩
  obtain hidle | ⟨p, hp⟩ := hcases
  · exact hidle
  · obtain ⟨th, _, ht, hread, _⟩ := hp.asleep
    obtain ⟨th₀, ht₀, hcall⟩ := h.call_of_advances h' hall ht
    exact absurd (hcall ▸ hread) (hno _ _ ht₀)

/-- An open that has just begun completes. -/
theorem calls_complete_of_open :
    ∃ (turns : List (DriverTurn Unit)) (s : DriverState Unit),
      Scheduled (driver Unit Call.FileOp) (initial Unit .reset) turns s ∅ ∧ ¬ s.Idle ∧
        ∃ new s' Z', Scheduled (driver Unit Call.FileOp) (initial Unit .reset) (new ++ turns) s' Z' ∧
          (∀ x ∈ new, x.advances = true) ∧
          worked (events turns) + new.length ≤ 10 * begun (events turns) ∧ s'.Idle := by
  have h1 : Run (driver Unit Call.FileOp) (initial Unit .reset) _ _ :=
    .cons .nil (.start _ (Tid.proc ()) Call.devOpen rfl trivial)
  obtain ⟨new, s', Z', h', hall, hlen, _, hidle⟩ :=
    calls_complete Unit Call.FileOp .reset _ _ _ h1.scheduled
  refine ⟨_, _, h1.scheduled, fun h => ?_, new, s', Z', h', hall, hlen, hidle fun t th ht => ?_⟩
  · have hnone := h (Tid.proc ())
    simp at hnone
  · cases t with
    | irq => simp [initial] at ht
    | proc p =>
        simp only [Function.update_self, Option.some.injEq] at ht
        rw [← ht]
        exact id

end De1Soc
