import De1Soc.Driver.Files

/-!
# De1Soc.Driver.Counts

What the counters of the driver count.

Every file operation increments its own counter of `struct blinker_dev` once it
has the semaphore, and the handler increments `g_irq_count` under the lock.  In
every run a counter is therefore the number of calls of its kind that have
returned, less those that a signal ended at the semaphore, modulo `2^32`
(`counters_account`): calls that failed later are counted, a read that a signal
ended in its wait among them.
-/

namespace De1Soc

open Kernel

/-- The counter that a call increments. -/
def Call.counter : Call → Option Counter
  | .devOpen => some .openCount
  | .devRelease => some .releaseCount
  | .devIoctl _ _ => some .ioctlCount
  | .devRead _ _ => some .readCount
  | .devWrite _ _ => some .writeCount
  | .storeConfig _ _ | .interrupt => none

/-- The operation increments `g_irq_count`. -/
def isIncrIrq : DriverOp → Bool
  | .io .incrIrqCount _ => true
  | _ => false

/-- A call that has returned, and that no signal ended at the semaphore. -/
def returnsUninterrupted {P : Type} (kind : Call → Bool) : DriverLabel P → Bool
  | .ret _ c ops _ => kind c && !marked isSignal ops
  | _ => false

/-- The calls of a kind that a run has brought to their return without a signal
at the semaphore. -/
def uninterrupted {P : Type} (kind : Call → Bool) (tr : List (DriverEvent P)) : Nat :=
  tr.countP fun e => returnsUninterrupted kind e.label

/-- Calls of the kind make the operation once, unless a signal ends them at the
semaphore; no other call makes it. -/
def onceRule (f : DriverOp → Bool) (kind : Call → Bool) (c : Call) : Rule user io Int where
  ok ops o := f o = true → kind c = true ∧ marked f ops = false
  fin ops _ := kind c = true → marked f ops = !marked isSignal ops

/-- The calls of the counter `k`. -/
def countedBy (k : Counter) (c : Call) : Bool := c.counter == some k

/-- The handler. -/
def isHandler (c : Call) : Bool := c == .interrupt

theorem Call.code_obeys_onceRule (c : Call) (k : Counter) :
    c.code.Obeys (onceRule (isIncr k) (countedBy k) c) [] := by
  cases c with
  | devOpen =>
      simp +contextual [Call.code, blinkerDevOpen, onceRule, isIncr, isSignal, marked, countedBy,
        Call.counter]
  | devRelease =>
      simp +contextual [Call.code, blinkerDevRelease, onceRule, isIncr, isSignal, marked, countedBy,
        Call.counter]
  | devIoctl cmd arg =>
      cases cmd <;>
        simp +contextual [Call.code, blinkerDevIoctl, onceRule, isIncr, isSignal, marked, countedBy,
          Call.counter, Option.forall]
  | devRead userBuffer count =>
      simp +contextual [Call.code, blinkerDevRead, onceRule, isIncr, isSignal, marked, countedBy,
        Call.counter]
  | devWrite userBuffer count =>
      simp +contextual [Call.code, blinkerDevWrite, onceRule, isIncr, isSignal, marked, countedBy,
        Call.counter, Option.forall]
  | storeConfig data result =>
      simp [Call.code, configStore, onceRule, isIncr, countedBy, Call.counter]
  | interrupt =>
      simp [Call.code, blinkerDriverInterruptHandler, onceRule, isIncr, countedBy, Call.counter]

theorem Call.code_obeys_onceRule_irq (c : Call) :
    c.code.Obeys (onceRule isIncrIrq isHandler c) [] := by
  cases c with
  | devOpen => simp [Call.code, blinkerDevOpen, onceRule, isIncrIrq, isHandler]
  | devRelease => simp [Call.code, blinkerDevRelease, onceRule, isIncrIrq, isHandler]
  | devIoctl cmd arg =>
      cases cmd <;> simp [Call.code, blinkerDevIoctl, onceRule, isIncrIrq, isHandler, Option.forall]
  | devRead userBuffer count => simp [Call.code, blinkerDevRead, onceRule, isIncrIrq, isHandler]
  | devWrite userBuffer count =>
      simp [Call.code, blinkerDevWrite, onceRule, isIncrIrq, isHandler, Option.forall]
  | storeConfig data result => simp [Call.code, configStore, onceRule, isIncrIrq, isHandler]
  | interrupt =>
      simp [Call.code, blinkerDriverInterruptHandler, onceRule, isIncrIrq, isHandler, isSignal,
        marked]

section Runs

variable {P : Type} [DecidableEq P] {calls : Call → Prop} {dev : Blinker}
  {tr : List (DriverEvent P)} {s s' : DriverState P} {f : DriverOp → Bool} {kind : Call → Bool}

/-! ## Operations that a kind of call makes once -/

/-- Calls of another kind have not made the operation. -/
theorem marked_of_not_kind (hf : ∀ c : Call, c.code.Obeys (onceRule f kind c) [])
    (hr : Run (driver P calls) (initial P dev) tr s) {t : Tid P} {th : Thread user io Call Int}
    (ht : s.thread t = some th) (hc : kind th.call = false) : marked f th.ops = false := by
  refine hr.history (R := onceRule f kind) (P := fun c ops => kind c = false → marked f ops = false)
    (fun _ _ c _ => hf c) (initial_idle dev) (fun _ _ => rfl) ?_ ht hc
  intro c ops o hok ih hc
  have ho : f o = false := by
    by_contra h
    have hkind := (hok (Bool.not_eq_false _ ▸ h)).1
    rw [hc] at hkind
    contradiction
  simpa [marked, ho] using ih hc

/-- The returns after the operation are those of the kind without a signal. -/
theorem finished_eq_uninterrupted (hf : ∀ c : Call, c.code.Obeys (onceRule f kind c) [])
    (hr : Run (driver P calls) (initial P dev) tr s) : finished f tr = uninterrupted kind tr := by
  refine List.countP_congr fun e he => ?_
  cases hl : e.label with
  | ret t c ops r =>
      obtain ⟨old, hold, hs⟩ := hr.of_mem he
      rw [hl] at hs
      have hfin := hold.obeys (fun _ _ c _ => hf c) (initial_idle dev) t _ hs.ret_inv
      cases hc : kind c with
      | true =>
          have hmark : marked f ops = !marked isSignal ops := hfin hc
          rw [Label.finishes, returnsUninterrupted, hc, hmark, Bool.true_and]
      | false =>
          have hmark := marked_of_not_kind hf hold hs.ret_inv hc
          simp only at hmark
          simp [Label.finishes, returnsUninterrupted, hc, hmark]
  | _ => rfl

/-- With no call of the kind in progress, the operation was made once for each
that has returned without a signal. -/
theorem made_eq_uninterrupted (hf : ∀ c : Call, c.code.Obeys (onceRule f kind c) [])
    (hr : Run (driver P calls) (initial P dev) tr s)
    (hno : ∀ t th, s.thread t = some th → kind th.call = false) :
    made f tr = uninterrupted kind tr := by
  have hnone : ∀ t, ¬ s.Marked f t := by
    rintro t ⟨th, ht, hmarked⟩
    rw [marked_of_not_kind hf hr ht (hno t th ht)] at hmarked
    contradiction
  rw [hr.made_eq_finished (R := onceRule f kind) (fun _ _ _ hok ho => (hok ho).2)
    (fun _ _ c _ => hf c) (initial_idle dev) hnone, finished_eq_uninterrupted hf hr]

/-! ## `g_irq_count` -/

theorem irqCount_of_does {o : DriverOp} {w w' : Shared Mem} {cs : List Cycle}
    (h : Does machine o w cs w') :
    w'.mem.irqCount = w.mem.irqCount + if isIncrIrq o then 1 else 0 := by
  cases h with
  | io w a x ts m heff =>
      cases a <;>
        (simp only [machine, access?] at heff; obtain ⟨_, rfl⟩ := heff; simp [isIncrIrq, Mem.update])
  | _ => simp [isIncrIrq]

theorem irqCount_of_step {l : DriverLabel P} (hs : Step (driver P calls) s l s') :
    s'.mem.irqCount = s.mem.irqCount + if l.makes isIncrIrq then 1 else 0 := by
  cases hs with
  | tick c m h =>
      obtain ⟨_, rfl⟩ := h
      simp [Label.makes]
  | start t c => simp [Label.makes]
  | step t c ops p p' o ts w hrun ht hd => exact irqCount_of_does hd
  | ret t c ops r => simp [Label.makes]

theorem irqCount_eq_made (hr : Run (driver P calls) (initial P dev) tr s) :
    s.mem.irqCount = BitVec.ofNat 32 (made isIncrIrq tr) := by
  induction hr with
  | nil => rfl
  | cons hr hs ih =>
      rw [irqCount_of_step hs, ih, made_cons]
      split <;> simp [BitVec.ofNat_add]

end Runs

/-- **What the counters count.**  In every state of every run, a counter whose
calls are all completed is, modulo its width, the number of those that no signal
ended at the semaphore, whatever they returned; and while no handler runs
`g_irq_count` is the number of handlers that have run. -/
theorem counters_account (P : Type) [DecidableEq P] (calls : Call → Prop) (dev : Blinker)
    (tr : List (DriverEvent P)) (s : DriverState P)
    (hr : Run (driver P calls) (initial P dev) tr s) :
    (∀ k, (∀ t th, s.thread t = some th → th.call.counter ≠ some k) →
      s.mem.count k = BitVec.ofNat 32 (uninterrupted (countedBy k) tr)) ∧
    ((∀ t th, s.thread t = some th → th.call ≠ .interrupt) →
      s.mem.irqCount = BitVec.ofNat 32 (uninterrupted isHandler tr)) := by
  constructor
  · intro k hno
    have hkind : ∀ t th, s.thread t = some th → countedBy k th.call = false := by
      intro t th ht
      simpa [countedBy] using hno t th ht
    rw [count_eq_made hr, made_eq_uninterrupted (fun c => c.code_obeys_onceRule k) hr hkind]
  · intro hno
    have hkind : ∀ t th, s.thread t = some th → isHandler th.call = false := by
      intro t th ht
      simpa [isHandler] using hno t th ht
    rw [irqCount_eq_made hr, made_eq_uninterrupted (fun c => c.code_obeys_onceRule_irq) hr hkind]

/-- Two processes open the device: the open counter is two, and two opens have
returned. -/
theorem counters_account_of_open :
    ∃ (tr : List (DriverEvent Bool)) (s : DriverState Bool),
      Run (driver Bool Call.FileOp) (initial Bool .reset) tr s ∧ s.mem.count .openCount = 2 ∧
        s.mem.count .openCount = BitVec.ofNat 32 (uninterrupted (countedBy .openCount) tr) ∧
        s.mem.irqCount = BitVec.ofNat 32 (uninterrupted isHandler tr) := by
  obtain ⟨tr, s, v, hr, _, hidle, _, _, _, hopen, _⟩ := exists_run_opened
  obtain ⟨hcount, hirq⟩ := counters_account Bool Call.FileOp .reset tr s hr
  refine ⟨tr, s, hr, hopen, hcount .openCount fun t th ht => ?_, hirq fun t th ht => ?_⟩
  · rw [hidle t] at ht
    contradiction
  · rw [hidle t] at ht
    contradiction

end De1Soc
