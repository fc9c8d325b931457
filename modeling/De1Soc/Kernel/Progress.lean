import De1Soc.Kernel.Locks
import De1Soc.Kernel.WaitQueue
import Mathlib.Algebra.BigOperators.Group.Finset.Basic

/-!
# De1Soc.Kernel.Progress

Deadlock and termination.

A thread inside a call goes on when it can make its next operation without a
signal, or return.  Otherwise it is `Blocked`: at a semaphore or a spin lock
that is taken, at a wait whose condition is false, or asleep.  Where every call
obeys the rule `locking`, sleeps outside the spin lock (`sleeping`) and wakes
the sleepers when it makes their condition true (`waking`), a state in which no
thread goes on has no thread inside a call, or one that waits in vain with the
semaphore in its hands, and all others queue behind it (`Scheduled.jammed`).

Calls that make a bounded number of operations (`atMost`) also come to their
end: `potential` is what the calls in progress may still do, every step of a
call lowers it, and so a run can go on to a state in which no thread goes on
(`Scheduled.exists_settled`).
-/

namespace Kernel

variable {Q A : Sig} {σ τ T C α : Type}

/-- A signal ends the operation. -/
def Op.signalled : Op Q A → Bool
  | .down intr | .wait intr => intr
  | _ => false

/-- The step belongs to a call that goes on: an operation that no signal has
ended, or a return. -/
def Label.advances : Label Q A τ T C α → Bool
  | .step _ o _ => !o.signalled
  | .ret _ _ _ _ => true
  | _ => false

/-- The turn is a step of a call that goes on. -/
def Turn.advances : Turn Q A σ τ T C α → Bool
  | .move e => e.label.advances
  | _ => false

/-- The step begins a call. -/
def Label.starts : Label Q A τ T C α → Bool
  | .start _ _ => true
  | _ => false

/-- The step is an operation or a return. -/
def Label.works : Label Q A τ T C α → Bool
  | .step _ _ _ | .ret _ _ _ _ => true
  | _ => false

/-- The calls that a run has begun. -/
def begun (tr : List (Event Q A σ τ T C α)) : Nat := tr.countP fun e => e.label.starts

/-- The operations and returns of a run. -/
def worked (tr : List (Event Q A σ τ T C α)) : Nat := tr.countP fun e => e.label.works

theorem begun_cons (e : Event Q A σ τ T C α) (tr : List (Event Q A σ τ T C α)) :
    begun (e :: tr) = begun tr + if e.label.starts then 1 else 0 := List.countP_cons

theorem worked_cons (e : Event Q A σ τ T C α) (tr : List (Event Q A σ τ T C α)) :
    worked (e :: tr) = worked tr + if e.label.works then 1 else 0 := List.countP_cons

/-- What keeps code from its next operation; `z` says that its thread sleeps. -/
inductive Blocked (M : Machine Q A σ τ) (w : Shared σ) (z : Prop) : Prog Q A α → Prop
  | down (k : Bool → Prog Q A α) (h : w.sem = 0) : Blocked M w z (.down k)
  | lock (k : Prog Q A α) (h : w.lock = true) : Blocked M w z (.lock k)
  | wait (k : Bool → Prog Q A α) (h : M.ready w.mem → z) : Blocked M w z (.wait k)

/-- The semaphore is taken when it is free. -/
theorem Does.sem_pos {M : Machine Q A σ τ} {w w' : Shared σ} {ts : List τ}
    (h : Does M (.down false) w ts w') : 0 < w.sem := by
  cases h with
  | down _ h => exact h

/-- Every operation outside the locks has an outcome. -/
structure Machine.Responsive (M : Machine Q A σ τ) : Prop where
  act : ∀ a m, ∃ x ts m', M.eff a m x ts m'
  answer : ∀ q, Nonempty (Q.Res q)

/-- A call sleeps on the wait queue with the semaphore and without the lock. -/
def sleeping : Rule Q A α where
  ok ops
    | .wait _ => semCount ops = 1 ∧ lockCount ops = 0
    | _ => True
  fin _ _ := True

/-- A call makes at most `n` operations. -/
def atMost (n : Nat) : Rule Q A α where
  ok ops _ := ops.length < n
  fin ops _ := ops.length ≤ n

section Steps

variable [DecidableEq T] {S : System Q A σ τ T C α} {s₀ s s' : State Q A σ T C α}
  {tr : List (Event Q A σ τ T C α)} {l : Label Q A τ T C α} {turns : List (Turn Q A σ τ T C α)}
  {Z : Set T} {raises : A.Op → Bool}

/-- A thread inside a call makes its next operation without a signal, or
returns, the threads `Z` being asleep. -/
def State.GoesOn (S : System Q A σ τ T C α) (s : State Q A σ T C α) (Z : Set T) (t : T) : Prop :=
  ∃ l s', Step S s l s' ∧ l.Awake Z ∧ l.advances = true ∧ l.thread? = some t

/-- No thread inside a call goes on. -/
def State.Jammed (S : System Q A σ τ T C α) (s : State Q A σ T C α) (Z : Set T) : Prop :=
  ∀ t, ¬ s.GoesOn S Z t

/-! ## Who goes on -/

omit [DecidableEq T] in
/-- Code that is not blocked returns or makes its next operation. -/
theorem exists_does (hM : S.toMachine.Responsive) (w : Shared σ) (p : Prog Q A α) (z : Prop)
    (h : ¬ Blocked S.toMachine w z p) :
    (∃ r, p = .ret r) ∨ ∃ o p' ts w', p.Takes o p' ∧ o.signalled = false ∧
      Does S.toMachine o w ts w' ∧ (o = .wait false → ¬ z) := by
  cases p with
  | ret r => exact .inl ⟨r, rfl⟩
  | down k =>
      have hsem : 0 < w.sem := Nat.pos_of_ne_zero fun h0 => h (.down k h0)
      exact .inr ⟨_, _, _, _, .down k false, rfl, .down w hsem, by simp⟩
  | up k => exact .inr ⟨_, _, _, _, .up k, rfl, .up w, by simp⟩
  | lock k =>
      have hlock : w.lock = false := Bool.eq_false_of_not_eq_true fun h1 => h (.lock k h1)
      exact .inr ⟨_, _, _, _, .lock k, rfl, .lock w hlock, by simp⟩
  | unlock k => exact .inr ⟨_, _, _, _, .unlock k, rfl, .unlock w, by simp⟩
  | wait k =>
      have hready : S.ready w.mem := by
        by_contra hno
        exact h (.wait k fun hyes => absurd hyes hno)
      exact .inr ⟨_, _, _, _, .wait k false, rfl, .wait w hready, fun _ hz => h (.wait k fun _ => hz)⟩
  | ask q k =>
      obtain ⟨x⟩ := hM.answer q
      exact .inr ⟨_, _, _, _, .ask q k x, rfl, .ask w q x, by simp⟩
  | io a k =>
      obtain ⟨x, ts, m, heff⟩ := hM.act a w.mem
      exact .inr ⟨_, _, _, _, .io a k x, rfl, .io w a x ts m heff, by simp⟩

/-- **A thread inside a call goes on or is blocked.** -/
theorem goesOn_or_blocked (hM : S.toMachine.Responsive) (Z : Set T) {t : T} {th : Thread Q A C α}
    (ht : s.thread t = some th) :
    s.GoesOn S Z t ∨ Blocked S.toMachine s.toShared (t ∈ Z) th.rest := by
  by_cases hblocked : Blocked S.toMachine s.toShared (t ∈ Z) th.rest
  · exact .inr hblocked
  left
  obtain ⟨c, ops, p⟩ := th
  obtain ⟨r, rfl⟩ | ⟨o, p', ts, w', htake, hsig, hdoes, hawake⟩ :=
    exists_does hM s.toShared p (t ∈ Z) hblocked
  · exact ⟨_, _, .ret s t c ops r ht, trivial, rfl, rfl⟩
  · refine ⟨_, _, .step s t c ops p p' o ts w' ht htake hdoes, ?_, by simp [Label.advances, hsig], rfl⟩
    cases o with
    | wait b =>
        obtain rfl : b = false := hsig
        exact hawake rfl
    | _ => trivial

/-! ## States in which nothing goes on -/

/-- The rules of calls that cannot block each other for good. -/
structure System.Fair (S : System Q A σ τ T C α) (raises : A.Op → Bool) : Prop where
  responsive : S.toMachine.Responsive
  raisedBy : S.toMachine.RaisedBy raises
  locking : ∀ t m c, S.entry t m c → (S.code c).Obeys locking []
  sleeping : ∀ t m c, S.entry t m c → (S.code c).Obeys sleeping []
  waking : ∀ t m c, S.entry t m c → (S.code c).Obeys (waking S.toMachine raises) []

/-- The state waits for the wait queue only: thread `t` is at its wait with the
semaphore and the condition is false, and every other call is at its `down`. -/
structure State.QueuesBehind (S : System Q A σ τ T C α) (s : State Q A σ T C α) (t : T) : Prop where
  holds : s.HoldsSem t
  waits : s.AtWait t
  unready : ¬ S.ready s.mem
  queued : ∀ u th, s.thread u = some th → u ≠ t → ∃ k, th.rest = .down k

section Jam

variable (hS : S.Fair raises) (h₀ : s₀.Idle) (hsem : s₀.sem = 1) (hlock : s₀.lock = false)
  (h : Scheduled S s₀ turns s Z) (hj : s.Jammed S Z)

include hS h₀ hsem hlock h hj

/-- In a jammed state nobody holds the spin lock. -/
theorem Scheduled.lock_of_jammed : s.lock = false := by
  by_contra htaken
  have hlocks := h.run.locks hS.locking h₀ hsem hlock
  obtain ⟨t, th, ht, hone⟩ := hlocks.lock.eq_zero_iff.mp (by simp [htaken])
  have hrule := h.run.obeys (R := fun _ => locking) hS.locking h₀ t th ht
  have hwait := h.run.obeys (R := fun _ => sleeping) hS.sleeping h₀ t th ht
  obtain hgo | hblocked := goesOn_or_blocked hS.responsive Z ht
  · exact hj t hgo
  · -- the holder is at no operation that blocks
    generalize hp : th.rest = p at hblocked hrule hwait
    cases hblocked with
    | down k => exact absurd (hone.symm.trans (hrule true).1.2) (by decide)
    | lock k => exact absurd (hone.symm.trans hrule.1) (by decide)
    | wait k => exact absurd (hone.symm.trans (hwait true).1.2) (by decide)

omit hsem hlock in
/-- In a jammed state nobody owes a wake-up. -/
theorem Scheduled.not_owes_of_jammed : ¬ s.Owes S.toMachine raises := by
  rintro ⟨t, th, ht, howes⟩
  have hrule := h.run.obeys (R := fun _ => waking S.toMachine raises) hS.waking h₀ t th ht
  obtain hgo | hblocked := goesOn_or_blocked hS.responsive Z ht
  · exact hj t hgo
  · generalize hp : th.rest = p at hblocked hrule
    cases hblocked with
    | down k => exact absurd (howes.symm.trans (hrule true).1) (by decide)
    | lock k => exact absurd (howes.symm.trans hrule.1) (by decide)
    | wait k => exact absurd (howes.symm.trans (hrule true).1) (by decide)

/-- In a jammed state every call is at a semaphore that is taken, or waits in
vain with the semaphore. -/
theorem Scheduled.thread_cases_of_jammed {t : T} {th : Thread Q A C α} (ht : s.thread t = some th) :
    (s.sem = 0 ∧ ¬ s.HoldsSem t ∧ ∃ k, th.rest = .down k) ∨
      (s.HoldsSem t ∧ ¬ S.ready s.mem ∧ ∃ k, th.rest = .wait k) := by
  have hfree := h.lock_of_jammed hS h₀ hsem hlock hj
  have hpaid := h.not_owes_of_jammed hS h₀ hj
  have hrule := h.run.obeys (R := fun _ => locking) hS.locking h₀ t th ht
  have hwait := h.run.obeys (R := fun _ => sleeping) hS.sleeping h₀ t th ht
  obtain hgo | hblocked := goesOn_or_blocked hS.responsive Z ht
  · exact absurd hgo (hj t)
  generalize hp : th.rest = p at hblocked hrule hwait
  cases hblocked with
  | down k hsem =>
      refine .inl ⟨hsem, ?_, k, rfl⟩
      rintro ⟨th', ht', hone⟩
      obtain rfl := Option.some.inj (ht'.symm.trans ht)
      exact absurd (hone.symm.trans (hrule true).1.1) (by decide)
  | lock k htaken => exact absurd (htaken.symm.trans hfree) (by decide)
  | wait k hasleep =>
      -- beside a true condition it would sleep, and somebody would owe it a wake-up
      refine .inr ⟨⟨th, ht, (hwait true).1.1⟩, fun hready => hpaid ?_, k, rfl⟩
      exact h.woken hS.raisedBy hS.waking h₀ ⟨t, hasleep hready⟩ hready

/-- **What a jam is**: no call is in progress, or one waits in vain with the
semaphore and the others queue behind it. -/
theorem Scheduled.jammed : s.Idle ∨ ∃ t, s.QueuesBehind S t := by
  by_cases hidle : s.Idle
  · exact .inl hidle
  right
  have hlocks := h.run.locks hS.locking h₀ hsem hlock
  have hcases := fun t (th : Thread Q A C α) (ht : s.thread t = some th) =>
    h.thread_cases_of_jammed hS h₀ hsem hlock hj ht
  -- somebody holds the semaphore: the thread itself, or the one it queues behind
  have hholder : ∃ t, s.HoldsSem t := by
    simp only [State.Idle, not_forall] at hidle
    obtain ⟨t, ht⟩ := hidle
    obtain ⟨th, ht⟩ := Option.ne_none_iff_exists'.mp ht
    obtain ⟨hzero, _⟩ | ⟨hholds, _⟩ := hcases t th ht
    · exact hlocks.sem.eq_zero_iff.mp hzero
    · exact ⟨t, hholds⟩
  obtain ⟨t, hholds⟩ := hholder
  obtain ⟨th, ht, _⟩ := id hholds
  obtain ⟨_, hno, _⟩ | ⟨_, hready, k, hk⟩ := hcases t th ht
  · exact absurd hholds hno
  refine ⟨t, hholds, ⟨th, k, ht, hk⟩, hready, fun u thu hu hut => ?_⟩
  obtain ⟨_, _, hdown⟩ | ⟨hholds', _⟩ := hcases u thu hu
  · exact hdown
  · exact absurd (hlocks.sem.unique hholds hholds') hut

end Jam

/-! ## What the calls in progress may still do -/

/-- The operations that a thread may still make, and its return. -/
def State.remaining (n : Nat) (s : State Q A σ T C α) (t : T) : Nat :=
  match s.thread t with
  | some th => n + 1 - th.ops.length
  | none => 0

/-- `F` has the threads inside a call, and they may still make `k` steps. -/
structure State.Potential (n : Nat) (s : State Q A σ T C α) (F : Finset T) (k : Nat) : Prop where
  mem : ∀ t, t ∈ F ↔ s.thread t ≠ none
  sum : ∑ t ∈ F, s.remaining n t = k

omit [DecidableEq T] in
theorem State.remaining_of_thread {n : Nat} {t : T} {th : Thread Q A C α}
    (h : s.thread t = some th) : s.remaining n t = n + 1 - th.ops.length := by
  simp [State.remaining, h]

/-- A step moves what its own thread may still do, and nothing else. -/
theorem Step.remaining_of_ne {n : Nat} {u : T} (hs : Step S s l s') (hu : l.thread? ≠ some u) :
    s'.remaining n u = s.remaining n u := by
  simp only [State.remaining, hs.thread_of_ne hu]

/-- The threads inside a call after a step, and what they may still do. -/
theorem Step.sum_remaining {n : Nat} {F : Finset T} {t : T} (hs : Step S s l s')
    (hl : l.thread? = some t) :
    ∑ u ∈ F.erase t, s'.remaining n u = ∑ u ∈ F.erase t, s.remaining n u := by
  refine Finset.sum_congr rfl fun u hu => ?_
  have hne : u ≠ t := Finset.ne_of_mem_erase hu
  apply hs.remaining_of_ne
  rw [hl]
  exact fun h => hne (Option.some.inj h).symm

/-- **A step and the potential**: beginning a call adds `n + 1`, every
operation and return takes at least one away. -/
theorem Step.potential {n : Nat} {F : Finset T} {k : Nat} (hs : Step S s l s')
    (hob : s.Obeys fun _ => atMost n) (h : s.Potential n F k) :
    ∃ F' k', s'.Potential n F' k' ∧
      k' + (if l.works then 1 else 0) ≤ k + if l.starts then n + 1 else 0 := by
  have hstep := hs
  cases hs with
  | tick c m henv => exact ⟨F, k, ⟨h.mem, h.sum⟩, le_rfl⟩
  | start t c hidle henter =>
      have hno : t ∉ F := by simp [h.mem, hidle]
      have hsum := hstep.sum_remaining (n := n) (F := F) (t := t) rfl
      rw [Finset.erase_eq_of_notMem hno, h.sum] at hsum
      refine ⟨insert t F, k + (n + 1), ⟨fun u => ?_, ?_⟩, le_rfl⟩
      · by_cases hut : u = t
        · simp [hut]
        · simp [hut, h.mem]
      · rw [Finset.sum_insert hno, hsum, State.remaining_of_thread (Function.update_self ..)]
        exact Nat.add_comm ..
  | step t c ops p p' o ts w hrun ht hd =>
      have hin : t ∈ F := by simp [h.mem, hrun]
      have hlt : ops.length < n := ((hob t _ hrun).takes ht).1
      have hsum := hstep.sum_remaining (n := n) (F := F) (t := t) rfl
      have hbefore := Finset.add_sum_erase F (s.remaining n) hin
      rw [h.sum, State.remaining_of_thread hrun] at hbefore
      refine ⟨F, _, ⟨fun u => ?_, rfl⟩, ?_⟩
      · by_cases hut : u = t
        · simp [hut, hin]
        · simp [hut, h.mem]
      · rw [← Finset.add_sum_erase F _ hin, hsum,
          State.remaining_of_thread (Function.update_self ..), ← hbefore]
        simp only [Label.works, Label.starts, List.length_cons, if_true, Bool.false_eq_true, if_false]
        omega
  | ret t c ops r hrun =>
      have hin : t ∈ F := by simp [h.mem, hrun]
      have hle : ops.length ≤ n := hob t _ hrun
      have hsum := hstep.sum_remaining (n := n) (F := F) (t := t) rfl
      have hbefore := Finset.add_sum_erase F (s.remaining n) hin
      rw [h.sum, State.remaining_of_thread hrun] at hbefore
      refine ⟨F.erase t, _, ⟨fun u => ?_, rfl⟩, ?_⟩
      · by_cases hut : u = t
        · simp [hut]
        · simp [hut, h.mem]
      · rw [hsum, ← hbefore]
        simp only [Label.works, Label.starts, if_true, Bool.false_eq_true, if_false]
        omega

/-- **Every call is bounded**: what the calls in progress may still do and what
was done is no more than `n + 1` for each call that was begun. -/
theorem Run.potential {n : Nat} (hcode : ∀ t m c, S.entry t m c → (S.code c).Obeys (atMost n) [])
    (h₀ : s₀.Idle) (hr : Run S s₀ tr s) :
    ∃ F k, s.Potential n F k ∧ worked tr + k ≤ (n + 1) * begun tr := by
  induction hr with
  | nil => exact ⟨∅, 0, ⟨fun t => by simp [h₀ t], rfl⟩, Nat.zero_le _⟩
  | @cons tr s s' l hr hs ih =>
      obtain ⟨F, k, hk, hbound⟩ := ih
      obtain ⟨F', k', hk', hstep⟩ := hs.potential (hr.obeys hcode h₀) hk
      refine ⟨F', k', hk', ?_⟩
      have hcredit : (if l.starts then n + 1 else 0) = (n + 1) * if l.starts then 1 else 0 := by
        split <;> simp
      rw [worked_cons, begun_cons, Nat.mul_add]
      simp only
      omega

/-- **Calls come to their end**: by the steps of the calls in progress alone,
and no more of them than what these may still do, a run comes to a state in
which no thread goes on. -/
theorem Scheduled.exists_settled {n : Nat}
    (hcode : ∀ t m c, S.entry t m c → (S.code c).Obeys (atMost n) []) (h₀ : s₀.Idle)
    {F : Finset T} {k : Nat} (h : Scheduled S s₀ turns s Z) (hk : s.Potential n F k) :
    ∃ new s' Z', Scheduled S s₀ (new ++ turns) s' Z' ∧ (∀ x ∈ new, x.advances = true) ∧
      new.length ≤ k ∧ s'.Jammed S Z' := by
  induction k using Nat.strong_induction_on generalizing turns s Z F with
  | _ k ih =>
      by_cases hj : s.Jammed S Z
      · exact ⟨[], s, Z, h, by simp, Nat.zero_le _, hj⟩
      · simp only [State.Jammed, not_forall, not_not] at hj
        obtain ⟨t, l, s', hs, hawake, hadv, _⟩ := hj
        obtain ⟨F', k', hk', hstep⟩ := hs.potential (h.run.obeys hcode h₀) hk
        have hlt : k' + 1 ≤ k := by
          cases l with
          | step t o ts => exact hstep
          | ret t c ops r => exact hstep
          | _ => contradiction
        obtain ⟨new, s'', Z', hrun, hall, hlen, hsettled⟩ :=
          ih k' (by omega) (h.move hs hawake) hk'
        refine ⟨new ++ [.move ⟨s, l, s'⟩], s'', Z', by simpa using hrun, ?_, ?_, hsettled⟩
        · simp only [List.mem_append, List.mem_singleton, or_imp, forall_and, forall_eq]
          exact ⟨hall, hadv⟩
        · rw [List.length_append, List.length_singleton]
          omega

/-- By the steps of the calls in progress nobody gets into another call. -/
theorem Scheduled.call_of_advances {new : List (Turn Q A σ τ T C α)} {Z' : Set T}
    (h : Scheduled S s₀ turns s Z) (h' : Scheduled S s₀ (new ++ turns) s' Z')
    (hall : ∀ x ∈ new, x.advances = true) {t : T} {th : Thread Q A C α}
    (ht : s'.thread t = some th) : ∃ th₀, s.thread t = some th₀ ∧ th₀.call = th.call := by
  induction new generalizing s' Z' th with
  | nil =>
      obtain rfl := h.run.unique h'.run
      exact ⟨th, ht, rfl⟩
  | cons x new ih =>
      rw [List.forall_mem_cons] at hall
      cases h' with
      | sleep hold => exact absurd hall.1 (by simp [Turn.advances])
      | signal hold => exact absurd hall.1 (by simp [Turn.advances])
      | move hold hs hl =>
          obtain hsame | ⟨c, rfl, _⟩ | ⟨ops, p, o, ts, _, hrun, _⟩ := hs.thread_cases ht
          · exact ih hold hall.2 hsame
          · exact absurd hall.1 (by simp [Turn.advances, Label.advances])
          · have hbefore := ih hold hall.2 hrun
            exact hbefore

end Steps

end Kernel
