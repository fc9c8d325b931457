import De1Soc.Kernel.Progress

/-!
# De1Soc.Kernel.Atomic

Critical sections of the spin lock.

Who holds a spin lock must not sleep, and others spin until it is released.
The rule `atomic n` asks of a call that between acquisition and release it makes
shared operations only, and at most `n` of them.  `Run.atomic` follows a section
from its acquisition on: the holder has stayed in it, goes on from every state,
and has made no more than the rule allows.
-/

namespace Kernel

variable {Q A : Sig} {σ τ T C α : Type}

/-- The operation may put its thread to sleep: the semaphore, the wait queue and
accesses to user memory, which may fault. -/
def Op.sleeps : Op Q A → Bool
  | .down _ | .wait _ | .ask _ _ => true
  | .up | .lock | .unlock | .io _ _ => false

/-- An operation on the shared data. -/
def Op.isIo : Op Q A → Bool
  | .io _ _ => true
  | .down _ | .up | .lock | .unlock | .wait _ | .ask _ _ => false

/-- The shared operations made last, up to another operation. -/
def lastIos (ops : List (Op Q A)) : List (Op Q A) := ops.takeWhile Op.isIo

/-- Inside the lock a call makes at most `n` shared operations and then releases
it. -/
def atomic (n : Nat) : Rule Q A α where
  ok ops o := lockCount ops = 1 → o = .unlock ∨ (o.isIo = true ∧ (lastIos ops).length < n)
  fin _ _ := True

theorem lockCount_cons_io {o : Op Q A} (ops : List (Op Q A)) (h : o.isIo = true) :
    lockCount (o :: ops) = lockCount ops := by
  cases o with
  | io a x => rfl
  | _ => contradiction

section Steps

variable [DecidableEq T] {S : System Q A σ τ T C α} {s₀ s s' : State Q A σ T C α}
  {tr : List (Event Q A σ τ T C α)} {n : Nat} {t : T}

/-- **The holder of the lock goes on**, whoever sleeps. -/
theorem State.HoldsLock.goesOn (h : s.HoldsLock t) (hM : S.toMachine.Responsive)
    (hob : s.Obeys fun _ => atomic n) (Z : Set T) : s.GoesOn S Z t := by
  obtain ⟨th, hth, hone⟩ := h
  obtain hgoes | hblocked := goesOn_or_blocked hM Z hth
  · exact hgoes
  · -- what it would be blocked at is not allowed inside the lock
    have hrest := hob t th hth
    generalize th.rest = p at hblocked hrest
    cases hblocked with
    | down k hsem => simpa [Op.isIo] using (hrest false).1 hone
    | lock k hlock => simpa [Op.isIo] using hrest.1 hone
    | wait k hready => simpa [Op.isIo] using (hrest false).1 hone

/-- A critical section `k` operations after its acquisition. -/
def State.Inside (s : State Q A σ T C α) (t : T) (n k : Nat) : Prop :=
  ∃ th, s.thread t = some th ∧ lockCount th.ops = 1 ∧ (lastIos th.ops).length = k ∧ k ≤ n

/-- **One step in a critical section**: its thread makes a shared operation or
releases the lock. -/
theorem Step.inside {t u : T} {o : Op Q A} {ts : List τ} {k : Nat}
    (hs : Step S s (.step u o ts) s') (hob : s.Obeys fun _ => atomic n) (h : s.Inside t n k) :
    if u = t then o = .unlock ∨ (o.isIo = true ∧ s'.Inside t n (k + 1)) else s'.Inside t n k := by
  obtain ⟨th, hth, hone, hlast, hk⟩ := h
  split
  · next hu =>
      subst hu
      obtain ⟨c, ops, p, p', hrun, ht, _, hpost⟩ := hs.step_inv
      obtain rfl := Option.some.inj (hrun.symm.trans hth)
      obtain hunlock | ⟨hio, hlt⟩ := ((hob u _ hrun).takes ht).1 hone
      · exact .inl hunlock
      · have hpost' : s'.thread u = some ⟨c, o :: ops, p'⟩ := by rw [hpost, Function.update_self]
        refine .inr ⟨hio, _, hpost', (lockCount_cons_io ops hio).trans hone, ?_, ?_⟩
        · rw [lastIos, List.takeWhile_cons_of_pos hio, List.length_cons, ← hlast, lastIos]
        · rw [← hlast]
          exact hlt
  · next hu =>
      have hsame := hs.thread_of_ne fun h => hu (Option.some.inj h)
      exact ⟨th, hsame.trans hth, hone, hlast, hk⟩

/-- **A critical section along a run.**  As long as the thread has not released
the lock it has made shared operations only, at most `n`. -/
theorem Run.atomic {new old : List (Event Q A σ τ T C α)} {e : Event Q A σ τ T C α} {ts : List τ}
    (hcode : ∀ t m c, S.entry t m c → (S.code c).Obeys (atomic n) [])
    (hlock : ∀ t m c, S.entry t m c → (S.code c).Obeys locking []) (h₀ : s₀.Idle)
    (hr : Run S s₀ (new ++ e :: old) s) (he : e.label = .step t .lock ts)
    (hno : ∀ d ∈ new, ∀ ts, d.label ≠ .step t .unlock ts) :
    s.Inside t n (opsOf t new).length ∧ ∀ o ∈ opsOf t new, o.isIo = true := by
  refine hr.since (fun new s => s.Inside t n (opsOf t new).length ∧ ∀ o ∈ opsOf t new, o.isIo = true)
    ?_ ?_
  · -- the acquisition
    obtain ⟨hold, hs⟩ := hr.split rfl
    rw [he] at hs
    obtain ⟨c, ops, p, p', hrun, ht, _, hpost⟩ := hs.step_inv
    have hzero : lockCount ops = 0 := ((hold.obeys hlock h₀ t _ hrun).takes ht).1
    have hpost' : e.post.thread t = some ⟨c, .lock :: ops, p'⟩ := by
      rw [hpost, Function.update_self]
    refine ⟨⟨_, hpost', ?_, rfl, Nat.zero_le _⟩, by simp [opsOf]⟩
    show lockCount ops + 1 = 1
    omega
  · intro mid s l s' hrun hs hmem hI
    obtain ⟨⟨th, hth, hin⟩, hios⟩ := hI
    cases l with
    | tick c =>
        exact ⟨⟨th, (hs.thread_of_ne (by simp [Label.thread?])).trans hth, hin⟩, hios⟩
    | start u c =>
        have hne : u ≠ t := by
          intro hu
          subst hu
          rw [hs.start_idle] at hth
          contradiction
        exact ⟨⟨th, (hs.thread_of_ne (by simpa [Label.thread?] using hne)).trans hth, hin⟩, hios⟩
    | ret u c ops r =>
        have hne : u ≠ t := by
          -- a call returns with the lock released
          intro hu
          subst hu
          have hret := hs.ret_inv
          have hfin : semCount ops = 0 ∧ lockCount ops = 0 := hrun.obeys hlock h₀ u _ hret
          obtain rfl := Option.some.inj (hret.symm.trans hth)
          exact absurd (hfin.2.symm.trans hin.1) (by decide)
        exact ⟨⟨th, (hs.thread_of_ne (by simpa [Label.thread?] using hne)).trans hth, hin⟩, hios⟩
    | step u o ts =>
        have hstep := hs.inside (hrun.obeys hcode h₀) ⟨th, hth, hin⟩
        by_cases hu : u = t
        · subst hu
          rw [if_pos rfl] at hstep
          obtain hunlock | ⟨hio, hafter⟩ := hstep
          · subst hunlock
            exact absurd rfl (hno _ hmem ts)
          · simp only [opsOf, if_pos, List.length_cons, List.forall_mem_cons]
            exact ⟨hafter, hio, hios⟩
        · rw [if_neg hu] at hstep
          simp only [opsOf, if_neg hu]
          exact ⟨hstep, hios⟩

end Steps

end Kernel
