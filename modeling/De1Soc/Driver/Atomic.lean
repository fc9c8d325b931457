import De1Soc.Driver.Progress
import De1Soc.Kernel.Atomic

/-!
# De1Soc.Driver.Atomic

The critical sections of `g_irq_lock`.

The lock is taken with the interrupts off, and the handler takes it in interrupt
context: nothing that may sleep is allowed inside it, or in the handler at all.
The code keeps to this in every run, and a section is short: the longest is that
of the handler, with two register reads and two assignments (`critical_sections`).
-/

namespace De1Soc

open Kernel

theorem Call.code_obeys_atomic (c : Call) : c.code.Obeys (atomic 4) [] := by
  cases c with
  | devOpen => simp [Call.code, blinkerDevOpen, atomic, lockCount]
  | devRelease => simp [Call.code, blinkerDevRelease, atomic, lockCount]
  | devIoctl cmd arg =>
      cases cmd <;>
        simp [Call.code, blinkerDevIoctl, atomic, lockCount, lastIos, List.takeWhile, Op.isIo,
          Option.forall]
  | devRead userBuffer count =>
      simp [Call.code, blinkerDevRead, atomic, lockCount, lastIos, List.takeWhile, Op.isIo]
  | devWrite userBuffer count =>
      simp [Call.code, blinkerDevWrite, atomic, lockCount, Option.forall]
  | storeConfig data result =>
      simp [Call.code, configStore, atomic, lockCount, lastIos, List.takeWhile, Op.isIo]
  | interrupt =>
      simp [Call.code, blinkerDriverInterruptHandler, atomic, lockCount, lastIos, List.takeWhile,
        Op.isIo]

/-- The handler does nothing that may sleep. -/
def wakefulRule (c : Call) : Rule user io Int where
  ok _ o := c = .interrupt → o.sleeps = false
  fin _ _ := True

theorem Call.code_obeys_wakefulRule (c : Call) : c.code.Obeys (wakefulRule c) [] := by
  by_cases hc : c = .interrupt
  · subst hc
    simp [Call.code, blinkerDriverInterruptHandler, wakefulRule, Op.sleeps]
  · exact Prog.obeys_of_forall (fun _ _ h => absurd h hc) (fun _ _ => trivial) _ _

section Runs

variable {P : Type} {calls : Call → Prop} {dev : Blinker} {tr : List (DriverEvent P)}
  {s : DriverState P} [DecidableEq P]

/-- An operation that may sleep is made by a process, outside the lock. -/
theorem sleeps_outside (hr : Run (driver P calls) (initial P dev) tr s) {e : DriverEvent P}
    (he : e ∈ tr) {t : Tid P} {o : DriverOp} {ts : List Cycle} (hl : e.label = .step t o ts)
    (ho : o.sleeps = true) : t ≠ .irq ∧ ¬ e.pre.HoldsLock t := by
  obtain ⟨old, hold, hs⟩ := hr.of_mem he
  rw [hl] at hs
  obtain ⟨c, ops, p, p', hrun, ht, _, _⟩ := hs.step_inv
  constructor
  · intro hirq
    subst hirq
    have hcall : c = .interrupt := call_of_irq hold hrun
    have hob := hold.obeys (R := wakefulRule) (fun _ _ c _ => c.code_obeys_wakefulRule)
      (initial_idle dev)
    have hawake : o.sleeps = false := ((hob _ _ hrun).takes ht).1 hcall
    rw [ho] at hawake
    contradiction
  · intro hholds
    obtain ⟨th, hth, hone⟩ := hholds
    obtain rfl := Option.some.inj (hrun.symm.trans hth)
    have hob := hold.obeys (fun _ _ c _ => c.code_obeys_atomic) (initial_idle dev)
    obtain hunlock | ⟨hio, _⟩ := ((hob _ _ hrun).takes ht).1 hone
    · rw [hunlock] at ho
      contradiction
    · cases o with
      | io a x => contradiction
      | _ => contradiction

end Runs

/-- **The critical sections of `g_irq_lock`.**  In every run no thread makes an
operation that may sleep while it holds the lock, and the handler makes none at
all.  Since a thread has taken the lock, and until it releases it, it has made
at most four operations, all on registers or variables of the driver, still
holds the lock and can make its next operation, whoever sleeps: the others spin
for a bounded number of its steps. -/
theorem critical_sections (P : Type) [DecidableEq P] (calls : Call → Prop) (dev : Blinker)
    (tr : List (DriverEvent P)) (s : DriverState P)
    (hr : Run (driver P calls) (initial P dev) tr s) :
    (∀ e ∈ tr, ∀ t o ts, e.label = .step t o ts → o.sleeps = true →
      t ≠ .irq ∧ ¬ e.pre.HoldsLock t) ∧
    ∀ new e old t ts, tr = new ++ e :: old → e.label = .step t .lock ts →
      (∀ d ∈ new, ∀ ts, d.label ≠ .step t .unlock ts) →
      s.HoldsLock t ∧ (∀ Z, s.GoesOn (driver P calls) Z t) ∧ (opsOf t new).length ≤ 4 ∧
        ∀ o ∈ opsOf t new, ∃ a x, o = .io a x := by
  refine ⟨fun e he t o ts hl ho => sleeps_outside hr he hl ho, fun new e old t ts htr hl hno => ?_⟩
  subst htr
  obtain ⟨⟨th, hth, hone, _, hle⟩, hios⟩ := hr.atomic (fun _ _ c _ => c.code_obeys_atomic)
    (fun _ _ c _ => c.code_obeys_locking) (initial_idle dev) hl hno
  have hholds : s.HoldsLock t := ⟨th, hth, hone⟩
  have hob := hr.obeys (fun _ _ c _ => c.code_obeys_atomic) (initial_idle dev)
  refine ⟨hholds, hholds.goesOn machine_responsive hob, hle, fun o ho => ?_⟩
  have hio := hios o ho
  cases o with
  | io a x => exact ⟨a, x, rfl⟩
  | _ => contradiction

/-- The handler has set the flag and not released the lock yet: it has made four
operations in the section, and goes on. -/
theorem critical_sections_of_handler :
    ∃ (new old : List (DriverEvent Unit)) (e : DriverEvent Unit) (s : DriverState Unit),
      Run (driver Unit Call.FileOp) (initial Unit { Blinker.reset with irq := true })
        (new ++ e :: old) s ∧ e.label = .step .irq .lock [] ∧ (opsOf .irq new).length = 4 ∧
        s.HoldsLock .irq ∧ s.GoesOn (driver Unit Call.FileOp) ∅ .irq ∧
        (opsOf .irq new).length ≤ 4 := by
  have h1 : Run (driver Unit Call.FileOp) (initial Unit { Blinker.reset with irq := true }) _ _ :=
    .cons .nil (.start _ Tid.irq Call.interrupt rfl ⟨rfl, rfl⟩)
  have h2 := h1.cons (.step _ Tid.irq Call.interrupt [] blinkerDriverInterruptHandler _ .lock [] _ rfl
    (.lock _) (.lock _ rfl))
  have h3 := h2.cons (.step _ Tid.irq Call.interrupt _ _ _ (.io (A := io) (.ioread8 _) _) _ _ rfl
    (.io _ _ _) (.io _ _ _ _ _ (runner.sound _ _)))
  have h4 := h3.cons (.step _ Tid.irq Call.interrupt _ _ _ (.io (A := io) .incrIrqCount ()) _ _ rfl
    (.io _ _ _) (.io _ _ _ _ _ (runner.sound _ _)))
  have h5 := h4.cons (.step _ Tid.irq Call.interrupt _ _ _ (.io (A := io) (.ioread8 _) _) _ _ rfl
    (.io _ _ _) (.io _ _ _ _ _ (runner.sound _ _)))
  have h6 := h5.cons (.step _ Tid.irq Call.interrupt _ _ _ (.io (A := io) (.setInterruptFlag true) ())
    _ _ rfl (.io _ _ _) (.io _ _ _ _ _ (runner.sound _ _)))
  obtain ⟨hholds, hgoes, hlen, _⟩ := (critical_sections Unit Call.FileOp _ _ _ h6).2 [_, _, _, _] _ _
    .irq [] rfl rfl (by simp)
  exact ⟨[_, _, _, _], _, _, _, h6, rfl, rfl, hholds, hgoes ∅, hlen⟩

end De1Soc
