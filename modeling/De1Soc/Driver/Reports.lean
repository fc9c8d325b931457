import De1Soc.Driver.Interrupt
import De1Soc.Kernel.Ledger

/-!
# De1Soc.Driver.Reports

No read reports an interrupt that was not there.

A press reaches a process in three stages: it raises `irq`, the handler begins
while `irq` is up and sets the flag, and a `blinker_dev_read` passes its wait
while the flag is up.  Each stage has one place in stock, and what is taken from
it was put there before: the line is taken by the handler that will read STATE,
the flag by the reader that will clear it.  So the reads that pass are at most
the runs of the handler, and these at most the cycles in which a button was
active with the interrupt enabled (`reports_le_presses`).
-/

namespace De1Soc

open Kernel

/-! ## The line -/

namespace Blinker

/-- The cycles that raise `irq`. -/
def raises (s : Blinker) : List Cycle → Nat
  | [] => 0
  | c :: cs => (c.press && s.enaIrq).toNat + (s.clk c).raises cs

theorem raises_append (s : Blinker) (cs ds : List Cycle) :
    s.raises (cs ++ ds) = s.raises cs + (s.run cs).raises ds := by
  induction cs generalizing s with
  | nil => simp [raises]
  | cons c cs ih => simp [raises, ih, Nat.add_assoc]

theorem irq_clk_le (s : Blinker) {c : Cycle} (hc : c.reset = false) :
    (s.clk c).irq.toNat ≤ s.irq.toNat + (c.press && s.enaIrq).toNat := by
  simp only [clk, hc, interruptControl, Bool.false_eq_true, if_false]
  split
  · simp [*]
  · split <;> simp

/-- A line that is up was up, or has been raised. -/
theorem irq_run_le (s : Blinker) {cs : List Cycle} (h : ∀ c ∈ cs, c.reset = false) :
    (s.run cs).irq.toNat ≤ s.irq.toNat + s.raises cs := by
  induction cs generalizing s with
  | nil => exact Nat.le_add_right ..
  | cons c cs ih =>
      rw [List.forall_mem_cons] at h
      have hone := s.irq_clk_le h.1
      have hrest := ih (s.clk c) h.2
      rw [run_cons, raises]
      omega

/-- A line that is up after a STATE read was raised during it. -/
theorem irq_run_le_of_reads (s : Blinker) {held : List Cycle} {c : Cycle} (h : c.Reads true) :
    (s.run (held ++ [c])).irq.toNat ≤ s.raises (held ++ [c]) := by
  obtain ⟨hreset, hread, _, haddr⟩ := h
  have hlast : ((s.run held).clk c).irq.toNat ≤ (c.press && (s.run held).enaIrq).toNat := by
    simp only [clk, hreset, interruptControl, hread, haddr, Bool.false_eq_true, if_false]
    split
    · simp [*]
    · simp
  rw [run_append, raises_append]
  simp only [run_cons, run_nil, raises]
  omega

end Blinker

/-! ## What is counted -/

/-- The operation passes the wait. -/
def isPass : DriverOp → Bool
  | .wait intr => !intr
  | _ => false

/-- The operation sets the flag. -/
def isRaise : DriverOp → Bool
  | .io (.setInterruptFlag b) _ => b
  | _ => false

/-- The operation reads STATE as the handler does. -/
def isStateRead : DriverOp → Bool
  | .io (.ioread8 address) _ => address
  | _ => false

section Counts

variable {P : Type}

/-- The handler begins. -/
def beginsHandler : DriverLabel P → Bool
  | .start .irq _ => true
  | _ => false

/-- The reads of a run that have passed their wait. -/
def reports (tr : List (DriverEvent P)) : Nat := total (fun e => (e.label.makes isPass).toNat) tr

/-- The runs of the handler that have begun. -/
def handlerRuns (tr : List (DriverEvent P)) : Nat :=
  total (fun e => (beginsHandler e.label).toNat) tr

/-- The cycles of a run in which a button was active with the interrupt
enabled. -/
def presses (tr : List (DriverEvent P)) : Nat :=
  total (fun e => e.pre.mem.dev.raises e.label.ticks) tr

/-! ## From the button to the handler -/

/-- The line is up, and no handler is on its way to read STATE. -/
def lineStock (s : DriverState P) : Nat :=
  match s.thread .irq with
  | some th => (marked isStateRead th.ops && s.mem.dev.irq).toNat
  | none => s.mem.dev.irq.toNat

/-- A handler is on its way to set the flag. -/
def handlerStock (s : DriverState P) : Nat :=
  match s.thread .irq with
  | some th => (!marked isRaise th.ops).toNat
  | none => 0

end Counts

/-- The handler reads STATE before it returns, and only it sets the flag,
once. -/
def relayRule (c : Call) : Rule user io Int where
  ok ops o := isRaise o = true → c = .interrupt ∧ marked isRaise ops = false
  fin ops _ := c = .interrupt → marked isStateRead ops = true

theorem Call.code_obeys_relayRule (c : Call) : c.code.Obeys (relayRule c) [] := by
  cases c with
  | devOpen => simp [Call.code, blinkerDevOpen, relayRule, isRaise]
  | devRelease => simp [Call.code, blinkerDevRelease, relayRule, isRaise]
  | devIoctl cmd arg =>
      cases cmd <;> simp [Call.code, blinkerDevIoctl, relayRule, isRaise, Option.forall]
  | devRead userBuffer count => simp [Call.code, blinkerDevRead, relayRule, isRaise]
  | devWrite userBuffer count => simp [Call.code, blinkerDevWrite, relayRule, isRaise, Option.forall]
  | storeConfig data result => simp [Call.code, configStore, relayRule, isRaise]
  | interrupt =>
      simp [Call.code, blinkerDriverInterruptHandler, relayRule, isRaise, isStateRead, marked]

section Runs

variable {P : Type} [DecidableEq P] {calls : Call → Prop} {dev : Blinker}
  {tr : List (DriverEvent P)} {s s' : DriverState P} {l : DriverLabel P}

theorem run_obeys_relayRule (hr : Run (driver P calls) (initial P dev) tr s) :
    s.Obeys relayRule :=
  hr.obeys (fun _ _ c _ => c.code_obeys_relayRule) (initial_idle dev)

/-- Every step leaves a line up only that was up or is raised in it. -/
theorem irq_le_of_step (hs : Step (driver P calls) s l s') :
    s'.mem.dev.irq.toNat ≤ s.mem.dev.irq.toNat + s.mem.dev.raises l.ticks := by
  rw [dev_of_step hs]
  apply Blinker.irq_run_le
  intro c hc
  obtain ⟨t, o, x, ts, rfl, _, hread⟩ | ⟨_, hno⟩ := reads_of_step hs
  · exact (hread c hc).1
  · exact (hno c hc).1

/-- A STATE read leaves a line up only that is raised in it. -/
theorem irq_le_of_stateRead {t : Tid P} {o : DriverOp} {ts : List Cycle}
    (hs : Step (driver P calls) s (.step t o ts) s') (ho : isStateRead o = true) :
    s'.mem.dev.irq.toNat ≤ s.mem.dev.raises ts := by
  have hacc : ∃ x, access? o = some (.read true x) := by
    cases o with
    | io a x =>
        cases a with
        | ioread8 address =>
            obtain rfl : address = true := ho
            exact ⟨x, rfl⟩
        | _ => contradiction
    | _ => contradiction
  obtain ⟨x, hx⟩ := hacc
  obtain ⟨_, _, _, _, _, _, hd, _⟩ := hs.step_inv
  obtain ⟨⟨held, c, rfl, hread, _⟩, _⟩ := dev_of_does_some hd hx
  rw [dev_of_step hs]
  exact s.mem.dev.irq_run_le_of_reads (hread c (by simp))

/-- **Button to handler**: a handler begins on a line that was raised. -/
theorem lineStock_step (hr : Run (driver P calls) (initial P dev) tr s)
    (hs : Step (driver P calls) s l s') :
    (beginsHandler l).toNat + lineStock s' ≤ lineStock s + s.mem.dev.raises l.ticks := by
  have hline := irq_le_of_step hs
  have hraises := hs
  by_cases hl : l.thread? = some .irq
  · cases hs with
    | tick c m => contradiction
    | start t c hidle he =>
        obtain rfl := Option.some.inj hl
        have hup : s.mem.dev.irq = true := he.2
        simp [lineStock, hidle, hup, beginsHandler, marked]
    | step t c ops p p' o ts w hrun ht hd =>
        obtain rfl := Option.some.inj hl
        simp only [lineStock, hrun, Function.update_self, beginsHandler, Bool.toNat_false, marked,
          List.any_cons]
        cases ho : isStateRead o with
        | true =>
            have hread := irq_le_of_stateRead hraises ho
            simp only [Bool.true_or, Bool.true_and, Label.ticks]
            simp only at hread
            omega
        | false =>
            simp only [Bool.false_or]
            simp only at hline
            cases ops.any isStateRead with
            | true => simpa using hline
            | false => simp
    | ret t c ops r hrun =>
        obtain rfl := Option.some.inj hl
        have hfin := run_obeys_relayRule hr _ _ hrun
        have hread : marked isStateRead ops = true := hfin (call_of_irq hr hrun)
        simp [lineStock, hrun, hread, beginsHandler]
  · have hno : beginsHandler l = false := by
      cases l with
      | start t c =>
          cases t with
          | irq => exact absurd rfl hl
          | proc p => rfl
      | _ => rfl
    simp only [lineStock, hs.thread_of_ne hl, hno, Bool.toNat_false, Nat.zero_add]
    split
    · cases marked isStateRead _ with
      | true => simpa using hline
      | false => simp
    · exact hline

/-- **Handler to flag**: the flag is set by a handler that has begun. -/
theorem handlerStock_step (hno : ¬ calls .interrupt)
    (hr : Run (driver P calls) (initial P dev) tr s) (hs : Step (driver P calls) s l s') :
    (l.makes isRaise).toNat + handlerStock s' ≤ handlerStock s + (beginsHandler l).toNat := by
  have hthread := hs
  by_cases hl : l.thread? = some .irq
  · cases hs with
    | tick c m => contradiction
    | start t c hidle he =>
        obtain rfl := Option.some.inj hl
        simp [handlerStock, hidle, beginsHandler, Label.makes, marked]
    | step t c ops p p' o ts w hrun ht hd =>
        obtain rfl := Option.some.inj hl
        have hok := ((run_obeys_relayRule hr _ _ hrun).takes ht).1
        simp only [handlerStock, hrun, Function.update_self, beginsHandler, Label.makes, marked,
          List.any_cons]
        cases ho : isRaise o with
        | true =>
            have hfirst : ops.any isRaise = false := (hok ho).2
            simp [hfirst]
        | false => simp
    | ret t c ops r hrun =>
        obtain rfl := Option.some.inj hl
        simp [handlerStock, beginsHandler, Label.makes]
  · have hnone : l.makes isRaise = false := by
      cases l with
      | step t o ts =>
          obtain ⟨c, ops, p, p', hrun, htake, _⟩ := hthread.step_inv
          have hok := ((run_obeys_relayRule hr _ _ hrun).takes htake).1
          obtain ⟨m, hentry⟩ := hr.entered (initial_idle dev) hrun
          cases t with
          | irq => exact absurd rfl hl
          | proc q =>
              by_contra hraise
              have hcall : c = .interrupt := (hok (Bool.not_eq_false _ ▸ hraise)).1
              exact hno (hcall ▸ hentry)
      | _ => rfl
    simp only [handlerStock, hthread.thread_of_ne hl, hnone, Bool.toNat_false]
    omega

end Runs

/-! ## From the flag to the reader -/

/-- The wait was passed and the flag not cleared since. -/
def passing : List DriverOp → Bool
  | [] => false
  | .wait false :: _ => true
  | .io (.setInterruptFlag false) _ :: _ => false
  | _ :: ops => passing ops

/-- Between its wait and its clearing of the flag a call keeps the semaphore. -/
def passRule : Rule user io Int where
  ok ops
    | .wait _ => semCount ops = 1 ∧ passing ops = false
    | .down _ => passing ops = false
    | .up => passing ops = false
    | _ => True
  fin ops _ := passing ops = false

theorem Call.code_obeys_passRule (c : Call) : c.code.Obeys passRule [] := by
  cases c with
  | devOpen => simp [Call.code, blinkerDevOpen, passRule, passing]
  | devRelease => simp [Call.code, blinkerDevRelease, passRule, passing]
  | devIoctl cmd arg =>
      cases cmd <;> simp [Call.code, blinkerDevIoctl, passRule, passing, Option.forall]
  | devRead userBuffer count =>
      simp [Call.code, blinkerDevRead, passRule, passing, semCount]
  | devWrite userBuffer count =>
      simp [Call.code, blinkerDevWrite, passRule, passing, Option.forall]
  | storeConfig data result => simp [Call.code, configStore, passRule, passing]
  | interrupt => simp [Call.code, blinkerDriverInterruptHandler, passRule, passing]

/-- What an operation does to a passing call. -/
theorem passing_cons (o : DriverOp) (ops : List DriverOp) :
    passing (o :: ops) = (isPass o || (passing ops && flagAfter true o)) := by
  cases o with
  | wait intr => cases intr <;> simp [passing, isPass]
  | io a x =>
      cases a with
      | setInterruptFlag b => cases b <;> simp [passing, isPass]
      | _ => simp [passing, isPass]
  | _ => simp [passing, isPass]

section Runs

variable {P : Type} {calls : Call → Prop} {dev : Blinker} {tr : List (DriverEvent P)}
  {s s' : DriverState P} {l : DriverLabel P}

/-- Thread `t` has passed its wait and not cleared the flag. -/
def Passing (s : DriverState P) (t : Tid P) : Prop :=
  ∃ th, s.thread t = some th ∧ passing th.ops = true

open Classical in
/-- The flag is up, and no reader is about to clear it. -/
noncomputable def flagStock (s : DriverState P) : Nat :=
  if s.mem.interruptFlag = true ∧ ∀ t, ¬ Passing s t then 1 else 0

theorem flagStock_le (s : DriverState P) : flagStock s ≤ 1 := by
  rw [flagStock]
  split <;> omega

theorem flagStock_eq_one (hflag : s.mem.interruptFlag = true) (hno : ∀ t, ¬ Passing s t) :
    flagStock s = 1 := if_pos ⟨hflag, hno⟩

theorem flagStock_eq_zero (h : s.mem.interruptFlag = true → ∃ t, Passing s t) :
    flagStock s = 0 := by
  refine if_neg ?_
  rintro ⟨hflag, hno⟩
  obtain ⟨t, ht⟩ := h hflag
  exact hno t ht

variable [DecidableEq P]

theorem run_obeys_passRule (hr : Run (driver P calls) (initial P dev) tr s) :
    s.Obeys fun _ => passRule :=
  hr.obeys (fun _ _ c _ => c.code_obeys_passRule) (initial_idle dev)

/-- Who has passed holds the semaphore. -/
theorem holdsSem_of_passing (hr : Run (driver P calls) (initial P dev) tr s) {t : Tid P}
    (h : Passing s t) : s.HoldsSem t := by
  obtain ⟨th, ht, hpass⟩ := h
  refine ⟨th, ht, ?_⟩
  refine hr.history (R := fun _ => passRule)
    (P := fun _ ops => passing ops = true → semCount ops = 1)
    (fun _ _ c _ => c.code_obeys_passRule) (initial_idle dev) (by simp [passing]) ?_ ht hpass
  intro c ops o hok ih hpass
  cases o with
  | wait intr => exact hok.1
  | down intr =>
      rw [passing_cons, hok] at hpass
      contradiction
  | up =>
      rw [passing_cons, hok] at hpass
      contradiction
  | io a x =>
      cases a with
      | setInterruptFlag b =>
          cases b with
          | true => exact ih hpass
          | false => contradiction
      | _ => exact ih hpass
  | _ => exact ih hpass

/-- A reader that has passed stays so until it clears the flag. -/
theorem passing_step (hr : Run (driver P calls) (initial P dev) tr s)
    (hs : Step (driver P calls) s l s') {t : Tid P} (h : Passing s t)
    (hflag : s'.mem.interruptFlag = true) : Passing s' t := by
  obtain ⟨th, ht, hpass⟩ := h
  have hafter := flag_of_step hs
  by_cases hl : l.thread? = some t
  · cases hs with
    | tick c m => contradiction
    | start u c hidle he =>
        obtain rfl := Option.some.inj hl
        rw [hidle] at ht
        contradiction
    | ret u c ops r hrun =>
        obtain rfl := Option.some.inj hl
        obtain rfl := Option.some.inj (hrun.symm.trans ht)
        have hfin : passing ops = false := run_obeys_passRule hr _ _ hrun
        rw [hfin] at hpass
        contradiction
    | step u c ops p p' o ts w hrun htake hd =>
        obtain rfl := Option.some.inj hl
        obtain rfl := Option.some.inj (hrun.symm.trans ht)
        refine ⟨_, Function.update_self .., ?_⟩
        have hkeep : flagAfter true o = true := by
          cases o with
          | io a x =>
              cases a with
              | setInterruptFlag b => exact hafter.symm.trans hflag
              | _ => rfl
          | _ => rfl
        simp only at hpass
        rw [passing_cons, hpass, hkeep]
        simp
  · exact ⟨th, (hs.thread_of_ne hl).trans ht, hpass⟩

/-- **Flag to reader**: a wait is passed on a flag that was set. -/
theorem flagStock_step (hr : Run (driver P calls) (initial P dev) tr s)
    (hs : Step (driver P calls) s l s') :
    (l.makes isPass).toNat + flagStock s' ≤ flagStock s + (l.makes isRaise).toNat := by
  have hle := flagStock_le s'
  cases hpass : l.makes isPass with
  | true =>
      obtain ⟨t, ts, rfl⟩ : ∃ t ts, l = .step t (.wait false) ts := by
        cases l with
        | step t o ts =>
            cases o with
            | wait intr =>
                obtain rfl : intr = false := by simpa [Label.makes, isPass] using hpass
                exact ⟨t, ts, rfl⟩
            | _ => contradiction
        | _ => contradiction
      obtain ⟨c, ops, p, p', hrun, htake, hd, hpost⟩ := hs.step_inv
      obtain ⟨hsem, hfresh⟩ := ((run_obeys_passRule hr _ _ hrun).takes htake).1
      -- the reader has the semaphore, so no other is between its wait and its clearing
      have hnone : ∀ u, ¬ Passing s u := by
        intro u hu
        obtain rfl := (run_locks hr).sem.unique ⟨_, hrun, hsem⟩ (holdsSem_of_passing hr hu)
        obtain ⟨th, hth, hth'⟩ := hu
        obtain rfl := Option.some.inj (hrun.symm.trans hth)
        rw [hfresh] at hth'
        contradiction
      have hnow : Passing s' t :=
        ⟨⟨c, .wait false :: ops, p'⟩, by rw [hpost, Function.update_self], rfl⟩
      rw [flagStock_eq_one hd.ready hnone, flagStock_eq_zero fun _ => ⟨t, hnow⟩]
      simp
  | false =>
      cases hraise : l.makes isRaise with
      | true =>
          simp only [Bool.toNat_false, Bool.toNat_true]
          omega
      | false =>
          simp only [Bool.toNat_false, Nat.zero_add, Nat.add_zero]
          by_cases hflag : s'.mem.interruptFlag = true
          · have hbefore : s.mem.interruptFlag = true := by
              rw [flag_of_step hs] at hflag
              cases hset : flagSet? l with
              | none => simpa [hset] using hflag
              | some b =>
                  obtain ⟨t, ts, rfl⟩ := label_of_flagSet? hset
                  obtain rfl : b = false := hraise
                  simp [hset] at hflag
            by_cases hnone : ∀ t, ¬ Passing s t
            · rw [flagStock_eq_one hbefore hnone]
              exact hle
            · simp only [not_forall, not_not] at hnone
              obtain ⟨t, ht⟩ := hnone
              rw [flagStock_eq_zero fun _ => ⟨t, passing_step hr hs ht hflag⟩]
              exact Nat.zero_le _
          · rw [flagStock_eq_zero fun h => absurd h hflag]
            exact Nat.zero_le _

end Runs

/-- **No report without a press.**  In every run, the reads that have passed
their wait are at most the runs of the handler, and these at most the cycles in
which a button was active with the interrupt enabled, with one more where the
device came with a pending interrupt. -/
theorem reports_le_presses (P : Type) [DecidableEq P] (calls : Call → Prop)
    (hno : ¬ calls .interrupt) (dev : Blinker) (tr : List (DriverEvent P)) (s : DriverState P)
    (hr : Run (driver P calls) (initial P dev) tr s) :
    reports tr ≤ handlerRuns tr ∧ handlerRuns tr ≤ presses tr + dev.irq.toNat := by
  have hline := hr.amortized lineStock (fun e => (beginsHandler e.label).toNat)
    (fun e => e.pre.mem.dev.raises e.label.ticks) fun _ _ _ _ hr hs => lineStock_step hr hs
  have hhandler := hr.amortized handlerStock (fun e => (e.label.makes isRaise).toNat)
    (fun e => (beginsHandler e.label).toNat) fun _ _ _ _ hr hs => handlerStock_step hno hr hs
  have hflag := hr.amortized flagStock (fun e => (e.label.makes isPass).toNat)
    (fun e => (e.label.makes isRaise).toNat) fun _ _ _ _ hr hs => flagStock_step hr hs
  have hline₀ : lineStock (initial P dev) = dev.irq.toNat := rfl
  have hhandler₀ : handlerStock (initial P dev) = 0 := rfl
  have hflag₀ : flagStock (initial P dev) = 0 := flagStock_eq_zero fun h => by contradiction
  rw [hline₀] at hline
  rw [hhandler₀] at hhandler
  rw [hflag₀] at hflag
  rw [reports, handlerRuns, presses]
  omega

/-- A press, the handler that begins on it, and a read that passes its wait
behind the handler. -/
theorem reports_le_presses_of_report :
    ∃ (tr : List (DriverEvent Unit)) (s : DriverState Unit),
      Run (driver Unit Call.FileOp) (initial Unit { Blinker.reset with enaIrq := true }) tr s ∧
        1 ≤ reports tr ∧ reports tr ≤ handlerRuns tr ∧ handlerRuns tr ≤ presses tr + 0 := by
  have hpress : Run (driver Unit Call.FileOp) (initial Unit { Blinker.reset with enaIrq := true })
      _ _ := .cons .nil (.tick _ fasterCycle _ ⟨⟨rfl, rfl, rfl⟩, rfl⟩)
  obtain ⟨os, cs, w, hx, hos, _, hflag, hsem, _⟩ := exists_exec_handler
    (probed (Blinker.clk { Blinker.reset with enaIrq := true } fasterCycle)) rfl
  obtain ⟨new, hhandler, _⟩ := hpress.exec .irq .interrupt rfl ⟨rfl, by decide⟩ hx hos
  obtain ⟨new', k, hwait, _⟩ := exists_run_waiting hhandler () 0 1 rfl trivial hsem
  have hpass := hwait.cons (.step _ (Tid.proc ()) _ _ (.wait k) _ (.wait false) [] _ rfl
    (.wait k false) (.wait _ hflag))
  refine ⟨_, _, hpass, ?_, reports_le_presses Unit Call.FileOp id _ _ _ hpass⟩
  rw [reports, total]
  exact Nat.le_add_left ..

end De1Soc
