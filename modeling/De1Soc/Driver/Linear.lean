import De1Soc.Driver.Serial

/-!
# De1Soc.Driver.Linear

The configuration calls take effect at one instant.

`config_serializable` orders the completed calls by what they leave; here each
of them gets its point in time.  Between the beginning and the return of a call
there is one event of its own at which it happens: executed by itself in the
place of that event, with the same answers, it would return the same, store the
same in user memory and leave the configuration that the event leaves; its
other events leave the configuration alone (`config_linearizable`).  The event
is the write where there is one, and for `IOC_GET_CONFIG` the read of STATE.

What `IOC_GET_LEDS` stores is a matter of the LEDs and not of the configuration,
and nothing is said of it.
-/

namespace De1Soc

open Kernel

/-! ## What a call returns and stores -/

@[simp] def put? : DriverOp → Option (BitVec 32 × BitVec 32)
  | .ask (.putUser arg x) _ => some (arg, x)
  | _ => none

/-- The stores to user memory among the operations of a call. -/
def puts (ops : List DriverOp) : List (BitVec 32 × BitVec 32) := ops.filterMap put?

@[simp] theorem puts_nil : puts [] = [] := rfl

@[simp] theorem puts_cons (o : DriverOp) (ops : List DriverOp) :
    puts (o :: ops) = (put? o).toList ++ puts ops := by
  cases h : put? o with
  | none => exact List.filterMap_cons_none h
  | some b => exact List.filterMap_cons_some h

/-- What each ioctl returns when it has the semaphore. -/
def Cmd.result (as : List Answer) : Cmd → Int
  | .setSpeed =>
      match fetched as with
      | some v => if v.setWidth 8 = 0#8 ∨ 15#8 < v.setWidth 8 then -EINVAL else 0
      | none => -EFAULT
  | .setMode =>
      match fetched as with
      | some v => if 1#8 < v.setWidth 8 then -EINVAL else 0
      | none => -EFAULT
  | .getLeds | .getConfig => if .put true ∈ as then -EFAULT else 0
  | .other _ => -EINVAL
  | _ => 0

/-- What each call returns, given the answers to it. -/
def Call.result (as : List Answer) : Call → Int
  | .devIoctl cmd _ => if .down true ∈ as then -ERESTARTSYS else cmd.result as
  | .devWrite _ count =>
      if .down true ∈ as then -ERESTARTSYS
      else
        match copied as with
        | some b => if b = 0#8 ∨ 7#8 < b then -EINVAL else count.toInt
        | none => -EFAULT
  | .storeConfig _ result => result
  | .interrupt => IRQ_HANDLED
  | .devOpen | .devRelease | .devRead _ _ => 0

/-- What each call stores in user memory, given the answers to it and the byte
that it has read from STATE. -/
def Call.stores (as : List Answer) (x : BitVec 8) : Call → List (BitVec 32 × BitVec 32)
  | .devIoctl .getConfig arg => if .down true ∈ as then [] else [(arg, x.setWidth 32)]
  | _ => []

def Call.ReadsLeds : Call → Prop
  | .devIoctl .getLeds _ => True
  | _ => False

/-- A call returns what the answers make it return; it stores something only
where it has read STATE, and then that byte. -/
def resultRule (c : Call) : Rule user io Int where
  ok _ _ := True
  fin ops r := r = c.result (answers ops) ∧ (¬ c.ReadsLeds →
    puts ops = [] ∧ (∀ x, c.stores (answers ops) x = []) ∨
      ∃ x, accesses ops = [.read true x] ∧ puts ops = c.stores (answers ops) x)

theorem Call.code_obeys_resultRule (c : Call) (hc : c.Configures ∨ c = .interrupt) :
    c.code.Obeys (resultRule c) [] := by
  cases c with
  | devIoctl cmd arg =>
      cases cmd <;>
        simp [Call.code, blinkerDevIoctl, resultRule, Call.result, Cmd.result, Call.stores,
          Call.ReadsLeds, fetched, Option.forall]
      case setSpeed =>
        intro v
        by_cases h0 : v.setWidth 8 = 0#8
        · simp [h0]
        · by_cases hmax : 15#8 < v.setWidth 8
          · simp [h0, hmax]
          · simp [h0, hmax]
  | devWrite userBuffer count =>
      simp [Call.code, blinkerDevWrite, resultRule, Call.result, Call.stores, Call.ReadsLeds, copied,
        Option.forall]
      intro b
      by_cases h0 : b = 0#8
      · simp [h0]
      · by_cases hmax : 7#8 < b
        · simp [h0, hmax]
        · simp [h0, hmax]
  | storeConfig data result =>
      simp [Call.code, configStore, resultRule, Call.result, Call.stores]
  | interrupt =>
      simp [Call.code, blinkerDriverInterruptHandler, resultRule, Call.result, Call.stores]
  | _ => simp [Call.Configures] at hc

/-! ## A call by itself -/

/-- Executions with the same answers from the same configuration return the
same, leave the same configuration and, LEDs apart, store the same. -/
theorem determined_of_exec {c : Call} (hc : c.Configures) {w w' : Shared Mem} {os : List DriverOp}
    {cs : List Cycle} {r : Int} (hx : Exec machine w c.code os cs r w') (hq : ∀ d ∈ cs, d.Quiet) :
    r = c.result (answers os.reverse) ∧
      w'.mem.dev.config = w.mem.dev.config.apply (c.script (answers os.reverse)) ∧
      (¬ c.ReadsLeds →
        puts os.reverse = c.stores (answers os.reverse) w.mem.dev.config.stateByte) := by
  obtain ⟨hr, hputs⟩ := hx.fin (c.code_obeys_resultRule (.inl hc))
  rw [List.append_nil] at hr hputs
  refine ⟨hr, config_of_exec hc hx hq, fun hleds => ?_⟩
  obtain ⟨hnone, hstores⟩ | ⟨x, hacc, hstored⟩ := hputs hleds
  · rw [hnone, hstores]
  · obtain ⟨hshows, _⟩ := config_of_accesses (accesses_of_exec hx) hq
    have hread : accesses os = [.read true x] := by
      rw [accesses_reverse] at hacc
      simpa using congrArg List.reverse hacc
    rw [hread] at hshows
    rw [hstored, hshows.1 rfl]

/-! ## The events of a call -/

/-- The access is a write. -/
def Access.isWrite : Access → Bool
  | .write _ _ => true
  | .read _ _ => false

/-- A script makes one write at most. -/
theorem Script.Makes.countP_isWrite_le {sc : Script} {as : List Access} (h : sc.Makes as) :
    as.countP Access.isWrite ≤ 1 := by
  cases sc with
  | nop =>
      have hzero : as.countP Access.isWrite = 0 := by
        rw [List.countP_eq_zero]
        intro a ha
        cases a with
        | read address x => simp [Access.isWrite]
        | write address w => exact absurd ha (h address w)
      omega
  | store address w =>
      obtain rfl : as = [.write address w] := h
      exact le_refl 1
  | update f =>
      obtain ⟨x, rfl⟩ := h
      exact le_refl 1

/-- A call makes some operation: it asks for the semaphore, or it writes. -/
theorem exists_mem_of_answers {c : Call} (hc : c.Configures) {ops : List DriverOp}
    (hanswers : c.Answers (answers ops)) (hmakes : (c.script (answers ops)).Makes (accesses ops)) :
    ∃ o, o ∈ ops := by
  cases ops with
  | cons o ops => exact ⟨o, List.mem_cons_self ..⟩
  | nil =>
      cases c with
      | devIoctl cmd arg => cases cmd <;> simp [Call.Answers, Cmd.Answers] at hanswers
      | devWrite userBuffer count => simp [Call.Answers] at hanswers
      | storeConfig data result => simp [Call.script, Script.Makes] at hmakes
      | _ => exact hc.elim

section Runs

variable {P : Type} [DecidableEq P] {dev : Blinker} {tr : List (DriverEvent P)}
  {s : DriverState P} {p : P} {c : Call} {ops : List DriverOp} {r : Int}
  {mid new old : List (DriverEvent P)} {e : DriverEvent P} {o : DriverOp} {ts : List Cycle}

/-- The event writes a register for `t`. -/
def WritesFor (t : Tid P) (e : DriverEvent P) : Prop :=
  ∃ o ts address b, e.label = .step t o ts ∧ access? o = some (.write address b)

/-- A completed call is one that configures; it is answered as its code asks,
carries out its script, and returns and stores what `resultRule` says. -/
theorem rules_of_completes (hr : Run (driver P Call.Configures) (initial P dev) tr s)
    (h : Completes tr (.proc p) c ops r mid) :
    c.Configures ∧ (commitRule c).fin ops r ∧ (resultRule c).fin ops r := by
  obtain ⟨after, ret, old, rfl, hret, _⟩ := h
  obtain ⟨hold, hs⟩ := hr.split rfl
  rw [hret] at hs
  have hrun := hs.ret_inv
  obtain ⟨_, hc⟩ := hold.entered (initial_idle dev) hrun
  have hresult := hold.obeys (fun _ _ c he => c.code_obeys_resultRule (entry_cases he))
    (initial_idle dev)
  exact ⟨hc, run_obeys_commitRule hold _ _ hrun, hresult _ _ hrun⟩

/-- Once a call has written, no answer comes any more. -/
theorem answers_of_completes (hr : Run (driver P Call.Configures) (initial P dev) tr s)
    (h : Completes tr (.proc p) c ops r mid) {later earlier : List DriverOp} {address : Bool}
    {b : BitVec 8} (hops : ops = later ++ o :: earlier)
    (ho : access? o = some (.write address b)) : answers ops = answers earlier := by
  obtain ⟨after, ret, old, rfl, hret, _⟩ := h
  obtain ⟨hold, hs⟩ := hr.split rfl
  rw [hret] at hs
  refine hold.history (R := commitRule)
    (P := fun _ ops => ∀ later, ops = later ++ o :: earlier → answers ops = answers earlier)
    (fun _ _ c he => c.code_obeys_commitRule (entry_cases he)) (initial_idle dev) (by simp) ?_
    hs.ret_inv later hops
  intro c ops o' hok ih later hops
  cases later with
  | nil =>
      obtain ⟨rfl, rfl⟩ := List.cons.inj hops
      rw [answers_cons, answer?_of_access ho]
      rfl
  | cons l later =>
      obtain ⟨rfl, rfl⟩ := List.cons.inj hops
      have hwritten : Written (later ++ o :: earlier) := by
        refine ⟨address, b, ?_⟩
        rw [accesses, List.filterMap_append, List.filterMap_cons_some ho]
        simp
      rw [answers_of_written hok hwritten, ih later rfl]

/-- An event of a process leaves the configuration unless it writes. -/
theorem config_of_not_writesFor (hr : Run (driver P Call.Configures) (initial P dev) tr s)
    (hq : ∀ e ∈ tr, ∀ c ∈ e.label.ticks, c.Quiet) {t : Tid P} (he : e ∈ tr)
    (hl : e.label.thread? = some t) (hno : ¬ WritesFor t e) :
    e.post.mem.dev.config = e.pre.mem.dev.config := by
  obtain ⟨before, _, hs⟩ := hr.of_mem he
  refine config_kept_of_step hs (hq e he) fun u o ts address b hstep ho => hno ?_
  rw [hstep] at hl
  obtain rfl : u = t := Option.some.inj hl
  exact ⟨o, ts, address, b, hstep, ho⟩

/-- The handler does not write. -/
theorem proc_of_writesFor (hr : Run (driver P Call.Configures) (initial P dev) tr s) {t : Tid P}
    (he : e ∈ tr) (hw : WritesFor t e) : ∃ p, e.label.thread? = some (.proc p) := by
  obtain ⟨o, ts, address, b, hl, ho⟩ := hw
  obtain ⟨before, hbefore, hs⟩ := hr.of_mem he
  rw [hl] at hs
  obtain ⟨c, ops, q, q', hrun, htake, _⟩ := hs.step_inv
  have hmay := mayWrite_of_takes (run_obeys_commitRule hbefore _ _ hrun) htake ho
  cases t with
  | proc p => exact ⟨p, by rw [hl]; rfl⟩
  | irq =>
      obtain rfl : c = .interrupt := call_of_irq hbefore hrun
      obtain ⟨_, ⟨_, hscript⟩ | ⟨f, x, _, _, hscript, _⟩⟩ := hmay
      · simp [Call.script] at hscript
      · simp [Call.script] at hscript

/-! ## The point of a call -/

/-- The call happens in the place of the event: by itself, from a device with
the configuration before it and with the same answers, the call can be
executed, and however it is it returns `r`, stores the same and leaves the
configuration after it. -/
structure HappensAt (c : Call) (ops : List DriverOp) (r : Int) (e : DriverEvent P) : Prop where
  possible : ∀ w : Shared Mem, w.sem = 1 → w.lock = false →
    ∃ os cs r' w', Exec machine w c.code os cs r' w' ∧ (∀ d ∈ cs, d.Quiet) ∧
      answers os.reverse = answers ops
  same : ∀ w os cs r' w', Exec machine w c.code os cs r' w' → (∀ d ∈ cs, d.Quiet) →
    answers os.reverse = answers ops → w.mem.dev.config = e.pre.mem.dev.config →
    r' = r ∧ w'.mem.dev.config = e.post.mem.dev.config ∧
      (¬ c.ReadsLeds → puts os.reverse = puts ops)

/-- What is to be shown of the point of a completed call. -/
theorem happensAt_of_completes (hr : Run (driver P Call.Configures) (initial P dev) tr s)
    (h : Completes tr (.proc p) c ops r mid)
    (hcfg : e.post.mem.dev.config = e.pre.mem.dev.config.apply (c.script (answers ops)))
    (hputs : ∀ x, accesses ops = [.read true x] → x = e.pre.mem.dev.config.stateByte) :
    HappensAt c ops r e := by
  obtain ⟨hc, ⟨hanswers, _⟩, hresult, hstored⟩ := rules_of_completes hr h
  constructor
  · intro w hsem hlock
    obtain ⟨_, ⟨os, cs, r', w'⟩, hsolo, has, _⟩ := exists_solo hc hanswers hsem hlock
    obtain ⟨hx, hquiet⟩ := valid_of_solo runner_quiet hsolo
    exact ⟨os, cs, r', w', hx, hquiet, has⟩
  · intro w os cs r' w' hx hquiet has hw
    obtain ⟨hr', hcfg', hputs'⟩ := determined_of_exec hc hx hquiet
    rw [has, hw] at hcfg'
    rw [has] at hr'
    refine ⟨by rw [hr', hresult], by rw [hcfg', hcfg], fun hleds => ?_⟩
    rw [hputs' hleds, has, hw]
    obtain ⟨hnone, hstores⟩ | ⟨x, hacc, hx⟩ := hstored hleds
    · rw [hnone, hstores]
    · rw [hx, hputs x hacc]

/-- **A call that writes happens at its write.** -/
theorem happensAt_write (hr : Run (driver P Call.Configures) (initial P dev) tr s)
    (hq : ∀ e ∈ tr, ∀ c ∈ e.label.ticks, c.Quiet) (h : Completes tr (.proc p) c ops r mid)
    (hmid : mid = new ++ e :: old) (hw : WritesFor (.proc p) e) : HappensAt c ops r e := by
  obtain ⟨o, ts, address, b, hl, ho⟩ := hw
  obtain ⟨hops, before, q, hbefore, hsub, hs, hrun⟩ := h.at_step hr hmid hl
  have hquiet : ∀ c ∈ ts, c.Quiet := by
    have hmem : e ∈ tr := h.subset (by simp [hmid])
    simpa [hl, Label.ticks] using hq e hmem
  obtain ⟨_, _, _, _, hrun', htake, _⟩ := hs.step_inv
  obtain ⟨rfl, rfl, rfl⟩ := Thread.mk.inj (Option.some.inj (hrun.symm.trans hrun'))
  obtain ⟨_, _, happly⟩ := apply_of_mayWrite (g := e.pre.mem.dev.config)
    (mayWrite_of_takes (run_obeys_commitRule hbefore _ _ hrun) htake ho)
    fun x hx => window_of_run hbefore (fun f hf => hq f (hsub hf)) hrun hx
  refine happensAt_of_completes hr h ?_ fun x hacc => ?_
  · rw [config_of_step hs hquiet, ho, answers_of_completes hr h hops ho]
    exact happly
  · have hmem : Access.write address b ∈ accesses ops := by
      rw [hops, accesses, List.filterMap_append, List.filterMap_cons_some ho]
      simp
    simp [hacc] at hmem

/-- A call writes once. -/
theorem not_writesFor_of_ne (hr : Run (driver P Call.Configures) (initial P dev) tr s)
    (h : Completes tr (.proc p) c ops r mid) (hmid : mid = new ++ e :: old)
    (hw : WritesFor (.proc p) e) : ∀ f ∈ new ++ old, ¬ WritesFor (.proc p) f := by
  obtain ⟨o, ts, address, b, hl, ho⟩ := hw
  obtain ⟨hops, _⟩ := h.at_step hr hmid hl
  obtain ⟨_, ⟨_, hmakes⟩, _⟩ := rules_of_completes hr h
  rintro f hf ⟨o', ts', address', b', hl', ho'⟩
  have hmem : o' ∈ opsOf (.proc p) new ++ opsOf (.proc p) old := by
    rw [← opsOf_append, mem_opsOf]
    exact ⟨f, hf, ts', hl'⟩
  have hother : Access.write address' b' ∈ accesses (opsOf (.proc p) new) ++
      accesses (opsOf (.proc p) old) := by
    rw [accesses, accesses, ← List.filterMap_append, List.mem_filterMap]
    exact ⟨o', hmem, ho'⟩
  have hle := hmakes.countP_isWrite_le
  rw [hops, accesses, List.filterMap_append, List.filterMap_cons_some ho, List.countP_append,
    List.countP_cons_of_pos rfl] at hle
  have hpos : 0 < (accesses (opsOf (.proc p) new) ++
      accesses (opsOf (.proc p) old)).countP Access.isWrite :=
    List.countP_pos_iff.mpr ⟨_, hother, rfl⟩
  rw [List.countP_append] at hpos
  simp only [accesses] at hpos
  omega

/-- **A call that does not write happens where it reads STATE**, and anywhere
if it does not. -/
theorem exists_point_of_not_written (hr : Run (driver P Call.Configures) (initial P dev) tr s)
    (hq : ∀ e ∈ tr, ∀ c ∈ e.label.ticks, c.Quiet) (h : Completes tr (.proc p) c ops r mid)
    (hnot : ¬ Written ops) :
    ∃ e ∈ mid, e.label.thread? = some (.proc p) ∧ HappensAt c ops r e := by
  obtain ⟨hc, ⟨hanswers, hmakes⟩, _⟩ := rules_of_completes hr h
  have hvoid := apply_of_not_written hmakes hnot
  -- the events of the call are not writes
  have hkeep : ∀ e ∈ mid, ∀ o ts, e.label = .step (.proc p) o ts → o ∈ ops ∧
      e.post.mem.dev.config = e.pre.mem.dev.config := by
    intro e he o ts hl
    have hmem : o ∈ ops := by
      rw [← h.ops_eq hr, mem_opsOf]
      exact ⟨e, he, ts, hl⟩
    refine ⟨hmem, config_of_not_writesFor hr hq (h.subset he) (by rw [hl]; rfl) ?_⟩
    rintro ⟨o', ts', address, b, hl', ho'⟩
    obtain ⟨_, rfl, _⟩ := Label.step.inj (hl.symm.trans hl')
    exact hnot ⟨address, b, List.mem_filterMap.mpr ⟨o, hmem, ho'⟩⟩
  by_cases hread : ∃ x, accesses ops = [.read true x]
  · obtain ⟨x, hacc⟩ := hread
    have hx : Access.read true x ∈ accesses ops := by simp [hacc]
    obtain ⟨o, ho, hox⟩ := List.mem_filterMap.mp hx
    rw [← h.ops_eq hr, mem_opsOf] at ho
    obtain ⟨e, he, ts, hl⟩ := ho
    refine ⟨e, he, by rw [hl]; rfl, happensAt_of_completes hr h ?_ fun y hy => ?_⟩
    · rw [hvoid, (hkeep e he o ts hl).2]
    · obtain ⟨_, _, hs⟩ := hr.of_mem (h.subset he)
      rw [hl] at hs
      obtain ⟨_, _, _, _, _, _, hd, _⟩ := hs.step_inv
      have hquiet : ∀ c ∈ ts, c.Quiet := by simpa [hl, Label.ticks] using hq e (h.subset he)
      obtain rfl : x = y := by simpa [hacc] using hy
      exact (config_of_serves_read (dev_of_does_some hd hox).1 hquiet).2 rfl
  · obtain ⟨o, ho⟩ := exists_mem_of_answers hc hanswers hmakes
    rw [← h.ops_eq hr, mem_opsOf] at ho
    obtain ⟨e, he, ts, hl⟩ := ho
    refine ⟨e, he, by rw [hl]; rfl, happensAt_of_completes hr h ?_ fun y hy => ?_⟩
    · rw [hvoid, (hkeep e he o ts hl).2]
    · exact absurd ⟨y, hy⟩ hread

end Runs

/-- **The configuration calls are linearizable.**  With no button active, in
every run of any number of processes, only steps of processes change the
configuration, and every completed call happens at one of its own events between
its beginning and its return, its other events leaving the configuration. -/
theorem config_linearizable (P : Type) [DecidableEq P] (dev : Blinker)
    (tr : List (DriverEvent P)) (s : DriverState P)
    (hr : Run (driver P Call.Configures) (initial P dev) tr s)
    (hq : ∀ e ∈ tr, ∀ c ∈ e.label.ticks, c.Quiet) :
    (∀ e ∈ tr, e.post.mem.dev.config ≠ e.pre.mem.dev.config →
      ∃ p, e.label.thread? = some (.proc p)) ∧
    ∀ p c ops r mid, Completes tr (.proc p) c ops r mid →
      ∃ new e old, mid = new ++ e :: old ∧ e.label.thread? = some (.proc p) ∧
        HappensAt c ops r e ∧ ∀ f ∈ new ++ old, f.label.thread? = some (.proc p) →
          f.post.mem.dev.config = f.pre.mem.dev.config := by
  constructor
  · intro e he hne
    by_cases hw : ∃ t, WritesFor t e
    · obtain ⟨t, hw⟩ := hw
      exact proc_of_writesFor hr he hw
    · obtain ⟨_, _, hs⟩ := hr.of_mem he
      refine absurd (config_kept_of_step hs (hq e he) fun t o ts address b hl ho => hw ?_) hne
      exact ⟨t, o, ts, address, b, hl, ho⟩
  · intro p c ops r mid h
    by_cases hw : ∃ e ∈ mid, WritesFor (.proc p) e
    · obtain ⟨e, he, hw⟩ := hw
      obtain ⟨new, old, rfl⟩ := List.append_of_mem he
      refine ⟨new, e, old, rfl, ?_, happensAt_write hr hq h rfl hw, fun f hf hl => ?_⟩
      · obtain ⟨o, ts, _, _, hl, _⟩ := hw
        rw [hl]
        rfl
      · refine config_of_not_writesFor hr hq (h.subset ?_) hl (not_writesFor_of_ne hr h rfl hw f hf)
        simp only [List.mem_append, List.mem_cons] at hf ⊢
        tauto
    · have hnot : ¬ Written ops := by
        rintro ⟨address, b, hmem⟩
        obtain ⟨o, ho, hob⟩ := List.mem_filterMap.mp hmem
        rw [← h.ops_eq hr, mem_opsOf] at ho
        obtain ⟨e, he, ts, hl⟩ := ho
        exact hw ⟨e, he, o, ts, address, b, hl, hob⟩
      obtain ⟨e, he, hthread, hpoint⟩ := exists_point_of_not_written hr hq h hnot
      obtain ⟨new, old, rfl⟩ := List.append_of_mem he
      refine ⟨new, e, old, rfl, hthread, hpoint, fun f hf hl => ?_⟩
      have hmem : f ∈ new ++ e :: old := by
        simp only [List.mem_append, List.mem_cons] at hf ⊢
        tauto
      exact config_of_not_writesFor hr hq (h.subset hmem) hl fun hwf => hw ⟨f, hmem, hwf⟩

/-- One process is in its `IOC_GET_CONFIG` when another makes a whole
`config_store` of 4, from the reset state: what the first stores is what it
would store by itself on the configuration that the second has left. -/
theorem config_linearizable_get_store :
    ∃ (tr : List (DriverEvent Bool)) (s : DriverState Bool) (ops : List DriverOp)
      (mid : List (DriverEvent Bool)),
      Run (driver Bool Call.Configures) (initial Bool .reset) tr s ∧
        Completes tr (.proc false) (.devIoctl .getConfig 0) ops 0 mid ∧
        Encloses mid (.proc true) (.storeConfig 4 1) ∧ puts ops = [(0, 0x84)] ∧
        ∃ new e old, mid = new ++ e :: old ∧ HappensAt (.devIoctl .getConfig 0) ops 0 e := by
  obtain ⟨x, y, hx, hy, hr, hputs⟩ : ∃ x y,
      solo (answering false none none false) runner (configStore 4 1)
        { mem := (probed .reset).mem.update (.incr .ioctlCount), sem := 0, lock := false } = some x ∧
      solo (answering false none none false) runner
        (do
          let currentConfig ← ioread8 ioaddrBlinkerState
          if ← putUser (currentConfig.setWidth 32) 0 then
            up
            return -EFAULT
          up
          return 0 : Path Int) x.2.2.2 = some y ∧
      y.2.2.1 = 0 ∧
      puts (y.1.reverse ++ [.io (.incr .ioctlCount) (), .down false]) = [(0, 0x84)] :=
    ⟨_, _, rfl, rfl, rfl, by decide⟩
  obtain ⟨tr, mid, s, ops, hrun, _, _, hq, hops, hcompletes, hin⟩ :=
    exists_run_around_store .getConfig (.down _ false) hx hy
  rw [hr] at hcompletes
  rw [← hops] at hputs
  obtain ⟨_, hpoint⟩ := config_linearizable Bool .reset tr s hrun hq
  obtain ⟨new, e, old, hsplit, _, hat, _⟩ := hpoint _ _ _ _ _ hcompletes
  exact ⟨tr, s, ops, mid, hrun, hcompletes, hin, hputs, new, e, old, hsplit, hat⟩

end De1Soc
