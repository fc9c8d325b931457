import De1Soc.Driver.System
import De1Soc.Kernel.Serial

/-!
# De1Soc.Driver.Serial

The calls that write the configuration, side by side.

The writers take different locks: the ioctls the semaphore and `g_irq_lock`,
`blinker_dev_write` the semaphore, `config_store` the lock.  A
read-modify-write therefore shares a lock with every other writer, and the
byte it has read is still the state of the device when it writes
(`window_of_run`).  Every call writes at most once, and what it writes is
decided by what the environment has answered to it before (`Call.script`), so
the write is its commit point: the configuration is what the completed calls
make of it one after the other (`config_serializable`).
-/

namespace De1Soc

open Kernel

/-- The calls that may write the configuration. -/
def Call.Configures : Call → Prop
  | .devIoctl _ _ | .devWrite _ _ | .storeConfig _ _ => True
  | _ => False

/-! ## What decides a call -/

/-- What the environment has answered: whether a signal ended a sleep, what
was fetched from user memory, whether a store to it faulted. -/
inductive Answer
  | down (intr : Bool)
  | wait (intr : Bool)
  | get (x : Option (BitVec 32))
  | put (fault : Bool)
  | copyFrom (x : Option (BitVec 8))
  | copyTo (fault : Bool)
deriving DecidableEq, Repr

@[simp] def answer? : DriverOp → Option Answer
  | .down intr => some (.down intr)
  | .wait intr => some (.wait intr)
  | .ask (.getUser _) x => some (.get x)
  | .ask (.putUser _ _) b => some (.put b)
  | .ask (.copyFromUser _) x => some (.copyFrom x)
  | .ask (.copyToUser _ _) b => some (.copyTo b)
  | _ => none

/-- The answers among the operations of a call. -/
def answers (ops : List DriverOp) : List Answer := ops.filterMap answer?

@[simp] theorem answers_nil : answers [] = [] := rfl

@[simp] theorem answers_cons (o : DriverOp) (ops : List DriverOp) :
    answers (o :: ops) = (answer? o).toList ++ answers ops := by
  cases h : answer? o with
  | none => exact List.filterMap_cons_none h
  | some b => exact List.filterMap_cons_some h

/-- What a call does to the configuration registers: nothing, one write, or
one write of CONFIG computed from STATE. -/
inductive Script
  | nop
  | store (address : Bool) (w : BitVec 8)
  | update (f : BitVec 8 → BitVec 8)

/-- The effect of a script when nothing comes between. -/
def Config.apply (g : Config) : Script → Config
  | .nop => g
  | .store address w => g.write address w
  | .update f => g.writeConfig (f g.stateByte)

/-- The word that `get_user` has fetched. -/
def fetched (as : List Answer) : Option (BitVec 32) :=
  as.findSome? fun
    | .get x => x
    | _ => none

/-- The byte that `copy_from_user` has fetched. -/
def copied (as : List Answer) : Option (BitVec 8) :=
  as.findSome? fun
    | .copyFrom x => x
    | _ => none

/-- What each ioctl does with the word it has fetched. -/
def Cmd.script (value : Option (BitVec 32)) : Cmd → Script
  | .setSpeed =>
      match value with
      | some v =>
          if v.setWidth 8 = 0#8 ∨ 15#8 < v.setWidth 8 then .nop
          else .store ioaddrBlinkerSpeed (v.setWidth 8)
      | none => .nop
  | .setRunning => .update setRunningByte
  | .clearRunning => .update clearRunningByte
  | .enaInt => .update enaIntByte
  | .disInt => .update disIntByte
  | .setMode =>
      match value with
      | some v => if 1#8 < v.setWidth 8 then .nop else .update (setModeByte (v.setWidth 8))
      | none => .nop
  | _ => .nop

/-- What each call does, given the answers to it. -/
def Call.script (as : List Answer) : Call → Script
  | .devIoctl cmd _ => if .down true ∈ as then .nop else cmd.script (fetched as)
  | .devWrite _ _ =>
      match copied as with
      | some b => if b = 0#8 ∨ 7#8 < b then .nop else .store ioaddrBlinkerConfig b
      | none => .nop
  | .storeConfig data _ => .store ioaddrBlinkerConfig data
  | _ => .nop

/-- The answers (latest first) that a call has got when it returns. -/
def Cmd.Answers (as : List Answer) : Cmd → Prop
  | .setSpeed | .setMode => ∃ x, as = [.get x, .down false]
  | .getLeds | .getConfig => ∃ b, as = [.put b, .down false]
  | _ => as = [.down false]

@[inherit_doc Cmd.Answers]
def Call.Answers (as : List Answer) : Call → Prop
  | .devIoctl cmd _ => as = [.down true] ∨ cmd.Answers as
  | .devWrite _ _ => as = [.down true] ∨ ∃ x, as = [.copyFrom x, .down false]
  | .storeConfig _ _ => as = []
  | _ => True

/-- The accesses (latest first) carry out the script. -/
def Script.Makes : Script → List Access → Prop
  | .nop, as => ∀ address w, .write address w ∉ as
  | .store address w, as => as = [.write address w]
  | .update f, as => ∃ x, as = [.write true (f x), .read true x]

/-! ## The rule of a commit -/

/-- The call has made its write. -/
def Written (ops : List DriverOp) : Prop := ∃ address w, .write address w ∈ accesses ops

/-- The call has just read `x` from STATE with both locks held. -/
def Window (ops : List DriverOp) (x : BitVec 8) : Prop :=
  ops.head?.bind access? = some (.read true x) ∧ semCount ops = 1 ∧ lockCount ops = 1

/-- A call may write `w` when it has made no access and its script stores `w`,
or when its one access was the STATE read that the script computes `w`
from. -/
def MayWrite (c : Call) (ops : List DriverOp) (address : Bool) (w : BitVec 8) : Prop :=
  (semCount ops = 1 ∨ lockCount ops = 1) ∧
    ((accesses ops = [] ∧ c.script (answers ops) = .store address w) ∨
      ∃ f x, accesses ops = [.read true x] ∧ Window ops x ∧ c.script (answers ops) = .update f ∧
        address = true ∧ w = f x)

/-- Writes carry out the script, no answer comes after the write, and only
the first access is a read with both locks held. -/
def commitRule (c : Call) : Rule user io Int where
  ok ops o :=
    match access? o with
    | some (.write address w) => MayWrite c ops address w
    | some (.read _ _) => semCount ops = 1 → accesses ops = []
    | none => answer? o ≠ none → ¬ Written ops
  fin ops _ := c.Answers (answers ops) ∧ (c.script (answers ops)).Makes (accesses ops)

theorem Call.code_obeys_commitRule (c : Call) (hc : c.Configures ∨ c = .interrupt) :
    c.code.Obeys (commitRule c) [] := by
  cases c with
  | devIoctl cmd arg =>
      cases cmd <;>
        simp [Call.code, blinkerDevIoctl, commitRule, Call.Answers, Cmd.Answers, Call.script,
          Cmd.script, fetched, Script.Makes, semCount, lockCount, Written, Window, MayWrite,
          Option.forall]
      case setSpeed =>
        intro v
        by_cases h0 : v.setWidth 8 = 0#8
        · simp [h0]
        · by_cases hmax : 15#8 < v.setWidth 8
          · simp [h0, hmax]
          · simp [h0, hmax]
      case setMode =>
        intro v
        by_cases hmax : 1#8 < v.setWidth 8
        · simp [hmax]
        · simp [hmax]
  | devWrite userBuffer count =>
      simp [Call.code, blinkerDevWrite, commitRule, Call.Answers, Call.script, copied,
        Script.Makes, semCount, Written, MayWrite, Option.forall]
      intro b
      by_cases h0 : b = 0#8
      · simp [h0]
      · by_cases hmax : 7#8 < b
        · simp [h0, hmax]
        · simp [h0, hmax]
  | storeConfig data result =>
      simp [Call.code, configStore, commitRule, Call.Answers, Call.script, Script.Makes, lockCount,
        MayWrite]
  | interrupt =>
      simp [Call.code, blinkerDriverInterruptHandler, commitRule, Call.Answers, Call.script,
        Script.Makes, semCount]
  | _ => simp [Call.Configures] at hc

/-! ## The window of a read-modify-write -/

section Runs

variable {P : Type} [DecidableEq P] {dev : Blinker} {tr : List (DriverEvent P)}
  {s s' : DriverState P} {t u : Tid P} {th : Thread user io Call Int} {o : DriverOp}
  {ts : List Cycle} {x : BitVec 8}

theorem run_obeys_commitRule (hr : Run (driver P Call.Configures) (initial P dev) tr s) :
    s.Obeys commitRule :=
  hr.obeys (fun _ _ c he => c.code_obeys_commitRule (entry_cases he)) (initial_idle dev)

/-- The rule at a write. -/
theorem mayWrite_of_takes {c : Call} {ops : List DriverOp} {p p' : Path Int} {address : Bool}
    {w : BitVec 8} (hob : p.Obeys (commitRule c) ops) (ht : p.Takes o p')
    (ho : access? o = some (.write address w)) : MayWrite c ops address w := by
  have hok := (hob.takes ht).1
  simpa only [commitRule, ho] using hok

/-- Nobody writes into the window of another. -/
theorem writer_of_window (hr : Run (driver P Call.Configures) (initial P dev) tr s)
    (hs : Step (driver P Call.Configures) s (.step u o ts) s') {address : Bool} {w : BitVec 8}
    (ho : access? o = some (.write address w)) (ht : s.thread t = some th)
    (hw : Window th.ops x) : u = t := by
  obtain ⟨c, ops, p, p', hrun, htake, _⟩ := hs.step_inv
  obtain ⟨hheld, _⟩ := mayWrite_of_takes (run_obeys_commitRule hr u _ hrun) htake ho
  obtain ⟨_, hsem, hlock⟩ := hw
  have hlocks := run_locks hr
  obtain h | h := hheld
  · exact hlocks.sem.unique ⟨th, ht, hsem⟩ ⟨_, hrun, h⟩
  · exact hlocks.lock.unique ⟨th, ht, hlock⟩ ⟨_, hrun, h⟩

/-- A thread that is where it was has not stepped. -/
theorem ne_of_step_of_thread (hs : Step (driver P Call.Configures) s (.step u o ts) s')
    (ht : s.thread t = some th) (ht' : s'.thread t = some th) : u ≠ t := by
  rintro rfl
  obtain ⟨c, ops, p, p', hrun, _, _, hpost⟩ := hs.step_inv
  rw [hpost, Function.update_self] at ht'
  have hops := congrArg Thread.ops (Option.some.inj (ht'.trans (ht.symm.trans hrun)))
  simp at hops

theorem config_of_step (hs : Step (driver P Call.Configures) s (.step t o ts) s')
    (hq : ∀ c ∈ ts, c.Quiet) :
    s'.mem.dev.config = (access? o).elim s.mem.dev.config s.mem.dev.config.access := by
  obtain ⟨_, _, _, _, _, _, hd, _⟩ := hs.step_inv
  exact config_of_does hd hq

/-- A step without a write keeps the configuration. -/
theorem config_kept_of_step {l : DriverLabel P} (hs : Step (driver P Call.Configures) s l s')
    (hq : ∀ c ∈ l.ticks, c.Quiet)
    (hl : ∀ t o ts address w, l = .step t o ts → access? o ≠ some (.write address w)) :
    s'.mem.dev.config = s.mem.dev.config := by
  cases hs with
  | tick c m h =>
      obtain ⟨⟨_, _, hwrite⟩, rfl⟩ := h
      have hc := Blinker.config_clk_of_quiet s.mem.dev (hq c (by simp [Label.ticks]))
      rwa [hwrite] at hc
  | start t c => rfl
  | step t c ops p p' o ts w hrun ht hd =>
      rw [config_of_does hd hq]
      cases ho : access? o with
      | none => rfl
      | some a =>
          cases a with
          | read address x => rfl
          | write address b => exact absurd ho (hl t o ts address b rfl)
  | ret t c ops r => rfl

/-- **The window invariant**: what a call has read from STATE with both locks
held is the state of the device until its next operation. -/
theorem window_of_run (hr : Run (driver P Call.Configures) (initial P dev) tr s)
    (hq : ∀ e ∈ tr, ∀ c ∈ e.label.ticks, c.Quiet) (ht : s.thread t = some th)
    (hw : Window th.ops x) : x = s.mem.dev.config.stateByte := by
  induction hr generalizing t th x with
  | nil => exact absurd ht (by simp [initial])
  | @cons tr s s' l hr hs ih =>
      rw [List.forall_mem_cons] at hq
      obtain hold | ⟨c, _, _, rfl⟩ | ⟨ops, p, o, ts, rfl, hrun, hops, _⟩ := hs.thread_cases ht
      · -- another thread has stepped, and it has not written
        rw [config_kept_of_step hs hq.1]
        · exact ih hq.2 hold hw
        · rintro u o ts address w rfl ho
          exact ne_of_step_of_thread hs hold ht (writer_of_window hr hs ho hold hw)
      · exact absurd hw.1 (by simp)
      · -- this is the read
        have ho : access? o = some (.read true x) := by
          have hhead := hw.1
          rwa [hops] at hhead
        obtain ⟨_, _, _, _, _, _, hd, _⟩ := hs.step_inv
        rw [config_of_step hs hq.1, ho]
        exact (config_of_serves_read (dev_of_does_some hd ho).1 hq.1).2 rfl

/-! ## Nothing comes between read and write -/

/-- The event writes CONFIG. -/
def WritesConfig (e : DriverEvent P) : Prop :=
  ∃ t o b ts, e.label = .step t o ts ∧ access? o = some (.write ioaddrBlinkerConfig b)

/-- The event ends a call of `t`. -/
def Returns (t : Tid P) (e : DriverEvent P) : Prop := ∃ c ops r, e.label = .ret t c ops r

/-- A call reads STATE with the semaphore held once, before all else. -/
theorem accesses_of_window (hr : Run (driver P Call.Configures) (initial P dev) tr s)
    (hs : Step (driver P Call.Configures) s (.step t o ts) s') (ht : s.thread t = some th)
    (hw : Window (o :: th.ops) x) : accesses th.ops = [] := by
  obtain ⟨c, ops, p, p', hrun, htake, _⟩ := hs.step_inv
  obtain rfl := Option.some.inj (hrun.symm.trans ht)
  have hok := ((run_obeys_commitRule hr t _ hrun).takes htake).1
  obtain ⟨hread, hsem, _⟩ := hw
  have ho : access? o = some (.read true x) := hread
  have hsame : semCount (o :: ops) = semCount ops := by
    cases o with
    | io a y => rfl
    | _ => simp at ho
  simp only [commitRule, ho] at hok
  exact hok (hsame ▸ hsem)

/-- Since the call of `t` has made its first access, and while it is in the
window, nobody has written CONFIG. -/
def Undisturbed (t : Tid P) (new : List (DriverEvent P)) (s : DriverState P) : Prop :=
  (∃ f ∈ new, Returns t f) ∨
    ∃ th, s.thread t = some th ∧ accesses th.ops ≠ [] ∧
      ((∃ x, Window th.ops x) → ∀ f ∈ new, ¬ WritesConfig f)

theorem Undisturbed.step {mid : List (DriverEvent P)} {l : DriverLabel P}
    (hr : Run (driver P Call.Configures) (initial P dev) tr s)
    (hs : Step (driver P Call.Configures) s l s') (h : Undisturbed t mid s) :
    Undisturbed t (⟨s, l, s'⟩ :: mid) s' := by
  obtain ⟨f, hf, hret⟩ | ⟨th, ht, hacc, hwin⟩ := h
  · exact .inl ⟨f, List.mem_cons_of_mem _ hf, hret⟩
  by_cases hl : l.thread? = some t
  · cases l with
    | tick c => contradiction
    | start u c =>
        obtain rfl := Option.some.inj hl
        cases hs with
        | start _ _ hidle =>
            rw [hidle] at ht
            contradiction
    | ret u c ops r =>
        obtain rfl := Option.some.inj hl
        exact .inl ⟨_, List.mem_cons_self .., c, ops, r, rfl⟩
    | step u o ts =>
        -- after another operation of the call the window is closed
        obtain rfl := Option.some.inj hl
        obtain ⟨c, ops, p, p', hrun, _, _, hpost⟩ := hs.step_inv
        obtain rfl := Option.some.inj (hrun.symm.trans ht)
        refine .inr ⟨⟨c, o :: ops, p'⟩, by rw [hpost, Function.update_self], ?_, ?_⟩
        · rw [accesses_cons]
          simp [hacc]
        · rintro ⟨x, hx⟩
          exact absurd (accesses_of_window hr hs ht hx) hacc
  · refine .inr ⟨th, (hs.thread_of_ne hl).trans ht, hacc, ?_⟩
    rintro ⟨x, hx⟩
    rw [List.forall_mem_cons]
    refine ⟨?_, hwin ⟨x, hx⟩⟩
    rintro ⟨u, o, b, ts, rfl, ho⟩
    exact hl (congrArg some (writer_of_window hr hs ho ht hx))

/-- **No write falls between the read and the write of one call.** -/
theorem no_write_between {new mid old : List (DriverEvent P)} {d e : DriverEvent P} {b : BitVec 8}
    {ts' : List Cycle}
    (hr : Run (driver P Call.Configures) (initial P dev) (new ++ d :: (mid ++ e :: old)) s)
    (he : e.label = .step t (.io (.ioread8 ioaddrBlinkerState) x) ts)
    (hd : d.label = .step t (.io (.iowrite8 b ioaddrBlinkerConfig) ()) ts')
    (hsame : ∀ f ∈ mid, ¬ Returns t f) : ∀ f ∈ mid, ¬ WritesConfig f := by
  obtain ⟨hmid, hsd⟩ := hr.split rfl
  obtain ⟨hold, hse⟩ := hmid.split rfl
  rw [hd] at hsd
  rw [he] at hse
  have hfirst : Undisturbed t [] e.post := by
    obtain ⟨c, ops, p, p', _, _, _, hpost⟩ := hse.step_inv
    refine .inr ⟨_, by rw [hpost, Function.update_self], by simp, by simp⟩
  have hlast : Undisturbed t mid d.pre :=
    hmid.since (Undisturbed t) hfirst fun _ _ _ _ hr hs _ h => h.step hr hs
  obtain ⟨f, hf, hret⟩ | ⟨th, ht, hacc, hwin⟩ := hlast
  · exact absurd hret (hsame f hf)
  · obtain ⟨c, ops, p, p', hrun, htake, _⟩ := hsd.step_inv
    obtain rfl := Option.some.inj (hrun.symm.trans ht)
    obtain ⟨_, ⟨hnone, _⟩ | ⟨f, x, _, hx, _⟩⟩ :=
      mayWrite_of_takes (run_obeys_commitRule hmid t _ hrun) htake rfl
    · exact absurd hnone hacc
    · exact hwin ⟨x, hx⟩

/-! ## The write is the commit point -/

/-- The entry of a call is the call with the answers to it; handler runs have
none. -/
def configCommits : Commits user io Call (Call × List Answer) Config where
  entry c ops := if c = .interrupt then none else some (c, answers ops)
  done := Written
  apply g e := g.apply (e.1.script e.2)
  not_done_nil := by simp [Written]

theorem written_cons_iff {ops : List DriverOp} (ho : ∀ address w, access? o ≠ some (.write address w)) :
    Written (o :: ops) ↔ Written ops := by
  unfold Written
  rw [accesses_cons]
  cases hacc : access? o with
  | none => rfl
  | some a =>
      cases a with
      | read address x => simp
      | write address w => exact absurd hacc (ho address w)

theorem answer?_of_access {a : Access} (ho : access? o = some a) : answer? o = none := by
  cases o with
  | io b y => rfl
  | _ => simp at ho

/-- An operation that does not write leaves the answers of a call that has
written. -/
theorem answers_of_written {c : Call} {ops : List DriverOp} (hok : (commitRule c).ok ops o)
    (hw : Written ops) : answers (o :: ops) = answers ops := by
  have hnone : answer? o = none := by
    cases hacc : access? o with
    | some a => exact answer?_of_access hacc
    | none =>
        simp only [commitRule, hacc] at hok
        by_contra hsome
        exact hok hsome hw
  rw [answers_cons, hnone]
  rfl

/-- **A write commits**: it does to the configuration what the script of the
call does. -/
theorem apply_of_mayWrite {c : Call} {ops : List DriverOp} {address : Bool} {w : BitVec 8}
    {g : Config} (h : MayWrite c ops address w)
    (hwin : ∀ x, Window ops x → x = g.stateByte) :
    ¬ Written ops ∧ c ≠ .interrupt ∧ g.write address w = g.apply (c.script (answers ops)) := by
  obtain ⟨_, ⟨hacc, hscript⟩ | ⟨f, x, hacc, hw, hscript, rfl, rfl⟩⟩ := h
  · refine ⟨by simp [Written, hacc], ?_, by rw [hscript]; rfl⟩
    rintro rfl
    simp [Call.script] at hscript
  · refine ⟨by simp [Written, hacc], ?_, ?_⟩
    · rintro rfl
      simp [Call.script] at hscript
    · rw [hscript, hwin x hw]
      rfl

theorem advances_of_step (hr : Run (driver P Call.Configures) (initial P dev) tr s)
    (hq : ∀ e ∈ tr, ∀ c ∈ e.label.ticks, c.Quiet)
    (hs : Step (driver P Call.Configures) s (.step t o ts) s') (hqs : ∀ c ∈ ts, c.Quiet)
    {c : Call} {ops : List DriverOp} {p : Path Int} (hrun : s.thread t = some ⟨c, ops, p⟩) :
    configCommits.Advances c ops o s.mem.dev.config s'.mem.dev.config := by
  obtain ⟨c', ops', q, q', hrun', htake, _⟩ := hs.step_inv
  obtain ⟨rfl, rfl, rfl⟩ : c = c' ∧ ops = ops' ∧ p = q := by simpa [hrun] using hrun'
  have hob := run_obeys_commitRule hr t _ hrun
  rw [config_of_step hs hqs]
  by_cases ho : ∃ address w, access? o = some (.write address w)
  · obtain ⟨address, w, ho⟩ := ho
    obtain ⟨hnot, hc, happly⟩ := apply_of_mayWrite (g := s.mem.dev.config)
      (mayWrite_of_takes hob htake ho) fun x hx => window_of_run hr hq hrun hx
    have hans : answers (o :: ops) = answers ops := by
      rw [answers_cons, answer?_of_access ho]
      rfl
    refine .inr ⟨hnot, ⟨address, w, ?_⟩, (c, answers ops), ?_, ?_⟩
    · rw [accesses_cons, ho]
      simp
    · show (if c = .interrupt then none else some (c, answers (o :: ops))) = _
      rw [if_neg hc, hans]
    · rw [ho]
      exact happly
  · have ho' : ∀ address w, access? o ≠ some (.write address w) := by simpa using ho
    refine .inl ⟨written_cons_iff ho', fun hw => ?_, ?_⟩
    · have hans := answers_of_written (hob.takes htake).1 hw
      simp only [configCommits, hans]
    · cases hacc : access? o with
      | none => rfl
      | some a =>
          cases a with
          | read address x => rfl
          | write address w => exact absurd hacc (ho' address w)

/-- A script that has made no write is void. -/
theorem apply_of_not_written {sc : Script} {ops : List DriverOp} (h : sc.Makes (accesses ops))
    (hw : ¬ Written ops) (g : Config) : g.apply sc = g := by
  cases sc with
  | nop => rfl
  | store address w => exact absurd ⟨address, w, by rw [h]; simp⟩ hw
  | update f =>
      obtain ⟨x, hacc⟩ := h
      exact absurd ⟨true, f x, by rw [hacc]; simp⟩ hw

/-- The calls that have returned, handler runs apart, with the answers to
each. -/
def completedCalls (tr : List (DriverEvent P)) : List (Call × List Answer) :=
  configCommits.completed tr

/-- A call that returns without a write has a void script. -/
theorem apply_of_returned (hr : Run (driver P Call.Configures) (initial P dev) tr s) {c : Call}
    {ops : List DriverOp} {r : Int} (hrun : s.thread t = some ⟨c, ops, .ret r⟩)
    (hnot : ¬ Written ops) (e : Call × List Answer) (g : Config)
    (he : configCommits.entry c ops = some e) : configCommits.apply g e = g := by
  obtain ⟨_, hmakes⟩ : c.Answers (answers ops) ∧ (c.script (answers ops)).Makes (accesses ops) :=
    run_obeys_commitRule hr t _ hrun
  have he' : (if c = .interrupt then none else some (c, answers ops)) = some e := he
  split at he'
  · contradiction
  · obtain rfl := Option.some.inj he'
    exact apply_of_not_written hmakes hnot g

/-- **The configuration is a fold over the calls**, in the order in which
they write. -/
theorem order_of_run (hr : Run (driver P Call.Configures) (initial P dev) tr s)
    (hq : ∀ e ∈ tr, ∀ c ∈ e.label.ticks, c.Quiet)
    (hopen : ∀ t th, s.thread t = some th → ¬ Written th.ops) :
    ∃ order : List (Call × List Answer), order.Perm (completedCalls tr) ∧
      s.mem.dev.config = order.foldl configCommits.apply dev.config := by
  obtain ⟨order, active, h⟩ := hr.serial configCommits (fun m => m.dev.config)
    (fun e : DriverEvent P => ∀ c ∈ e.label.ticks, Cycle.Quiet c) (initial_idle dev)
    (fun s c m he hqc => config_kept_of_step (.tick s c m he) hqc (by simp))
    (fun old s t o ts s' c ops p hr hq hs hqs hrun => advances_of_step hr hq hs hqs hrun)
    (fun old s t c ops r hr hrun hnot => apply_of_returned hr hrun hnot) hq
  have hempty : active = [] := by
    rw [List.eq_nil_iff_forall_not_mem]
    rintro ⟨t, e⟩ hmem
    obtain ⟨th, ht, hdone, _⟩ := (h.mem t e).mp hmem
    exact hopen t th ht hdone
  have hperm := h.perm
  rw [hempty, List.map_nil, List.append_nil] at hperm
  exact ⟨order, hperm, h.value⟩

/-- The completed calls are calls of processes, answered as their code
asks. -/
theorem completedCalls_valid (hr : Run (driver P Call.Configures) (initial P dev) tr s)
    {e : Call × List Answer} (he : e ∈ completedCalls tr) :
    e.1.Configures ∧ e.1.Answers e.2 := by
  obtain ⟨d, hd, hentry⟩ := List.mem_filterMap.mp he
  obtain ⟨old, hold, hs⟩ := hr.of_mem hd
  obtain ⟨pre, l, post⟩ := d
  cases l with
  | ret t c ops r =>
      have hrun := hs.ret_inv
      have he' : (if c = .interrupt then none else some (c, answers ops)) = some e := hentry
      split at he'
      · contradiction
      · next hc =>
          obtain rfl := Option.some.inj he'
          refine ⟨?_, (run_obeys_commitRule hold t _ hrun).1⟩
          cases t with
          | irq => exact absurd (call_of_irq hold hrun) hc
          | proc p =>
              obtain ⟨_, hentered⟩ := hold.entered (initial_idle dev) hrun
              exact hentered
  | _ => simp at hentry

end Runs

/-! ## One call after the other -/

/-- Calls executed one after the other with no button active, each with the
answers given. -/
inductive Serially : Shared Mem → List (Call × List Answer) → Shared Mem → Prop
  | nil (w : Shared Mem) : Serially w [] w
  | cons {w w₁ w' : Shared Mem} {c : Call} {as : List Answer} {os : List DriverOp}
      {cs : List Cycle} {r : Int} {es : List (Call × List Answer)}
      (hx : Exec machine w c.code os cs r w₁) (has : answers os.reverse = as)
      (hq : ∀ d ∈ cs, d.Quiet) (h : Serially w₁ es w') : Serially w ((c, as) :: es) w'

theorem foldl_access_of_no_write {as : List Access} (g : Config)
    (h : ∀ address w, .write address w ∉ as) : as.foldl Config.access g = g := by
  induction as with
  | nil => rfl
  | cons a as ih =>
      cases a with
      | read address x => exact ih fun address w hmem => h address w (List.mem_cons_of_mem _ hmem)
      | write address w => exact absurd (List.mem_cons_self ..) (h address w)

/-- Accesses that carry out a script have its effect. -/
theorem foldl_access_of_makes {sc : Script} {as : List Access} {g : Config}
    (h : sc.Makes as.reverse) (hshows : g.Shows as) :
    as.foldl Config.access g = g.apply sc := by
  cases sc with
  | nop =>
      refine foldl_access_of_no_write g fun address w hmem => ?_
      exact h address w (List.mem_reverse.mpr hmem)
  | store address w =>
      have has : as = [.write address w] := by simpa using congrArg List.reverse h
      rw [has]
      rfl
  | update f =>
      obtain ⟨x, hx⟩ := h
      have has : as = [.read true x, .write true (f x)] := by simpa using congrArg List.reverse hx
      rw [has] at hshows ⊢
      rw [hshows.1 rfl]
      rfl

/-- One call by itself has the effect of its script. -/
theorem config_of_exec {c : Call} (hc : c.Configures) {w w' : Shared Mem} {os : List DriverOp}
    {cs : List Cycle} {r : Int} (hx : Exec machine w c.code os cs r w')
    (hq : ∀ d ∈ cs, d.Quiet) :
    w'.mem.dev.config = w.mem.dev.config.apply (c.script (answers os.reverse)) := by
  obtain ⟨_, hmakes⟩ := hx.fin (c.code_obeys_commitRule (.inl hc))
  obtain ⟨hshows, hcfg⟩ := config_of_accesses (accesses_of_exec hx) hq
  rw [List.append_nil, accesses_reverse] at hmakes
  rw [hcfg, foldl_access_of_makes hmakes hshows]

theorem config_of_serially {w w' : Shared Mem} {es : List (Call × List Answer)}
    (h : Serially w es w') (hes : ∀ e ∈ es, e.1.Configures) :
    w'.mem.dev.config = es.foldl configCommits.apply w.mem.dev.config := by
  induction h with
  | nil w => rfl
  | @cons w w₁ w' c as os cs r es hx has hq h ih =>
      rw [List.forall_mem_cons] at hes
      rw [ih hes.2, config_of_exec hes.1 hx hq, has]
      rfl

/-- An environment that answers so to one call. -/
def answering (intr : Bool) (x : Option (BitVec 32)) (y : Option (BitVec 8)) (fault : Bool) :
    Oracle user where
  downSignal := intr
  reply
    | .getUser _ => x
    | .putUser _ _ => fault
    | .copyFromUser _ => y
    | .copyToUser _ _ => fault

/-- The outcome has the answers `as` and leaves both locks free. -/
def Fits (as : List Answer) (x : Outcome user io Mem Cycle Int) : Prop :=
  answers x.1.reverse = as ∧ x.2.2.2.sem = 1 ∧ x.2.2.2.lock = false

section Solo

attribute [local simp] solo answering Outcome.cons Fits

/-- Every ioctl can be executed with the answers that it may get. -/
theorem exists_solo_ioctl {cmd : Cmd} {arg : BitVec 32} {as : List Answer} (has : cmd.Answers as)
    {w : Shared Mem} (hsem : w.sem = 1) (hlock : w.lock = false) :
    ∃ E x, solo E runner (blinkerDevIoctl cmd arg) w = some x ∧ Fits as x := by
  cases cmd with
  | setSpeed =>
      obtain ⟨v, rfl⟩ := has
      refine ⟨answering false v none false, ?_⟩
      cases v with
      | none => simp [blinkerDevIoctl, hsem, hlock]
      | some v =>
          by_cases hv : v.setWidth 8 = 0#8 ∨ 15#8 < v.setWidth 8
          · simp [blinkerDevIoctl, hsem, hlock, hv]
          · simp [blinkerDevIoctl, hsem, hlock, hv]
  | setMode =>
      obtain ⟨v, rfl⟩ := has
      refine ⟨answering false v none false, ?_⟩
      cases v with
      | none => simp [blinkerDevIoctl, hsem, hlock]
      | some v =>
          by_cases hv : 1#8 < v.setWidth 8
          · simp [blinkerDevIoctl, hsem, hlock, hv]
          · simp [blinkerDevIoctl, hsem, hlock, hv]
  | getLeds =>
      obtain ⟨b, rfl⟩ := has
      refine ⟨answering false none none b, ?_⟩
      cases b <;>
        simp [blinkerDevIoctl, hsem, hlock]
  | getConfig =>
      obtain ⟨b, rfl⟩ := has
      refine ⟨answering false none none b, ?_⟩
      cases b <;>
        simp [blinkerDevIoctl, hsem, hlock]
  | _ =>
      obtain rfl := has
      refine ⟨answering false none none false, ?_⟩
      simp [blinkerDevIoctl, hsem, hlock]

theorem exists_solo {c : Call} {as : List Answer} (hc : c.Configures) (has : c.Answers as)
    {w : Shared Mem} (hsem : w.sem = 1) (hlock : w.lock = false) :
    ∃ E x, solo E runner c.code w = some x ∧ Fits as x := by
  cases c with
  | devIoctl cmd arg =>
      obtain rfl | has := has
      · refine ⟨answering true none none false, ?_⟩
        simp [Call.code, blinkerDevIoctl, hsem, hlock]
      · exact exists_solo_ioctl has hsem hlock
  | devWrite userBuffer count =>
      obtain rfl | ⟨y, rfl⟩ := has
      · refine ⟨answering true none none false, ?_⟩
        simp [Call.code, blinkerDevWrite, hsem, hlock]
      · refine ⟨answering false none y false, ?_⟩
        cases y with
        | none =>
            simp [Call.code, blinkerDevWrite, hsem, hlock]
        | some b =>
            by_cases hb : b = 0#8 ∨ 7#8 < b
            · simp [Call.code, blinkerDevWrite, hsem, hlock, hb]
            · simp [Call.code, blinkerDevWrite, hsem, hlock, hb]
  | storeConfig data result =>
      obtain rfl := has
      refine ⟨answering false none none false, ?_⟩
      simp [Call.code, configStore, hsem, hlock]
  | _ => exact hc.elim

end Solo

/-- Calls that may be answered so can be executed one after the other. -/
theorem exists_serially {es : List (Call × List Answer)}
    (hes : ∀ e ∈ es, e.1.Configures ∧ e.1.Answers e.2) (w : Shared Mem) (hsem : w.sem = 1)
    (hlock : w.lock = false) : ∃ w', Serially w es w' := by
  induction es generalizing w with
  | nil => exact ⟨w, .nil w⟩
  | cons e es ih =>
      rw [List.forall_mem_cons] at hes
      obtain ⟨E, ⟨os, cs, r, w₁⟩, hsolo, has, hsem₁, hlock₁⟩ :=
        exists_solo hes.1.1 hes.1.2 hsem hlock
      obtain ⟨hx, hq⟩ := valid_of_solo runner_quiet hsolo
      obtain ⟨w', h⟩ := ih hes.2 w₁ hsem₁ hlock₁
      exact ⟨w', .cons hx has hq h⟩

/-- A whole call of thread `t` falls among the events. -/
def Encloses {P : Type} (mid : List (DriverEvent P)) (t : Tid P) (c : Call) : Prop :=
  (∃ e ∈ mid, e.label = .start t c) ∧ ∃ e ∈ mid, ∃ ops r, e.label = .ret t c ops r

/-- A process enters an ioctl after reset, another makes a whole `config_store`,
and the first goes on to its end. -/
theorem exists_run_around_store (cmd : Cmd) {rest : Path Int} {b : BitVec 8}
    {x y : Outcome user io Mem Cycle Int}
    (hcode : (blinkerDevIoctl cmd 0).Takes (.down false)
      (.io (A := io) (.incr .ioctlCount) fun _ => rest))
    (hx : solo (answering false none none false) runner (configStore b 1)
      { mem := (probed .reset).mem.update (.incr .ioctlCount), sem := 0, lock := false } = some x)
    (hy : solo (answering false none none false) runner rest x.2.2.2 = some y) :
    ∃ (tr mid : List (DriverEvent Bool)) (s : DriverState Bool) (ops : List DriverOp),
      Run (driver Bool Call.Configures) (initial Bool .reset) tr s ∧ s.toShared = y.2.2.2 ∧ s.Idle ∧
        (∀ e ∈ tr, ∀ c ∈ e.label.ticks, c.Quiet) ∧
        ops = y.1.reverse ++ [.io (.incr .ioctlCount) (), .down false] ∧
        Completes tr (.proc false) (.devIoctl cmd 0) ops y.2.2.1 mid ∧
        Encloses mid (.proc true) (.storeConfig b 1) := by
  have hnil : Run (driver Bool Call.Configures) (initial Bool .reset) [] _ := .nil
  obtain ⟨before, hbefore, _, hlabels⟩ := exists_run_entered hnil false (.devIoctl cmd 0)
    .ioctlCount rest hcode rfl trivial rfl
  obtain ⟨hexec, hq⟩ := valid_of_solo runner_quiet hx
  obtain ⟨hexec', hq'⟩ := valid_of_solo runner_quiet hy
  obtain ⟨during, hduring, ⟨hthread, hticks⟩, _, _, _, ⟨d, hd, hstart⟩, e, he, hl⟩ := hbefore.exec
    (.proc true) (.storeConfig b 1) rfl trivial hexec (down_true_notMem_of_solo rfl hx)
  obtain ⟨ret, mid, hafter, ⟨_, hticks'⟩, hret, hno⟩ := hexec'.exists_run_rest (t := Tid.proc false)
    (down_true_notMem_of_solo rfl hy) hduring rfl rfl
  -- the three events of the entry
  obtain ⟨e₂, e₁, begin, rfl⟩ := List.length_eq_three.mp (by simpa using congrArg List.length hlabels)
  obtain ⟨h₂, h₁, hbegin⟩ : e₂.label = _ ∧ e₁.label = _ ∧ begin.label = _ := by simpa using hlabels
  refine ⟨_, mid ++ (during ++ [e₂, e₁]), _, _, hafter, rfl, fun t => ?_, ?_, rfl, ?_,
    ⟨d, by simp [hd], hstart⟩, e, by simp [he], _, _, hl⟩
  · by_cases ht : t = .proc false
    · subst ht
      simp
    · simp [ht, initial]
  · rw [List.append_nil, List.forall_mem_append, List.forall_mem_append]
    refine ⟨fun e he c hc => hq' c (hticks' e he c hc), fun e he c hc => hq c (hticks e he c hc), ?_⟩
    simp [h₂, h₁, hbegin, Label.ticks]
  · refine ⟨[], ret, _, List.cons_append .., hret, begin, [], by simp, hbegin, ?_⟩
    rw [List.forall_mem_append, List.forall_mem_append]
    refine ⟨hno, fun e he c hl => ?_, by simp [h₂, h₁]⟩
    have hmine := hthread e he
    rw [hl] at hmine
    simp [Label.thread?] at hmine

/-- **The configuration calls are serializable.**  With no button active, in
every run of any number of processes, no CONFIG write falls between the STATE
read and the CONFIG write of one call; and whenever no call that has written is
still in progress, there is an order of the completed calls in which they can
be executed one after the other, and every such execution ends in the
configuration of the run. -/
theorem config_serializable (P : Type) [DecidableEq P] (dev : Blinker)
    (tr : List (DriverEvent P)) (s : DriverState P)
    (hr : Run (driver P Call.Configures) (initial P dev) tr s)
    (hq : ∀ e ∈ tr, ∀ c ∈ e.label.ticks, c.Quiet) :
    (∀ new d mid e old p x b ts ts', tr = new ++ d :: (mid ++ e :: old) →
      e.label = .step (.proc p) (.io (.ioread8 ioaddrBlinkerState) x) ts →
      d.label = .step (.proc p) (.io (.iowrite8 b ioaddrBlinkerConfig) ()) ts' →
      (∀ f ∈ mid, ¬ Returns (.proc p) f) → ∀ f ∈ mid, ¬ WritesConfig f) ∧
    ((∀ t th, s.thread t = some th → ¬ Written th.ops) →
      ∃ order : List (Call × List Answer), order.Perm (completedCalls tr) ∧
        (∃ w, Serially (probed dev) order w) ∧
        ∀ w, Serially (probed dev) order w → w.mem.dev.config = s.mem.dev.config) := by
  constructor
  · rintro new d mid e old p x b ts ts' rfl he hd hsame
    exact no_write_between hr he hd hsame
  · intro hopen
    obtain ⟨order, hperm, hcfg⟩ := order_of_run hr hq hopen
    have hvalid : ∀ e ∈ order, e.1.Configures ∧ e.1.Answers e.2 :=
      fun e he => completedCalls_valid hr (hperm.mem_iff.mp he)
    refine ⟨order, hperm, exists_serially hvalid (probed dev) rfl rfl, fun w hw => ?_⟩
    rw [config_of_serially hw fun e he => (hvalid e he).1, hcfg]
    rfl

/-- One process is in its `IOC_ENA_INT` when another makes a whole
`config_store` of 0, from the reset state: what they leave is what they leave
in some order. -/
theorem config_serializable_store_ioctl :
    ∃ (tr mid : List (DriverEvent Bool)) (s : DriverState Bool) (ops : List DriverOp),
      Run (driver Bool Call.Configures) (initial Bool .reset) tr s ∧
        Completes tr (.proc false) (.devIoctl .enaInt 0) ops 0 mid ∧
        Encloses mid (.proc true) (.storeConfig 0 1) ∧
        s.mem.dev.config = ⟨false, false, true, 8⟩ ∧
        ∃ order : List (Call × List Answer), order.Perm (completedCalls tr) ∧
          (∃ w, Serially (probed .reset) order w) ∧
          ∀ w, Serially (probed .reset) order w → w.mem.dev.config = ⟨false, false, true, 8⟩ := by
  obtain ⟨x, y, hx, hy, hr, hcfg⟩ : ∃ x y,
      solo (answering false none none false) runner (configStore 0 1)
        { mem := (probed .reset).mem.update (.incr .ioctlCount), sem := 0, lock := false } = some x ∧
      solo (answering false none none false) runner
        ((modifyConfig enaIntByte).bind fun _ => .up (.ret (0 : Int))) x.2.2.2 = some y ∧
      y.2.2.1 = 0 ∧ y.2.2.2.mem.dev.config = ⟨false, false, true, 8⟩ :=
    ⟨_, _, rfl, rfl, rfl, by decide⟩
  obtain ⟨tr, mid, s, ops, hrun, hs, hidle, hq, _, hcompletes, hin⟩ :=
    exists_run_around_store .enaInt (.down _ false) hx hy
  have hserial := (config_serializable Bool .reset tr s hrun hq).2 fun t th ht => by
    rw [hidle t] at ht
    contradiction
  rw [← hs] at hcfg
  rw [hcfg] at hserial
  rw [hr] at hcompletes
  exact ⟨tr, mid, s, ops, hrun, hcompletes, hin, hcfg, hserial⟩

end De1Soc
