import De1Soc.Driver.System
import De1Soc.Kernel.Ledger

/-!
# De1Soc.Driver.Files

The open files of the device and the counters that follow them.

The kernel opens a file when `blinker_dev_open` returns zero, and when the last
reference to it is dropped it calls `blinker_dev_release` once and discards the
file, whatever the call returns (`FileTable`).  `open_count` is incremented by
exactly the opens that succeed.  A release that a signal interrupts at the
semaphore does not come to its increment, and its file is gone all the same:
`open_count - release_count` is the number of open files and of the releases
that were interrupted, so it is the number of open files exactly when the
latter is a multiple of `2^32` (`file_accounting_iff`).
-/

namespace De1Soc

open Kernel

/-- The operation increments the counter `k`. -/
def isIncr (k : Counter) : DriverOp → Bool
  | .io (.incr k') _ => k' == k
  | _ => false

/-- A signal ends the sleep at the semaphore. -/
def isSignal : DriverOp → Bool
  | .down intr => intr
  | _ => false

/-! ## The file table -/

/-- The files that are open on the device, and the file that an open or a
release in progress is about. -/
structure FileTable (P F : Type) where
  files : Finset F
  busy : Tid P → Option F

/-- The label begins or ends an open or a release. -/
def movesFiles {P : Type} : DriverLabel P → Bool
  | .start _ .devOpen | .start _ .devRelease => true
  | .ret _ .devOpen _ _ | .ret _ .devRelease _ _ => true
  | _ => false

section Table

variable {P F : Type} [DecidableEq P] [DecidableEq F]

/-- How the kernel's file table follows the calls.  An open is given a new file,
which is in the table once the call has returned zero; a release is called for
an open file that nobody else opens or releases, and the file is out of the
table once the call has returned anything. -/
inductive FileTable.Step : FileTable P F → DriverLabel P → FileTable P F → Prop
  | opens (v : FileTable P F) (t : Tid P) (f : F) (hnew : f ∉ v.files)
      (hfree : ∀ u, v.busy u ≠ some f) :
      Step v (.start t .devOpen) { v with busy := Function.update v.busy t (some f) }
  | opened (v : FileTable P F) (t : Tid P) (f : F) (ops : List DriverOp)
      (hf : v.busy t = some f) :
      Step v (.ret t .devOpen ops 0)
        { files := insert f v.files, busy := Function.update v.busy t none }
  | refused (v : FileTable P F) (t : Tid P) (ops : List DriverOp) (r : Int) (hr : r ≠ 0) :
      Step v (.ret t .devOpen ops r) { v with busy := Function.update v.busy t none }
  | releases (v : FileTable P F) (t : Tid P) (f : F) (hopen : f ∈ v.files)
      (hfree : ∀ u, v.busy u ≠ some f) :
      Step v (.start t .devRelease) { v with busy := Function.update v.busy t (some f) }
  | released (v : FileTable P F) (t : Tid P) (f : F) (ops : List DriverOp) (r : Int)
      (hf : v.busy t = some f) :
      Step v (.ret t .devRelease ops r)
        { files := v.files.erase f, busy := Function.update v.busy t none }
  | other (v : FileTable P F) (l : DriverLabel P) (hl : movesFiles l = false) : Step v l v

/-- The file table after the events of a run, with no file open before. -/
inductive Tracks : List (DriverEvent P) → FileTable P F → Prop
  | nil : Tracks [] ⟨∅, fun _ => none⟩
  | cons {e : DriverEvent P} {tr : List (DriverEvent P)} {v v' : FileTable P F}
      (h : Tracks tr v) (hs : v.Step e.label v') : Tracks (e :: tr) v'

end Table

/-- No open and no release is in progress. -/
def NoFileCall {P : Type} (s : DriverState P) : Prop :=
  ∀ t th, s.thread t = some th → th.call ≠ .devOpen ∧ th.call ≠ .devRelease

/-- The label is the return of an open that has succeeded. -/
def opensFile {P : Type} : DriverLabel P → Bool
  | .ret _ .devOpen _ r => r == 0
  | _ => false

/-- The label is the return of a release. -/
def dropsFile {P : Type} : DriverLabel P → Bool
  | .ret _ .devRelease _ _ => true
  | _ => false

/-- The label is the return of a release that a signal interrupted. -/
def interruptsRelease {P : Type} : DriverLabel P → Bool
  | .ret _ .devRelease ops _ => marked isSignal ops
  | _ => false

/-- The releases of a run that a signal interrupted. -/
def interruptedReleases {P : Type} (tr : List (DriverEvent P)) : Nat :=
  tr.countP fun e => interruptsRelease e.label

/-! ## What the calls count -/

/-- The counter and the call that increments it. -/
def Owns (k : Counter) (c₀ : Call) : Prop :=
  (k = .openCount ∧ c₀ = .devOpen) ∨ (k = .releaseCount ∧ c₀ = .devRelease)

/-- Only `c₀` increments `k`, once; it does unless a signal interrupted it, and
returns zero exactly then. -/
def countRule (k : Counter) (c₀ c : Call) : Rule user io Int where
  ok ops o := isIncr k o = true → c = c₀ ∧ marked (isIncr k) ops = false
  fin ops r := c = c₀ →
    marked (isIncr k) ops = !marked isSignal ops ∧ (r = 0 ↔ marked (isIncr k) ops = true)

theorem Call.code_obeys_countRule (c : Call) {k : Counter} {c₀ : Call} (h : Owns k c₀) :
    c.code.Obeys (countRule k c₀ c) [] := by
  obtain ⟨rfl, rfl⟩ | ⟨rfl, rfl⟩ := h
  all_goals
    cases c with
    | devIoctl cmd arg =>
        cases cmd <;>
          simp [Call.code, blinkerDevIoctl, countRule, isIncr, Option.forall]
    | devOpen => simp [Call.code, blinkerDevOpen, countRule, isIncr, isSignal, marked]
    | devRelease => simp [Call.code, blinkerDevRelease, countRule, isIncr, isSignal, marked]
    | devRead userBuffer count => simp [Call.code, blinkerDevRead, countRule, isIncr]
    | devWrite userBuffer count =>
        simp [Call.code, blinkerDevWrite, countRule, isIncr, Option.forall]
    | storeConfig data result => simp [Call.code, configStore, countRule, isIncr]
    | interrupt => simp [Call.code, blinkerDriverInterruptHandler, countRule, isIncr]

theorem countRule_once {k : Counter} {c₀ : Call} (c : Call) : (countRule k c₀ c).Once (isIncr k) :=
  fun _ _ hok ho => (hok ho).2

section Runs

variable {P : Type} [DecidableEq P] {calls : Call → Prop} {dev : Blinker}
  {tr : List (DriverEvent P)} {s s' : DriverState P} {k : Counter} {c₀ : Call}

/-! ## The counters along a run -/

theorem count_of_does {o : DriverOp} {w w' : Shared Mem} {cs : List Cycle}
    (h : Does machine o w cs w') :
    w'.mem.count k = w.mem.count k + if isIncr k o then 1 else 0 := by
  cases h with
  | io w a x ts m heff =>
      cases a with
      | incr k' =>
          obtain ⟨rfl, rfl⟩ := heff
          by_cases hk : k' = k
          · subst hk
            simp [Mem.update, isIncr]
          · simp [Mem.update, isIncr, hk, Function.update_of_ne (Ne.symm hk)]
      | _ =>
          simp only [machine, access?] at heff
          obtain ⟨_, rfl⟩ := heff
          simp [isIncr, Mem.update]
  | _ => simp [isIncr]

theorem count_of_step {l : DriverLabel P} (hs : Step (driver P calls) s l s') :
    s'.mem.count k = s.mem.count k + if l.makes (isIncr k) then 1 else 0 := by
  cases hs with
  | tick c m h =>
      obtain ⟨_, rfl⟩ := h
      simp [Label.makes]
  | start t c => simp [Label.makes]
  | step t c ops p p' o ts w hrun ht hd => exact count_of_does hd
  | ret t c ops r => simp [Label.makes]

/-- **A counter counts its increments**, modulo its width. -/
theorem count_eq_made (hr : Run (driver P calls) (initial P dev) tr s) :
    s.mem.count k = BitVec.ofNat 32 (made (isIncr k) tr) := by
  induction hr with
  | nil => rfl
  | cons hr hs ih =>
      rw [count_of_step hs, ih, made_cons]
      split <;> simp [BitVec.ofNat_add]

/-- Only its own call increments a counter. -/
theorem marked_of_call_ne (hk : Owns k c₀) (hr : Run (driver P calls) (initial P dev) tr s)
    {t : Tid P} {th : Thread user io Call Int} (ht : s.thread t = some th) (hc : th.call ≠ c₀) :
    marked (isIncr k) th.ops = false := by
  refine hr.history (R := countRule k c₀) (P := fun c ops => c ≠ c₀ → marked (isIncr k) ops = false)
    (fun _ _ c _ => c.code_obeys_countRule hk) (initial_idle dev) (fun _ _ => rfl) ?_ ht hc
  intro c ops o hok ih hc
  have ho : isIncr k o = false := by
    by_contra h
    exact hc (hok (Bool.not_eq_false _ ▸ h)).1
  simpa [marked, ho] using ih hc

/-- With no such call in progress a counter has counted the calls that have
returned after their increment. -/
theorem count_eq_finished (hk : Owns k c₀) (hr : Run (driver P calls) (initial P dev) tr s)
    (hno : ∀ t th, s.thread t = some th → th.call ≠ c₀) :
    s.mem.count k = BitVec.ofNat 32 (finished (isIncr k) tr) := by
  have hnone : ∀ t, ¬ s.Marked (isIncr k) t := by
    rintro t ⟨th, ht, hmarked⟩
    rw [marked_of_call_ne hk hr ht (hno t th ht)] at hmarked
    contradiction
  rw [count_eq_made hr, hr.made_eq_finished (R := countRule k c₀) countRule_once
    (fun _ _ c _ => c.code_obeys_countRule hk) (initial_idle dev) hnone]

/-! ## The returns along a run -/

/-- What a call has counted at its return. -/
theorem marked_of_ret (hk : Owns k c₀) (hr : Run (driver P calls) (initial P dev) tr s)
    {e : DriverEvent P} (he : e ∈ tr) {t : Tid P} {c : Call} {ops : List DriverOp} {r : Int}
    (hl : e.label = .ret t c ops r) :
    (c ≠ c₀ → marked (isIncr k) ops = false) ∧ (countRule k c₀ c).fin ops r := by
  obtain ⟨old, hold, hs⟩ := hr.of_mem he
  rw [hl] at hs
  exact ⟨marked_of_call_ne hk hold hs.ret_inv,
    hold.obeys (fun _ _ c _ => c.code_obeys_countRule hk) (initial_idle dev) t _ hs.ret_inv⟩

/-- The opens that have succeeded are those that have incremented `open_count`. -/
theorem finishes_openCount (hr : Run (driver P calls) (initial P dev) tr s) {e : DriverEvent P}
    (he : e ∈ tr) : e.label.finishes (isIncr .openCount) = opensFile e.label := by
  cases hl : e.label with
  | ret t c ops r =>
      obtain ⟨hother, hown⟩ := marked_of_ret (.inl ⟨rfl, rfl⟩) hr he hl
      by_cases hc : c = .devOpen
      · subst hc
        rw [Bool.eq_iff_iff]
        simpa [Label.finishes, opensFile] using (hown rfl).2.symm
      · rw [Label.finishes, hother hc]
        cases c with
        | devOpen => exact absurd rfl hc
        | _ => rfl
  | _ => rfl

/-- A release has incremented `release_count` or was interrupted. -/
theorem finishes_releaseCount (hr : Run (driver P calls) (initial P dev) tr s) {e : DriverEvent P}
    (he : e ∈ tr) : (e.label.finishes (isIncr .releaseCount)).toNat +
      (interruptsRelease e.label).toNat = (dropsFile e.label).toNat := by
  cases hl : e.label with
  | ret t c ops r =>
      obtain ⟨hother, hown⟩ := marked_of_ret (.inr ⟨rfl, rfl⟩) hr he hl
      by_cases hc : c = .devRelease
      · subst hc
        simp only [Label.finishes, interruptsRelease, dropsFile, (hown rfl).1]
        cases marked isSignal ops <;> rfl
      · rw [Label.finishes, hother hc]
        cases c with
        | devRelease => exact absurd rfl hc
        | _ => rfl
  | _ => rfl

theorem finished_openCount (hr : Run (driver P calls) (initial P dev) tr s) :
    finished (isIncr .openCount) tr = tr.countP fun e => opensFile e.label := by
  refine List.countP_congr fun e he => ?_
  rw [finishes_openCount hr he]

/-- The releases that have returned are those that were counted and those that
were interrupted. -/
theorem finished_releaseCount (hr : Run (driver P calls) (initial P dev) tr s) :
    finished (isIncr .releaseCount) tr + interruptedReleases tr =
      tr.countP fun e => dropsFile e.label := by
  have hite : ∀ b : Bool, (if b = true then 1 else 0) = b.toNat := by decide
  have hevent := fun e he => finishes_releaseCount hr (e := e) he
  clear hr
  induction tr with
  | nil => rfl
  | cons e tr ih =>
      rw [List.forall_mem_cons] at hevent
      have hrest := ih hevent.2
      have hhead := hevent.1
      rw [interruptedReleases] at hrest
      rw [finished_cons, interruptedReleases, List.countP_cons, List.countP_cons]
      simp only [hite]
      omega

/-! ## The table along a run -/

section Tables

variable {F : Type} [DecidableEq F] {v v' : FileTable P F}

/-- Each open or release in progress has a file of its own, which is not in the
table yet, or still in it. -/
structure Consistent (s : DriverState P) (v : FileTable P F) : Prop where
  unique : ∀ t u f, v.busy t = some f → v.busy u = some f → t = u
  opening : ∀ t th, s.thread t = some th → th.call = .devOpen →
    ∃ f, v.busy t = some f ∧ f ∉ v.files
  releasing : ∀ t th, s.thread t = some th → th.call = .devRelease →
    ∃ f, v.busy t = some f ∧ f ∈ v.files

/-- A thread was in its call before the step, or begins it. -/
theorem call_of_step {l : DriverLabel P} {u : Tid P} {th : Thread user io Call Int}
    (hs : Step (driver P calls) s l s') (hu : s'.thread u = some th) :
    (∃ th₀, s.thread u = some th₀ ∧ th₀.call = th.call) ∨ l = .start u th.call := by
  obtain hold | ⟨c, rfl, _, rfl⟩ | ⟨ops, p, o, ts, _, hrun, _⟩ := hs.thread_cases hu
  · exact .inl ⟨th, hold, rfl⟩
  · exact .inr rfl
  · exact .inl ⟨_, hrun, rfl⟩

omit [DecidableEq F] in
/-- Giving a thread no file, or one that no other has, keeps the files apart. -/
theorem unique_update (h : ∀ t u f, v.busy t = some f → v.busy u = some f → t = u) (t : Tid P)
    {x : Option F} (hx : ∀ f, x = some f → ∀ u, v.busy u ≠ some f) :
    ∀ y u f, Function.update v.busy t x y = some f → Function.update v.busy t x u = some f →
      y = u := by
  intro y u f hy hu
  by_cases hyt : y = t
  · by_cases hut : u = t
    · rw [hyt, hut]
    · subst hyt
      rw [Function.update_self] at hy
      rw [Function.update_of_ne hut] at hu
      exact absurd hu (hx f hy u)
  · rw [Function.update_of_ne hyt] at hy
    by_cases hut : u = t
    · subst hut
      rw [Function.update_self] at hu
      exact absurd hy (hx f hu y)
    · rw [Function.update_of_ne hut] at hu
      exact h y u f hy hu

omit [DecidableEq F] in
/-- A call that begins an open or a release gets a file; the others keep
theirs. -/
theorem Consistent.start {t : Tid P} {c : Call} {f : F} (h : Consistent s v)
    (hs : Step (driver P calls) s (.start t c) s') (hfree : ∀ u, v.busy u ≠ some f)
    (hopen : c = .devOpen → f ∉ v.files) (hrelease : c = .devRelease → f ∈ v.files) :
    Consistent s' { v with busy := Function.update v.busy t (some f) } := by
  have hself : s'.thread t = some ⟨c, [], c.code⟩ := hs.start_inv
  have hother : ∀ u, u ≠ t → s'.thread u = s.thread u ∧
      Function.update v.busy t (some f) u = v.busy u := fun u hut =>
    ⟨hs.thread_of_ne fun heq => hut (Option.some.inj heq).symm, Function.update_of_ne hut ..⟩
  refine ⟨unique_update h.unique t fun g hg u => ?_, fun u th hu hc => ?_, fun u th hu hc => ?_⟩
  · obtain rfl := Option.some.inj hg
    exact hfree u
  · by_cases hut : u = t
    · subst hut
      obtain rfl := Option.some.inj (hself.symm.trans hu)
      exact ⟨f, Function.update_self .., hopen hc⟩
    · rw [(hother u hut).1] at hu
      simp only [(hother u hut).2]
      exact h.opening u th hu hc
  · by_cases hut : u = t
    · subst hut
      obtain rfl := Option.some.inj (hself.symm.trans hu)
      exact ⟨f, Function.update_self .., hrelease hc⟩
    · rw [(hother u hut).1] at hu
      simp only [(hother u hut).2]
      exact h.releasing u th hu hc

omit [DecidableEq F] in
/-- A call that returns gives up its file; the others keep theirs, in or out of
the table. -/
theorem Consistent.ret {t : Tid P} {c : Call} {ops : List DriverOp} {r : Int} {files : Finset F}
    (h : Consistent s v) (hs : Step (driver P calls) s (.ret t c ops r) s')
    (hfiles : ∀ u f, u ≠ t → v.busy u = some f → (f ∈ files ↔ f ∈ v.files)) :
    Consistent s' { files := files, busy := Function.update v.busy t none } := by
  have hgone : s'.thread t = none := hs.ret_post
  have hother : ∀ u th, s'.thread u = some th →
      u ≠ t ∧ s.thread u = some th ∧ Function.update v.busy t none u = v.busy u := by
    intro u th hu
    have hut : u ≠ t := by
      rintro rfl
      rw [hgone] at hu
      contradiction
    refine ⟨hut, ?_, Function.update_of_ne hut ..⟩
    rwa [hs.thread_of_ne fun heq => hut (Option.some.inj heq).symm] at hu
  refine ⟨unique_update h.unique t (by simp), fun u th hu hc => ?_, fun u th hu hc => ?_⟩
  · obtain ⟨hut, hu', hbusy⟩ := hother u th hu
    obtain ⟨f, hf, hno⟩ := h.opening u th hu' hc
    exact ⟨f, hbusy.trans hf, mt (hfiles u f hut hf).mp hno⟩
  · obtain ⟨hut, hu', hbusy⟩ := hother u th hu
    obtain ⟨f, hf, hmem⟩ := h.releasing u th hu' hc
    exact ⟨f, hbusy.trans hf, (hfiles u f hut hf).mpr hmem⟩

/-- **A step keeps the table consistent.** -/
theorem Consistent.step {l : DriverLabel P} (h : Consistent s v)
    (hs : Step (driver P calls) s l s') (hv : v.Step l v') : Consistent s' v' := by
  cases hv with
  | opens t f hnew hfree => exact h.start hs hfree (fun _ => hnew) (fun hc => by contradiction)
  | releases t f hopen hfree =>
      exact h.start hs hfree (fun hc => by contradiction) (fun _ => hopen)
  | opened t f ops hf =>
      refine h.ret hs fun u g hut hg => ?_
      have hne : g ≠ f := by
        rintro rfl
        exact hut (h.unique u t g hg hf)
      simp [hne]
  | refused t ops r hr => exact h.ret hs fun _ _ _ _ => Iff.rfl
  | released t f ops r hf =>
      refine h.ret hs fun u g hut hg => ?_
      have hne : g ≠ f := by
        rintro rfl
        exact hut (h.unique u t g hg hf)
      simp [hne]
  | other l hl =>
      have hcall : ∀ u th, s'.thread u = some th → th.call = .devOpen ∨ th.call = .devRelease →
          ∃ th₀, s.thread u = some th₀ ∧ th₀.call = th.call := by
        intro u th hu hc
        obtain hold | rfl := call_of_step hs hu
        · exact hold
        · obtain hc | hc := hc <;> simp [movesFiles, hc] at hl
      refine ⟨h.unique, fun u th hu hc => ?_, fun u th hu hc => ?_⟩
      · obtain ⟨th₀, hu', hc'⟩ := hcall u th hu (.inl hc)
        exact h.opening u th₀ hu' (hc'.trans hc)
      · obtain ⟨th₀, hu', hc'⟩ := hcall u th hu (.inr hc)
        exact h.releasing u th₀ hu' (hc'.trans hc)

/-- **The files that are open** are those of the opens that have succeeded, less
those of the releases that have returned. -/
theorem files_of_run (hr : Run (driver P calls) (initial P dev) tr s) (hv : Tracks tr v) :
    Consistent s v ∧ v.files.card + (tr.countP fun e => dropsFile e.label) =
      tr.countP fun e => opensFile e.label := by
  induction hr generalizing v with
  | nil =>
      cases hv with
      | nil => exact ⟨⟨by simp, by simp [initial], by simp [initial]⟩, rfl⟩
  | @cons tr s s' l hr hs ih =>
      cases hv with
      | cons hv hstep =>
          obtain ⟨hc, hcount⟩ := ih hv
          refine ⟨hc.step hs hstep, ?_⟩
          rw [List.countP_cons, List.countP_cons, ← hcount]
          cases hstep with
          | opened t f ops hf =>
              obtain ⟨g, hg, hno⟩ := hc.opening t _ hs.ret_inv rfl
              obtain rfl : f = g := Option.some.inj (hf.symm.trans hg)
              simp [opensFile, dropsFile, Finset.card_insert_of_notMem hno]
              omega
          | released t f ops r hf =>
              obtain ⟨g, hg, hmem⟩ := hc.releasing t _ hs.ret_inv rfl
              obtain rfl : f = g := Option.some.inj (hf.symm.trans hg)
              have hcard := Finset.card_erase_add_one hmem
              simp [opensFile, dropsFile]
              omega
          | refused t ops r hr => simp [opensFile, dropsFile, hr]
          | opens | releases => rfl
          | other l hl =>
              have hno : opensFile l = false ∧ dropsFile l = false := by
                cases l with
                | ret t c ops r => cases c <;> simp_all [movesFiles, opensFile, dropsFile]
                | _ => exact ⟨rfl, rfl⟩
              simp [hno.1, hno.2]

end Tables

end Runs

/-- **Open-file accounting.**  In every run, in every state with no open or
release in progress, `open_count - release_count` is the number of open files,
modulo the width of the counters, exactly when the releases that a signal has
interrupted are a multiple of `2^32`: when there was none, above all. -/
theorem file_accounting_iff (P F : Type) [DecidableEq P] [DecidableEq F] (calls : Call → Prop)
    (dev : Blinker) (tr : List (DriverEvent P)) (s : DriverState P)
    (hr : Run (driver P calls) (initial P dev) tr s) (v : FileTable P F) (hv : Tracks tr v)
    (hs : NoFileCall s) :
    s.mem.count .openCount - s.mem.count .releaseCount = BitVec.ofNat 32 v.files.card ↔
      interruptedReleases tr % 2 ^ 32 = 0 := by
  have hopen := count_eq_finished (.inl ⟨rfl, rfl⟩) hr fun t th ht => (hs t th ht).1
  have hrelease := count_eq_finished (.inr ⟨rfl, rfl⟩) hr fun t th ht => (hs t th ht).2
  have hcount := (files_of_run hr hv).2
  rw [hopen, hrelease, finished_openCount hr, ← hcount, ← finished_releaseCount hr]
  generalize finished (isIncr .releaseCount) tr = n
  generalize interruptedReleases tr = k
  generalize v.files.card = m
  constructor
  · intro h
    have hnat := congrArg BitVec.toNat h
    simp only [BitVec.toNat_sub, BitVec.toNat_ofNat] at hnat
    omega
  · intro h
    apply BitVec.eq_of_toNat_eq
    simp only [BitVec.toNat_sub, BitVec.toNat_ofNat]
    omega

/-! ### Carrying opens and releases out -/

section Carry

variable {P F : Type} [DecidableEq P] [DecidableEq F] {calls : Call → Prop} {dev : Blinker}
  {tr mid : List (DriverEvent P)} {s : DriverState P} {v : FileTable P F}

/-- Events that neither begin nor end an open or a release leave the files. -/
theorem Tracks.others (h : Tracks tr v) (hmid : ∀ e ∈ mid, movesFiles e.label = false) :
    Tracks (mid ++ tr) v := by
  induction mid with
  | nil => exact h
  | cons e mid ih =>
      rw [List.forall_mem_cons] at hmid
      exact (ih hmid.2).cons (.other _ _ hmid.1)

omit [DecidableEq P] in
theorem interruptedReleases_append {new : List (DriverEvent P)}
    (hnew : ∀ e ∈ new, interruptsRelease e.label = false) :
    interruptedReleases (new ++ tr) = interruptedReleases tr := by
  have hzero : new.countP (fun e => interruptsRelease e.label) = 0 := by
    refine List.countP_eq_zero.mpr fun e he => ?_
    simp [hnew e he]
  rw [interruptedReleases, List.countP_append, hzero, Nat.zero_add]
  rfl

omit [DecidableEq P] in
/-- Past the semaphore an open and a release increment their counter and
release it. -/
theorem Owns.takes {k : Counter} {c₀ : Call} (h : Owns k c₀) :
    c₀.code.Takes (.down false) (.io (A := io) (.incr k) fun _ => .up (.ret 0)) := by
  obtain ⟨rfl, rfl⟩ | ⟨rfl, rfl⟩ := h
  · exact .down _ false
  · exact .down _ false

/-- With the semaphore free an open or a release is carried out and counted. -/
theorem exists_run_counted {k : Counter} {c₀ : Call} (h : Owns k c₀)
    (hr : Run (driver P calls) (initial P dev) tr s) (p : P) (hidle : s.thread (.proc p) = none)
    (hc : calls c₀) (hsem : s.sem = 1) :
    ∃ start mid ret ops, Run (driver P calls) (initial P dev) (ret :: (mid ++ [start]) ++ tr)
      { s with mem := s.mem.update (.incr k) } ∧ start.label = .start (.proc p) c₀ ∧
      ret.label = .ret (.proc p) c₀ ops 0 ∧ (∀ e ∈ mid, movesFiles e.label = false) ∧
      ∀ e ∈ ret :: (mid ++ [start]), interruptsRelease e.label = false := by
  obtain ⟨new, hnew, _, hlabels⟩ := exists_run_entered hr p c₀ k _ h.takes hidle hc hsem
  have hup := hnew.cons (.step _ (Tid.proc p) c₀ _ _ _ .up [] _ (Function.update_self ..) (.up _)
    (.up _))
  have hret := hup.cons (.ret _ (Tid.proc p) c₀ _ 0 (Function.update_self ..))
  simp only [Function.update_idem, Nat.zero_add] at hret
  rw [← hidle, Function.update_eq_self, ← hsem] at hret
  obtain ⟨e₂, e₁, start, rfl⟩ := List.length_eq_three.mp (by simpa using congrArg List.length hlabels)
  obtain ⟨h₂, h₁, hstart⟩ : e₂.label = _ ∧ e₁.label = _ ∧ start.label = _ := by simpa using hlabels
  refine ⟨start, [_, e₂, e₁], _, _, hret, hstart, rfl, by simp [movesFiles, h₂, h₁], ?_⟩
  obtain ⟨_, rfl⟩ | ⟨_, rfl⟩ := h
  · simp [interruptsRelease, h₂, h₁, hstart]
  · simp [interruptsRelease, marked, isSignal, h₂, h₁, hstart]

/-- A file is opened, no other open or release being in progress. -/
theorem exists_run_open (hr : Run (driver P calls) (initial P dev) tr s) (hv : Tracks tr v) (p : P)
    (f : F) (hidle : s.thread (.proc p) = none) (hc : calls .devOpen) (hsem : s.sem = 1)
    (hnew : f ∉ v.files) (hbusy : v.busy = fun _ => none) :
    ∃ new, Run (driver P calls) (initial P dev) (new ++ tr)
        { s with mem := s.mem.update (.incr .openCount) } ∧
      Tracks (new ++ tr) { v with files := insert f v.files } ∧
      interruptedReleases (new ++ tr) = interruptedReleases tr := by
  obtain ⟨start, mid, ret, ops, hr', hstart, hret, hmid, hint⟩ :=
    exists_run_counted (.inl ⟨rfl, rfl⟩) hr p hidle hc hsem
  have hfree : Function.update v.busy (Tid.proc p) none = v.busy := by simp [hbusy]
  have hbegin := FileTable.Step.opens v (Tid.proc p) f hnew (by simp [hbusy])
  have hend := FileTable.Step.opened { v with busy := Function.update v.busy (Tid.proc p) (some f) }
    (Tid.proc p) f ops (Function.update_self ..)
  rw [← hstart] at hbegin
  rw [← hret, Function.update_idem, hfree] at hend
  refine ⟨_, hr', ?_, interruptedReleases_append hint⟩
  simpa using ((hv.cons hbegin).others hmid).cons hend

/-- A file is closed, no other open or release being in progress. -/
theorem exists_run_release (hr : Run (driver P calls) (initial P dev) tr s) (hv : Tracks tr v)
    (p : P) (f : F) (hidle : s.thread (.proc p) = none) (hc : calls .devRelease) (hsem : s.sem = 1)
    (hopen : f ∈ v.files) (hbusy : v.busy = fun _ => none) :
    ∃ new, Run (driver P calls) (initial P dev) (new ++ tr)
        { s with mem := s.mem.update (.incr .releaseCount) } ∧
      Tracks (new ++ tr) { v with files := v.files.erase f } ∧
      interruptedReleases (new ++ tr) = interruptedReleases tr := by
  obtain ⟨start, mid, ret, ops, hr', hstart, hret, hmid, hint⟩ :=
    exists_run_counted (.inr ⟨rfl, rfl⟩) hr p hidle hc hsem
  have hfree : Function.update v.busy (Tid.proc p) none = v.busy := by simp [hbusy]
  have hbegin := FileTable.Step.releases v (Tid.proc p) f hopen (by simp [hbusy])
  have hend := FileTable.Step.released { v with busy := Function.update v.busy (Tid.proc p) (some f) }
    (Tid.proc p) f ops 0 (Function.update_self ..)
  rw [← hstart] at hbegin
  rw [← hret, Function.update_idem, hfree] at hend
  refine ⟨_, hr', ?_, interruptedReleases_append hint⟩
  simpa using ((hv.cons hbegin).others hmid).cons hend

end Carry

/-- Two processes open the device. -/
theorem exists_run_opened :
    ∃ (tr : List (DriverEvent Bool)) (s : DriverState Bool) (v : FileTable Bool Bool),
      Run (driver Bool Call.FileOp) (initial Bool .reset) tr s ∧ Tracks tr v ∧ s.Idle ∧
        s.sem = 1 ∧ v.files = {true, false} ∧ (v.busy = fun _ => none) ∧
        s.mem.count .openCount = 2 ∧ s.mem.count .releaseCount = 0 ∧
        s.mem.interruptFlag = false ∧ interruptedReleases tr = 0 := by
  have hnil : Run (driver Bool Call.FileOp) (initial Bool .reset) [] _ := .nil
  obtain ⟨new, hr, hv, hnone⟩ := exists_run_open hnil (.nil (F := Bool)) false false rfl trivial rfl
    (by simp) rfl
  obtain ⟨new', hr', hv', hnone'⟩ := exists_run_open hr hv true true rfl trivial rfl (by simp) rfl
  exact ⟨_, _, _, hr', hv', fun _ => rfl, rfl, rfl, rfl, rfl, rfl, rfl, hnone'.trans hnone⟩

/-- Where no call is in progress, no open and no release is. -/
theorem noFileCall_of_idle {P : Type} {s : DriverState P} (h : s.Idle) : NoFileCall s := by
  intro t th ht
  rw [h t] at ht
  contradiction

/-- Two opens and a release that is counted: one file is open, and the counters
show it. -/
theorem file_accounting_of_release :
    ∃ (tr : List (DriverEvent Bool)) (s : DriverState Bool) (v : FileTable Bool Bool),
      Run (driver Bool Call.FileOp) (initial Bool .reset) tr s ∧ Tracks tr v ∧ NoFileCall s ∧
        s.mem.count .releaseCount = 1 ∧ v.files = {false} ∧
        s.mem.count .openCount - s.mem.count .releaseCount = BitVec.ofNat 32 v.files.card := by
  obtain ⟨tr, s, v, hr, hv, hidle, hsem, hfiles, hbusy, _, hzero, _, hnone⟩ := exists_run_opened
  obtain ⟨new, hr', hv', hnone'⟩ := exists_run_release hr hv true true (hidle _) trivial hsem
    (by simp [hfiles]) hbusy
  have hrest := noFileCall_of_idle (s := { s with mem := s.mem.update (.incr .releaseCount) }) hidle
  refine ⟨_, _, _, hr', hv', hrest, ?_, ?_, ?_⟩
  · simp [Mem.update, hzero]
  · simp [hfiles]
  · exact (file_accounting_iff Bool Bool Call.FileOp .reset _ _ hr' _ hv' hrest).mpr
      (by simp [hnone', hnone])

/-- Two processes have the device open.  One sleeps in `blinker_dev_read` with
the semaphore; the other closes its file, and a signal ends the release at the
semaphore.  One file is open then, and the counters show two. -/
theorem interrupted_release_miscounts :
    ∃ (tr : List (DriverEvent Bool)) (s : DriverState Bool) (v : FileTable Bool Bool),
      Run (driver Bool Call.FileOp) (initial Bool .reset) tr s ∧ Tracks tr v ∧ NoFileCall s ∧
        s.AtWait (.proc false) ∧ s.mem.interruptFlag = false ∧ s.HoldsSem (.proc false) ∧
        v.files = {false} ∧ s.mem.count .openCount - s.mem.count .releaseCount = 2 ∧
        s.mem.count .openCount - s.mem.count .releaseCount ≠ BitVec.ofNat 32 v.files.card := by
  obtain ⟨tr, s, v, hr, hv, hidle, hsem, hfiles, hbusy, hopen, hzero, hflag, _⟩ := exists_run_opened
  obtain ⟨new, k, hread, _, _, hlabels⟩ := exists_run_waiting hr false 0 1 (hidle _) trivial hsem
  have hmid : ∀ l ∈ new.map Event.label, movesFiles l = false := by simp [hlabels, movesFiles]
  have h1 := hread.cons (.start _ (Tid.proc true) Call.devRelease (by simp [hidle (.proc true)])
    trivial)
  have h2 := h1.cons (.step _ (Tid.proc true) Call.devRelease [] blinkerDevRelease _ (.down true) []
    _ rfl (.down _ true) (.downIntr _ rfl))
  have h3 := h2.cons (.ret _ (Tid.proc true) Call.devRelease [.down true] (-ERESTARTSYS) rfl)
  have hbegin := FileTable.Step.releases v (Tid.proc true) true (by simp [hfiles]) (by simp [hbusy])
  have hend := FileTable.Step.released
    { v with busy := Function.update v.busy (Tid.proc true) (some true) } (Tid.proc true) true
    [.down true] (-ERESTARTSYS) rfl
  have hone : v.files.erase true = {false} := by simp [hfiles]
  have hdiff : s.mem.count .openCount - s.mem.count .releaseCount = 2 := by
    rw [hopen, hzero]
    rfl
  have hothers : Tracks (new ++ tr) v := hv.others (by simpa using hmid)
  refine ⟨_, _, _, h3, ((hothers.cons hbegin).cons (.other _ _ rfl)).cons hend, fun t th ht => ?_,
    ⟨_, _, rfl, rfl⟩, hflag, ⟨_, rfl, rfl⟩, hone, hdiff, fun h => ?_⟩
  · -- only the reader is inside a call
    by_cases hreader : t = .proc false
    · subst hreader
      obtain rfl := Option.some.inj ht
      simp
    · by_cases hcloser : t = .proc true
      · subst hcloser
        simp at ht
      · simp [hreader, hcloser, hidle t] at ht
  · have htwo : (2 : BitVec 32) = BitVec.ofNat 32 (v.files.erase true).card := hdiff.symm.trans h
    rw [hone] at htwo
    exact absurd htwo (by decide)

end De1Soc
