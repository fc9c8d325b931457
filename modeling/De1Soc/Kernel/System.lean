import De1Soc.Kernel.Prog

/-!
# De1Soc.Kernel.System

Threads that run kernel paths side by side.

A `Machine` gives the shared operations their meaning; an operation may take
ticks of an outside clock, and the clock also ticks by itself.  A `System`
adds the calls: their code, and when a thread may begin one.  Its states run
any number of threads (the type `T` is arbitrary), one operation at a time
in any order.  A thread remembers the call it is in and the operations it
has made so far, so that a `Rule` can be read off a state.

A `Run` is a list of events, latest first.  `Run.obeys` and `Run.ok` carry a
rule that the code of every call obeys to every state and every step of a
run; `Run.invariant` is the induction rule for the rest.
-/

namespace Kernel

variable {Q A : Sig} {σ τ T C α : Type}

/-- The meaning of the shared operations: `eff a m x ts m'` says that `a`
may turn `m` into `m'` with result `x` over the ticks `ts`; `env m c m'` is
a tick with no operation; `ready` is the condition that `wait` waits for, and
`wakes` are the operations that wake those who sleep there. -/
structure Machine (Q A : Sig) (σ τ : Type) where
  eff : (a : A.Op) → σ → A.Res a → List τ → σ → Prop
  env : σ → τ → σ → Prop
  ready : σ → Prop
  wakes : A.Op → Bool

/-- The shared data with the semaphore's value and the spin lock. -/
structure Shared (σ : Type) where
  mem : σ
  sem : Nat
  lock : Bool

/-- What one operation does to the shared state.  A signal ends only a sleep:
that for a semaphore which is taken, or that for a condition which is false.
Who sleeps is left out here (`Scheduled`). -/
inductive Does (M : Machine Q A σ τ) : Op Q A → Shared σ → List τ → Shared σ → Prop
  | down (w : Shared σ) (h : 0 < w.sem) :
      Does M (.down false) w [] { w with sem := w.sem - 1 }
  | downIntr (w : Shared σ) (h : w.sem = 0) : Does M (.down true) w [] w
  | up (w : Shared σ) : Does M .up w [] { w with sem := w.sem + 1 }
  | lock (w : Shared σ) (h : w.lock = false) : Does M .lock w [] { w with lock := true }
  | unlock (w : Shared σ) : Does M .unlock w [] { w with lock := false }
  | wait (w : Shared σ) (h : M.ready w.mem) : Does M (.wait false) w [] w
  | waitIntr (w : Shared σ) (h : ¬ M.ready w.mem) : Does M (.wait true) w [] w
  | ask (w : Shared σ) (q : Q.Op) (x : Q.Res q) : Does M (.ask q x) w [] w
  | io (w : Shared σ) (a : A.Op) (x : A.Res a) (ts : List τ) (m : σ)
      (h : M.eff a w.mem x ts m) : Does M (.io a x) w ts { w with mem := m }

/-- A wait is passed when its condition holds. -/
theorem Does.ready {M : Machine Q A σ τ} {w w' : Shared σ} {ts : List τ}
    (h : Does M (.wait false) w ts w') : M.ready w.mem := by
  cases h with
  | wait _ h => exact h

/-- A machine with calls: their code, and when a thread may begin one. -/
structure System (Q A : Sig) (σ τ T C α : Type) extends Machine Q A σ τ where
  code : C → Prog Q A α
  entry : T → σ → C → Prop

/-- A thread inside a call: the operations made so far, latest first, and
the code that remains. -/
structure Thread (Q A : Sig) (C α : Type) where
  call : C
  ops : List (Op Q A)
  rest : Prog Q A α

/-- A state: the shared data and the threads; `none` is a thread outside
every call. -/
structure State (Q A : Sig) (σ T C α : Type) extends Shared σ where
  thread : T → Option (Thread Q A C α)

/-- No thread is inside a call. -/
def State.Idle (s : State Q A σ T C α) : Prop := ∀ t, s.thread t = none

/-- Every thread still keeps to the rule of its call. -/
def State.Obeys (R : C → Rule Q A α) (s : State Q A σ T C α) : Prop :=
  ∀ t th, s.thread t = some th → th.rest.Obeys (R th.call) th.ops

theorem State.Idle.obeys {s : State Q A σ T C α} {R : C → Rule Q A α} (h : s.Idle) : s.Obeys R := by
  intro t th ht
  rw [h t] at ht
  contradiction

/-- What a step shows: a tick, the beginning of a call, an operation with
the ticks it took, or a return with all the operations of the call. -/
inductive Label (Q A : Sig) (τ T C α : Type) : Type
  | tick (c : τ)
  | start (t : T) (c : C)
  | step (t : T) (o : Op Q A) (ts : List τ)
  | ret (t : T) (c : C) (ops : List (Op Q A)) (r : α)

/-- The ticks that pass in a step. -/
def Label.ticks : Label Q A τ T C α → List τ
  | .tick c => [c]
  | .step _ _ ts => ts
  | _ => []

/-- The thread that makes a step; a tick is nobody's. -/
def Label.thread? : Label Q A τ T C α → Option T
  | .tick _ => none
  | .start t _ | .step t _ _ | .ret t _ _ _ => some t

section Steps

variable [DecidableEq T]

/-- One step of the system. -/
inductive Step (S : System Q A σ τ T C α) :
    State Q A σ T C α → Label Q A τ T C α → State Q A σ T C α → Prop
  | tick (s : State Q A σ T C α) (c : τ) (m : σ) (h : S.env s.mem c m) :
      Step S s (.tick c) { s with mem := m }
  | start (s : State Q A σ T C α) (t : T) (c : C) (hidle : s.thread t = none)
      (h : S.entry t s.mem c) :
      Step S s (.start t c)
        { s with thread := Function.update s.thread t (some ⟨c, [], S.code c⟩) }
  | step (s : State Q A σ T C α) (t : T) (c : C) (ops : List (Op Q A)) (p p' : Prog Q A α)
      (o : Op Q A) (ts : List τ) (w : Shared σ) (hrun : s.thread t = some ⟨c, ops, p⟩)
      (ht : p.Takes o p') (h : Does S.toMachine o s.toShared ts w) :
      Step S s (.step t o ts)
        { w with thread := Function.update s.thread t (some ⟨c, o :: ops, p'⟩) }
  | ret (s : State Q A σ T C α) (t : T) (c : C) (ops : List (Op Q A)) (r : α)
      (hrun : s.thread t = some ⟨c, ops, .ret r⟩) :
      Step S s (.ret t c ops r) { s with thread := Function.update s.thread t none }

/-- A step of a run, with the states before and after it. -/
structure Event (Q A : Sig) (σ τ T C α : Type) where
  pre : State Q A σ T C α
  label : Label Q A τ T C α
  post : State Q A σ T C α

/-- A run from `s₀`: its events, latest first, and the state it ends in. -/
inductive Run (S : System Q A σ τ T C α) (s₀ : State Q A σ T C α) :
    List (Event Q A σ τ T C α) → State Q A σ T C α → Prop
  | nil : Run S s₀ [] s₀
  | cons {tr : List (Event Q A σ τ T C α)} {s s' : State Q A σ T C α}
      {l : Label Q A τ T C α} (hr : Run S s₀ tr s) (hs : Step S s l s') :
      Run S s₀ (⟨s, l, s'⟩ :: tr) s'

variable {S : System Q A σ τ T C α} {s₀ s : State Q A σ T C α}
  {tr : List (Event Q A σ τ T C α)}

/-- Invariants of runs whose events all satisfy `P`. -/
theorem Run.invariant (P : Event Q A σ τ T C α → Prop) (I : State Q A σ T C α → Prop)
    (h₀ : I s₀) (hstep : ∀ s l s', Step S s l s' → P ⟨s, l, s'⟩ → I s → I s')
    (hr : Run S s₀ tr s) (hP : ∀ e ∈ tr, P e) : I s := by
  induction hr with
  | nil => exact h₀
  | cons _ hs ih =>
      rw [List.forall_mem_cons] at hP
      exact hstep _ _ _ hs hP.1 (ih hP.2)

/-- Every event of a run starts where an earlier part of the run ends. -/
theorem Run.split {new old : List (Event Q A σ τ T C α)} {e : Event Q A σ τ T C α}
    (hr : Run S s₀ tr s) (h : tr = new ++ e :: old) :
    Run S s₀ old e.pre ∧ Step S e.pre e.label e.post := by
  induction new generalizing tr s with
  | nil =>
      subst h
      cases hr with
      | cons hr hs => exact ⟨hr, hs⟩
  | cons x new ih =>
      subst h
      cases hr with
      | cons hr _ => exact ih hr rfl

theorem Run.of_mem {e : Event Q A σ τ T C α} (hr : Run S s₀ tr s) (he : e ∈ tr) :
    ∃ old, Run S s₀ old e.pre ∧ Step S e.pre e.label e.post := by
  obtain ⟨new, old, h⟩ := List.append_of_mem he
  exact ⟨old, hr.split h⟩

/-- **Since an event**: what the event establishes and every later step of
the run keeps is true at its end.  `I` may look at the events since. -/
theorem Run.since (I : List (Event Q A σ τ T C α) → State Q A σ T C α → Prop)
    {new old : List (Event Q A σ τ T C α)} {e : Event Q A σ τ T C α}
    (hr : Run S s₀ (new ++ e :: old) s) (h : I [] e.post)
    (hstep : ∀ mid s l s', Run S s₀ (mid ++ e :: old) s → Step S s l s' →
      ⟨s, l, s'⟩ ∈ new → I mid s → I (⟨s, l, s'⟩ :: mid) s') : I new s := by
  induction new generalizing s with
  | nil =>
      cases hr with
      | cons hr hs => exact h
  | cons d new ih =>
      cases hr with
      | cons hr hs =>
          refine hstep new _ _ _ hr hs (List.mem_cons_self ..) (ih hr ?_)
          intro mid s l s' hr hs hmem
          exact hstep mid s l s' hr hs (List.mem_cons_of_mem _ hmem)

/-- A run ends in one state. -/
theorem Run.unique {s' : State Q A σ T C α} (hr : Run S s₀ tr s) (hr' : Run S s₀ tr s') :
    s = s' := by
  cases hr with
  | nil =>
      cases hr' with
      | nil => rfl
  | cons hr hs =>
      cases hr' with
      | cons hr' hs' => rfl

/-! ## What a step does to a thread -/

/-- A step changes no thread but its own. -/
theorem Step.thread_of_ne {s' : State Q A σ T C α} {l : Label Q A τ T C α} {u : T}
    (hs : Step S s l s') (hu : l.thread? ≠ some u) : s'.thread u = s.thread u := by
  cases hs with
  | tick c m => rfl
  | start t c hidle he => exact Function.update_of_ne (fun h => hu (congrArg some h.symm)) ..
  | step t c ops p p' o ts w hrun ht hd =>
      exact Function.update_of_ne (fun h => hu (congrArg some h.symm)) ..
  | ret t c ops r hrun => exact Function.update_of_ne (fun h => hu (congrArg some h.symm)) ..

/-- **A thread after a step**: it was there before, it has just begun a
call, or it has made one operation. -/
theorem Step.thread_cases {s' : State Q A σ T C α} {l : Label Q A τ T C α} {u : T}
    {th : Thread Q A C α} (hs : Step S s l s') (hu : s'.thread u = some th) :
    s.thread u = some th ∨
      (∃ c, l = .start u c ∧ S.entry u s.mem c ∧ th = ⟨c, [], S.code c⟩) ∨
      ∃ ops p o ts, l = .step u o ts ∧ s.thread u = some ⟨th.call, ops, p⟩ ∧
        th.ops = o :: ops ∧ p.Takes o th.rest := by
  cases hs with
  | tick c m => exact .inl hu
  | start t c hidle he =>
      by_cases hut : u = t
      · subst hut
        simp only [Function.update_self, Option.some.injEq] at hu
        exact .inr (.inl ⟨c, rfl, he, hu.symm⟩)
      · exact .inl (by simpa [Function.update_of_ne hut] using hu)
  | step t c ops p p' o ts w hrun ht hd =>
      by_cases hut : u = t
      · subst hut
        simp only [Function.update_self, Option.some.injEq] at hu
        subst hu
        exact .inr (.inr ⟨ops, p, o, ts, rfl, hrun, rfl, ht⟩)
      · exact .inl (by simpa [Function.update_of_ne hut] using hu)
  | ret t c ops r hrun =>
      by_cases hut : u = t
      · subst hut
        simp at hu
      · exact .inl (by simpa [Function.update_of_ne hut] using hu)

/-- **A step that shows an operation**: its thread was about to make it. -/
theorem Step.step_inv {s' : State Q A σ T C α} {t : T} {o : Op Q A} {ts : List τ}
    (hs : Step S s (.step t o ts) s') :
    ∃ c ops p p', s.thread t = some ⟨c, ops, p⟩ ∧ p.Takes o p' ∧
      Does S.toMachine o s.toShared ts s'.toShared ∧
      s'.thread = Function.update s.thread t (some ⟨c, o :: ops, p'⟩) := by
  cases hs with
  | step _ c ops p p' _ _ w hrun ht hd => exact ⟨c, ops, p, p', hrun, ht, hd, rfl⟩

theorem Step.ret_inv {s' : State Q A σ T C α} {t : T} {c : C} {ops : List (Op Q A)} {r : α}
    (hs : Step S s (.ret t c ops r) s') : s.thread t = some ⟨c, ops, .ret r⟩ := by
  cases hs with
  | ret _ _ _ _ hrun => exact hrun

theorem Step.ret_post {s' : State Q A σ T C α} {t : T} {c : C} {ops : List (Op Q A)} {r : α}
    (hs : Step S s (.ret t c ops r) s') : s'.thread t = none := by
  cases hs with
  | ret _ _ _ _ _ => exact Function.update_self ..

theorem Step.start_idle {s' : State Q A σ T C α} {t : T} {c : C}
    (hs : Step S s (.start t c) s') : s.thread t = none := by
  cases hs with
  | start _ _ hidle _ => exact hidle

theorem Step.start_entry {s' : State Q A σ T C α} {t : T} {c : C}
    (hs : Step S s (.start t c) s') : S.entry t s.mem c := by
  cases hs with
  | start _ _ _ h => exact h

theorem Step.start_inv {s' : State Q A σ T C α} {t : T} {c : C}
    (hs : Step S s (.start t c) s') : s'.thread t = some ⟨c, [], S.code c⟩ := by
  cases hs with
  | start _ _ _ _ => exact Function.update_self ..

/-! ## Rules along a run -/

/-- A step keeps every thread to its rule. -/
theorem Step.obeys {R : C → Rule Q A α} {s' : State Q A σ T C α} {l : Label Q A τ T C α}
    (hcode : ∀ t m c, S.entry t m c → (S.code c).Obeys (R c) []) (hs : Step S s l s')
    (h : s.Obeys R) : s'.Obeys R := by
  intro u th hu
  obtain hold | ⟨c, _, he, rfl⟩ | ⟨ops, p, o, ts, _, hrun, hops, ht⟩ := hs.thread_cases hu
  · exact h u th hold
  · exact hcode u s.mem c he
  · rw [hops]
    exact ((h u _ hrun).takes ht).2

/-- **Rules hold along runs**: where the code of every call obeys its rule,
every thread of every reachable state still does. -/
theorem Run.obeys {R : C → Rule Q A α}
    (hcode : ∀ t m c, S.entry t m c → (S.code c).Obeys (R c) []) (h₀ : s₀.Idle)
    (hr : Run S s₀ tr s) : s.Obeys R :=
  hr.invariant (fun _ => True) (State.Obeys R) h₀.obeys
    (fun _ _ _ hs _ h => hs.obeys hcode h) (fun _ _ => trivial)

/-- Every thread is in a call that it was let into. -/
theorem Run.entered (h₀ : s₀.Idle) (hr : Run S s₀ tr s) {t : T} {th : Thread Q A C α}
    (ht : s.thread t = some th) : ∃ m, S.entry t m th.call := by
  induction hr generalizing t th with
  | nil =>
      rw [h₀ t] at ht
      contradiction
  | cons hr hs ih =>
      obtain hold | ⟨c, _, he, rfl⟩ | ⟨ops, p, o, ts, _, hrun, _⟩ := hs.thread_cases ht
      · exact ih hold
      · exact ⟨_, he⟩
      · have hin := ih hrun
        exact hin

/-- **Histories along runs**: what is true at the beginning of every call
and kept by every operation that its rule allows is true of what each thread
has done. -/
theorem Run.history {R : C → Rule Q A α} {P : C → List (Op Q A) → Prop}
    (hcode : ∀ t m c, S.entry t m c → (S.code c).Obeys (R c) []) (h₀ : s₀.Idle)
    (hnil : ∀ c, P c []) (hstep : ∀ c ops o, (R c).ok ops o → P c ops → P c (o :: ops))
    (hr : Run S s₀ tr s) {t : T} {th : Thread Q A C α} (ht : s.thread t = some th) :
    P th.call th.ops := by
  induction hr generalizing t th with
  | nil =>
      rw [h₀ t] at ht
      contradiction
  | cons hr hs ih =>
      obtain hold | ⟨c, _, _, rfl⟩ | ⟨ops, p, o, ts, _, hrun, hops, htake⟩ := hs.thread_cases ht
      · exact ih hold
      · exact hnil c
      · have hok := ((hr.obeys hcode h₀ t _ hrun).takes htake).1
        rw [hops]
        exact hstep _ _ _ hok (ih hrun)

/-! ## Whole calls -/

section Calls

omit [DecidableEq T]

/-- In the trace `mid` are the events since thread `t` has begun the call `c`. -/
def Began (tr : List (Event Q A σ τ T C α)) (t : T) (c : C) (mid : List (Event Q A σ τ T C α)) :
    Prop :=
  ∃ start before, tr = mid ++ start :: before ∧ start.label = .start t c ∧
    ∀ e ∈ mid, ∀ c', e.label ≠ .start t c'

/-- Thread `t` makes the whole call `c`: it begins the call, makes `ops` (latest
first) and returns `r`; `mid` are the events between. -/
def Completes (tr : List (Event Q A σ τ T C α)) (t : T) (c : C) (ops : List (Op Q A)) (r : α)
    (mid : List (Event Q A σ τ T C α)) : Prop :=
  ∃ after ret old, tr = after ++ ret :: old ∧ ret.label = .ret t c ops r ∧ Began old t c mid

theorem Began.cons {t : T} {c : C} {mid : List (Event Q A σ τ T C α)} {e : Event Q A σ τ T C α}
    (h : Began tr t c mid) (he : ∀ c', e.label ≠ .start t c') : Began (e :: tr) t c (e :: mid) := by
  obtain ⟨start, before, rfl, hstart, hno⟩ := h
  exact ⟨start, before, rfl, hstart, List.forall_mem_cons.mpr ⟨he, hno⟩⟩

theorem Completes.subset {t : T} {c : C} {ops : List (Op Q A)} {r : α}
    {mid : List (Event Q A σ τ T C α)} (h : Completes tr t c ops r mid) : mid ⊆ tr := by
  obtain ⟨after, ret, old, rfl, _, start, before, rfl, _⟩ := h
  intro e he
  simp [he]

end Calls

/-- A thread inside a call has begun it. -/
theorem Run.exists_began (h₀ : s₀.Idle) (hr : Run S s₀ tr s) {t : T} {th : Thread Q A C α}
    (ht : s.thread t = some th) : ∃ mid, Began tr t th.call mid := by
  induction hr generalizing t th with
  | nil =>
      rw [h₀ t] at ht
      contradiction
  | @cons tr s s' l hr hs ih =>
      obtain hold | ⟨c, rfl, _, rfl⟩ | ⟨ops, p, o, ts, rfl, hrun, _⟩ := hs.thread_cases ht
      · obtain ⟨mid, hmid⟩ := ih hold
        refine ⟨_, hmid.cons fun c' hl => ?_⟩
        obtain rfl : l = .start t c' := hl
        rw [hs.start_idle] at hold
        contradiction
      · exact ⟨[], ⟨s, .start t c, s'⟩, tr, rfl, rfl, by simp⟩
      · obtain ⟨mid, hmid⟩ := ih hrun
        exact ⟨_, hmid.cons (by simp)⟩

/-- The operations that `t` makes in the events. -/
def opsOf (t : T) : List (Event Q A σ τ T C α) → List (Op Q A)
  | [] => []
  | e :: es =>
      match e.label with
      | .step u o _ => if u = t then o :: opsOf t es else opsOf t es
      | _ => opsOf t es

theorem mem_opsOf {t : T} {o : Op Q A} {es : List (Event Q A σ τ T C α)} :
    o ∈ opsOf t es ↔ ∃ e ∈ es, ∃ ts, e.label = .step t o ts := by
  induction es with
  | nil => simp [opsOf]
  | cons e es ih =>
      simp only [List.mem_cons, exists_eq_or_imp, ← ih, opsOf]
      cases hl : e.label with
      | step u o' ts =>
          by_cases hu : u = t
          · subst hu
            simp [eq_comm]
          · simp [hu]
      | _ => simp

/-- Since it has begun a call, a thread has made the operations it remembers,
unless it has left the call. -/
theorem Began.thread {t : T} {c : C} {mid : List (Event Q A σ τ T C α)} (h : Began tr t c mid)
    (hr : Run S s₀ tr s) :
    s.thread t = none ∨ ∃ p, s.thread t = some ⟨c, opsOf t mid, p⟩ := by
  obtain ⟨start, before, rfl, hstart, hno⟩ := h
  refine hr.since (fun new s => s.thread t = none ∨ ∃ p, s.thread t = some ⟨c, opsOf t new, p⟩)
    ?_ ?_
  · have hs := (hr.split rfl).2
    rw [hstart] at hs
    exact .inr ⟨S.code c, hs.start_inv⟩
  · intro mid s l s' _ hs hmem hI
    by_cases hl : l.thread? = some t
    · cases hs with
      | tick c' m h => contradiction
      | start u c' hidle h =>
          obtain rfl : u = t := Option.some.inj hl
          exact absurd rfl (hno _ hmem c')
      | ret u c' ops r hrun =>
          obtain rfl : u = t := Option.some.inj hl
          exact .inl (Function.update_self ..)
      | step u c' ops p p' o ts w hrun ht hd =>
          obtain rfl : u = t := Option.some.inj hl
          obtain hnone | ⟨q, hq⟩ := hI
          · rw [hrun] at hnone
            contradiction
          · rw [hrun] at hq
            obtain ⟨rfl, rfl, rfl⟩ := Thread.mk.inj (Option.some.inj hq)
            exact .inr ⟨p', by simp [opsOf]⟩
    · have hops : opsOf t (⟨s, l, s'⟩ :: mid) = opsOf t mid := by
        cases l with
        | step u o ts =>
            have hne : u ≠ t := fun h => hl (congrArg some h)
            simp [opsOf, hne]
        | _ => rfl
      rw [hs.thread_of_ne hl, hops]
      exact hI

/-- **The operations of a whole call** are those its thread makes between. -/
theorem Completes.ops_eq {t : T} {c : C} {ops : List (Op Q A)} {r : α}
    {mid : List (Event Q A σ τ T C α)} (h : Completes tr t c ops r mid) (hr : Run S s₀ tr s) :
    opsOf t mid = ops := by
  obtain ⟨after, ret, old, rfl, hret, hbegan⟩ := h
  obtain ⟨hold, hs⟩ := hr.split rfl
  rw [hret] at hs
  have hrun := hs.ret_inv
  obtain hnone | ⟨p, hp⟩ := hbegan.thread hold
  · rw [hrun] at hnone
    contradiction
  · rw [hrun] at hp
    exact (Thread.mk.inj (Option.some.inj hp)).2.1.symm

/-- The operations of two stretches of events, one after the other. -/
theorem opsOf_append (t : T) (new old : List (Event Q A σ τ T C α)) :
    opsOf t (new ++ old) = opsOf t new ++ opsOf t old := by
  induction new with
  | nil => rfl
  | cons e new ih =>
      rw [List.cons_append, opsOf, opsOf]
      cases e.label with
      | step u o ts =>
          by_cases hu : u = t
          · simp [hu, ih]
          · simp [hu, ih]
      | _ => exact ih

/-- **Where a call stands at an operation of it**: it has made the operations of
its events before, and those after complete it. -/
theorem Completes.at_step {t : T} {c : C} {ops : List (Op Q A)} {r : α}
    {mid new old : List (Event Q A σ τ T C α)} {e : Event Q A σ τ T C α} {o : Op Q A} {ts : List τ}
    (h : Completes tr t c ops r mid) (hr : Run S s₀ tr s) (hmid : mid = new ++ e :: old)
    (he : e.label = .step t o ts) :
    ops = opsOf t new ++ o :: opsOf t old ∧
      ∃ before p, Run S s₀ before e.pre ∧ before ⊆ tr ∧ Step S e.pre (.step t o ts) e.post ∧
        e.pre.thread t = some ⟨c, opsOf t old, p⟩ := by
  have hops := h.ops_eq hr
  obtain ⟨after, ret, _, htr, _, start, before, rfl, hstart, hno⟩ := h
  subst hmid
  have hsplit : tr = (after ++ ret :: new) ++ e :: (old ++ start :: before) := by simp [htr]
  obtain ⟨hold, hs⟩ := hr.split hsplit
  rw [he] at hs
  have hstep : opsOf t (e :: old) = o :: opsOf t old := by simp [opsOf, he]
  refine ⟨by rw [← hops, opsOf_append, hstep], old ++ start :: before, ?_⟩
  have hbegan : Began (old ++ start :: before) t c old :=
    ⟨start, before, rfl, hstart, fun f hf => hno f (by simp [hf])⟩
  obtain ⟨c', ops', p, p', hrun, _⟩ := hs.step_inv
  obtain hnone | ⟨q, hq⟩ := hbegan.thread hold
  · rw [hrun] at hnone
    contradiction
  · refine ⟨q, hold, ?_, hs, hq⟩
    rw [hsplit]
    exact fun f hf => List.mem_append_right _ (List.mem_cons_of_mem _ hf)

end Steps

end Kernel
