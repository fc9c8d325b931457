import De1Soc.Kernel.System
import Mathlib.Data.Set.Insert
import Mathlib.Order.BooleanAlgebra.Set

/-!
# De1Soc.Kernel.WaitQueue

Who sleeps on the wait queue.

In a `Run` a thread may pass its `wait` whenever the condition holds.  In a
kernel it looks at the condition when it comes to the wait and each time it
has been woken; in between it sleeps and goes nowhere, whatever the condition
is.  The `Scheduled` runs keep this: a thread that finds the condition false
goes to sleep, and a sleeper goes on only after an operation that wakes the
queue (`Machine.wakes`) or after a signal.  Each of them is a `Run`
(`Scheduled.run`), so what is proved of runs holds of them.

A call that makes the condition true owes the sleepers a wake-up
(`owesWake`).  Where no call returns or blocks with that debt (`waking`), a
thread sleeps beside a true condition only while another is on its way to
the wake-up (`Scheduled.woken`).
-/

namespace Kernel

variable {Q A : Sig} {σ τ T C α : Type}

/-- The thread has come to its `wait`. -/
def State.AtWait (s : State Q A σ T C α) (t : T) : Prop :=
  ∃ th k, s.thread t = some th ∧ th.rest = .wait k

/-- A turn of the scheduler: a thread goes to sleep, a signal wakes a sleeper,
or the system makes a step. -/
inductive Turn (Q A : Sig) (σ τ T C α : Type) : Type
  | sleep (t : T)
  | signal (t : T)
  | move (e : Event Q A σ τ T C α)

/-- The steps among the turns. -/
def events (turns : List (Turn Q A σ τ T C α)) : List (Event Q A σ τ T C α) :=
  turns.filterMap fun
    | .move e => some e
    | _ => none

/-- The step is not that of a sleeper which passes its wait. -/
def Label.Awake (Z : Set T) : Label Q A τ T C α → Prop
  | .step t (.wait false) _ => t ∉ Z
  | _ => True

/-- Who sleeps after a step: a wake-up leaves nobody asleep, and a signal that
ends a wait ends the sleep. -/
def Label.asleep (M : Machine Q A σ τ) (Z : Set T) : Label Q A τ T C α → Set T
  | .step _ (.io a _) _ => if M.wakes a then ∅ else Z
  | .step t (.wait _) _ => Z \ {t}
  | _ => Z

section Steps

variable [DecidableEq T]

/-- A run from `s₀` with the sleepers: its turns, latest first, the state it
ends in and the threads that sleep there. -/
inductive Scheduled (S : System Q A σ τ T C α) (s₀ : State Q A σ T C α) :
    List (Turn Q A σ τ T C α) → State Q A σ T C α → Set T → Prop
  | nil : Scheduled S s₀ [] s₀ ∅
  | sleep {turns : List (Turn Q A σ τ T C α)} {s : State Q A σ T C α} {Z : Set T}
      (h : Scheduled S s₀ turns s Z) (t : T) (hwait : s.AtWait t) (hready : ¬ S.ready s.mem) :
      Scheduled S s₀ (.sleep t :: turns) s (insert t Z)
  | signal {turns : List (Turn Q A σ τ T C α)} {s : State Q A σ T C α} {Z : Set T}
      (h : Scheduled S s₀ turns s Z) (t : T) (ht : t ∈ Z) :
      Scheduled S s₀ (.signal t :: turns) s (Z \ {t})
  | move {turns : List (Turn Q A σ τ T C α)} {s s' : State Q A σ T C α} {Z : Set T}
      {l : Label Q A τ T C α} (h : Scheduled S s₀ turns s Z) (hs : Step S s l s')
      (hl : l.Awake Z) : Scheduled S s₀ (.move ⟨s, l, s'⟩ :: turns) s' (l.asleep S.toMachine Z)

variable {S : System Q A σ τ T C α} {s₀ s s' : State Q A σ T C α} {l : Label Q A τ T C α}
  {turns : List (Turn Q A σ τ T C α)} {Z : Set T}

/-- **A scheduled run is a run.** -/
theorem Scheduled.run (h : Scheduled S s₀ turns s Z) : Run S s₀ (events turns) s := by
  induction h with
  | nil => exact .nil
  | sleep h t hwait hready ih => exact ih
  | signal h t ht ih => exact ih
  | move h hs hl ih => exact ih.cons hs

/-- A run is scheduled so that nobody has gone to sleep yet. -/
theorem Run.scheduled {tr : List (Event Q A σ τ T C α)} (h : Run S s₀ tr s) :
    Scheduled S s₀ (tr.map .move) s ∅ := by
  induction h with
  | nil => exact .nil
  | @cons tr s s' l h hs ih =>
      have hnobody : l.asleep S.toMachine ∅ = ∅ := by
        cases l with
        | step t o ts => cases o <;> simp [Label.asleep]
        | _ => rfl
      have hawake : l.Awake ∅ := by
        cases l with
        | step t o ts =>
            cases o with
            | wait b => cases b <;> simp [Label.Awake]
            | _ => trivial
        | _ => trivial
      have hmove := ih.move hs hawake
      rwa [hnobody] at hmove

omit [DecidableEq T] in
theorem Label.asleep_subset (M : Machine Q A σ τ) (Z : Set T) (l : Label Q A τ T C α) :
    l.asleep M Z ⊆ Z := by
  cases l with
  | step t o ts =>
      cases o with
      | wait b => exact Set.sdiff_subset
      | io a x =>
          simp only [Label.asleep]
          split
          · exact Set.empty_subset Z
          · exact subset_rfl
      | _ => exact subset_rfl
  | _ => exact subset_rfl

/-- A thread that still sleeps after a step has not made it. -/
theorem Step.thread_of_asleep (hs : Step S s l s') {t : T} (hwait : s.AtWait t)
    (ht : t ∈ l.asleep S.toMachine Z) : s'.thread t = s.thread t := by
  obtain ⟨th, k, hth, hk⟩ := hwait
  apply hs.thread_of_ne
  intro hl
  cases hs with
  | tick c m henv => contradiction
  | start u c hidle henter =>
      obtain rfl := Option.some.inj hl
      rw [hidle] at hth
      contradiction
  | step u c ops p p' o ts w hrun htake hd =>
      obtain rfl := Option.some.inj hl
      obtain rfl := Option.some.inj (hrun.symm.trans hth)
      simp only at hk
      subst hk
      cases htake with
      | wait _ b => exact ht.2 rfl
  | ret u c ops r hrun =>
      obtain rfl := Option.some.inj hl
      obtain rfl := Option.some.inj (hrun.symm.trans hth)
      contradiction

/-- **Sleepers are at their wait.** -/
theorem Scheduled.atWait (h : Scheduled S s₀ turns s Z) {t : T} (ht : t ∈ Z) : s.AtWait t := by
  induction h generalizing t with
  | nil => contradiction
  | sleep h u hwait hready ih =>
      obtain rfl | ht := ht
      · exact hwait
      · exact ih ht
  | signal h u hu ih => exact ih ht.1
  | move h hs hl ih =>
      have hbefore := ih (Label.asleep_subset _ _ _ ht)
      have hsame := hs.thread_of_asleep hbefore ht
      obtain ⟨th, k, hth, hk⟩ := hbefore
      exact ⟨th, k, hsame.trans hth, hk⟩

end Steps

/-! ## Owing a wake-up -/

/-- Only the operations that `raises` names make the condition true. -/
structure Machine.RaisedBy (M : Machine Q A σ τ) (raises : A.Op → Bool) : Prop where
  env : ∀ m c m', M.env m c m' → M.ready m' → M.ready m
  eff : ∀ a m x ts m', M.eff a m x ts m' → M.ready m' → M.ready m ∨ raises a = true

/-- The call has made the condition true and has woken nobody since. -/
def owesWake (M : Machine Q A σ τ) (raises : A.Op → Bool) : List (Op Q A) → Bool
  | [] => false
  | .io a _ :: ops => !M.wakes a && (raises a || owesWake M raises ops)
  | _ :: ops => owesWake M raises ops

/-- A call neither returns nor blocks while it owes a wake-up. -/
def waking (M : Machine Q A σ τ) (raises : A.Op → Bool) : Rule Q A α where
  ok ops
    | .down _ | .lock | .wait _ => owesWake M raises ops = false
    | _ => True
  fin ops _ := owesWake M raises ops = false

/-- What a call that owes a wake-up has done. -/
theorem exists_raised_of_owesWake {M : Machine Q A σ τ} {raises : A.Op → Bool}
    {ops : List (Op Q A)} (h : owesWake M raises ops = true) :
    ∃ new a x old, ops = new ++ .io a x :: old ∧ raises a = true ∧
      ∀ b y, .io b y ∈ new → M.wakes b = false := by
  induction ops with
  | nil => contradiction
  | cons o ops ih =>
      cases o with
      | io a x =>
          simp only [owesWake, Bool.and_eq_true, Bool.not_eq_true', Bool.or_eq_true] at h
          obtain ⟨hno, hraise | howes⟩ := h
          · exact ⟨[], a, x, ops, rfl, hraise, by simp⟩
          · obtain ⟨new, a', x', old, rfl, hraise, hnew⟩ := ih howes
            refine ⟨.io a x :: new, a', x', old, rfl, hraise, fun b y hb => ?_⟩
            obtain heq | hb := List.mem_cons.mp hb
            · cases heq
              exact hno
            · exact hnew b y hb
      | _ =>
          obtain ⟨new, a', x', old, rfl, hraise, hnew⟩ := ih h
          exact ⟨_ :: new, a', x', old, rfl, hraise, by simpa using hnew⟩

/-- A thread is on its way to a wake-up. -/
def State.Owes (M : Machine Q A σ τ) (raises : A.Op → Bool) (s : State Q A σ T C α) : Prop :=
  ∃ u th, s.thread u = some th ∧ owesWake M raises th.ops = true

section Steps

variable [DecidableEq T] {S : System Q A σ τ T C α} {s₀ s s' : State Q A σ T C α}
  {l : Label Q A τ T C α} {turns : List (Turn Q A σ τ T C α)} {Z : Set T} {raises : A.Op → Bool}

omit [DecidableEq T] in
/-- An operation after which somebody sleeps has woken nobody. -/
theorem wakes_eq_false {M : Machine Q A σ τ} {t : T} {a : A.Op} {x : A.Res a} {ts : List τ}
    (hne : ((Label.step t (.io a x) ts : Label Q A τ T C α).asleep M Z).Nonempty) :
    M.wakes a = false := by
  cases hw : M.wakes a with
  | false => rfl
  | true => simp [Label.asleep, hw] at hne

omit [DecidableEq T] in
/-- Where somebody sleeps after it, an operation pays no debt. -/
theorem owesWake_cons {M : Machine Q A σ τ} {t : T} {o : Op Q A} {ops : List (Op Q A)} {ts : List τ}
    (hne : ((Label.step t o ts : Label Q A τ T C α).asleep M Z).Nonempty)
    (h : owesWake M raises ops = true) : owesWake M raises (o :: ops) = true := by
  cases o with
  | io a x => simp [owesWake, wakes_eq_false hne, h]
  | _ => exact h

/-- **A step and the debt**: where somebody sleeps after it, a condition that
is true then was true before, with a thread that owes the wake-up and still
does, or its own thread owes one now. -/
theorem Step.owes (hM : S.toMachine.RaisedBy raises)
    (hob : s.Obeys fun _ => waking S.toMachine raises) (hs : Step S s l s')
    (hne : (l.asleep S.toMachine Z).Nonempty) (hready : S.ready s'.mem)
    (h : S.ready s.mem → s.Owes S.toMachine raises) : s'.Owes S.toMachine raises := by
  cases hs with
  | tick c m henv => exact h (hM.env _ _ _ henv hready)
  | start t c hidle henter =>
      obtain ⟨u, th, hu, howes⟩ := h hready
      have hut : u ≠ t := by
        rintro rfl
        rw [hidle] at hu
        contradiction
      exact ⟨u, th, (Function.update_of_ne hut ..).trans hu, howes⟩
  | ret t c ops r hrun =>
      obtain ⟨u, th, hu, howes⟩ := h hready
      have hut : u ≠ t := by
        rintro rfl
        obtain rfl := Option.some.inj (hrun.symm.trans hu)
        have hfin : owesWake S.toMachine raises ops = false := hob u _ hrun
        exact absurd (howes.symm.trans hfin) (by decide)
      exact ⟨u, th, (Function.update_of_ne hut ..).trans hu, howes⟩
  | step t c ops p p' o ts w hrun ht hd =>
      have hraised : S.ready s.mem ∨ owesWake S.toMachine raises (o :: ops) = true := by
        cases hd with
        | io _ a x _ m heff =>
            obtain hold | hraise := hM.eff _ _ _ _ _ heff hready
            · exact .inl hold
            · exact .inr (by simp [owesWake, wakes_eq_false hne, hraise])
        | _ => exact .inl hready
      obtain hold | hnew := hraised
      · obtain ⟨u, th, hu, howes⟩ := h hold
        by_cases hut : u = t
        · subst hut
          obtain rfl := Option.some.inj (hrun.symm.trans hu)
          exact ⟨u, _, Function.update_self .., owesWake_cons hne howes⟩
        · exact ⟨u, th, (Function.update_of_ne hut ..).trans hu, howes⟩
      · exact ⟨t, _, Function.update_self .., hnew⟩

/-- **A true condition reaches the sleepers**: while a thread sleeps beside a
condition that is true, another is on its way to the wake-up. -/
theorem Scheduled.woken (hM : S.toMachine.RaisedBy raises)
    (hcode : ∀ t m c, S.entry t m c → (S.code c).Obeys (waking S.toMachine raises) [])
    (h₀ : s₀.Idle) (h : Scheduled S s₀ turns s Z) (hne : Z.Nonempty) (hready : S.ready s.mem) :
    s.Owes S.toMachine raises := by
  induction h with
  | nil => exact absurd rfl hne.ne_empty
  | sleep h t hwait hno ih => exact absurd hready hno
  | signal h t ht ih => exact ih ⟨t, ht⟩ hready
  | move h hs hl ih =>
      have hbefore := hne.mono (Label.asleep_subset _ _ _)
      exact hs.owes hM (h.run.obeys hcode h₀) hne hready fun hold => ih hbefore hold

end Steps

end Kernel
