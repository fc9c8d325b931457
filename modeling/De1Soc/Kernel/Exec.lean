import De1Soc.Kernel.System

/-!
# De1Soc.Kernel.Exec

One call executed by itself.

`Exec M w p os ts r w'` runs the code `p` to its end on the shared state `w`
with nothing but clock ticks between its operations: it makes the operations
`os` over the ticks `ts`, returns `r` and leaves `w'`.  A call that a signal
has ended at the semaphore can be executed so too: what kept it waiting is
left out (`Exec.signalled`).  Without that, an execution is a run of the
system in which no other thread makes a step (`Run.exec`).

`solo` computes such an execution: an `Oracle` answers for the environment
and a `Runner` carries out the shared operations.  It is `none` where the
call would block.
-/

namespace Kernel

variable {Q A : Sig} {σ τ α : Type}

/-- An execution of one call, operations and ticks in order. -/
inductive Exec (M : Machine Q A σ τ) :
    Shared σ → Prog Q A α → List (Op Q A) → List τ → α → Shared σ → Prop
  | ret (w : Shared σ) (r : α) : Exec M w (.ret r) [] [] r w
  | tick {w w' : Shared σ} {p : Prog Q A α} {os : List (Op Q A)} {c : τ} {ts : List τ} {r : α}
      (m : σ) (h : M.env w.mem c m) (hx : Exec M { w with mem := m } p os ts r w') :
      Exec M w p os (c :: ts) r w'
  | op {w w₁ w' : Shared σ} {p p' : Prog Q A α} {o : Op Q A} {os : List (Op Q A)}
      {ts ts' : List τ} {r : α} (ht : p.Takes o p') (hd : Does M o w ts w₁)
      (hx : Exec M w₁ p' os ts' r w') : Exec M w p (o :: os) (ts ++ ts') r w'
  | signalled {w w' : Shared σ} {k : Bool → Prog Q A α} {os : List (Op Q A)} {ts : List τ} {r : α}
      (hx : Exec M w (k true) os ts r w') : Exec M w (.down k) (.down true :: os) ts r w'

/-- An operation that takes no tick. -/
theorem Exec.op_nil {M : Machine Q A σ τ} {w w₁ w' : Shared σ} {p p' : Prog Q A α} {o : Op Q A}
    {os : List (Op Q A)} {ts : List τ} {r : α} (ht : p.Takes o p') (hd : Does M o w [] w₁)
    (hx : Exec M w₁ p' os ts r w') : Exec M w p (o :: os) ts r w' := .op ht hd hx

/-- An operation that takes one. -/
theorem Exec.op_one {M : Machine Q A σ τ} {w w₁ w' : Shared σ} {p p' : Prog Q A α} {o : Op Q A}
    {os : List (Op Q A)} {c : τ} {ts : List τ} {r : α} (ht : p.Takes o p')
    (hd : Does M o w [c] w₁) (hx : Exec M w₁ p' os ts r w') :
    Exec M w p (o :: os) (c :: ts) r w' := .op ht hd hx

/-- An execution of code that obeys a rule returns as the rule says. -/
theorem Exec.fin {M : Machine Q A σ τ} {w w' : Shared σ} {p : Prog Q A α} {os ops : List (Op Q A)}
    {ts : List τ} {r : α} {R : Rule Q A α} (hx : Exec M w p os ts r w') (hob : p.Obeys R ops) :
    R.fin (os.reverse ++ ops) r := by
  induction hx generalizing ops with
  | ret w r => exact hob
  | tick m h hx ih => exact ih hob
  | op ht hd hx ih =>
      have h := ih (hob.takes ht).2
      rwa [List.reverse_cons, List.append_assoc, List.singleton_append]
  | signalled hx ih =>
      have h := ih (hob true).2
      rwa [List.reverse_cons, List.append_assoc, List.singleton_append]

/-- With the semaphore taken a signal ends the call there. -/
theorem Exec.down_of_sem_zero {M : Machine Q A σ τ} {w w' : Shared σ} {k : Bool → Prog Q A α}
    {os : List (Op Q A)} {ts : List τ} {r : α} (hx : Exec M w (.down k) os ts r w')
    (hsem : w.sem = 0) : .down true ∈ os := by
  generalize hp : Prog.down k = p at hx
  induction hx with
  | ret w r => contradiction
  | tick m h hx ih => exact ih hsem hp
  | op ht hd hx ih =>
      subst hp
      cases ht with
      | down _ b =>
          cases hd with
          | down _ hpos => omega
          | downIntr => simp
  | signalled hx ih => simp

/-! ## Fixed answers -/

/-- The program with the answers `f` of the environment put in. -/
@[simp] def Prog.fill (f : (q : Q.Op) → Q.Res q) : Prog Q A α → Prog Q A α
  | .ret r => .ret r
  | .down k => .down fun b => (k b).fill f
  | .up k => .up (k.fill f)
  | .lock k => .lock (k.fill f)
  | .unlock k => .unlock (k.fill f)
  | .wait k => .wait fun b => (k b).fill f
  | .ask q k => (k (f q)).fill f
  | .io a k => .io a fun x => (k x).fill f

@[simp] theorem Prog.fill_ite (f : (q : Q.Op) → Q.Res q) (b : Prop) [Decidable b]
    (p q : Prog Q A α) : (if b then p else q).fill f = if b then p.fill f else q.fill f :=
  apply_ite (Prog.fill f) b p q

/-- Every answer of the environment is that of `f`. -/
def AnsweredBy (f : (q : Q.Op) → Q.Res q) (os : List (Op Q A)) : Prop :=
  ∀ q x, Op.ask q x ∈ os → x = f q

section Fill

variable {M : Machine Q A σ τ} {f : (q : Q.Op) → Q.Res q} {w w' : Shared σ} {p : Prog Q A α}
  {os : List (Op Q A)} {ts : List τ} {r : α}

theorem answeredBy_cons {o : Op Q A} :
    AnsweredBy f (o :: os) ↔ (∀ q x, o = .ask q x → x = f q) ∧ AnsweredBy f os := by
  constructor
  · intro h
    refine ⟨fun q x ho => h q x ?_, fun q x hx => h q x (List.mem_cons_of_mem _ hx)⟩
    rw [ho]
    exact List.mem_cons_self ..
  · rintro ⟨h, hos⟩ q x hx
    obtain ho | hx := List.mem_cons.mp hx
    · exact h q x ho.symm
    · exact hos q x hx

/-- An execution with the answers `f` is one of the filled program. -/
theorem Exec.fill (hx : Exec M w p os ts r w') (ha : AnsweredBy f os) :
    ∃ os', Exec M w (p.fill f) os' ts r w' := by
  induction hx with
  | ret w r => exact ⟨[], .ret w r⟩
  | tick m h hx ih =>
      obtain ⟨os', hx'⟩ := ih ha
      exact ⟨os', .tick m h hx'⟩
  | @op w w₁ w' p p' o os ts ts' r ht hd hx ih =>
      rw [answeredBy_cons] at ha
      obtain ⟨os', hx'⟩ := ih ha.2
      cases ht with
      | ask q k x =>
          cases hd with
          | ask =>
              obtain rfl := ha.1 q x rfl
              exact ⟨os', hx'⟩
      | down k b => exact ⟨_, .op (.down _ b) hd hx'⟩
      | up k => exact ⟨_, .op (.up _) hd hx'⟩
      | lock k => exact ⟨_, .op (.lock _) hd hx'⟩
      | unlock k => exact ⟨_, .op (.unlock _) hd hx'⟩
      | wait k b => exact ⟨_, .op (.wait _ b) hd hx'⟩
      | io a k x => exact ⟨_, .op (.io a _ x) hd hx'⟩
  | signalled hx ih =>
      rw [answeredBy_cons] at ha
      obtain ⟨os', hx'⟩ := ih ha.2
      exact ⟨_, .signalled hx'⟩

/-- Behind its leading questions a program is one that the filling shows. -/
theorem Prog.exists_head (f : (q : Q.Op) → Q.Res q) (p : Prog Q A α) :
    ∃ p', (∀ q k, p' ≠ .ask q k) ∧ p'.fill f = p.fill f ∧
      ∀ (w w' : Shared σ) (os : List (Op Q A)) (ts : List τ) (r : α),
        Exec M w p' os ts r w' → AnsweredBy f os →
          ∃ os', Exec M w p os' ts r w' ∧ AnsweredBy f os' := by
  induction p with
  | ask q k ih =>
      obtain ⟨p', hask, hfill, hexec⟩ := ih (f q)
      refine ⟨p', hask, hfill, fun w w' os ts r hx ha => ?_⟩
      obtain ⟨os', hx', ha'⟩ := hexec w w' os ts r hx ha
      refine ⟨_, .op_nil (.ask q k (f q)) (.ask w q (f q)) hx', ?_⟩
      rw [answeredBy_cons]
      refine ⟨fun q' x h => ?_, ha'⟩
      cases h
      rfl
  | _ => exact ⟨_, by simp, rfl, fun _ _ os _ _ hx ha => ⟨os, hx, ha⟩⟩

/-- What the filled program takes, the program takes, unless it asks. -/
theorem Prog.takes_of_fill {p₁ : Prog Q A α} {o : Op Q A} (ht : (p.fill f).Takes o p₁)
    (hask : ∀ q k, p ≠ .ask q k) :
    ∃ p', p.Takes o p' ∧ p'.fill f = p₁ ∧ ∀ q x, o ≠ .ask q x := by
  cases p with
  | ask q k => exact absurd rfl (hask q k)
  | ret r => cases ht
  | down k =>
      cases ht with
      | down _ b => exact ⟨_, .down k b, rfl, by simp⟩
  | up k =>
      cases ht with
      | up => exact ⟨_, .up k, rfl, by simp⟩
  | lock k =>
      cases ht with
      | lock => exact ⟨_, .lock k, rfl, by simp⟩
  | unlock k =>
      cases ht with
      | unlock => exact ⟨_, .unlock k, rfl, by simp⟩
  | wait k =>
      cases ht with
      | wait _ b => exact ⟨_, .wait k b, rfl, by simp⟩
  | io a k =>
      cases ht with
      | io _ _ x => exact ⟨_, .io a k x, rfl, by simp⟩

/-- An execution of the filled program is one with the answers `f`. -/
theorem Exec.exists_of_fill (hx : Exec M w (p.fill f) os ts r w') :
    ∃ os', Exec M w p os' ts r w' ∧ AnsweredBy f os' := by
  generalize hp : p.fill f = p₀ at hx
  induction hx generalizing p with
  | ret w r =>
      obtain ⟨p', hask, hfill, hexec⟩ := p.exists_head (M := M) f
      have hret : p' = .ret r := by
        rw [hp] at hfill
        cases p' with
        | ret r' => exact congrArg _ (Prog.ret.inj hfill)
        | ask q k => exact absurd rfl (hask q k)
        | _ => simp at hfill
      subst hret
      exact hexec w w [] [] r (.ret w r) (by simp [AnsweredBy])
  | tick m h hx ih =>
      obtain ⟨os', hx', ha⟩ := ih hp
      exact ⟨os', .tick m h hx', ha⟩
  | op ht hd hx ih =>
      obtain ⟨p', hask, hfill, hexec⟩ := p.exists_head (M := M) f
      rw [← hp, ← hfill] at ht
      obtain ⟨p₂, ht', hfill₂, ho⟩ := Prog.takes_of_fill ht hask
      obtain ⟨os', hx', ha⟩ := ih hfill₂
      refine hexec _ _ _ _ _ (.op ht' hd hx') ?_
      rw [answeredBy_cons]
      exact ⟨fun q x h => absurd h (ho q x), ha⟩
  | signalled hx ih =>
      obtain ⟨p', hask, hfill, hexec⟩ := p.exists_head (M := M) f
      rw [hp] at hfill
      cases p' with
      | down k' =>
          obtain ⟨os', hx', ha⟩ := ih (congrFun (Prog.down.inj hfill) true)
          refine hexec _ _ _ _ _ (.signalled hx') ?_
          rw [answeredBy_cons]
          exact ⟨by simp, ha⟩
      | ask q k => exact absurd rfl (hask q k)
      | _ => simp at hfill

/-- **Executions with the answers `f`** are those of the filled program. -/
theorem exec_fill_iff :
    (∃ os, Exec M w p os ts r w' ∧ AnsweredBy f os) ↔ ∃ os, Exec M w (p.fill f) os ts r w' := by
  constructor
  · rintro ⟨os, hx, ha⟩
    exact hx.fill ha
  · rintro ⟨os, hx⟩
    exact hx.exists_of_fill

end Fill

/-! ## Executions as runs -/

section Runs

variable {T C : Type} {S : System Q A σ τ T C α} {s₀ s : State Q A σ T C α}
  {tr : List (Event Q A σ τ T C α)} {w' : Shared σ} {os : List (Op Q A)}
  {ts : List τ} {r : α}

/-- Events of thread `t` and of the clock only, over ticks among `ts`. -/
structure Alone (t : T) (ts : List τ) (new : List (Event Q A σ τ T C α)) : Prop where
  thread : ∀ e ∈ new, e.label.thread? = none ∨ e.label.thread? = some t
  ticks : ∀ e ∈ new, ∀ x ∈ e.label.ticks, x ∈ ts

/-- One more event in front of a stretch of events. -/
theorem Alone.snoc {t : T} {ts' : List τ} {new : List (Event Q A σ τ T C α)}
    {e : Event Q A σ τ T C α} (h : Alone t ts new) (hts : ts ⊆ ts')
    (hthread : e.label.thread? = none ∨ e.label.thread? = some t)
    (hticks : ∀ x ∈ e.label.ticks, x ∈ ts') : Alone t ts' (new ++ [e]) := by
  constructor
  · rw [List.forall_mem_append, List.forall_mem_singleton]
    exact ⟨h.thread, hthread⟩
  · rw [List.forall_mem_append, List.forall_mem_singleton]
    exact ⟨fun d hd x hx => hts (h.ticks d hd x hx), hticks⟩

variable [DecidableEq T]

/-- What is left of a call can run to its end while the other threads stand
still, where no signal ends it at the semaphore. -/
theorem Exec.exists_run_rest {t : T} {c : C} {w : Shared σ} {p : Prog Q A α} {ops : List (Op Q A)}
    (hx : Exec S.toMachine w p os ts r w') (hos : .down true ∉ os) (hr : Run S s₀ tr s)
    (hw : s.toShared = w) (hrun : s.thread t = some ⟨c, ops, p⟩) :
    ∃ ret mid, Run S s₀ (ret :: mid ++ tr) { w' with thread := Function.update s.thread t none } ∧
      Alone t ts (ret :: mid) ∧ ret.label = .ret t c (os.reverse ++ ops) r ∧
      ∀ e ∈ mid, ∀ c', e.label ≠ .start t c' := by
  induction hx generalizing s tr ops with
  | ret w r =>
      subst hw
      refine ⟨_, [], hr.cons (.ret s t c ops r hrun), ⟨?_, ?_⟩, by simp, by simp⟩
      · simp [Label.thread?]
      · simp [Label.ticks]
  | @tick w w' p os c' ts r m h hx ih =>
      subst hw
      obtain ⟨ret, mid, hnew, halone, hret, hno⟩ := ih hos (hr.cons (.tick s c' m h)) rfl hrun
      refine ⟨ret, mid ++ [⟨s, .tick c', { s with mem := m }⟩], by simpa using hnew,
        halone.snoc (List.subset_cons_self ..) (.inl rfl) ?_, hret, ?_⟩
      · simp [Label.ticks]
      · rw [List.forall_mem_append, List.forall_mem_singleton]
        exact ⟨hno, by simp⟩
  | @op w w₁ w' p p' o os ts ts' r ht hd hx ih =>
      subst hw
      have hstep := Step.step s t c ops p p' o ts w₁ hrun ht hd
      obtain ⟨ret, mid, hnew, halone, hret, hno⟩ :=
        ih (fun hmem => hos (List.mem_cons_of_mem _ hmem)) (hr.cons hstep) rfl
          (Function.update_self ..)
      rw [Function.update_idem] at hnew
      refine ⟨ret, mid ++ [⟨s, .step t o ts, _⟩], by simpa using hnew,
        halone.snoc (List.subset_append_right ..) (.inr rfl) ?_, ?_, ?_⟩
      · exact List.subset_append_left ..
      · rwa [List.reverse_cons, List.append_assoc, List.singleton_append]
      · rw [List.forall_mem_append, List.forall_mem_singleton]
        exact ⟨hno, by simp⟩
  | signalled hx ih => exact absurd (List.mem_cons_self ..) hos

/-- **An execution of a call is a run**: a thread outside of calls begins the
call, runs it to its end, returns and is outside again. -/
theorem Run.exec (hr : Run S s₀ tr s) (t : T) (c : C) (hidle : s.thread t = none)
    (he : S.entry t s.mem c) (hx : Exec S.toMachine s.toShared (S.code c) os ts r w')
    (hos : .down true ∉ os) :
    ∃ new, Run S s₀ (new ++ tr) { w' with thread := s.thread } ∧ Alone t ts new ∧
      ∃ mid, Completes (new ++ tr) t c os.reverse r mid ∧ mid ⊆ new ∧
        (∃ e ∈ new, e.label = .start t c) ∧ ∃ e ∈ new, e.label = .ret t c os.reverse r := by
  obtain ⟨ret, mid, hnew, halone, hret, hno⟩ :=
    hx.exists_run_rest hos (hr.cons (.start s t c hidle he)) rfl (Function.update_self ..)
  rw [Function.update_idem, ← hidle, Function.update_eq_self] at hnew
  rw [List.append_nil] at hret
  refine ⟨ret :: mid ++ [⟨s, .start t c, _⟩], by simpa using hnew,
    halone.snoc (List.Subset.refl _) (.inr rfl) ?_, mid,
    ⟨[], ret, _, List.append_assoc .., hret, ⟨s, .start t c, _⟩, tr, rfl, rfl, hno⟩, ?_,
    ⟨_, List.mem_append_right _ (List.mem_singleton_self _), rfl⟩, ret, by simp, hret⟩
  · simp [Label.ticks]
  · intro e he
    simp [he]

end Runs

/-! ## Computing an execution -/

/-- The environment's answers to one call; no signal comes while it waits for
its condition. -/
structure Oracle (Q : Sig) where
  downSignal : Bool
  reply : (q : Q.Op) → Q.Res q

/-- One way to carry out every shared operation. -/
structure Runner (M : Machine Q A σ τ) where
  act : (a : A.Op) → σ → A.Res a × List τ × σ
  ready : σ → Bool
  sound : ∀ a m, M.eff a m (act a m).1 (act a m).2.1 (act a m).2.2
  ready_sound : ∀ m, ready m = true → M.ready m

/-- Operations, ticks, result and final state of an execution. -/
abbrev Outcome (Q A : Sig) (σ τ α : Type) := List (Op Q A) × List τ × α × Shared σ

/-- One more operation in front. -/
def Outcome.cons (o : Op Q A) (ts : List τ) (x : Outcome Q A σ τ α) : Outcome Q A σ τ α :=
  (o :: x.1, ts ++ x.2.1, x.2.2)

/-- The execution with the oracle's answers. -/
def solo {M : Machine Q A σ τ} (E : Oracle Q) (X : Runner M) :
    Prog Q A α → Shared σ → Option (Outcome Q A σ τ α)
  | .ret r, w => some ([], [], r, w)
  | .down k, w =>
      if E.downSignal then (solo E X (k true) w).map (.cons (.down true) [])
      else if 0 < w.sem then
        (solo E X (k false) { w with sem := w.sem - 1 }).map (.cons (.down false) [])
      else none
  | .up k, w => (solo E X k { w with sem := w.sem + 1 }).map (.cons .up [])
  | .lock k, w =>
      if w.lock then none else (solo E X k { w with lock := true }).map (.cons .lock [])
  | .unlock k, w => (solo E X k { w with lock := false }).map (.cons .unlock [])
  | .wait k, w =>
      if X.ready w.mem then (solo E X (k false) w).map (.cons (.wait false) []) else none
  | .ask q k, w => (solo E X (k (E.reply q)) w).map (.cons (.ask q (E.reply q)) [])
  | .io a k, w =>
      (solo E X (k (X.act a w.mem).1) { w with mem := (X.act a w.mem).2.2 }).map
        (.cons (.io a (X.act a w.mem).1) (X.act a w.mem).2.1)

/-- The outcome is an execution over ticks that satisfy `P`. -/
def Outcome.Valid (M : Machine Q A σ τ) (P : τ → Prop) (w : Shared σ) (p : Prog Q A α)
    (x : Outcome Q A σ τ α) : Prop :=
  Exec M w p x.1 x.2.1 x.2.2.1 x.2.2.2 ∧ ∀ t ∈ x.2.1, P t

theorem Outcome.Valid.cons {M : Machine Q A σ τ} {P : τ → Prop} {w w₁ : Shared σ}
    {p p' : Prog Q A α} {o : Op Q A} {ts : List τ} {x : Outcome Q A σ τ α}
    (hx : x.Valid M P w₁ p') (ht : p.Takes o p') (hd : Does M o w ts w₁) (hts : ∀ t ∈ ts, P t) :
    (x.cons o ts).Valid M P w p := by
  refine ⟨.op ht hd hx.1, fun t h => ?_⟩
  obtain h | h := List.mem_append.mp h
  · exact hts t h
  · exact hx.2 t h

/-- **What `solo` computes is an execution**, over ticks of the runner. -/
theorem valid_of_solo {M : Machine Q A σ τ} {E : Oracle Q} {X : Runner M} {P : τ → Prop}
    (hP : ∀ a m, ∀ t ∈ (X.act a m).2.1, P t) {p : Prog Q A α} {w : Shared σ}
    {x : Outcome Q A σ τ α} (h : solo E X p w = some x) : x.Valid M P w p := by
  induction p generalizing w x with
  | ret r =>
      cases h
      exact ⟨.ret w r, by simp⟩
  | down k ih =>
      simp only [solo] at h
      split at h
      · obtain ⟨y, hy, rfl⟩ := Option.map_eq_some_iff.mp h
        exact ⟨.signalled (ih true hy).1, (ih true hy).2⟩
      · split at h
        · next hsem =>
            obtain ⟨y, hy, rfl⟩ := Option.map_eq_some_iff.mp h
            exact (ih false hy).cons (.down k false) (.down w hsem) (by simp)
        · contradiction
  | up k ih =>
      obtain ⟨y, hy, rfl⟩ := Option.map_eq_some_iff.mp h
      exact (ih hy).cons (.up k) (.up w) (by simp)
  | lock k ih =>
      simp only [solo] at h
      split at h
      · contradiction
      · next hlock =>
          obtain ⟨y, hy, rfl⟩ := Option.map_eq_some_iff.mp h
          exact (ih hy).cons (.lock k) (.lock w (by simpa using hlock)) (by simp)
  | unlock k ih =>
      obtain ⟨y, hy, rfl⟩ := Option.map_eq_some_iff.mp h
      exact (ih hy).cons (.unlock k) (.unlock w) (by simp)
  | wait k ih =>
      simp only [solo] at h
      split at h
      · next hready =>
          obtain ⟨y, hy, rfl⟩ := Option.map_eq_some_iff.mp h
          exact (ih false hy).cons (.wait k false) (.wait w (X.ready_sound _ hready)) (by simp)
      · contradiction
  | ask q k ih =>
      obtain ⟨y, hy, rfl⟩ := Option.map_eq_some_iff.mp h
      exact (ih _ hy).cons (.ask q k _) (.ask w q _) (by simp)
  | io a k ih =>
      obtain ⟨y, hy, rfl⟩ := Option.map_eq_some_iff.mp h
      exact (ih _ hy).cons (.io a k _) (.io w a _ _ _ (X.sound a w.mem)) (hP a w.mem)

/-- Where no signal comes `solo` takes the semaphore. -/
theorem down_true_notMem_of_solo {M : Machine Q A σ τ} {E : Oracle Q} {X : Runner M}
    (hE : E.downSignal = false) {p : Prog Q A α} {w : Shared σ} {x : Outcome Q A σ τ α}
    (h : solo E X p w = some x) : .down true ∉ x.1 := by
  induction p generalizing w x with
  | ret r =>
      cases h
      simp
  | down k ih =>
      simp only [solo, hE, Bool.false_eq_true, if_false] at h
      split at h
      · obtain ⟨y, hy, rfl⟩ := Option.map_eq_some_iff.mp h
        simpa [Outcome.cons] using ih false hy
      · contradiction
  | lock k ih =>
      simp only [solo] at h
      split at h
      · contradiction
      · obtain ⟨y, hy, rfl⟩ := Option.map_eq_some_iff.mp h
        simpa [Outcome.cons] using ih hy
  | wait k ih =>
      simp only [solo] at h
      split at h
      · obtain ⟨y, hy, rfl⟩ := Option.map_eq_some_iff.mp h
        simpa [Outcome.cons] using ih false hy
      · contradiction
  | ask q k ih =>
      obtain ⟨y, hy, rfl⟩ := Option.map_eq_some_iff.mp h
      simpa [Outcome.cons] using ih _ hy
  | io a k ih =>
      obtain ⟨y, hy, rfl⟩ := Option.map_eq_some_iff.mp h
      simpa [Outcome.cons] using ih _ hy
  | up k ih | unlock k ih =>
      obtain ⟨y, hy, rfl⟩ := Option.map_eq_some_iff.mp h
      simpa [Outcome.cons] using ih hy

end Kernel
