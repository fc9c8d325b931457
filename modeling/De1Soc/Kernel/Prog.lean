import Mathlib.Logic.Function.Basic

/-!
# De1Soc.Kernel.Prog

Kernel paths as programs.

A `Prog` is the code of one system call or interrupt handler, as a tree of
the operations it makes: it takes and releases one semaphore and one spin
lock, sleeps on one wait queue, asks the environment (`ask`: user memory)
and works on the shared data (`io`).  The two signatures give the operations
of the last two kinds and the types of their results; nothing here knows
what they do.

A `Rule` is a typestate discipline on such code: what may be done next,
given what the call has done so far, and what must hold when it returns.
`Prog.Obeys` checks it along every path of a program, so that each call is
checked once, and `Obeys.takes` hands the rule on from step to step.
-/

namespace Kernel

/-- A signature: operations, and the type of result of each. -/
structure Sig where
  Op : Type
  Res : Op → Type

/-- The code of one kernel path.  The `Bool` that `down` and `wait` deliver
is `true` when a signal ended the sleep. -/
inductive Prog (Q A : Sig) (α : Type) : Type
  | ret (r : α)
  | down (k : Bool → Prog Q A α)
  | up (k : Prog Q A α)
  | lock (k : Prog Q A α)
  | unlock (k : Prog Q A α)
  | wait (k : Bool → Prog Q A α)
  | ask (q : Q.Op) (k : Q.Res q → Prog Q A α)
  | io (a : A.Op) (k : A.Res a → Prog Q A α)

/-- One operation that a path has made, with its outcome. -/
inductive Op (Q A : Sig) : Type
  | down (intr : Bool)
  | up
  | lock
  | unlock
  | wait (intr : Bool)
  | ask (q : Q.Op) (x : Q.Res q)
  | io (a : A.Op) (x : A.Res a)

variable {Q A : Sig} {α β : Type}

namespace Prog

/-- Sequencing. -/
@[simp] def bind : Prog Q A α → (α → Prog Q A β) → Prog Q A β
  | ret r, f => f r
  | down k, f => down fun b => (k b).bind f
  | up k, f => up (k.bind f)
  | lock k, f => lock (k.bind f)
  | unlock k, f => unlock (k.bind f)
  | wait k, f => wait fun b => (k b).bind f
  | ask q k, f => ask q fun x => (k x).bind f
  | io a k, f => io a fun x => (k x).bind f

instance : Monad (Prog Q A) where
  pure := ret
  bind := bind

@[simp] theorem pure_eq (r : α) : (pure r : Prog Q A α) = ret r := rfl

@[simp] theorem bind_eq (p : Prog Q A α) (f : α → Prog Q A β) : p >>= f = p.bind f := rfl

/-! ## One operation at a time -/

/-- `p.Takes o p'`: the next operation of `p` is `o`, and `p'` remains. -/
inductive Takes : Prog Q A α → Op Q A → Prog Q A α → Prop
  | down (k : Bool → Prog Q A α) (b : Bool) : Takes (.down k) (.down b) (k b)
  | up (k : Prog Q A α) : Takes (.up k) .up k
  | lock (k : Prog Q A α) : Takes (.lock k) .lock k
  | unlock (k : Prog Q A α) : Takes (.unlock k) .unlock k
  | wait (k : Bool → Prog Q A α) (b : Bool) : Takes (.wait k) (.wait b) (k b)
  | ask (q : Q.Op) (k : Q.Res q → Prog Q A α) (x : Q.Res q) : Takes (.ask q k) (.ask q x) (k x)
  | io (a : A.Op) (k : A.Res a → Prog Q A α) (x : A.Res a) : Takes (.io a k) (.io a x) (k x)

end Prog

/-! ## Typestate rules -/

/-- A discipline for one call: `ok ops o` allows operation `o` after the
operations `ops` (latest first), and `fin ops r` is what must hold when the
call returns `r`. -/
structure Rule (Q A : Sig) (α : Type) where
  ok : List (Op Q A) → Op Q A → Prop
  fin : List (Op Q A) → α → Prop

namespace Prog

/-- Every path of the program keeps to the rule, the operations `ops`
having been made before. -/
@[simp] def Obeys (R : Rule Q A α) (ops : List (Op Q A)) : Prog Q A α → Prop
  | .ret r => R.fin ops r
  | .down k => ∀ b, R.ok ops (.down b) ∧ (k b).Obeys R (.down b :: ops)
  | .up k => R.ok ops .up ∧ k.Obeys R (.up :: ops)
  | .lock k => R.ok ops .lock ∧ k.Obeys R (.lock :: ops)
  | .unlock k => R.ok ops .unlock ∧ k.Obeys R (.unlock :: ops)
  | .wait k => ∀ b, R.ok ops (.wait b) ∧ (k b).Obeys R (.wait b :: ops)
  | .ask q k => ∀ x, R.ok ops (.ask q x) ∧ (k x).Obeys R (.ask q x :: ops)
  | .io a k => ∀ x, R.ok ops (.io a x) ∧ (k x).Obeys R (.io a x :: ops)

/-- A rule that allows everything is kept by every program. -/
theorem obeys_of_forall {R : Rule Q A α} (hok : ∀ ops o, R.ok ops o) (hfin : ∀ ops r, R.fin ops r)
    (p : Prog Q A α) (ops : List (Op Q A)) : p.Obeys R ops := by
  induction p generalizing ops with
  | ret r => exact hfin ops r
  | down k ih => exact fun b => ⟨hok _ _, ih b _⟩
  | up k ih => exact ⟨hok _ _, ih _⟩
  | lock k ih => exact ⟨hok _ _, ih _⟩
  | unlock k ih => exact ⟨hok _ _, ih _⟩
  | wait k ih => exact fun b => ⟨hok _ _, ih b _⟩
  | ask q k ih => exact fun x => ⟨hok _ _, ih x _⟩
  | io a k ih => exact fun x => ⟨hok _ _, ih x _⟩

/-- Both branches keep to the rule. -/
@[simp] theorem obeys_ite (R : Rule Q A α) (ops : List (Op Q A)) (b : Prop) [Decidable b]
    (p q : Prog Q A α) :
    (if b then p else q).Obeys R ops ↔ (b → p.Obeys R ops) ∧ (¬ b → q.Obeys R ops) := by
  split <;> simp [*]

/-- The rule allows the operation that is taken, and what remains keeps to
it. -/
theorem Obeys.takes {R : Rule Q A α} {ops : List (Op Q A)} {p p' : Prog Q A α} {o : Op Q A}
    (h : p.Obeys R ops) (ht : p.Takes o p') : R.ok ops o ∧ p'.Obeys R (o :: ops) := by
  cases ht with
  | down k b => exact h b
  | up k => exact h
  | lock k => exact h
  | unlock k => exact h
  | wait k b => exact h b
  | ask q k x => exact h x
  | io a k x => exact h x

end Prog

end Kernel
