import De1Soc.Kernel.System
import Mathlib.Data.Finset.Card

/-!
# De1Soc.Kernel.Ledger

Counting the operations of a run.

`made f` counts the steps of a run that are an operation marked by `f`, and
`finished f` the calls that have returned after one.  Where every call makes at
most one marked operation (`Rule.Once`), the two differ by the calls in progress
that have made theirs (`Run.made_eq`), so they agree in every state without
such a call (`Run.made_eq_finished`).

`Run.amortized` bounds what the steps of a run take by what they give: a step may
take what it gives or what the state had in stock.
-/

namespace Kernel

variable {Q A : Sig} {σ τ T C α : Type}

/-- One of the operations is marked. -/
def marked (f : Op Q A → Bool) (ops : List (Op Q A)) : Bool := ops.any f

/-- The step is a marked operation. -/
def Label.makes (f : Op Q A → Bool) : Label Q A τ T C α → Bool
  | .step _ o _ => f o
  | _ => false

/-- The step is the return of a call after a marked operation. -/
def Label.finishes (f : Op Q A → Bool) : Label Q A τ T C α → Bool
  | .ret _ _ ops _ => marked f ops
  | _ => false

/-- The marked operations of a run. -/
def made (f : Op Q A → Bool) (tr : List (Event Q A σ τ T C α)) : Nat :=
  tr.countP fun e => e.label.makes f

/-- The calls of a run that have returned after a marked operation. -/
def finished (f : Op Q A → Bool) (tr : List (Event Q A σ τ T C α)) : Nat :=
  tr.countP fun e => e.label.finishes f

/-- The rule allows a call at most one marked operation. -/
def Rule.Once (R : Rule Q A α) (f : Op Q A → Bool) : Prop :=
  ∀ ops o, R.ok ops o → f o = true → marked f ops = false

/-- Thread `t` is inside a call and has made its marked operation. -/
def State.Marked (s : State Q A σ T C α) (f : Op Q A → Bool) (t : T) : Prop :=
  ∃ th, s.thread t = some th ∧ marked f th.ops = true

theorem made_cons (f : Op Q A → Bool) (e : Event Q A σ τ T C α) (tr : List (Event Q A σ τ T C α)) :
    made f (e :: tr) = made f tr + if e.label.makes f then 1 else 0 := List.countP_cons

theorem finished_cons (f : Op Q A → Bool) (e : Event Q A σ τ T C α)
    (tr : List (Event Q A σ τ T C α)) :
    finished f (e :: tr) = finished f tr + if e.label.finishes f then 1 else 0 := List.countP_cons

/-- What the events of a run amount to. -/
def total (f : Event Q A σ τ T C α → Nat) : List (Event Q A σ τ T C α) → Nat
  | [] => 0
  | e :: tr => total f tr + f e

section Runs

variable [DecidableEq T] {S : System Q A σ τ T C α} {s₀ s s' : State Q A σ T C α}
  {tr : List (Event Q A σ τ T C α)} {f : Op Q A → Bool} {R : C → Rule Q A α} {t u : T}

/-- The marked threads after thread `t` has changed. -/
theorem State.marked_update {w : Shared σ} {x : Option (Thread Q A C α)} :
    State.Marked { w with thread := Function.update s.thread t x } f u ↔
      (u ≠ t ∧ s.Marked f u) ∨ (u = t ∧ ∃ th, x = some th ∧ marked f th.ops = true) := by
  by_cases hut : u = t
  · subst hut
    simp [State.Marked]
  · simp [State.Marked, hut]

/-- A step marks a thread, or takes a marked one away, exactly when it counts. -/
theorem Step.marked_card {l : Label Q A τ T C α} (hs : Step S s l s')
    (hone : ∀ c, (R c).Once f) (hob : s.Obeys R) {F : Finset T} (hF : ∀ t, t ∈ F ↔ s.Marked f t) :
    ∃ F' : Finset T, (∀ t, t ∈ F' ↔ s'.Marked f t) ∧
      F.card + (if l.makes f then 1 else 0) = F'.card + if l.finishes f then 1 else 0 := by
  cases hs with
  | tick c m h => exact ⟨F, hF, rfl⟩
  | start t c hidle h =>
      have hno : t ∉ F := by
        rw [hF]
        simp [State.Marked, hidle]
      refine ⟨F, fun u => ?_, rfl⟩
      rw [State.marked_update, ← hF]
      by_cases hut : u = t
      · subst hut
        simp [hno, marked]
      · simp [hut]
  | step t c ops p p' o ts w hrun ht hd =>
      have hok := ((hob t _ hrun).takes ht).1
      have hself : t ∈ F ↔ marked f ops = true := by
        rw [hF]
        simp [State.Marked, hrun]
      cases ho : f o with
      | true =>
          have hno : t ∉ F := by
            rw [hself, hone c ops o hok ho]
            exact Bool.false_ne_true
          refine ⟨insert t F, fun u => ?_, ?_⟩
          · rw [State.marked_update, ← hF, Finset.mem_insert]
            by_cases hut : u = t
            · simp [hut, marked, ho]
            · simp [hut]
          · rw [Finset.card_insert_of_notMem hno]
            simp [Label.makes, Label.finishes, ho]
      | false =>
          refine ⟨F, fun u => ?_, by simp [Label.makes, Label.finishes, ho]⟩
          rw [State.marked_update, ← hF]
          by_cases hut : u = t
          · subst hut
            simpa [marked, ho] using hself
          · simp [hut]
  | ret t c ops r hrun =>
      have hself : t ∈ F ↔ marked f ops = true := by
        rw [hF]
        simp [State.Marked, hrun]
      refine ⟨F.erase t, fun u => ?_, ?_⟩
      · rw [State.marked_update, ← hF, Finset.mem_erase]
        simp
      · cases hm : marked f ops with
        | true =>
            have hcard := Finset.card_erase_add_one (hself.mpr hm)
            simp [Label.makes, Label.finishes, hm, hcard]
        | false =>
            have hno : t ∉ F := by
              rw [hself, hm]
              exact Bool.false_ne_true
            simp [Label.makes, Label.finishes, hm, Finset.erase_eq_of_notMem hno]

/-- **The ledger of a run**: the marked operations are those of the calls that
have returned and those of the calls in progress. -/
theorem Run.made_eq (hone : ∀ c, (R c).Once f)
    (hcode : ∀ t m c, S.entry t m c → (S.code c).Obeys (R c) []) (h₀ : s₀.Idle)
    (hr : Run S s₀ tr s) :
    ∃ F : Finset T, (∀ t, t ∈ F ↔ s.Marked f t) ∧ made f tr = finished f tr + F.card := by
  induction hr with
  | nil =>
      refine ⟨∅, fun t => ?_, rfl⟩
      simp [State.Marked, h₀ t]
  | @cons tr s s' l hr hs ih =>
      obtain ⟨F, hF, hcount⟩ := ih
      obtain ⟨F', hF', hcard⟩ := hs.marked_card hone (hr.obeys hcode h₀) hF
      refine ⟨F', hF', ?_⟩
      rw [made_cons, finished_cons, hcount]
      simp only
      omega

/-- With no marked call in progress, every marked operation is one of a call
that has returned. -/
theorem Run.made_eq_finished (hone : ∀ c, (R c).Once f)
    (hcode : ∀ t m c, S.entry t m c → (S.code c).Obeys (R c) []) (h₀ : s₀.Idle)
    (hr : Run S s₀ tr s) (hno : ∀ t, ¬ s.Marked f t) : made f tr = finished f tr := by
  obtain ⟨F, hF, hcount⟩ := hr.made_eq hone hcode h₀
  have hempty : F = ∅ := Finset.eq_empty_of_forall_notMem fun t ht => hno t ((hF t).mp ht)
  rw [hcount, hempty, Finset.card_empty, Nat.add_zero]

/-- **Amortised accounting**: where no step takes more than it gives and the
state before it has in `stock`, no run does. -/
theorem Run.amortized (stock : State Q A σ T C α → Nat) (takes gives : Event Q A σ τ T C α → Nat)
    (hstep : ∀ tr s l s', Run S s₀ tr s → Step S s l s' →
      takes ⟨s, l, s'⟩ + stock s' ≤ stock s + gives ⟨s, l, s'⟩) (hr : Run S s₀ tr s) :
    total takes tr + stock s ≤ stock s₀ + total gives tr := by
  induction hr with
  | nil => exact Nat.le_of_eq (Nat.add_comm ..)
  | @cons tr s s' l hr hs ih =>
      have hone := hstep tr s l s' hr hs
      rw [total, total]
      omega

end Runs

end Kernel
