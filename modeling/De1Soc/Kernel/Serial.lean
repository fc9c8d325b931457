import De1Soc.Kernel.System
import Mathlib.Data.List.Perm.Basic

/-!
# De1Soc.Kernel.Serial

Serial order from commit points.

Suppose that what matters of the shared data (`abs`) changes only when a call
*commits*, in one operation, and that from then on the call's *entry* (what
of it decides the change) is fixed.  Then at every point of a run the shared
data is what the entries make of the initial data when they are applied one
after the other, in the order of the commits; and the entries are those of
the calls that have returned and of the calls that have committed and not yet
returned (`Run.serial`).  A call that returns without a commit must have an
entry that changes nothing.
-/

namespace Kernel

variable {Q A : Sig} {σ τ T C α E G : Type}

/-- Commit points: the entry of a call with the operations it has made (none
for calls that are not recorded), whether it has committed, and what an entry
does. -/
structure Commits (Q A : Sig) (C E G : Type) where
  entry : C → List (Op Q A) → Option E
  done : List (Op Q A) → Prop
  apply : G → E → G
  not_done_nil : ¬ done []

namespace Commits

variable (X : Commits Q A C E G)

/-- One operation: it leaves the entry of a committed call and the data, or
it commits. -/
def Advances (c : C) (ops : List (Op Q A)) (o : Op Q A) (g g' : G) : Prop :=
  ((X.done (o :: ops) ↔ X.done ops) ∧ (X.done ops → X.entry c (o :: ops) = X.entry c ops) ∧
      g' = g) ∨
    (¬ X.done ops ∧ X.done (o :: ops) ∧ ∃ e, X.entry c (o :: ops) = some e ∧ g' = X.apply g e)

/-- The entries of the calls that have returned. -/
def completed (tr : List (Event Q A σ τ T C α)) : List E :=
  tr.filterMap fun e =>
    match e.label with
    | .ret _ c ops _ => X.entry c ops
    | _ => none

/-- Thread `t` is in a call that has committed, with entry `e`. -/
def Committed (s : State Q A σ T C α) (t : T) (e : E) : Prop :=
  ∃ th, s.thread t = some th ∧ X.done th.ops ∧ X.entry th.call th.ops = some e

/-- The data `g` is what the entries of `order` make of `g₀`; they are those
of the returned calls and of the committed calls `active`. -/
structure Serial (g₀ g : G) (tr : List (Event Q A σ τ T C α)) (s : State Q A σ T C α)
    (order : List E) (active : List (T × E)) : Prop where
  nodup : active.Nodup
  mem : ∀ t e, (t, e) ∈ active ↔ X.Committed s t e
  perm : order.Perm (X.completed tr ++ active.map Prod.snd)
  value : g = order.foldl X.apply g₀

variable {X} {g₀ g g' : G} {tr : List (Event Q A σ τ T C α)} {s s' : State Q A σ T C α}
  {order : List E} {active : List (T × E)} {l : Label Q A τ T C α}

theorem completed_cons_of_not_ret (hl : ∀ t c ops r, l ≠ .ret t c ops r) :
    X.completed (⟨s, l, s'⟩ :: tr) = X.completed tr := by
  cases l with
  | ret t c ops r => exact absurd rfl (hl t c ops r)
  | _ => rfl

/-- A step that moves no commit and no data keeps the order. -/
theorem Serial.keep (h : X.Serial g₀ g tr s order active)
    (hl : ∀ t c ops r, l ≠ .ret t c ops r) (hmem : ∀ t e, X.Committed s' t e ↔ X.Committed s t e) :
    X.Serial g₀ g (⟨s, l, s'⟩ :: tr) s' order active := by
  refine ⟨h.nodup, fun t e => ?_, ?_, h.value⟩
  · rw [hmem, h.mem]
  · rw [completed_cons_of_not_ret hl]
    exact h.perm

/-- A commit puts its entry at the end of the order. -/
theorem Serial.commit {t : T} {e : E} (h : X.Serial g₀ g tr s order active)
    (hl : ∀ t c ops r, l ≠ .ret t c ops r) (hnew : ∀ e', ¬ X.Committed s t e')
    (hmem : ∀ u e', X.Committed s' u e' ↔ (u = t ∧ e' = e) ∨ X.Committed s u e')
    (hg : g' = X.apply g e) :
    X.Serial g₀ g' (⟨s, l, s'⟩ :: tr) s' (order ++ [e]) ((t, e) :: active) := by
  refine ⟨List.nodup_cons.mpr ⟨?_, h.nodup⟩, fun u e' => ?_, ?_, ?_⟩
  · rw [h.mem]
    exact hnew e
  · rw [List.mem_cons, Prod.mk.injEq, h.mem, hmem]
  · rw [completed_cons_of_not_ret hl, List.map_cons]
    have hlast : (order ++ [e]).Perm (e :: order) := List.perm_append_singleton e order
    exact (hlast.trans (h.perm.cons e)).trans List.perm_middle.symm
  · rw [List.foldl_append, ← h.value, hg]
    rfl

/-- The return of a committed call moves its entry to the completed ones. -/
theorem Serial.returns {t : T} {c : C} {ops : List (Op Q A)} {r : α} {e : E}
    (h : X.Serial g₀ g tr s order active) (he : X.entry c ops = some e)
    (hdone : X.Committed s t e) (huniq : ∀ e', X.Committed s t e' → e' = e)
    (hmem : ∀ u e', X.Committed s' u e' ↔ u ≠ t ∧ X.Committed s u e') :
    ∃ active, X.Serial g₀ g (⟨s, .ret t c ops r, s'⟩ :: tr) s' order active := by
  classical
  refine ⟨active.erase (t, e), h.nodup.erase _, fun u e' => ?_, ?_, h.value⟩
  · rw [h.nodup.mem_erase_iff, h.mem, hmem]
    constructor
    · rintro ⟨hne, hu⟩
      refine ⟨?_, hu⟩
      rintro rfl
      exact hne (by rw [huniq e' hu])
    · rintro ⟨hne, hu⟩
      refine ⟨?_, hu⟩
      rintro ⟨⟩
      exact hne rfl
  · have hcompleted : X.completed (⟨s, .ret t c ops r, s'⟩ :: tr) = e :: X.completed tr :=
      List.filterMap_cons_some he
    have hmem' : (t, e) ∈ active := (h.mem t e).mpr hdone
    have hsplit : (active.map Prod.snd).Perm (e :: (active.erase (t, e)).map Prod.snd) :=
      (List.perm_cons_erase hmem').map Prod.snd
    rw [hcompleted]
    exact (h.perm.trans (hsplit.append_left _)).trans List.perm_middle

/-- The return of a call that has not committed: its entry, if it is recorded,
changes nothing. -/
theorem Serial.returns_nop {t : T} {c : C} {ops : List (Op Q A)} {r : α}
    (h : X.Serial g₀ g tr s order active) (hnop : ∀ e g, X.entry c ops = some e → X.apply g e = g)
    (hmem : ∀ u e, X.Committed s' u e ↔ X.Committed s u e) :
    ∃ order, X.Serial g₀ g (⟨s, .ret t c ops r, s'⟩ :: tr) s' order active := by
  cases he : X.entry c ops with
  | none =>
      have hcompleted : X.completed (⟨s, .ret t c ops r, s'⟩ :: tr) = X.completed tr :=
        List.filterMap_cons_none he
      refine ⟨order, h.nodup, fun u e => ?_, ?_, h.value⟩
      · rw [hmem, h.mem]
      · rw [hcompleted]
        exact h.perm
  | some e =>
      have hcompleted : X.completed (⟨s, .ret t c ops r, s'⟩ :: tr) = e :: X.completed tr :=
        List.filterMap_cons_some he
      refine ⟨order ++ [e], h.nodup, fun u e => ?_, ?_, ?_⟩
      · rw [hmem, h.mem]
      · rw [hcompleted]
        exact (List.perm_append_singleton e order).trans (h.perm.cons e)
      · rw [List.foldl_append, ← h.value]
        exact (hnop e g he).symm

/-! ## Along runs -/

theorem committed_of_thread {t : T} {th : Thread Q A C α} {e : E} (h : s.thread t = some th) :
    X.Committed s t e ↔ X.done th.ops ∧ X.entry th.call th.ops = some e := by
  simp [Committed, h]

variable [DecidableEq T]

/-- What a changed thread does to the committed calls. -/
theorem committed_update {w : Shared σ} {t u : T} {x : Option (Thread Q A C α)} {e : E} :
    X.Committed { w with thread := Function.update s.thread t x } u e ↔
      (u = t ∧ ∃ th, x = some th ∧ X.done th.ops ∧ X.entry th.call th.ops = some e) ∨
        (u ≠ t ∧ X.Committed s u e) := by
  by_cases hut : u = t
  · subst hut
    simp [Committed]
  · simp [Committed, hut]

/-- A changed thread that is as committed as before leaves the committed
calls. -/
theorem committed_update_same {w : Shared σ} {t : T} {x : Option (Thread Q A C α)}
    (hx : ∀ e, (∃ th, x = some th ∧ X.done th.ops ∧ X.entry th.call th.ops = some e) ↔
      X.Committed s t e) (u : T) (e : E) :
    X.Committed { w with thread := Function.update s.thread t x } u e ↔ X.Committed s u e := by
  rw [committed_update, hx]
  by_cases hut : u = t
  · subst hut
    simp
  · simp [hut]

/-- An operation of a thread, with the order it leads to. -/
theorem Serial.step {t : T} {c : C} {ops : List (Op Q A)} {p p' : Prog Q A α} {o : Op Q A}
    {ts : List τ} {w : Shared σ} (h : X.Serial g₀ g tr s order active)
    (hrun : s.thread t = some ⟨c, ops, p⟩) (hadv : X.Advances c ops o g g') :
    ∃ order active, X.Serial g₀ g'
      (⟨s, .step t o ts, { w with thread := Function.update s.thread t (some ⟨c, o :: ops, p'⟩) }⟩
        :: tr) { w with thread := Function.update s.thread t (some ⟨c, o :: ops, p'⟩) }
      order active := by
  obtain ⟨hsame, hentry, rfl⟩ | ⟨hnot, hdone, e, he, hg⟩ := hadv
  · refine ⟨order, active, h.keep (by simp) (committed_update_same fun e => ?_)⟩
    rw [committed_of_thread hrun]
    simp only [Option.some.injEq, exists_eq_left', hsame]
    exact and_congr_right fun hd => by rw [hentry hd]
  · have hnew : ∀ e', ¬ X.Committed s t e' := by
      intro e'
      rw [committed_of_thread hrun]
      exact fun hd => hnot hd.1
    refine ⟨_, _, h.commit (by simp) hnew (fun u e' => ?_) hg⟩
    rw [committed_update]
    by_cases hut : u = t
    · subst hut
      simp [hdone, he, hnew, eq_comm]
    · simp [hut]

/-- A return of a thread, with the order it leads to. -/
theorem Serial.ret {t : T} {c : C} {ops : List (Op Q A)} {r : α}
    (h : X.Serial g₀ g tr s order active) (hrun : s.thread t = some ⟨c, ops, .ret r⟩)
    (hnop : ¬ X.done ops → ∀ e g, X.entry c ops = some e → X.apply g e = g) :
    ∃ order active, X.Serial g₀ g
      (⟨s, .ret t c ops r, { s with thread := Function.update s.thread t none }⟩ :: tr)
      { s with thread := Function.update s.thread t none } order active := by
  have hiff : ∀ e, X.Committed s t e ↔ X.done ops ∧ X.entry c ops = some e :=
    fun e => committed_of_thread hrun
  by_cases hdone : ∃ e, X.Committed s t e
  · obtain ⟨e, hcommitted⟩ := hdone
    have he := ((hiff e).mp hcommitted).2
    have huniq : ∀ e', X.Committed s t e' → e' = e := by
      intro e' h'
      exact Option.some.inj (((hiff e').mp h').2.symm.trans he)
    refine ⟨order, h.returns he hcommitted huniq fun u e' => ?_⟩
    rw [committed_update]
    simp
  · have hno : ∀ e, ¬ X.Committed s t e := not_exists.mp hdone
    have hsame : ∀ e, (∃ th : Thread Q A C α, none = some th ∧ X.done th.ops ∧
        X.entry th.call th.ops = some e) ↔ X.Committed s t e := by
      intro e
      simp [hno e]
    obtain ⟨order, h⟩ := h.returns_nop (t := t) (c := c) (r := r)
      (fun e g he => hnop (fun hd => hno e ((hiff e).mpr ⟨hd, he⟩)) e g he)
      (committed_update_same (w := s.toShared) hsame)
    exact ⟨order, active, h⟩

end Commits

/-- **Serial order along runs**: where every operation leaves the committed
entries and the data or commits, and every return without a commit has an
entry that changes nothing, the data is at all times what the entries make of
the initial data in some order. -/
theorem Run.serial {S : System Q A σ τ T C α} [DecidableEq T] {s₀ s : State Q A σ T C α}
    {tr : List (Event Q A σ τ T C α)} (X : Commits Q A C E G) (abs : σ → G)
    (P : Event Q A σ τ T C α → Prop) (h₀ : s₀.Idle)
    (htick : ∀ s c m, S.env s.mem c m → P ⟨s, .tick c, { s with mem := m }⟩ →
      abs m = abs s.mem)
    (hstep : ∀ old s t o ts s' c ops p, Run S s₀ old s → (∀ e ∈ old, P e) →
      Step S s (.step t o ts) s' → P ⟨s, .step t o ts, s'⟩ → s.thread t = some ⟨c, ops, p⟩ →
      X.Advances c ops o (abs s.mem) (abs s'.mem))
    (hret : ∀ old s t c ops r, Run S s₀ old s → s.thread t = some ⟨c, ops, .ret r⟩ →
      ¬ X.done ops → ∀ e g, X.entry c ops = some e → X.apply g e = g)
    (hr : Run S s₀ tr s) (hP : ∀ e ∈ tr, P e) :
    ∃ order active, X.Serial (abs s₀.mem) (abs s.mem) tr s order active := by
  induction hr with
  | nil =>
      refine ⟨[], [], List.nodup_nil, fun t e => ?_, List.Perm.refl _, rfl⟩
      simp [Commits.Committed, h₀ t]
  | @cons tr s s' l hr hs ih =>
      rw [List.forall_mem_cons] at hP
      obtain ⟨order, active, h⟩ := ih hP.2
      cases hs with
      | tick c m he =>
          refine ⟨order, active, ?_⟩
          rw [htick s c m he hP.1]
          exact h.keep (by simp) fun _ _ => Iff.rfl
      | start t c hidle he =>
          refine ⟨order, active, h.keep (by simp) (Commits.committed_update_same fun e => ?_)⟩
          simp [Commits.Committed, hidle, X.not_done_nil]
      | step t c ops p p' o ts w hrun ht hd =>
          have hs := Step.step s t c ops p p' o ts w hrun ht hd
          exact h.step hrun (hstep tr s t o ts _ c ops p hr hP.2 hs hP.1 hrun)
      | ret t c ops r hrun => exact h.ret hrun (hret tr s t c ops r hr hrun)

end Kernel
