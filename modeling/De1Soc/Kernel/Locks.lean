import De1Soc.Kernel.System
import Mathlib.Data.Set.Card

/-!
# De1Soc.Kernel.Locks

Mutual exclusion and conservation of the semaphore and the spin lock.

`semCount` and `lockCount` count what a call holds: acquisitions minus
releases.  The rule `locking` asks of a call that it never releases what it
does not hold, never acquires twice and returns with nothing held.  Where
every call obeys it, the semaphore (started at 1) and the lock are *tokens*:
each is free and nobody holds it, or taken and exactly one thread holds it
(`Run.locks`).
-/

namespace Kernel

variable {Q A : Sig} {σ τ T C α : Type}

/-- `down`s passed minus `up`s made. -/
def semCount : List (Op Q A) → Int
  | [] => 0
  | .down false :: ops => semCount ops + 1
  | .up :: ops => semCount ops - 1
  | _ :: ops => semCount ops

/-- Spin lock acquisitions minus releases. -/
def lockCount : List (Op Q A) → Int
  | [] => 0
  | .lock :: ops => lockCount ops + 1
  | .unlock :: ops => lockCount ops - 1
  | _ :: ops => lockCount ops

/-- The locking rule: acquire what is not held, release what is, return with
nothing; and take the semaphore, which may sleep, outside the spin lock. -/
def locking : Rule Q A α where
  ok ops
    | .down _ => semCount ops = 0 ∧ lockCount ops = 0
    | .up => semCount ops = 1
    | .lock => lockCount ops = 0
    | .unlock => lockCount ops = 1
    | _ => True
  fin ops _ := semCount ops = 0 ∧ lockCount ops = 0

/-! ## Tokens -/

/-- A token of value `v` with holders `H`: free and held by nobody, or taken
and held by exactly one. -/
def Token (v : Nat) (H : T → Prop) : Prop :=
  (v = 1 ∧ ∀ t, ¬ H t) ∨ (v = 0 ∧ ∃ t, H t ∧ ∀ u, H u → u = t)

namespace Token

variable {v : Nat} {H H' : T → Prop} {t u : T}

theorem unique (h : Token v H) (ht : H t) (hu : H u) : u = t := by
  obtain ⟨_, hno⟩ | ⟨_, x, _, hx⟩ := h
  · exact absurd ht (hno t)
  · rw [hx t ht, hx u hu]

theorem zero_of_holder (h : Token v H) (ht : H t) : v = 0 := by
  obtain ⟨_, hno⟩ | ⟨hv, _⟩ := h
  · exact absurd ht (hno t)
  · exact hv

/-- A token is taken exactly when somebody holds it. -/
theorem eq_zero_iff (h : Token v H) : v = 0 ↔ ∃ t, H t := by
  obtain ⟨hv, hno⟩ | ⟨hv, t, ht, _⟩ := h
  · exact iff_of_false (by omega) fun ⟨t, ht⟩ => hno t ht
  · exact iff_of_true hv ⟨t, ht⟩

theorem not_holder_of_pos (h : Token v H) (hv : 0 < v) : v = 1 ∧ ∀ t, ¬ H t := by
  obtain h | ⟨h0, _⟩ := h
  · exact h
  · omega

theorem congr (h : Token v H) (heq : ∀ t, H' t ↔ H t) : Token v H' := by
  have : H' = H := funext fun t => propext (heq t)
  rwa [this]

theorem acquire (h : Token v H) (hv : 0 < v) (heq : ∀ u, H' u ↔ H u ∨ u = t) :
    Token (v - 1) H' := by
  obtain ⟨h1, hno⟩ := h.not_holder_of_pos hv
  refine .inr ⟨by omega, t, (heq t).mpr (.inr rfl), fun u hu => ?_⟩
  exact ((heq u).mp hu).resolve_left (hno u)

theorem release (h : Token v H) (ht : H t) (heq : ∀ u, H' u ↔ H u ∧ u ≠ t) : Token 1 H' := by
  refine .inl ⟨rfl, fun u hu => ?_⟩
  obtain ⟨hHu, hne⟩ := (heq u).mp hu
  exact hne (h.unique ht hHu)

/-- The value of a token and the number of its holders add up to one. -/
theorem add_ncard (h : Token v H) : v + {t | H t}.ncard = 1 := by
  obtain ⟨hv, hno⟩ | ⟨hv, t, ht, hu⟩ := h
  · have hempty : {t | H t} = ∅ := Set.eq_empty_of_forall_notMem hno
    rw [hempty, Set.ncard_empty, hv]
  · have hone : {t | H t} = {t} := Set.eq_singleton_iff_unique_mem.mpr ⟨ht, hu⟩
    rw [hone, Set.ncard_singleton, hv]

end Token

/-! ## Holders in a state -/

/-- Thread `t` is inside a call that holds one unit, counted by `f`. -/
def State.Holds (s : State Q A σ T C α) (f : List (Op Q A) → Int) (t : T) : Prop :=
  ∃ th, s.thread t = some th ∧ f th.ops = 1

/-- Thread `t` has passed `down` and not yet made its `up`. -/
def State.HoldsSem (s : State Q A σ T C α) (t : T) : Prop := s.Holds semCount t

/-- Thread `t` is between its acquisition and its release of the lock. -/
def State.HoldsLock (s : State Q A σ T C α) (t : T) : Prop := s.Holds lockCount t

/-- No call holds more than one unit, counted by `f`, or less than none. -/
def State.Sound (s : State Q A σ T C α) (f : List (Op Q A) → Int) : Prop :=
  ∀ t th, s.thread t = some th → f th.ops = 0 ∨ f th.ops = 1

/-- Both locks are soundly counted tokens of their holders. -/
structure State.Locks (s : State Q A σ T C α) : Prop where
  semSound : s.Sound semCount
  lockSound : s.Sound lockCount
  sem : Token s.sem s.HoldsSem
  lock : Token (!s.lock).toNat s.HoldsLock

/-- With no call in progress nothing is held. -/
theorem State.Idle.locks {s : State Q A σ T C α} (h : s.Idle) (hsem : s.sem = 1)
    (hlock : s.lock = false) : s.Locks := by
  have hno : ∀ f t, ¬ s.Holds f t := by
    rintro f t ⟨th, ht, _⟩
    rw [h t] at ht
    contradiction
  have hsound : ∀ f, s.Sound f := by
    intro f t th ht
    rw [h t] at ht
    contradiction
  exact ⟨hsound _, hsound _, .inl ⟨hsem, hno _⟩, .inl ⟨by simp [hlock], hno _⟩⟩

section Steps

variable [DecidableEq T] {s s' : State Q A σ T C α} {t u : T} {f : List (Op Q A) → Int}

/-- Changing one thread changes no other holder. -/
theorem State.holds_update_of_ne {w : Shared σ} {x : Option (Thread Q A C α)} (hut : u ≠ t) :
    State.Holds { w with thread := Function.update s.thread t x } f u ↔ s.Holds f u := by
  simp [State.Holds, Function.update_of_ne hut]

theorem State.holds_update_self {w : Shared σ} {x : Option (Thread Q A C α)} :
    State.Holds { w with thread := Function.update s.thread t x } f t ↔
      ∃ th, x = some th ∧ f th.ops = 1 := by
  simp [State.Holds]

/-- A thread whose count does not change leaves the holders as they are. -/
theorem State.holds_update_same {w : Shared σ} {x : Option (Thread Q A C α)}
    (hx : (∃ th, x = some th ∧ f th.ops = 1) ↔ s.Holds f t) (u : T) :
    State.Holds { w with thread := Function.update s.thread t x } f u ↔ s.Holds f u := by
  by_cases hut : u = t
  · subst hut
    rw [State.holds_update_self, hx]
  · exact State.holds_update_of_ne hut

theorem State.Sound.update {w : Shared σ} {x : Option (Thread Q A C α)} (h : s.Sound f)
    (hx : ∀ th, x = some th → f th.ops = 0 ∨ f th.ops = 1) :
    State.Sound { w with thread := Function.update s.thread t x } f := by
  intro u th hu
  by_cases hut : u = t
  · subst hut
    exact hx th (by simpa using hu)
  · exact h u th (by simpa [Function.update_of_ne hut] using hu)

/-! ## One step -/

/-- What an operation may do to a token of value `v` that `f` counts: leave
it, take it when it is free, or give it back when the call holds it. -/
def Moves (f : List (Op Q A) → Int) (v v' : Nat) (ops : List (Op Q A)) (o : Op Q A) : Prop :=
  (f (o :: ops) = f ops ∧ v' = v) ∨
    (f ops = 0 ∧ f (o :: ops) = 1 ∧ 0 < v ∧ v' = v - 1) ∨
    (f ops = 1 ∧ f (o :: ops) = 0 ∧ (v = 0 → v' = 1))

theorem semCount_moves {M : Machine Q A σ τ} {o : Op Q A} {w w' : Shared σ} {ts : List τ}
    {ops : List (Op Q A)} (hd : Does M o w ts w') (hok : (locking (α := α)).ok ops o) :
    Moves semCount w.sem w'.sem ops o := by
  cases hd with
  | down _ h => exact .inr (.inl ⟨hok.1, by simp [semCount, hok.1], h, rfl⟩)
  | up =>
      have h1 : semCount ops = 1 := hok
      exact .inr (.inr ⟨h1, by simp [semCount, h1], fun h0 => by simp [h0]⟩)
  | _ => exact .inl ⟨by simp [semCount], rfl⟩

theorem lockCount_moves {M : Machine Q A σ τ} {o : Op Q A} {w w' : Shared σ} {ts : List τ}
    {ops : List (Op Q A)} (hd : Does M o w ts w') (hok : (locking (α := α)).ok ops o) :
    Moves lockCount (!w.lock).toNat (!w'.lock).toNat ops o := by
  cases hd with
  | lock _ h =>
      have h0 : lockCount ops = 0 := hok
      exact .inr (.inl ⟨h0, by simp [lockCount, h0], by simp [h], by simp [h]⟩)
  | unlock =>
      have h1 : lockCount ops = 1 := hok
      exact .inr (.inr ⟨h1, by simp [lockCount, h1], fun _ => rfl⟩)
  | _ => exact .inl ⟨by simp [lockCount], rfl⟩

/-- A move of the stepping thread keeps the token one. -/
theorem Moves.token {w : Shared σ} {c : C} {ops : List (Op Q A)} {p p' : Prog Q A α} {o : Op Q A}
    {v v' : Nat} (hm : Moves f v v' ops o) (hrun : s.thread t = some ⟨c, ops, p⟩)
    (h : Token v (s.Holds f)) :
    Token v' (State.Holds
      { w with thread := Function.update s.thread t (some ⟨c, o :: ops, p'⟩) } f) := by
  have hself : s.Holds f t ↔ f ops = 1 := by simp [State.Holds, hrun]
  obtain ⟨hf, rfl⟩ | ⟨h0, h1, hv, rfl⟩ | ⟨h1, h0, hv⟩ := hm
  · refine h.congr (State.holds_update_same ?_)
    simp [hf, hself]
  · refine h.acquire hv (t := t) fun u => ?_
    by_cases hut : u = t
    · subst hut
      simp [State.holds_update_self, h1]
    · simp [State.holds_update_of_ne hut, hut]
  · have hholds : s.Holds f t := hself.mpr h1
    rw [hv (h.zero_of_holder hholds)]
    refine h.release hholds fun u => ?_
    by_cases hut : u = t
    · subst hut
      simp [State.holds_update_self, h0]
    · simp [State.holds_update_of_ne hut, hut]

/-- After a move the count is again none or one. -/
theorem Moves.sound {ops : List (Op Q A)} {o : Op Q A} {v v' : Nat} (hm : Moves f v v' ops o)
    (h : f ops = 0 ∨ f ops = 1) : f (o :: ops) = 0 ∨ f (o :: ops) = 1 := by
  obtain ⟨hf, _⟩ | ⟨_, h1, _⟩ | ⟨_, h0, _⟩ := hm
  · rwa [hf]
  · exact .inr h1
  · exact .inl h0

/-- **One step keeps both tokens.** -/
theorem Step.locks {S : System Q A σ τ T C α} {l : Label Q A τ T C α} (hs : Step S s l s')
    (hob : s.Obeys fun _ => locking) (h : s.Locks) : s'.Locks := by
  cases hs with
  | tick c m => exact ⟨h.semSound, h.lockSound, h.sem, h.lock⟩
  | start t c hidle he =>
      -- a fresh call holds nothing, and neither did the idle thread
      have hidle' : ∀ f, ¬ s.Holds f t := by simp [State.Holds, hidle]
      refine ⟨h.semSound.update ?_, h.lockSound.update ?_,
        h.sem.congr (State.holds_update_same ?_), h.lock.congr (State.holds_update_same ?_)⟩
      · simp [semCount]
      · simp [lockCount]
      · simp [semCount, hidle' semCount]
      · simp [lockCount, hidle' lockCount]
  | step t c ops p p' o ts w hrun ht hd =>
      have hok := ((hob t _ hrun).takes ht).1
      have hsem := semCount_moves hd hok
      have hlock := lockCount_moves hd hok
      refine ⟨h.semSound.update ?_, h.lockSound.update ?_,
        hsem.token hrun h.sem, hlock.token hrun h.lock⟩
      · rintro th ⟨⟩
        exact hsem.sound (h.semSound t _ hrun)
      · rintro th ⟨⟩
        exact hlock.sound (h.lockSound t _ hrun)
  | ret t c ops r hrun =>
      -- the rule lets a call return only with both counts at zero
      have hfin : semCount ops = 0 ∧ lockCount ops = 0 := hob t _ hrun
      refine ⟨h.semSound.update (by simp), h.lockSound.update (by simp),
        h.sem.congr (State.holds_update_same ?_), h.lock.congr (State.holds_update_same ?_)⟩
      · simp [State.Holds, hrun, hfin.1]
      · simp [State.Holds, hrun, hfin.2]

/-- The holder of the lock keeps it until it releases it. -/
theorem Step.holdsLock {S : System Q A σ τ T C α} {l : Label Q A τ T C α} (hs : Step S s l s')
    (hob : s.Obeys fun _ => locking) (h : s.HoldsLock t) :
    s'.HoldsLock t ∨ ∃ ts, l = .step t .unlock ts := by
  obtain ⟨th, hth, hone⟩ := h
  by_cases hl : l.thread? = some t
  · cases hs with
    | tick c m => contradiction
    | start u c hidle he =>
        obtain rfl := Option.some.inj hl
        rw [hidle] at hth
        contradiction
    | step u c ops p p' o ts w hrun ht hd =>
        obtain rfl := Option.some.inj hl
        obtain rfl := Option.some.inj (hrun.symm.trans hth)
        have hok := ((hob u _ hrun).takes ht).1
        have hmove := lockCount_moves hd hok
        obtain ⟨hsame, _⟩ | ⟨h0, _⟩ | ⟨_, h0, _⟩ := hmove
        · exact .inl ⟨_, Function.update_self .., hsame.trans hone⟩
        · exact absurd (h0.symm.trans hone) (by decide)
        · right
          cases o with
          | unlock => exact ⟨ts, rfl⟩
          | _ => simp_all [lockCount]
    | ret u c ops r hrun =>
        obtain rfl := Option.some.inj hl
        obtain rfl := Option.some.inj (hrun.symm.trans hth)
        have hfin : semCount ops = 0 ∧ lockCount ops = 0 := hob u _ hrun
        exact absurd (hfin.2.symm.trans hone) (by decide)
  · exact .inl ⟨th, (hs.thread_of_ne hl).trans hth, hone⟩

/-- **Mutual exclusion along runs**: where every call obeys the locking
rule, both locks stay tokens of their holders. -/
theorem Run.locks {S : System Q A σ τ T C α} {s₀ : State Q A σ T C α}
    {tr : List (Event Q A σ τ T C α)}
    (hcode : ∀ t m c, S.entry t m c → (S.code c).Obeys locking []) (h₀ : s₀.Idle)
    (hsem : s₀.sem = 1) (hlock : s₀.lock = false) (hr : Run S s₀ tr s) : s.Locks := by
  induction hr with
  | nil => exact h₀.locks hsem hlock
  | cons hr hs ih => exact hs.locks (hr.obeys hcode h₀) ih

end Steps

end Kernel
