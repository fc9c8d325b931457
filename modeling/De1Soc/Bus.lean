import Mathlib.Data.List.Basic

/-!
# De1Soc.Bus

Devices on a bus and what their clients see of them.

A `Device` is clocked, and serves an access over a stretch of clock cycles.
`Device.Accesses` carries out the accesses of a client in order, with idle
cycles anywhere around them.  A `View` is an abstract device, in which an access
is one step, with the two laws that make the clocked device refine it;
`View.of_accesses` is the refinement for every client: what it is shown is what
the abstract device shows, and what it leaves is what the abstract device is
left in.
-/

namespace Bus

variable {σ κ α ρ : Type}

/-- A device with states `σ`, clock cycles `κ` and accesses `α`: what a cycle
does to the state, the cycles without an access, and the stretches of cycles
that carry out an access. -/
structure Device (σ κ α : Type) where
  clk : σ → κ → σ
  Idle : κ → Prop
  Serves : σ → α → List κ → Prop

namespace Device

variable (D : Device σ κ α)

/-- The state after some cycles. -/
def run (s : σ) (cs : List κ) : σ := cs.foldl D.clk s

/-- The accesses `as` are carried out over the cycles `cs`. -/
inductive Accesses : σ → List α → List κ → σ → Prop
  | nil (s : σ) : Accesses s [] [] s
  | idle {s s' : σ} {as : List α} {c : κ} {cs : List κ} (hc : D.Idle c)
      (h : Accesses (D.clk s c) as cs s') : Accesses s as (c :: cs) s'
  | access {s s' : σ} {a : α} {as : List α} {cs cs' : List κ} (ha : D.Serves s a cs)
      (h : Accesses (D.run s cs) as cs' s') : Accesses s (a :: as) (cs ++ cs') s'

end Device

/-- The state after accesses is that after their cycles. -/
theorem Device.Accesses.eq_run {D : Device σ κ α} {s s' : σ} {as : List α} {cs : List κ}
    (h : D.Accesses s as cs s') : s' = D.run s cs := by
  induction h with
  | nil s => rfl
  | idle hc h ih => exact ih
  | access ha h ih => rw [Device.run, List.foldl_append, ih, Device.run, Device.run]

/-- Without an access every cycle is idle. -/
theorem Device.Accesses.idle_of_nil {D : Device σ κ α} {s s' : σ} {cs : List κ}
    (h : D.Accesses s [] cs s') : ∀ c ∈ cs, D.Idle c := by
  generalize has : ([] : List α) = as at h
  induction h with
  | nil s => simp
  | idle hc h ih =>
      rw [List.forall_mem_cons]
      exact ⟨hc, ih has⟩
  | access ha h ih => contradiction

/-- The cycles of accesses: idle ones, those of the first access, and the
rest. -/
theorem Device.Accesses.cons_inv {D : Device σ κ α} {s s' : σ} {a : α} {as : List α} {cs : List κ}
    (h : D.Accesses s (a :: as) cs s') :
    ∃ pre bus rest, cs = pre ++ (bus ++ rest) ∧ (∀ c ∈ pre, D.Idle c) ∧
      D.Serves (D.run s pre) a bus ∧ D.Accesses (D.run (D.run s pre) bus) as rest s' := by
  generalize has : a :: as = bs at h
  induction h with
  | nil s => contradiction
  | @idle s s' bs c cs hc h ih =>
      obtain ⟨pre, bus, rest, rfl, hpre, hserve, hrest⟩ := ih has
      exact ⟨c :: pre, bus, rest, rfl, List.forall_mem_cons.mpr ⟨hc, hpre⟩, hserve, hrest⟩
  | @access s s' b bs cs cs' ha h ih =>
      obtain ⟨rfl, rfl⟩ := List.cons.inj has
      exact ⟨[], cs, cs', rfl, by simp, ha, h⟩

/-- Every access is carried out over some of the cycles. -/
theorem Device.Accesses.exists_serves {D : Device σ κ α} {s s' : σ} {as : List α} {cs : List κ}
    (h : D.Accesses s as cs s') {a : α} (ha : a ∈ as) :
    ∃ s₁ cs₁, D.Serves s₁ a cs₁ ∧ cs₁ ⊆ cs := by
  induction h with
  | nil s => contradiction
  | idle hc h ih =>
      obtain ⟨s₁, cs₁, hserve, hsub⟩ := ih ha
      exact ⟨s₁, cs₁, hserve, List.subset_cons_of_subset _ hsub⟩
  | @access s s' b as cs cs' hb h ih =>
      obtain rfl | hmem := List.mem_cons.mp ha
      · exact ⟨s, cs, hb, List.subset_append_left ..⟩
      · obtain ⟨s₁, cs₁, hserve, hsub⟩ := ih hmem
        exact ⟨s₁, cs₁, hserve, List.subset_append_of_subset_right _ hsub⟩

/-! ## Views -/

/-- An abstract device `ρ` of which an access is one step: what it leaves, and
what data it may show.  The laws hold in the cycles that are `Fair`. -/
structure View (D : Device σ κ α) (ρ : Type) where
  abs : σ → ρ
  effect : ρ → α → ρ
  Shows : ρ → α → Prop
  Fair : κ → Prop
  idle : ∀ s c, Fair c → D.Idle c → abs (D.clk s c) = abs s
  serve : ∀ s a cs, (∀ c ∈ cs, Fair c) → D.Serves s a cs →
    Shows (abs s) a ∧ abs (D.run s cs) = effect (abs s) a

namespace View

variable {D : Device σ κ α} (V : View D ρ)

/-- Each access shows what the abstract device shows at its turn. -/
def ShowsAll : ρ → List α → Prop
  | _, [] => True
  | g, a :: as => V.Shows g a ∧ ShowsAll (V.effect g a) as

theorem showsAll_append (g : ρ) (as bs : List α) :
    V.ShowsAll g (as ++ bs) ↔ V.ShowsAll g as ∧ V.ShowsAll (as.foldl V.effect g) bs := by
  induction as generalizing g with
  | nil => simp [ShowsAll]
  | cons a as ih => simp [ShowsAll, ih, and_assoc]

/-- **The device refines its view**, for every client. -/
theorem of_accesses {s s' : σ} {as : List α} {cs : List κ} (h : D.Accesses s as cs s')
    (hfair : ∀ c ∈ cs, V.Fair c) :
    V.ShowsAll (V.abs s) as ∧ V.abs s' = as.foldl V.effect (V.abs s) := by
  induction h with
  | nil s => exact ⟨trivial, rfl⟩
  | @idle s s' as c cs hc h ih =>
      rw [List.forall_mem_cons] at hfair
      rw [← V.idle s c hfair.1 hc]
      exact ih hfair.2
  | @access s s' a as cs cs' ha h ih =>
      rw [List.forall_mem_append] at hfair
      obtain ⟨hshows, heffect⟩ := V.serve s a cs hfair.1 ha
      have hrest := ih hfair.2
      rw [heffect] at hrest
      exact ⟨⟨hshows, hrest.1⟩, hrest.2⟩

/-- A client that comes after others is shown what these have left. -/
theorem shows_of_append {g : ρ} {as bs cs : List α} (h : V.ShowsAll g (as ++ (bs ++ cs))) :
    V.ShowsAll (as.foldl V.effect g) bs :=
  ((V.showsAll_append _ bs cs).mp ((V.showsAll_append g as _).mp h).2).1

end View

end Bus
