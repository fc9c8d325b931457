import De1Soc.Probe
import Mathlib.Data.List.Infix

/-!
# De1Soc.Sysfs

The sysfs entries of the platform driver (`blinker_pd_module.c`), while devices
are bound and unbound.

`blinker_probe` and `blinker_remove` are taken operation by operation, and
between any two of them user space may access an entry that is there.  Of the
four attributes only `leds` is ever created, so that `state_show`,
`config_store` and `speed_store` are never called; and `leds` is created before
the registers are mapped.  An access therefore finds the registers mapped
exactly when it does not fall into a probe that has not come to its end
(`sysfs_accesses`).

The runs refine the sessions of whole probes and removes (`CoreRun.follows`), and
what is held between two operations is read off the session.
-/

namespace De1Soc

/-! ## What is held -/

/-- Whether `r` is held after the operations, and `b` whether it was before. -/
def Resource.heldAfter (r : Resource) (b : Bool) (ops : List ResourceOp) : Bool :=
  ops.foldl (fun b op => if op = .acquire r then true else if op = .release r then false else b) b

@[simp] theorem Resource.heldAfter_nil (r : Resource) (b : Bool) : r.heldAfter b [] = b := rfl

theorem Resource.heldAfter_append (r : Resource) (b : Bool) (ops ops' : List ResourceOp) :
    r.heldAfter b (ops ++ ops') = r.heldAfter (r.heldAfter b ops) ops' := List.foldl_append

/-- What is held has been held before or has been acquired. -/
theorem Resource.acquire_mem_of_heldAfter {r : Resource} {b : Bool} {ops : List ResourceOp}
    (h : r.heldAfter b ops = true) : b = true ∨ .acquire r ∈ ops := by
  induction ops generalizing b with
  | nil => exact .inl h
  | cons op ops ih =>
      obtain hb | hmem := ih h
      · by_cases hop : op = .acquire r
        · exact .inr (by simp [hop])
        · simp only [if_neg hop] at hb
          split at hb
          · contradiction
          · exact .inl hb
      · exact .inr (by simp [hmem])

/-! ## The driver core -/

/-- Where the driver core stands with the device; `rest` is what the probe or
the remove has still to do. -/
inductive Phase
  | unbound
  | probing (o : Outcomes) (rest : List ResourceOp)
  | bound (o : Outcomes)
  | removing (rest : List ResourceOp)

/-- A state of the core: the phase, and all operations so far. -/
structure Core where
  phase : Phase
  log : List ResourceOp

def Core.holds (s : Core) (r : Resource) : Bool := r.heldAfter false s.log

/-- The state before the first probe. -/
def Core.initial : Core := ⟨.unbound, []⟩

inductive CoreEvent
  | probe (o : Outcomes)
  | remove
  | op (r : ResourceOp)
  | done
  | access (a : Attr)

/-- One step.  An access needs the entry; the core probes an unbound device and
removes a bound one. -/
inductive CoreStep : Core → CoreEvent → Core → Prop
  | probe (log : List ResourceOp) (o : Outcomes) :
      CoreStep ⟨.unbound, log⟩ (.probe o) ⟨.probing o (blinkerProbe o).2, log⟩
  | opProbing (log : List ResourceOp) (o : Outcomes) (r : ResourceOp) (rest : List ResourceOp) :
      CoreStep ⟨.probing o (r :: rest), log⟩ (.op r) ⟨.probing o rest, log ++ [r]⟩
  | failed (log : List ResourceOp) (o : Outcomes) (hret : (blinkerProbe o).1 ≠ 0) :
      CoreStep ⟨.probing o [], log⟩ .done ⟨.unbound, log⟩
  | bound (log : List ResourceOp) (o : Outcomes) (hret : (blinkerProbe o).1 = 0) :
      CoreStep ⟨.probing o [], log⟩ .done ⟨.bound o, log⟩
  | remove (log : List ResourceOp) (o : Outcomes) :
      CoreStep ⟨.bound o, log⟩ .remove ⟨.removing blinkerRemove.2, log⟩
  | opRemoving (log : List ResourceOp) (r : ResourceOp) (rest : List ResourceOp) :
      CoreStep ⟨.removing (r :: rest), log⟩ (.op r) ⟨.removing rest, log ++ [r]⟩
  | removed (log : List ResourceOp) : CoreStep ⟨.removing [], log⟩ .done ⟨.unbound, log⟩
  | access (s : Core) (a : Attr) (hfile : s.holds (.file a) = true) : CoreStep s (.access a) s

/-- What is accessed is there. -/
theorem CoreStep.holds_file {s s' : Core} {a : Attr} (hs : CoreStep s (.access a) s') :
    s.holds (.file a) = true := by
  cases hs
  assumption

/-- A run, latest step first; each event with the state that it happens in. -/
inductive CoreRun : List (Core × CoreEvent) → Core → Prop
  | nil : CoreRun [] .initial
  | cons {tr : List (Core × CoreEvent)} {s s' : Core} {e : CoreEvent} (hr : CoreRun tr s)
      (hs : CoreStep s e s') : CoreRun ((s, e) :: tr) s'

/-- A probe has still something to do. -/
def Phase.Unfinished : Phase → Prop
  | .probing _ rest => rest ≠ []
  | _ => False

/-- The probe obtains all. -/
def Outcomes.full (o : Outcomes) : Bool :=
  o.platformGetResource && o.clkGet && o.driverCreateFile == 0 && o.requestMemRegion && o.ioremap

/-! ## Sessions -/

/-- What a state has to do with sessions of whole probes and removes: between
them its log is that of one, and within them the operations made come on top. -/
def Core.Follows (s : Core) : Prop :=
  match s.phase with
  | .unbound => ∃ es, Session es none s.log
  | .probing o rest => ∃ es log made, Session es none log ∧ (blinkerProbe o).2 = made ++ rest ∧
      s.log = log ++ made
  | .bound o => ∃ es, Session es (some o) s.log
  | .removing rest => ∃ es o log made, Session es (some o) log ∧ blinkerRemove.2 = made ++ rest ∧
      s.log = log ++ made

/-- **Runs of the core refine sessions.** -/
theorem CoreRun.follows {tr : List (Core × CoreEvent)} {s : Core} (hr : CoreRun tr s) :
    s.Follows := by
  induction hr with
  | nil => exact ⟨[], .nil⟩
  | cons hr hs ih =>
      cases hs with
      | probe log o =>
          obtain ⟨es, h⟩ := ih
          exact ⟨es, log, [], h, rfl, (List.append_nil log).symm⟩
      | opProbing log o r rest =>
          obtain ⟨es, log₀, made, h, hops, hlog⟩ := ih
          refine ⟨es, log₀, made ++ [r], h, by simp [hops], ?_⟩
          rw [← List.append_assoc, ← hlog]
      | failed log o hret =>
          obtain ⟨es, log₀, made, h, hops, rfl⟩ := ih
          rw [List.append_nil] at hops
          exact ⟨_, hops ▸ h.failed hret⟩
      | bound log o hret =>
          obtain ⟨es, log₀, made, h, hops, rfl⟩ := ih
          rw [List.append_nil] at hops
          exact ⟨_, hops ▸ h.bound hret⟩
      | remove log o =>
          obtain ⟨es, h⟩ := ih
          exact ⟨es, o, log, [], h, rfl, (List.append_nil log).symm⟩
      | opRemoving log r rest =>
          obtain ⟨es, o, log₀, made, h, hops, hlog⟩ := ih
          refine ⟨es, o, log₀, made ++ [r], h, by simp [hops], ?_⟩
          rw [← List.append_assoc, ← hlog]
      | removed log =>
          obtain ⟨es, o, log₀, made, h, hops, rfl⟩ := ih
          rw [List.append_nil] at hops
          exact ⟨_, hops ▸ h.removed⟩
      | access a hfile => exact ih

/-! ## Probe and remove, operation by operation -/

/-- The two resources that an access is about. -/
def Resource.Watched (r : Resource) : Prop := r = .file .leds ∨ r = .mapping

/-- A probe has them in the end if it obtains all and binds the device, and else
not. -/
theorem heldAfter_probe (o : Outcomes) {r : Resource} (hr : r.Watched) :
    ((blinkerProbe o).1 ≠ 0 → r.heldAfter false (blinkerProbe o).2 = false) ∧
      ((blinkerProbe o).1 = 0 → r.heldAfter false (blinkerProbe o).2 = o.full) := by
  unfold Outcomes.full
  obtain ⟨hearly, hp⟩ | ⟨hres, hclk, hrest⟩ := blinkerProbe_cases o
  · rw [hp]
    simp
  · rw [hres, hclk]
    obtain ⟨hcreate, hp⟩ | ⟨hcreate, hmem, hp⟩ | ⟨hcreate, hmem, hmap, hp⟩ |
      ⟨hcreate, hmem, hmap, hp⟩ := hrest
    · have hne : o.driverCreateFile ≠ 0 := by omega
      rw [hp]
      obtain rfl | rfl := hr <;> simp [hne, Resource.heldAfter]
    · rw [hp, hcreate, hmem]
      generalize o.ioremap = x
      obtain rfl | rfl := hr <;> cases x <;> decide
    · rw [hp, hcreate, hmem, hmap]
      obtain rfl | rfl := hr <;> decide
    · rw [hp, hcreate, hmem, hmap]
      obtain rfl | rfl := hr <;> decide

/-- A remove leaves neither. -/
theorem heldAfter_remove (b : Bool) {r : Resource} (hr : r.Watched) :
    r.heldAfter b blinkerRemove.2 = false := by
  obtain rfl | rfl := hr <;> cases b <;> decide

/-- Within a remove the entry goes before the mapping. -/
theorem mapping_of_leds_removing {b : Bool} {made rest : List ResourceOp}
    (h : blinkerRemove.2 = made ++ rest) (hleds : (Resource.file .leds).heldAfter b made = true) :
    Resource.mapping.heldAfter b made = true := by
  have hinits : ∀ made ∈ blinkerRemove.2.inits, ∀ b,
      (Resource.file .leds).heldAfter b made = true → Resource.mapping.heldAfter b made = true := by
    decide
  exact hinits made (by simp [h]) b hleds

/-- Within the operations of a probe the entry is there before the mapping. -/
def MapsLast (ops : List ResourceOp) : Prop :=
  ∀ n < ops.length + 1, (Resource.file .leds).heldAfter false (ops.take n) = true →
    (Resource.mapping.heldAfter false (ops.take n) = true ↔ ops.drop n = [])

instance (ops : List ResourceOp) : Decidable (MapsLast ops) := inferInstanceAs (Decidable (∀ _, _))

theorem mapsLast_probe (o : Outcomes) : MapsLast (blinkerProbe o).2 := by
  obtain ⟨_, hp⟩ | ⟨_, _, ⟨_, hp⟩ | ⟨_, _, hp⟩ | ⟨_, _, _, hp⟩ | ⟨_, _, _, hp⟩⟩ :=
    blinkerProbe_cases o
  all_goals
    rw [hp]
    dsimp only
    decide

/-- The one entry that is created. -/
theorem file_of_acquire {a : Attr} {o : Outcomes}
    (h : .acquire (.file a) ∈ (blinkerProbe o).2 ∨ .acquire (.file a) ∈ blinkerRemove.2) :
    a = .leds := by
  obtain h | h := h
  · obtain ⟨_, hp⟩ | ⟨_, _, ⟨_, hp⟩ | ⟨_, _, hp⟩ | ⟨_, _, _, hp⟩ | ⟨_, _, _, hp⟩⟩ :=
      blinkerProbe_cases o
    · simp [hp] at h
    · simp [hp] at h
    all_goals
      simpa [hp] using h
  · simp [blinkerRemove] at h

/-! ## What is held in each phase -/

/-- The operations `ops` have been made up to `rest`, and `b` says what was held
before them. -/
def Core.During (s : Core) (b : Bool) (ops rest : List ResourceOp) : Prop :=
  ∃ made, ops = made ++ rest ∧ ∀ r : Resource, r.Watched → s.holds r = r.heldAfter b made

/-- The entry and the mapping, phase by phase. -/
def Core.Stands (s : Core) : Prop :=
  match s.phase with
  | .unbound => ∀ r : Resource, r.Watched → s.holds r = false
  | .probing o rest => s.During false (blinkerProbe o).2 rest
  | .bound o => ∀ r : Resource, r.Watched → s.holds r = o.full
  | .removing rest => ∃ b, s.During b blinkerRemove.2 rest

/-- Between the probes and removes of a session. -/
theorem heldAfter_session {es : List BindEvent} {b : Option Outcomes} {log : List ResourceOp}
    (h : Session es b log) {r : Resource} (hr : r.Watched) :
    r.heldAfter false log = b.elim false Outcomes.full := by
  induction h with
  | nil => rfl
  | failed h hret ih =>
      rw [Resource.heldAfter_append, ih]
      exact (heldAfter_probe _ hr).1 hret
  | bound h hret ih =>
      rw [Resource.heldAfter_append, ih]
      exact (heldAfter_probe _ hr).2 hret
  | removed h ih => rw [Resource.heldAfter_append, heldAfter_remove _ hr, Option.elim_none]

theorem file_of_session {es : List BindEvent} {b : Option Outcomes} {log : List ResourceOp}
    (h : Session es b log) {a : Attr} (ha : .acquire (.file a) ∈ log) : a = .leds := by
  induction h with
  | nil => contradiction
  | failed h hret ih =>
      obtain ha | ha := List.mem_append.mp ha
      · exact ih ha
      · exact file_of_acquire (.inl ha)
  | bound h hret ih =>
      obtain ha | ha := List.mem_append.mp ha
      · exact ih ha
      · exact file_of_acquire (.inl ha)
  | removed h ih =>
      obtain ha | ha := List.mem_append.mp ha
      · exact ih ha
      · exact file_of_acquire (o := {}) (.inr ha)

theorem during_of_session {es : List BindEvent} {b : Option Outcomes} {s : Core}
    {log ops made rest : List ResourceOp} (h : Session es b log) (hops : ops = made ++ rest)
    (hlog : s.log = log ++ made) : s.During (b.elim false Outcomes.full) ops rest := by
  refine ⟨made, hops, fun r hr => ?_⟩
  rw [Core.holds, hlog, Resource.heldAfter_append, heldAfter_session h hr]

namespace Core.Follows

variable {s : Core}

/-- What is held follows from the session. -/
theorem stands (h : s.Follows) : s.Stands := by
  obtain ⟨phase, log⟩ := s
  cases phase with
  | unbound =>
      obtain ⟨es, h⟩ := h
      exact fun r hr => heldAfter_session h hr
  | probing o rest =>
      obtain ⟨es, log₀, made, h, hops, hlog⟩ := h
      exact during_of_session h hops hlog
  | bound o =>
      obtain ⟨es, h⟩ := h
      exact fun r hr => heldAfter_session h hr
  | removing rest =>
      obtain ⟨es, o, log₀, made, h, hops, hlog⟩ := h
      exact ⟨o.full, during_of_session h hops hlog⟩

/-- Only `leds` is created. -/
theorem file_of_mem (h : s.Follows) {a : Attr} (ha : .acquire (.file a) ∈ s.log) : a = .leds := by
  obtain ⟨phase, log⟩ := s
  cases phase with
  | unbound =>
      obtain ⟨es, h⟩ := h
      exact file_of_session h ha
  | probing o rest =>
      obtain ⟨es, log₀, made, h, hops, rfl⟩ := h
      obtain ha | ha := List.mem_append.mp ha
      · exact file_of_session h ha
      · exact file_of_acquire (o := o) (.inl (by rw [hops]; exact List.mem_append_left _ ha))
  | bound o =>
      obtain ⟨es, h⟩ := h
      exact file_of_session h ha
  | removing rest =>
      obtain ⟨es, o, log₀, made, h, hops, rfl⟩ := h
      obtain ha | ha := List.mem_append.mp ha
      · exact file_of_session h ha
      · exact file_of_acquire (o := o) (.inr (by rw [hops]; exact List.mem_append_left _ ha))

/-- The entry that is there is `leds`. -/
theorem file_of_holds (h : s.Follows) {a : Attr} (ha : s.holds (.file a) = true) : a = .leds := by
  obtain hno | hmem := Resource.acquire_mem_of_heldAfter ha
  · contradiction
  · exact h.file_of_mem hmem

end Core.Follows

/-- Every event of a run happens in a state of it. -/
theorem CoreRun.of_mem {tr : List (Core × CoreEvent)} {s s₁ : Core} {e : CoreEvent}
    (hr : CoreRun tr s) (he : (s₁, e) ∈ tr) : ∃ old s', CoreRun old s₁ ∧ CoreStep s₁ e s' := by
  induction hr with
  | nil => contradiction
  | cons hr hs ih =>
      obtain heq | hmem := List.mem_cons.mp he
      · obtain ⟨rfl, rfl⟩ := Prod.mk.inj heq
        exact ⟨_, _, hr, hs⟩
      · exact ih hmem

/-- **With the entry there, the registers are mapped** exactly if no probe is
unfinished. -/
theorem mapped_iff_of_leds {s : Core} (h : s.Stands) (hleds : s.holds (.file .leds) = true) :
    s.holds .mapping = true ↔ ¬ s.phase.Unfinished := by
  obtain ⟨phase, log⟩ := s
  cases phase with
  | unbound =>
      have hno := h (.file .leds) (.inl rfl)
      rw [hleds] at hno
      contradiction
  | bound o =>
      have hsame := (h .mapping (.inr rfl)).trans (h (.file .leds) (.inl rfl)).symm
      exact iff_of_true (hsame.trans hleds) not_false
  | removing rest =>
      obtain ⟨b, made, hops, hheld⟩ := h
      rw [hheld _ (.inl rfl)] at hleds
      refine iff_of_true ?_ not_false
      rw [hheld _ (.inr rfl)]
      exact mapping_of_leds_removing hops hleds
  | probing o rest =>
      obtain ⟨made, hops, hheld⟩ := h
      rw [hheld _ (.inl rfl)] at hleds
      rw [hheld _ (.inr rfl)]
      have hlast := mapsLast_probe o made.length (by rw [hops, List.length_append]; omega)
      rw [hops, List.take_left, List.drop_left] at hlast
      rw [hlast hleds]
      exact not_not.symm

/-- **The sysfs entries over the life of the driver.**  In every run of bind
attempts and unbinds with accesses anywhere between their operations, only
`leds` is ever accessed, and an access finds the registers mapped exactly when
it does not fall into an unfinished probe.  While the device is unbound there is
no entry and no mapping, and while it is bound both are there exactly if the
probe has obtained all. -/
theorem sysfs_accesses (tr : List (Core × CoreEvent)) (s : Core) (hr : CoreRun tr s) :
    (∀ s₁ a, (s₁, .access a) ∈ tr →
      a = .leds ∧ (s₁.holds .mapping = true ↔ ¬ s₁.phase.Unfinished)) ∧
    (∀ a, s.holds (.file a) = true → a = .leds) ∧
    (s.phase = .unbound → s.holds (.file .leds) = false ∧ s.holds .mapping = false) ∧
    ∀ o, s.phase = .bound o → s.holds (.file .leds) = o.full ∧ s.holds .mapping = o.full := by
  have hstands := hr.follows.stands
  refine ⟨fun s₁ a hmem => ?_, fun a => hr.follows.file_of_holds, fun hphase => ?_,
    fun o hphase => ?_⟩
  · obtain ⟨old, s', hold, hs⟩ := hr.of_mem hmem
    obtain rfl := hold.follows.file_of_holds hs.holds_file
    exact ⟨rfl, mapped_iff_of_leds hold.follows.stands hs.holds_file⟩
  · rw [Core.Stands, hphase] at hstands
    exact ⟨hstands _ (.inl rfl), hstands _ (.inr rfl)⟩
  · rw [Core.Stands, hphase] at hstands
    exact ⟨hstands _ (.inl rfl), hstands _ (.inr rfl)⟩

/-- In the first probe `leds` can be read before the registers are mapped. -/
theorem sysfs_accesses_in_probe :
    ∃ tr s s₁, CoreRun tr s ∧ (s₁, .access .leds) ∈ tr ∧ s₁.holds .mapping = false := by
  have h1 : CoreRun _ _ := CoreRun.nil.cons (.probe [] {})
  have h2 := h1.cons (.opProbing [] {} (.acquire .clk) _)
  have h3 := h2.cons (.opProbing _ {} (.acquire (.file .leds)) _)
  have h4 := h3.cons (.access _ .leds (by decide))
  refine ⟨_, _, _, h4, List.mem_cons_self .., ?_⟩
  have hiff := ((sysfs_accesses _ _ h4).1 _ _ (List.mem_cons_self ..)).2
  rw [← Bool.not_eq_true, hiff]
  exact fun h => h (by simp [Phase.Unfinished])

end De1Soc
