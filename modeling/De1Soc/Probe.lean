import De1Soc.Driver

/-!
# De1Soc.Probe

Binding and unbinding of the platform driver (`blinker_pd_module.c`).

`blinkerProbe` and `blinkerRemove` record what they acquire and release;
the outcomes of the kernel calls are the input.  The error labels of
`blinker_probe` fall through into one another, one function each.

The two do not match.  The error exits remove sysfs entries that were never
created and never put the clock, the two last failures return 0 because the
assignment to `ret` stands after the `goto`, and `blinker_remove` does not put
the clock either.  A session of binds and unbinds is as it should be exactly
when no such exit is taken and nothing is ever unbound (`session_ok_iff`).
-/

namespace De1Soc

/-- The sysfs entries. -/
inductive Attr
  | config
  | leds
  | state
  | speed
deriving DecidableEq, Repr

/-- What a bound driver may hold. -/
inductive Resource
  | clk
  | file (attr : Attr)
  | memRegion
  | mapping
deriving DecidableEq, Repr

inductive ResourceOp
  | acquire (r : Resource)
  | release (r : Resource)
deriving DecidableEq, Repr

/-- The outcomes of the kernel calls of one `blinker_probe`: whether
`platform_get_resource`, `clk_get`, `request_mem_region` and `ioremap` succeed,
and what `driver_create_file` returns, which is 0 or a negative errno. -/
structure Outcomes where
  platformGetResource : Bool := true
  clkGet : Bool := true
  driverCreateFile : Int := 0
  requestMemRegion : Bool := true
  ioremap : Bool := true
  create_nonpos : driverCreateFile ≤ 0 := by decide

/-! ## blinker_probe and blinker_remove -/

/-- What a path returns, and what it has acquired and released. -/
abbrev ProbeResult := Int × List ResourceOp

def badExitReturn (ret : Int) (ops : List ResourceOp) : ProbeResult := (ret, ops)

def badExitCreateLedsFile (ret : Int) (ops : List ResourceOp) : ProbeResult :=
  badExitReturn ret (ops ++ [.release (.file .speed)])

def badExitCreateConfigFile (ret : Int) (ops : List ResourceOp) : ProbeResult :=
  badExitCreateLedsFile ret (ops ++ [.release (.file .leds)])

def badExitCreateStateFile (ret : Int) (ops : List ResourceOp) : ProbeResult :=
  badExitCreateConfigFile ret (ops ++ [.release (.file .config)])

def badExitRequestMem (ret : Int) (ops : List ResourceOp) : ProbeResult :=
  badExitCreateStateFile ret (ops ++ [.release (.file .state)])

def badExitIoremap (ret : Int) (ops : List ResourceOp) : ProbeResult :=
  badExitRequestMem ret (ops ++ [.release .memRegion])

def blinkerProbe (o : Outcomes) : ProbeResult :=
  let ret := -EINVAL
  if o.platformGetResource = false then badExitReturn ret []
  else if o.clkGet = false then badExitReturn ret []
  else
    let ops := [.acquire .clk]
    let ret := o.driverCreateFile
    if ret < 0 then badExitCreateLedsFile ret ops
    else
      let ops := ops ++ [.acquire (.file .leds)]
      -- the assignments `ret = -EBUSY` and `ret = -EFAULT` stand after the `goto`
      if o.requestMemRegion = false then badExitRequestMem ret ops
      else
        let ops := ops ++ [.acquire .memRegion]
        if o.ioremap = false then badExitIoremap ret ops
        else (0, ops ++ [.acquire .mapping])

def blinkerRemove : ProbeResult :=
  (0, [.release (.file .speed), .release (.file .leds), .release (.file .config),
    .release (.file .state), .release .memRegion, .release .mapping])

/-! ## What is asked of them -/

def acquired (ops : List ResourceOp) : List Resource :=
  ops.filterMap fun
    | .acquire r => some r
    | .release _ => none

def released (ops : List ResourceOp) : List Resource :=
  ops.filterMap fun
    | .acquire _ => none
    | .release r => some r

/-- A probe returns 0 exactly when the entry, the region and the mapping were
obtained; when it returns an error it has released what it has acquired and
nothing else. -/
def ProbeOk (o : Outcomes) : Prop :=
  ((blinkerProbe o).1 = 0 ↔ .file .leds ∈ acquired (blinkerProbe o).2 ∧
      .memRegion ∈ acquired (blinkerProbe o).2 ∧ .mapping ∈ acquired (blinkerProbe o).2) ∧
    ((blinkerProbe o).1 ≠ 0 →
      (released (blinkerProbe o).2).Perm (acquired (blinkerProbe o).2))

/-- A remove releases exactly what the probe before it has acquired. -/
def RemoveOk (o : Outcomes) : Prop :=
  (released blinkerRemove.2).Perm (acquired (blinkerProbe o).2)

/-! ## Sessions -/

/-- A bind attempt, or an unbind after the probe with outcomes `o`. -/
inductive BindEvent
  | probe (o : Outcomes)
  | remove (o : Outcomes)

def BindEvent.Ok : BindEvent → Prop
  | .probe o => ProbeOk o
  | .remove o => RemoveOk o

/-- The driver core's side, latest event first: it probes while the device is
not bound, binds it when the probe returns 0, and removes only then.  `bound`
is the probe that bound the device, `log` all operations in order. -/
inductive Session : List BindEvent → Option Outcomes → List ResourceOp → Prop
  | nil : Session [] none []
  | failed {es : List BindEvent} {log : List ResourceOp} {o : Outcomes}
      (h : Session es none log) (hret : (blinkerProbe o).1 ≠ 0) :
      Session (.probe o :: es) none (log ++ (blinkerProbe o).2)
  | bound {es : List BindEvent} {log : List ResourceOp} {o : Outcomes}
      (h : Session es none log) (hret : (blinkerProbe o).1 = 0) :
      Session (.probe o :: es) (some o) (log ++ (blinkerProbe o).2)
  | removed {es : List BindEvent} {log : List ResourceOp} {o : Outcomes}
      (h : Session es (some o) log) : Session (.remove o :: es) none (log ++ blinkerRemove.2)

/-- Nothing is held: what was acquired was released, and nothing else. -/
def Settled (log : List ResourceOp) : Prop := (released log).Perm (acquired log)

/-- The probe fails before it has acquired anything, or obtains all. -/
def Outcomes.Clean (o : Outcomes) : Prop :=
  o.platformGetResource = false ∨ o.clkGet = false ∨
    (o.driverCreateFile = 0 ∧ o.requestMemRegion = true ∧ o.ioremap = true)

/-- A clean bind attempt; no unbind is. -/
def BindEvent.Clean : BindEvent → Prop
  | .probe o => o.Clean
  | .remove _ => False

/-! ## The paths of a probe -/

/-- The exits of `blinker_probe`, each with its result. -/
theorem blinkerProbe_cases (o : Outcomes) :
    ((o.platformGetResource = false ∨ o.clkGet = false) ∧ blinkerProbe o = (-EINVAL, [])) ∨
    (o.platformGetResource = true ∧ o.clkGet = true ∧
      ((o.driverCreateFile < 0 ∧
          blinkerProbe o = (o.driverCreateFile, [.acquire .clk, .release (.file .speed)])) ∨
        (o.driverCreateFile = 0 ∧ o.requestMemRegion = false ∧
          blinkerProbe o = (0, [.acquire .clk, .acquire (.file .leds), .release (.file .state),
            .release (.file .config), .release (.file .leds), .release (.file .speed)])) ∨
        (o.driverCreateFile = 0 ∧ o.requestMemRegion = true ∧ o.ioremap = false ∧
          blinkerProbe o = (0, [.acquire .clk, .acquire (.file .leds), .acquire .memRegion,
            .release .memRegion, .release (.file .state), .release (.file .config),
            .release (.file .leds), .release (.file .speed)])) ∨
        (o.driverCreateFile = 0 ∧ o.requestMemRegion = true ∧ o.ioremap = true ∧
          blinkerProbe o = (0, [.acquire .clk, .acquire (.file .leds), .acquire .memRegion,
            .acquire .mapping])))) := by
  obtain ⟨res, clk, create, mem, map, hcreate⟩ := o
  unfold blinkerProbe
  cases res with
  | false => simp [badExitReturn]
  | true =>
      cases clk with
      | false => simp [badExitReturn]
      | true =>
          by_cases hneg : create < 0
          · have hne : create ≠ 0 := by omega
            simp [hneg, hne, badExitCreateLedsFile, badExitReturn]
          · obtain rfl : create = 0 := by omega
            cases mem with
            | false =>
                simp [badExitRequestMem, badExitCreateStateFile, badExitCreateConfigFile,
                  badExitCreateLedsFile, badExitReturn]
            | true =>
                cases map <;>
                  simp [badExitIoremap, badExitRequestMem, badExitCreateStateFile,
                    badExitCreateConfigFile, badExitCreateLedsFile, badExitReturn]

/-- **A probe is all or nothing exactly when it is clean.** -/
theorem probeOk_iff (o : Outcomes) : ProbeOk o ↔ o.Clean := by
  unfold ProbeOk Outcomes.Clean
  obtain ⟨hearly, hp⟩ | ⟨hres, hclk, hrest⟩ := blinkerProbe_cases o
  · rw [hp]
    exact iff_of_true (by simp [acquired, released]) (by tauto)
  · rw [hres, hclk]
    obtain ⟨hcreate, hp⟩ | ⟨hcreate, hmem, hp⟩ | ⟨hcreate, hmem, hmap, hp⟩ |
      ⟨hcreate, hmem, hmap, hp⟩ := hrest
    · have hne : o.driverCreateFile ≠ 0 := by omega
      rw [hp]
      exact iff_of_false (by simp [acquired, released, hne]) (by simp [hne])
    · rw [hp]
      exact iff_of_false (by simp [acquired]) (by simp [hmem])
    · rw [hp]
      exact iff_of_false (by simp [acquired]) (by simp [hmap])
    · rw [hp]
      exact iff_of_true (by simp [acquired]) (by simp [hcreate, hmem, hmap])

/-- No probe creates the entry that `blinker_remove` removes first. -/
theorem speed_not_acquired (o : Outcomes) :
    Resource.file .speed ∉ acquired (blinkerProbe o).2 := by
  obtain ⟨_, hp⟩ | ⟨_, _, ⟨_, hp⟩ | ⟨_, _, hp⟩ | ⟨_, _, _, hp⟩ | ⟨_, _, _, hp⟩⟩ :=
    blinkerProbe_cases o
  all_goals
    rw [hp]
    simp [acquired]

/-- **No remove is the inverse of the probe before it.** -/
theorem not_removeOk (o : Outcomes) : ¬ RemoveOk o := by
  intro h
  have hmem : Resource.file .speed ∈ released blinkerRemove.2 := by decide
  exact speed_not_acquired o (h.mem_iff.mp hmem)

/-! ## Sessions -/

/-- A clean probe that fails has acquired nothing. -/
theorem ops_of_clean_failed {o : Outcomes} (h : o.Clean) (hret : (blinkerProbe o).1 ≠ 0) :
    (blinkerProbe o).2 = [] := by
  obtain ⟨_, hp⟩ | ⟨hres, hclk, hrest⟩ := blinkerProbe_cases o
  · rw [hp]
  · obtain hno | hno | ⟨hcreate, hmem, hmap⟩ := h
    · rw [hres] at hno
      contradiction
    · rw [hclk] at hno
      contradiction
    · simp [hcreate, hmem, hmap] at hrest
      rw [hrest] at hret
      contradiction

/-- A clean session that ends unbound has done nothing. -/
theorem log_of_clean {es : List BindEvent} {b : Option Outcomes} {log : List ResourceOp}
    (h : Session es b log) (hclean : ∀ e ∈ es, e.Clean) : b = none → log = [] := by
  induction h with
  | nil => exact fun _ => rfl
  | failed h hret ih =>
      rw [List.forall_mem_cons] at hclean
      intro _
      rw [ih hclean.2 rfl, ops_of_clean_failed hclean.1 hret, List.append_nil]
  | bound h hret ih =>
      intro hb
      contradiction
  | removed h ih =>
      rw [List.forall_mem_cons] at hclean
      exact hclean.1.elim

/-- **Binding and unbinding**: every probe of a session is all or nothing,
every remove the inverse of its probe and nothing held when the device is
unbound, exactly when every probe is clean and there is no remove. -/
theorem session_ok_iff (es : List BindEvent) (b : Option Outcomes) (log : List ResourceOp)
    (h : Session es b log) :
    ((∀ e ∈ es, e.Ok) ∧ (b = none → Settled log)) ↔ ∀ e ∈ es, e.Clean := by
  have hevent : ∀ e : BindEvent, e.Ok ↔ e.Clean := by
    intro e
    cases e with
    | probe o => exact probeOk_iff o
    | remove o => exact iff_of_false (not_removeOk o) not_false
  constructor
  · rintro ⟨hok, _⟩ e he
    exact (hevent e).mp (hok e he)
  · intro hclean
    refine ⟨fun e he => (hevent e).mpr (hclean e he), fun hb => ?_⟩
    rw [log_of_clean h hclean hb]
    exact List.Perm.refl _

/-- Outcomes of a bind attempt in which `request_mem_region` fails. -/
def regionBusy : Outcomes := { requestMemRegion := false }

/-- With the region busy the probe returns 0: the driver core binds the device
without region and mapping, and the later remove releases both.  A remove
after a full probe leaves the clock. -/
theorem region_busy_session :
    Session [.remove regionBusy, .probe regionBusy] none
        ([] ++ (blinkerProbe regionBusy).2 ++ blinkerRemove.2) ∧
      (blinkerProbe regionBusy).1 = 0 ∧ .memRegion ∉ acquired (blinkerProbe regionBusy).2 ∧
      ¬ ProbeOk regionBusy ∧ ¬ RemoveOk regionBusy ∧
      ¬ Settled ([] ++ (blinkerProbe regionBusy).2 ++ blinkerRemove.2) ∧
      .clk ∈ acquired (blinkerProbe {}).2 ∧ .clk ∉ released blinkerRemove.2 := by
  have hok : ¬ ProbeOk regionBusy := by
    rw [probeOk_iff]
    simp [Outcomes.Clean, regionBusy]
  refine ⟨.removed (.bound .nil (by decide)), by decide, by decide, hok, not_removeOk _, ?_,
    by decide, by decide⟩
  intro hsettled
  exact absurd (hsettled.mem_iff.mp (by decide : Resource.mapping ∈ _)) (by decide)

/-- A session of one probe without a memory resource and one that obtains
everything is as it should be. -/
theorem session_ok_bound :
    (∀ e ∈ [BindEvent.probe {}, .probe { platformGetResource := false }], e.Ok) ∧
      (blinkerProbe {}).1 = 0 := by
  have hs : Session [.probe {}, .probe { platformGetResource := false }] (some {}) _ :=
    .bound (.failed .nil (by decide)) (by decide)
  refine ⟨((session_ok_iff _ _ _ hs).mpr ?_).1, by decide⟩
  simp [BindEvent.Clean, Outcomes.Clean]

end De1Soc
