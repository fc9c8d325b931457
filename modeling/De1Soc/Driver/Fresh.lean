import De1Soc.Driver.Failure

/-!
# De1Soc.Driver.Fresh

Where the bytes come from that the driver delivers to user memory.

Three calls deliver: `IOC_GET_LEDS`, `IOC_GET_CONFIG` and `blinker_dev_read`.
Each stores one byte of one register, and the byte is of a clock cycle between
the beginning of that very call and its return, whatever the buttons and the
other processes do meanwhile (`delivered_fresh`).  No call stores anything else.
-/

namespace De1Soc

open Kernel

/-- What a call delivers: the register at `address`, by the access `store`, with
the result `result`. -/
structure Delivery where
  address : Bool
  store : BitVec 8 → UserOp
  result : Int

/-- The calls that deliver a byte. -/
def Call.delivery? : Call → Option Delivery
  | .devIoctl .getLeds arg => some ⟨ioaddrBlinkerLeds, fun x => .putUser arg (x.setWidth 32), 0⟩
  | .devIoctl .getConfig arg => some ⟨ioaddrBlinkerState, fun x => .putUser arg (x.setWidth 32), 0⟩
  | .devRead userBuffer count => some ⟨ioaddrBlinkerState, .copyToUser userBuffer, count.toInt⟩
  | _ => none

/-- The store to user memory that an operation has made. -/
def delivers? : DriverOp → Option UserOp
  | .ask (.putUser arg x) false => some (.putUser arg x)
  | .ask (.copyToUser dst x) false => some (.copyToUser dst x)
  | _ => none

/-- The stores to user memory that a call has made. -/
def delivered (ops : List DriverOp) : List UserOp := ops.filterMap delivers?

/-- A call stores nothing, or the one byte it has read, as its delivery says. -/
def deliveryRule (c : Call) : Rule user io Int where
  ok _ _ := True
  fin ops r :=
    match c.delivery? with
    | none => delivered ops = []
    | some d => (delivered ops = [] ∧ (r = -ERESTARTSYS ∨ r = -EFAULT)) ∨
        ∃ x, delivered ops = [d.store x] ∧ r = d.result ∧
          ∃ o ∈ ops, access? o = some (.read d.address x)

theorem Call.code_obeys_deliveryRule (c : Call) : c.code.Obeys (deliveryRule c) [] := by
  cases c with
  | devOpen =>
      simp [Call.code, blinkerDevOpen, deliveryRule, Call.delivery?, delivered, delivers?]
  | devRelease =>
      simp [Call.code, blinkerDevRelease, deliveryRule, Call.delivery?, delivered, delivers?]
  | devIoctl cmd arg =>
      cases cmd with
      | getLeds | getConfig =>
          simp [Call.code, blinkerDevIoctl, deliveryRule, Call.delivery?, delivered, delivers?]
          exact fun _ _ => rfl
      | _ =>
          simp [Call.code, blinkerDevIoctl, deliveryRule, Call.delivery?, delivered, delivers?,
            Option.forall]
  | devRead userBuffer count =>
      simp [Call.code, blinkerDevRead, deliveryRule, Call.delivery?, delivered, delivers?]
      exact fun _ _ => rfl
  | devWrite userBuffer count =>
      simp [Call.code, blinkerDevWrite, deliveryRule, Call.delivery?, delivered, delivers?,
        Option.forall]
  | storeConfig data result =>
      simp [Call.code, configStore, deliveryRule, Call.delivery?, delivered, delivers?]
  | interrupt =>
      simp [Call.code, blinkerDriverInterruptHandler, deliveryRule, Call.delivery?, delivered,
        delivers?]

/-- What a read of the register at `address` shows in a cycle. -/
def Blinker.register (s : Blinker) (address : Bool) (c : Cycle) : BitVec 8 :=
  if address then s.config.stateByte else s.leds c

theorem readdata_eq_register (s : Blinker) {address : Bool} {c : Cycle} (h : c.Reads address) :
    s.readdata c = s.register address c := by
  obtain ⟨_, hr, _, ha⟩ := h
  cases address with
  | true => simp [Blinker.readdata, Blinker.register, hr, ha]
  | false => simp [Blinker.readdata, Blinker.register, hr, ha]

/-- Thread `t` has read `x` from the register at `address` in a cycle of one of
the events. -/
def ReadIn {P : Type} (es : List (DriverEvent P)) (t : Tid P) (address : Bool) (x : BitVec 8) :
    Prop :=
  ∃ e ∈ es, ∃ o held c, e.label = .step t o (held ++ [c]) ∧
    x = (e.pre.mem.dev.run held).register address c

section Runs

variable {P : Type} {calls : Call → Prop} {dev : Blinker} {tr mid : List (DriverEvent P)}
  {s : DriverState P} [DecidableEq P] {t : Tid P} {c : Call} {ops : List DriverOp} {r : Int}

/-- A read of a whole call samples the register while the call is in progress. -/
theorem readIn_of_access (hr : Run (driver P calls) (initial P dev) tr s)
    (h : Completes tr t c ops r mid) {o : DriverOp} (ho : o ∈ ops) {address : Bool} {x : BitVec 8}
    (hread : access? o = some (.read address x)) : ReadIn mid t address x := by
  rw [← h.ops_eq hr, mem_opsOf] at ho
  obtain ⟨e, he, ts, hl⟩ := ho
  obtain ⟨old, _, hs⟩ := hr.of_mem (h.subset he)
  rw [hl] at hs
  obtain ⟨_, _, _, _, _, _, hd, _⟩ := hs.step_inv
  obtain ⟨⟨held, cycle, rfl, hreads, hx⟩, _⟩ := dev_of_does_some hd hread
  refine ⟨e, he, o, held, cycle, hl, ?_⟩
  rw [hx, readdata_eq_register _ (hreads cycle (by simp))]

end Runs

/-- **What is delivered is fresh.**  In every run of any processes, with the
handler and the buttons in between, a completed `IOC_GET_LEDS`, `IOC_GET_CONFIG`
or `blinker_dev_read` has either stored nothing and reports a signal or a fault,
or has made one store to user memory, where and as its arguments say, of the
value that its register had in a cycle of the call.  Every other completed call
has stored nothing. -/
theorem delivered_fresh (P : Type) [DecidableEq P] (calls : Call → Prop) (dev : Blinker)
    (tr : List (DriverEvent P)) (s : DriverState P)
    (hr : Run (driver P calls) (initial P dev) tr s) (t : Tid P) (c : Call) (ops : List DriverOp)
    (r : Int) (mid : List (DriverEvent P)) (h : Completes tr t c ops r mid) :
    match c.delivery? with
    | none => delivered ops = []
    | some d => (delivered ops = [] ∧ (r = -ERESTARTSYS ∨ r = -EFAULT)) ∨
        ∃ x, delivered ops = [d.store x] ∧ r = d.result ∧ ReadIn mid t d.address x := by
  have hfin := fin_of_completes hr h Call.code_obeys_deliveryRule
  unfold deliveryRule at hfin
  cases hd : c.delivery? with
  | none => simpa only [hd] using hfin
  | some d =>
      simp only [hd] at hfin ⊢
      obtain hnothing | ⟨x, hx, hresult, o, ho, hread⟩ := hfin
      · exact .inl hnothing
      · exact .inr ⟨x, hx, hresult, readIn_of_access hr h ho hread⟩

/-- `IOC_GET_LEDS` on a fresh device stores the first light. -/
theorem delivered_fresh_get_leds :
    ∃ (tr mid : List (DriverEvent Unit)) (s : DriverState Unit) (ops : List DriverOp),
      Run (driver Unit Call.FileOp) (initial Unit .reset) tr s ∧
        Completes tr (.proc ()) (.devIoctl .getLeds 0) ops 0 mid ∧
        ∃ x : BitVec 8, delivered ops = [.putUser 0 (x.setWidth 32)] ∧
          ReadIn mid (.proc ()) false x := by
  have hsolo : ∃ x, solo (userHolding 0) runner (blinkerDevIoctl .getLeds 0) (probed .reset) =
      some x ∧ x.2.2.1 = 0 := ⟨_, rfl, rfl⟩
  obtain ⟨⟨os, cs, r, w'⟩, hx, rfl⟩ := hsolo
  have hexec := (valid_of_solo runner_quiet hx).1
  have h₀ : Run (driver Unit Call.FileOp) (initial Unit .reset) [] _ := .nil
  obtain ⟨new, hr, _, mid, hdone, _⟩ := h₀.exec (.proc ()) (.devIoctl .getLeds 0) rfl trivial hexec
    (down_true_notMem_of_solo rfl hx)
  refine ⟨_, mid, _, _, hr, hdone, ?_⟩
  obtain ⟨_, hfail⟩ | ⟨x, hx, _, hin⟩ := delivered_fresh Unit Call.FileOp .reset _ _ hr _ _ _ _
    mid hdone
  · simp at hfail
  · exact ⟨x, hx, hin⟩

end De1Soc
