import De1Soc.Driver.System
import De1Soc.Driver.UserMem

/-!
# De1Soc.Driver.Transfer

The byte counts of read and write.

The device has one byte, and each call moves at most that one byte; what it
returns is the `count` it was asked for.  The two agree when the count is 1.  A
caller that trusts the returned number takes the rest of its buffer as
transferred (`byte_count_iff`).
-/

namespace De1Soc

open Kernel

/-- The addresses of the first `n` bytes of a buffer. -/
def firstBytes (buf : BitVec 32) (n : Nat) : List (BitVec 32) :=
  (List.range n).map fun i => buf + BitVec.ofNat 32 i

/-- The user bytes that an operation stores to. -/
def stores : DriverOp → List (BitVec 32)
  | .ask (.putUser arg _) false => firstBytes arg 4
  | .ask (.copyToUser dst _) false => [dst]
  | _ => []

/-- The user bytes that an operation consumes, with their addresses. -/
def consumes : DriverOp → List (BitVec 32 × BitVec 8)
  | .ask (.getUser arg) (some x) =>
      (List.range 4).map fun i => (arg + BitVec.ofNat 32 i, x.extractLsb' (8 * i) 8)
  | .ask (.copyFromUser src) (some x) => [(src, x)]
  | _ => []

/-- What the result `r` of a read of `count` bytes promises: not more than was
asked for, the first `r` bytes of the buffer written, and no other user byte
changed. -/
structure ReadContract (buf count : BitVec 32) (os : List DriverOp) (r : Int) : Prop where
  le : r ≤ count.toNat
  stored : os.flatMap stores = firstBytes buf r.toNat
  frame : ∀ (m : UserMem) (a : BitVec 32), a ∉ firstBytes buf r.toNat → m.afterAll os a = m a

/-- What the result `r` of a write of `count` bytes promises: not more than was
asked for, the first `r` bytes of the buffer consumed, and each of them written
to CONFIG, in order, with no other bus write. -/
structure WriteContract (buf count : BitVec 32) (os : List DriverOp) (r : Int) : Prop where
  le : r ≤ count.toNat
  consumed : (os.flatMap consumes).map Prod.fst = firstBytes buf r.toNat
  written : busWrites os = (os.flatMap consumes).map fun p => (ioaddrBlinkerConfig, p.2)

/-- The environment ends the call: a signal, a fault, or a byte that is no
configuration. -/
def stops : DriverOp → Bool
  | .down intr | .wait intr => intr
  | .ask (.copyToUser _ _) fault => fault
  | .ask (.copyFromUser _) none => true
  | .ask (.copyFromUser _) (some b) => b < 1 || b > 7
  | _ => false

/-- One of the operations ended the call. -/
def Stopped (os : List DriverOp) : Prop := ∃ o ∈ os, stops o = true

/-! ## One call -/

/-- The operations of a read that comes to its end. -/
def readOps (buf : BitVec 32) (x : BitVec 8) : List DriverOp :=
  [.down false, .io (.incr .readCount) (), .wait false, .lock, .io (.setInterruptFlag false) (),
    .unlock, .io (.memcpyFromio true) x, .ask (.copyToUser buf x) false, .up]

/-- The operations of a write that comes to its end. -/
def writeOps (buf : BitVec 32) (b : BitVec 8) : List DriverOp :=
  [.down false, .io (.incr .writeCount) (), .ask (.copyFromUser buf) (some b),
    .io (.memcpyToio true b) (), .up]

/-- How the calls of a transfer end: stopped with an error, or with the count
after one byte. -/
def transferRule (c : Call) : Rule user io Int where
  ok _ _ := True
  fin ops r :=
    (∀ buf count, c = .devRead buf count →
      (Stopped ops ∧ r < 0) ∨
        ∃ x, ¬ Stopped ops ∧ r = count.toInt ∧ ops = (readOps buf x).reverse) ∧
    ∀ buf count, c = .devWrite buf count →
      (Stopped ops ∧ r < 0) ∨
        ∃ b, ¬ Stopped ops ∧ r = count.toInt ∧ ops = (writeOps buf b).reverse

theorem Call.code_obeys_transferRule (c : Call) : c.code.Obeys (transferRule c) [] := by
  cases c with
  | devRead buf count =>
      simp [Call.code, blinkerDevRead, transferRule, readOps, Stopped, stops]
  | devWrite buf count =>
      have hvalid : ∀ b : BitVec 8, ¬ b = 0#8 → b ≤ 7#8 →
          (b = 0#8 ∨ 7#8 < b) ∧ count.toInt < 0 ∨ ¬ b = 0#8 ∧ b ≤ 7#8 :=
        fun b h0 h7 => .inr ⟨h0, h7⟩
      simpa [Call.code, blinkerDevWrite, transferRule, writeOps, Stopped, stops, Option.forall] using hvalid
  | _ =>
      refine Prog.obeys_of_forall (fun _ _ => trivial) (fun _ _ => ?_) _ _
      simp [transferRule]

theorem firstBytes_eq_singleton_iff (buf : BitVec 32) (n : Nat) :
    firstBytes buf n = [buf] ↔ n = 1 := by
  constructor
  · intro h
    simpa [firstBytes] using congrArg List.length h
  · intro h
    subst h
    simp [firstBytes]

theorem toInt_eq_toNat {count : BitVec 32} (h : 0 ≤ count.toInt) : count.toInt = count.toNat := by
  rw [BitVec.toInt_eq_toNat_cond] at h ⊢
  split at h
  · rw [if_pos ‹_›]
  · omega

/-- The bytes of a read that came to its end. -/
theorem readContract_iff {buf count : BitVec 32} {x : BitVec 8} (h : 0 ≤ count.toInt) :
    ReadContract buf count (readOps buf x) count.toInt ↔ count.toNat = 1 := by
  have hcount : count.toInt = count.toNat := toInt_eq_toNat h
  have hstores : (readOps buf x).flatMap stores = [buf] := rfl
  have hafter : ∀ m : UserMem, m.afterAll (readOps buf x) = Function.update m buf (some x) :=
    fun m => rfl
  rw [hcount]
  constructor
  · intro hc
    have hbytes := hc.stored
    rw [hstores, Int.toNat_natCast, eq_comm, firstBytes_eq_singleton_iff] at hbytes
    exact hbytes
  · intro h1
    have hbytes : firstBytes buf (count.toNat : Int).toNat = [buf] := by
      rw [Int.toNat_natCast, firstBytes_eq_singleton_iff, h1]
    refine ⟨le_refl _, by rw [hstores, hbytes], fun m a ha => ?_⟩
    rw [hbytes, List.mem_singleton] at ha
    rw [hafter, Function.update_of_ne ha]

theorem busWrites_writeOps (buf : BitVec 32) (b : BitVec 8) :
    busWrites (writeOps buf b) =
      ((writeOps buf b).flatMap consumes).map fun p => (ioaddrBlinkerConfig, p.2) := rfl

/-- The bytes of a write that came to its end. -/
theorem writeContract_iff {buf count : BitVec 32} {b : BitVec 8} (h : 0 ≤ count.toInt) :
    WriteContract buf count (writeOps buf b) count.toInt ↔ count.toNat = 1 := by
  have hcount : count.toInt = count.toNat := toInt_eq_toNat h
  have hfirst : ((writeOps buf b).flatMap consumes).map Prod.fst = [buf] := rfl
  rw [hcount]
  constructor
  · intro hc
    have hbytes := hc.consumed
    rw [hfirst, Int.toNat_natCast, eq_comm, firstBytes_eq_singleton_iff] at hbytes
    exact hbytes
  · intro h1
    refine ⟨le_refl _, ?_, busWrites_writeOps buf b⟩
    rw [hfirst, Int.toNat_natCast, eq_comm, firstBytes_eq_singleton_iff, h1]

/-! ## Calls that return -/

section Calls

variable {P : Type} {tr : List (DriverEvent P)}

/-- The trace has a return of the call `c` after the operations `os`. -/
def Returned (tr : List (DriverEvent P)) (c : Call) (os : List DriverOp) (r : Int) : Prop :=
  ∃ e ∈ tr, ∃ t, e.label = .ret t c os.reverse r

/-- A caller transfers the `count` bytes at `buf`: as long as bytes are left it
makes the call again, behind the bytes that the last one returned; `oss` are
the operations of its calls. -/
inductive Loop (tr : List (DriverEvent P)) (call : BitVec 32 → BitVec 32 → Call) :
    BitVec 32 → BitVec 32 → List (List DriverOp) → Prop
  | done (buf : BitVec 32) : Loop tr call buf 0 []
  | again {buf count : BitVec 32} {os : List DriverOp} {r : Int} {oss : List (List DriverOp)}
      (hleft : count ≠ 0) (hret : Returned tr (call buf count) os r) (hok : 0 ≤ r)
      (hrest : Loop tr call (buf + BitVec.ofInt 32 r) (count - BitVec.ofInt 32 r) oss) :
      Loop tr call buf count (os :: oss)

theorem Loop.eq_nil {call : BitVec 32 → BitVec 32 → Call} {buf : BitVec 32}
    {oss : List (List DriverOp)} (h : Loop tr call buf 0 oss) : oss = [] := by
  cases h with
  | done => rfl
  | again hleft => contradiction

/-- Where a call that is not stopped makes the operations `full` and returns the
count, the loop makes one call at most. -/
theorem Loop.one_call {call : BitVec 32 → BitVec 32 → Call} {buf count : BitVec 32}
    {oss : List (List DriverOp)} {full : BitVec 8 → List DriverOp} (h : Loop tr call buf count oss)
    (hend : ∀ os r, Returned tr (call buf count) os r →
      (Stopped os ∧ r < 0) ∨ ∃ x, ¬ Stopped os ∧ r = count.toInt ∧ os = full x) :
    (count = 0 ∧ oss = []) ∨ (count.toNat ≠ 0 ∧ ∃ x, oss = [full x]) := by
  cases h with
  | done => exact .inl ⟨rfl, rfl⟩
  | @again _ _ os r oss hleft hret hok hrest =>
      obtain ⟨_, hneg⟩ | ⟨x, _, rfl, rfl⟩ := hend os r hret
      · omega
      · rw [BitVec.ofInt_toInt, BitVec.sub_self] at hrest
        rw [hrest.eq_nil]
        exact .inr ⟨fun h0 => hleft (BitVec.eq_of_toNat_eq h0), x, rfl⟩

end Calls

/-! ## The calls of a run -/

section Runs

variable {P : Type} [DecidableEq P] {calls : Call → Prop} {dev : Blinker}
  {tr : List (DriverEvent P)} {s : DriverState P}

theorem fin_of_returned (hr : Run (driver P calls) (initial P dev) tr s) {c : Call}
    {os : List DriverOp} {r : Int} (h : Returned tr c os r) :
    (transferRule c).fin os.reverse r := by
  obtain ⟨e, he, t, hl⟩ := h
  obtain ⟨old, hold, hs⟩ := hr.of_mem he
  rw [hl] at hs
  have hob := hold.obeys (fun _ _ c _ => c.code_obeys_transferRule) (initial_idle dev)
  exact hob t _ hs.ret_inv

theorem stopped_reverse {os : List DriverOp} : Stopped os.reverse ↔ Stopped os := by
  simp [Stopped]

/-- A read that returned was stopped, or has stored one byte and returned the
count. -/
theorem read_of_returned (hr : Run (driver P calls) (initial P dev) tr s) {buf count : BitVec 32}
    {os : List DriverOp} {r : Int} (h : Returned tr (.devRead buf count) os r) :
    (Stopped os ∧ r < 0) ∨ ∃ x, ¬ Stopped os ∧ r = count.toInt ∧ os = readOps buf x := by
  have hfin := (fin_of_returned hr h).1 buf count rfl
  simpa only [stopped_reverse, List.reverse_inj] using hfin

/-- A write that returned was stopped, or has consumed one byte and returned
the count. -/
theorem write_of_returned (hr : Run (driver P calls) (initial P dev) tr s) {buf count : BitVec 32}
    {os : List DriverOp} {r : Int} (h : Returned tr (.devWrite buf count) os r) :
    (Stopped os ∧ r < 0) ∨ ∃ b, ¬ Stopped os ∧ r = count.toInt ∧ os = writeOps buf b := by
  have hfin := (fin_of_returned hr h).2 buf count rfl
  simpa only [stopped_reverse, List.reverse_inj] using hfin

/-- A contract that a call owes for the results that are no error: it is kept
where the call is stopped, and otherwise where the result, the count, is an
error number or 1. -/
theorem contract_iff {C : Prop} {os : List DriverOp} {count : BitVec 32} {r : Int}
    (hend : (Stopped os ∧ r < 0) ∨ (¬ Stopped os ∧ r = count.toInt))
    (hC : ¬ Stopped os → 0 ≤ count.toInt → (C ↔ count.toNat = 1)) :
    (0 ≤ r → C) ↔ Stopped os ∨ count.toInt < 0 ∨ count.toNat = 1 := by
  obtain ⟨hstop, hneg⟩ | ⟨hstop, rfl⟩ := hend
  · exact iff_of_true (fun h => absurd h (by omega)) (.inl hstop)
  · by_cases hneg : count.toInt < 0
    · exact iff_of_true (fun h => absurd h (by omega)) (.inr (.inl hneg))
    · have hpos : 0 ≤ count.toInt := by omega
      simp [hpos, hstop, hneg, hC hstop hpos]

/-- What a looping reader has got. -/
theorem read_loop_iff (hr : Run (driver P calls) (initial P dev) tr s) {buf count : BitVec 32}
    {oss : List (List DriverOp)} (h : Loop tr .devRead buf count oss) :
    oss.flatten.flatMap stores = firstBytes buf count.toNat ↔ count.toNat ≤ 1 := by
  obtain ⟨rfl, rfl⟩ | ⟨hpos, x, rfl⟩ := h.one_call fun _ _ hret => read_of_returned hr hret
  · exact iff_of_true rfl (Nat.zero_le 1)
  · have hstores : [readOps buf x].flatten.flatMap stores = [buf] := rfl
    rw [hstores, eq_comm, firstBytes_eq_singleton_iff]
    omega

/-- What a looping writer has handed over. -/
theorem write_loop_iff (hr : Run (driver P calls) (initial P dev) tr s) {buf count : BitVec 32}
    {oss : List (List DriverOp)} (h : Loop tr .devWrite buf count oss) :
    ((oss.flatten.flatMap consumes).map Prod.fst = firstBytes buf count.toNat ∧
      busWrites oss.flatten =
        (oss.flatten.flatMap consumes).map fun p => (ioaddrBlinkerConfig, p.2)) ↔
      count.toNat ≤ 1 := by
  obtain ⟨rfl, rfl⟩ | ⟨hpos, b, rfl⟩ := h.one_call fun _ _ hret => write_of_returned hr hret
  · exact iff_of_true ⟨rfl, rfl⟩ (Nat.zero_le 1)
  · have hone : [writeOps buf b].flatten = writeOps buf b := rfl
    have hconsumes : ((writeOps buf b).flatMap consumes).map Prod.fst = [buf] := rfl
    rw [hone, busWrites_writeOps, hconsumes, eq_comm, firstBytes_eq_singleton_iff]
    simp only [and_true]
    omega

end Runs

/-- **Byte counts of read and write.**  In every run a read keeps its contract
exactly when it was stopped, or asked for one byte, or for so many that its
result is an error number; so does a write; and a caller that loops until the
results add up to its count has transferred each byte once exactly when it had
one byte at most. -/
theorem byte_count_iff (P : Type) [DecidableEq P] (calls : Call → Prop) (dev : Blinker)
    (tr : List (DriverEvent P)) (s : DriverState P)
    (hr : Run (driver P calls) (initial P dev) tr s) (buf count : BitVec 32) :
    (∀ os r, Returned tr (.devRead buf count) os r →
      ((0 ≤ r → ReadContract buf count os r) ↔
        Stopped os ∨ count.toInt < 0 ∨ count.toNat = 1)) ∧
    (∀ os r, Returned tr (.devWrite buf count) os r →
      ((0 ≤ r → WriteContract buf count os r) ↔
        Stopped os ∨ count.toInt < 0 ∨ count.toNat = 1)) ∧
    (∀ oss, Loop tr .devRead buf count oss →
      (oss.flatten.flatMap stores = firstBytes buf count.toNat ↔ count.toNat ≤ 1)) ∧
    ∀ oss, Loop tr .devWrite buf count oss →
      (((oss.flatten.flatMap consumes).map Prod.fst = firstBytes buf count.toNat ∧
        busWrites oss.flatten =
          (oss.flatten.flatMap consumes).map fun p => (ioaddrBlinkerConfig, p.2)) ↔
        count.toNat ≤ 1) := by
  refine ⟨fun os r hret => ?_, fun os r hret => ?_, fun oss h => read_loop_iff hr h,
    fun oss h => write_loop_iff hr h⟩
  · obtain hstop | ⟨x, hstop, rfl, rfl⟩ := read_of_returned hr hret
    · exact contract_iff (.inl hstop) (fun hno => absurd hstop.1 hno)
    · exact contract_iff (.inr ⟨hstop, rfl⟩) (fun _ hpos => readContract_iff hpos)
  · obtain hstop | ⟨b, hstop, rfl, rfl⟩ := write_of_returned hr hret
    · exact contract_iff (.inl hstop) (fun hno => absurd hstop.1 hno)
    · exact contract_iff (.inr ⟨hstop, rfl⟩) (fun _ hpos => writeContract_iff hpos)

/-- A write of `count` bytes, the first of them 5, after reset. -/
theorem exists_run_write (count : BitVec 32) :
    ∃ (tr : List (DriverEvent Unit)) (s : DriverState Unit),
      Run (driver Unit Call.FileOp) (initial Unit .reset) tr s ∧
        Returned tr (.devWrite 0 count) (writeOps 0 5) count.toInt := by
  have hsolo : ∃ x, solo (userHolding 5) runner (blinkerDevWrite 0 count) (probed .reset) = some x ∧
      x.1 = writeOps 0 5 ∧ x.2.2.1 = count.toInt := by
    simp [blinkerDevWrite, solo, userHolding, probed, Outcome.cons, writeOps]
  obtain ⟨⟨os, cs, r, w'⟩, hx, rfl, rfl⟩ := hsolo
  have hnil : Run (driver Unit Call.FileOp) (initial Unit .reset) [] (initial Unit .reset) := .nil
  obtain ⟨new, hr, _, mid, ⟨_, ret, _, htr, hret, _⟩, _⟩ :=
    hnil.exec (.proc ()) (.devWrite 0 count) rfl trivial (valid_of_solo runner_quiet hx).1
      (down_true_notMem_of_solo rfl hx)
  exact ⟨_, _, hr, ret, by simp [htr], .proc (), hret⟩

/-- A write of one byte keeps its contract. -/
theorem byte_count_of_one :
    ∃ (tr : List (DriverEvent Unit)) (s : DriverState Unit),
      Run (driver Unit Call.FileOp) (initial Unit .reset) tr s ∧
        Returned tr (.devWrite 0 1) (writeOps 0 5) 1 ∧ WriteContract 0 1 (writeOps 0 5) 1 := by
  obtain ⟨tr, s, hr, hret⟩ := exists_run_write 1
  have hiff := (byte_count_iff Unit Call.FileOp .reset tr s hr 0 1).2.1 _ _ hret
  exact ⟨tr, s, hr, hret, hiff.mpr (.inr (.inr rfl)) (by decide)⟩

/-- A write of two bytes returns 2 and has consumed one. -/
theorem byte_count_of_two :
    ∃ (tr : List (DriverEvent Unit)) (s : DriverState Unit),
      Run (driver Unit Call.FileOp) (initial Unit .reset) tr s ∧
        Returned tr (.devWrite 0 2) (writeOps 0 5) 2 ∧ ¬ WriteContract 0 2 (writeOps 0 5) 2 := by
  obtain ⟨tr, s, hr, hret⟩ := exists_run_write 2
  refine ⟨tr, s, hr, hret, fun hc => ?_⟩
  exact absurd hc.consumed (by decide)

end De1Soc
