import De1Soc.Blinker.Latch
import De1Soc.Decimal
import De1Soc.Driver.Machine

/-!
# De1Soc.Store

The sysfs stores of the platform driver (`blinker_pd_module.c`).

`config_store` and `speed_store` parse the string with `kstrtou8`, test the
value and write it to their register.  The test is `data > 3 && data < 1`, which
no value satisfies, so every byte that parses is written: the stores accept the
settings exactly as long as they are given nothing else (`stores_iff`).  In the
speed register only the low nibble of the byte arrives.

`kstrtou8` is the kernel's; it is a parameter here, and `Kstrtou8` is what is
documented of it.
-/

namespace De1Soc

namespace Pd

open Kernel Decimal

section Code

variable (kstrtou8 : List Char → Option (BitVec 8))

/-- The body that the two stores share: `NULL` is `none`, and a negative result
of `kstrtou8` too. -/
def store (address : Bool) (buf : Option (List Char)) (count : BitVec 32) : Path Int := do
  let some str := buf
    | return -EINVAL
  let some data := kstrtou8 str
    | return -EINVAL
  if data > 3 ∧ data < 1 then
    return -EINVAL
  iowrite8 data address
  return count.toInt

def configStore : Option (List Char) → BitVec 32 → Path Int := store kstrtou8 ioaddrBlinkerConfig

def speedStore : Option (List Char) → BitVec 32 → Path Int := store kstrtou8 ioaddrBlinkerSpeed

end Code

/-- `kstrtou8` in base 10 converts the numerals of 0..255 and fails on every
other string. -/
def Kstrtou8 (kstrtou8 : List Char → Option (BitVec 8)) : Prop :=
  ∀ s v, kstrtou8 s = some v ↔ Numeral s v.toNat

/-- The string is a numeral of the byte `v`. -/
def Parses (buf : Option (List Char)) (v : Nat) : Prop := ∃ s, buf = some s ∧ Numeral s v ∧ v ≤ 255

/-- The string is a setting in `1..hi`. -/
def Valid (buf : Option (List Char)) (hi : Nat) : Prop := ∃ v, Parses buf v ∧ 1 ≤ v ∧ v ≤ hi

/-- A store accepts exactly the settings `1..hi`: it returns the count for them
and they are `taken`; for everything else it returns `-EINVAL`, makes no bus
write and leaves the configuration and the interrupt. -/
structure Accepts (hi : Nat) (taken : Nat → Prop) (buf : Option (List Char)) (count : BitVec 32)
    (os : List DriverOp) (r : Int) (w w' : Shared Mem) : Prop where
  returns : r = count.toInt ↔ Valid buf hi
  takes : ∀ v, Parses buf v → 1 ≤ v → v ≤ hi → taken v
  rejects : ¬ Valid buf hi → r = -EINVAL ∧ busWrites os = [] ∧
    w'.mem.dev.config = w.mem.dev.config ∧ w'.mem.dev.irq = w.mem.dev.irq

/-- The input on which a store does so: what parses is a setting, and where
nothing parses the count is not the error number. -/
def Sound (hi : Nat) (buf : Option (List Char)) (count : BitVec 32) : Prop :=
  (∀ v, Parses buf v → 1 ≤ v ∧ v ≤ hi) ∧ ((∀ v, ¬ Parses buf v) → count.toInt ≠ -EINVAL)

/-! ## One store -/

section Store

variable {kstrtou8 : List Char → Option (BitVec 8)} {address : Bool} {buf : Option (List Char)}
  {count : BitVec 32} {os : List DriverOp} {cs : List Cycle} {r : Int} {w w' : Shared Mem}

theorem parses_iff (hk : Kstrtou8 kstrtou8) (v : Nat) :
    Parses buf v ↔ ∃ b, buf.bind kstrtou8 = some b ∧ b.toNat = v := by
  constructor
  · rintro ⟨s, rfl, hs, hle⟩
    have hv : (BitVec.ofNat 8 v).toNat = v := by
      rw [BitVec.toNat_ofNat]
      omega
    refine ⟨BitVec.ofNat 8 v, ?_, hv⟩
    rw [Option.bind_some, hk, hv]
    exact hs
  · rintro ⟨b, hb, rfl⟩
    obtain ⟨s, rfl, hs⟩ := Option.bind_eq_some_iff.mp hb
    exact ⟨s, rfl, (hk s b).mp hs, by omega⟩

theorem parses_of_bind (hk : Kstrtou8 kstrtou8) {b : BitVec 8} (hb : buf.bind kstrtou8 = some b)
    (v : Nat) : Parses buf v ↔ b.toNat = v := by
  rw [parses_iff hk, hb]
  simp

/-- On a string that parses, being sound is being a setting. -/
theorem sound_iff_of_bind (hk : Kstrtou8 kstrtou8) {hi : Nat} {b : BitVec 8}
    (hb : buf.bind kstrtou8 = some b) : Sound hi buf count ↔ 1 ≤ b.toNat ∧ b.toNat ≤ hi := by
  have hparses := parses_of_bind hk hb
  constructor
  · intro h
    exact h.1 _ ((hparses _).mpr rfl)
  · intro h
    refine ⟨fun v hv => ?_, fun hno => absurd ((hparses _).mpr rfl) (hno _)⟩
    rwa [← (hparses v).mp hv]

/-- The range test never holds: what parses is written. -/
theorem store_eq_of_parse {s : List Char} {b : BitVec 8} (hs : kstrtou8 s = some b) :
    store kstrtou8 address (some s) count =
      .io (A := io) (.iowrite8 b address) fun _ => .ret count.toInt := by
  have hnever : ¬ (3#8 < b ∧ b = 0#8) := by
    intro h
    rw [h.2] at h
    exact absurd h.1 (by decide)
  simp [store, hs, hnever]

/-- How a store ends. -/
def storeRule (kstrtou8 : List Char → Option (BitVec 8)) (address : Bool)
    (buf : Option (List Char)) (count : BitVec 32) : Rule user io Int where
  ok _ _ := True
  fin ops r := (buf.bind kstrtou8 = none → ops = [] ∧ r = -EINVAL) ∧
    ∀ b, buf.bind kstrtou8 = some b → ops = [.io (.iowrite8 b address) ()] ∧ r = count.toInt

theorem store_obeys : (store kstrtou8 address buf count).Obeys
    (storeRule kstrtou8 address buf count) [] := by
  cases buf with
  | none => simp [store, storeRule]
  | some s =>
      cases hs : kstrtou8 s with
      | none => simp [store, storeRule, hs]
      | some b =>
          rw [store_eq_of_parse hs]
          simp [storeRule, hs]

theorem ops_of_store_none (hx : Exec machine w (store kstrtou8 address buf count) os cs r w')
    (hb : buf.bind kstrtou8 = none) : os = [] ∧ r = -EINVAL := by
  have hfin := (hx.fin store_obeys).1 hb
  simpa using hfin

theorem ops_of_store_some (hx : Exec machine w (store kstrtou8 address buf count) os cs r w')
    {b : BitVec 8} (hb : buf.bind kstrtou8 = some b) :
    os = [.io (.iowrite8 b address) ()] ∧ r = count.toInt := by
  obtain ⟨hops, hr⟩ := (hx.fin store_obeys).2 b hb
  refine ⟨?_, hr⟩
  simpa using congrArg List.reverse hops

/-- **A store accepts exactly the settings** where what it is given is one. -/
theorem accepts_iff (hk : Kstrtou8 kstrtou8) {hi : Nat} {taken : Nat → Prop}
    (hx : Exec machine w (store kstrtou8 address buf count) os cs r w') (hq : ∀ c ∈ cs, c.Quiet)
    (htaken : ∀ b, buf.bind kstrtou8 = some b → b.toNat ≤ hi → taken b.toNat) :
    Accepts hi taken buf count os r w w' ↔ Sound hi buf count := by
  cases hb : buf.bind kstrtou8 with
  | none =>
      obtain ⟨rfl, rfl⟩ := ops_of_store_none hx hb
      have hno : ∀ v, ¬ Parses buf v := by
        intro v hv
        obtain ⟨b, hb', _⟩ := (parses_iff hk v).mp hv
        rw [hb] at hb'
        contradiction
      have hvalid : ¬ Valid buf hi := fun ⟨v, hv, _⟩ => hno v hv
      have hidle := (accesses_of_exec hx).idle_of_nil
      have hkeep : w'.mem.dev.config = w.mem.dev.config :=
        (config_of_accesses (accesses_of_exec hx) hq).2
      have hirq : w'.mem.dev.irq = w.mem.dev.irq := by
        rw [(accesses_of_exec hx).eq_run]
        exact Blinker.irq_run_of_quiet _ fun c hc => ⟨hq c hc, (hidle c hc).2.1⟩
      constructor
      · intro h
        exact ⟨fun v hv => absurd hv (hno v), fun _ heq => hvalid (h.returns.mp heq.symm)⟩
      · intro h
        exact ⟨iff_of_false (fun heq => h.2 hno heq.symm) hvalid,
          fun v hv => absurd hv (hno v), fun _ => ⟨rfl, rfl, hkeep, hirq⟩⟩
  | some b =>
      obtain ⟨rfl, rfl⟩ := ops_of_store_some hx hb
      have hparses := parses_of_bind hk hb
      rw [sound_iff_of_bind hk hb]
      constructor
      · intro h
        obtain ⟨v, hv, hlo, hle⟩ := h.returns.mp rfl
        rw [hparses] at hv
        omega
      · intro h
        have hvalid : Valid buf hi := ⟨b.toNat, (hparses _).mpr rfl, h⟩
        refine ⟨iff_of_true rfl hvalid, fun v hv _ hle => ?_, fun hno => absurd hvalid hno⟩
        rw [hparses] at hv
        subst hv
        exact htaken b hb hle

/-- A store runs to its end on every device. -/
theorem exists_exec_store (kstrtou8 : List Char → Option (BitVec 8)) (address : Bool)
    (buf : Option (List Char)) (count : BitVec 32) (w : Shared Mem) :
    ∃ os cs r w', Exec machine w (store kstrtou8 address buf count) os cs r w' ∧
      ∀ c ∈ cs, c.Quiet := by
  have hsolo : ∃ x, solo (userHolding 0) runner (store kstrtou8 address buf count) w = some x := by
    cases buf with
    | none => exact ⟨_, rfl⟩
    | some s =>
        cases hs : kstrtou8 s with
        | none => simp [store, hs, solo]
        | some b =>
            rw [store_eq_of_parse hs]
            exact ⟨_, rfl⟩
  obtain ⟨⟨os, cs, r, w'⟩, hx⟩ := hsolo
  exact ⟨os, cs, r, w', valid_of_solo runner_quiet hx⟩

/-- **Every end of a store** accepts exactly the settings where what it is given
is one. -/
theorem forall_accepts_iff (hk : Kstrtou8 kstrtou8) {hi : Nat}
    {taken : List DriverOp → Shared Mem → Nat → Prop}
    (htaken : ∀ os cs r w' b, Exec machine w (store kstrtou8 address buf count) os cs r w' →
      (∀ c ∈ cs, c.Quiet) → buf.bind kstrtou8 = some b → b.toNat ≤ hi → taken os w' b.toNat) :
    (∀ os cs r w', Exec machine w (store kstrtou8 address buf count) os cs r w' →
      (∀ c ∈ cs, c.Quiet) → Accepts hi (taken os w') buf count os r w w') ↔
      Sound hi buf count := by
  constructor
  · intro h
    obtain ⟨os, cs, r, w', hx, hq⟩ := exists_exec_store kstrtou8 address buf count w
    exact (accepts_iff hk hx hq fun b => htaken os cs r w' b hx hq).mp (h os cs r w' hx hq)
  · intro h os cs r w' hx hq
    exact (accepts_iff hk hx hq fun b => htaken os cs r w' b hx hq).mpr h

end Store

/-- **The sysfs stores accept exactly the settings**, on every device with no
button active, exactly when what they are given parses to a setting, or does not
parse (and the count is not the error number). -/
theorem stores_iff (kstrtou8 : List Char → Option (BitVec 8)) (hk : Kstrtou8 kstrtou8)
    (buf : Option (List Char)) (count : BitVec 32) (w : Shared Mem) :
    ((∀ os cs r w', Exec machine w (speedStore kstrtou8 buf count) os cs r w' →
        (∀ c ∈ cs, c.Quiet) →
        Accepts 15 (fun v => w'.mem.dev.speed.toNat = v) buf count os r w w') ↔
      Sound 15 buf count) ∧
    ((∀ os cs r w', Exec machine w (configStore kstrtou8 buf count) os cs r w' →
        (∀ c ∈ cs, c.Quiet) →
        Accepts 3 (fun v => busWrites os = [(ioaddrBlinkerConfig, BitVec.ofNat 8 v)]) buf count os r
          w w') ↔
      Sound 3 buf count) := by
  constructor
  · refine forall_accepts_iff hk fun os cs r w' b hx hq hb hle => ?_
    obtain ⟨rfl, _⟩ := ops_of_store_some hx hb
    have hconfig : w'.mem.dev.config = w.mem.dev.config.writeSpeed b :=
      (config_of_accesses (accesses_of_exec hx) hq).2
    have hspeed : w'.mem.dev.speed = b.setWidth 4 := congrArg Config.speed hconfig
    rw [hspeed, BitVec.toNat_setWidth]
    omega
  · refine forall_accepts_iff hk fun os cs r w' b hx hq hb hle => ?_
    obtain ⟨rfl, _⟩ := ops_of_store_some hx hb
    rw [BitVec.ofNat_toNat, BitVec.setWidth_eq]
    rfl

/-- A conversion as documented. -/
def decimalU8 (s : List Char) : Option (BitVec 8) :=
  (parse s).bind fun n => if n ≤ 255 then some (BitVec.ofNat 8 n) else none

theorem kstrtou8_decimalU8 : Kstrtou8 decimalU8 := by
  intro s v
  rw [← parse_eq_some_iff, decimalU8, Option.bind_eq_some_iff]
  constructor
  · rintro ⟨n, hn, hv⟩
    split at hv
    · obtain rfl := Option.some.inj hv
      rw [hn, BitVec.toNat_ofNat, Nat.mod_eq_of_lt (by omega)]
    · contradiction
  · intro h
    refine ⟨v.toNat, h, ?_⟩
    rw [if_pos (by omega), BitVec.ofNat_toNat, BitVec.setWidth_eq]

/-- `9` is stored as a speed. -/
theorem stores_nine :
    Sound 15 (some ['9', '\n']) 2 ∧
      ∀ os cs r w', Exec machine (probed .reset) (speedStore decimalU8 (some ['9', '\n']) 2) os cs r
        w' → (∀ c ∈ cs, c.Quiet) →
        Accepts 15 (fun v => w'.mem.dev.speed.toNat = v) (some ['9', '\n']) 2 os r (probed .reset)
          w' := by
  have hparse : (some ['9', '\n']).bind decimalU8 = some 9 := by decide
  have hsound : Sound 15 (some ['9', '\n']) 2 :=
    (sound_iff_of_bind kstrtou8_decimalU8 hparse).mpr (by decide)
  have hiff := stores_iff decimalU8 kstrtou8_decimalU8 (some ['9', '\n']) 2 (probed .reset)
  exact ⟨hsound, hiff.1.mpr hsound⟩

/-- Stored as a speed, `16` arrives as 0, and the count is returned for it; `4`
is written to CONFIG. -/
theorem stores_sixteen_and_four :
    (∃ os cs w', Exec machine (probed .reset) (speedStore decimalU8 (some ['1', '6', '\n']) 3) os cs 3
        w' ∧ (∀ c ∈ cs, c.Quiet) ∧ w'.mem.dev.speed = 0 ∧
        ¬ Accepts 15 (fun v => w'.mem.dev.speed.toNat = v) (some ['1', '6', '\n']) 3 os 3
          (probed .reset) w') ∧
    ∃ os cs w', Exec machine (probed .reset) (configStore decimalU8 (some ['4', '\n']) 2) os cs 2 w' ∧
      (∀ c ∈ cs, c.Quiet) ∧ busWrites os = [(ioaddrBlinkerConfig, 4)] ∧
      ¬ Accepts 3 (fun v => busWrites os = [(ioaddrBlinkerConfig, BitVec.ofNat 8 v)])
        (some ['4', '\n']) 2 os 2 (probed .reset) w' := by
  have hspeed : (some ['1', '6', '\n']).bind decimalU8 = some 16 := by decide
  have hconfig : (some ['4', '\n']).bind decimalU8 = some 4 := by decide
  constructor
  · obtain ⟨os, cs, r, w', hx, hq⟩ := exists_exec_store decimalU8 ioaddrBlinkerSpeed
      (some ['1', '6', '\n']) 3 (probed .reset)
    obtain ⟨rfl, rfl⟩ := ops_of_store_some hx hspeed
    have hzero : w'.mem.dev.config = (probed .reset).mem.dev.config.writeSpeed 16 :=
      (config_of_accesses (accesses_of_exec hx) hq).2
    refine ⟨_, cs, w', hx, hq, congrArg Config.speed hzero, fun h => ?_⟩
    obtain ⟨v, hv, _, hle⟩ := h.returns.mp rfl
    rw [← (parses_of_bind kstrtou8_decimalU8 hspeed v).mp hv] at hle
    exact absurd hle (by decide)
  · obtain ⟨os, cs, r, w', hx, hq⟩ := exists_exec_store decimalU8 ioaddrBlinkerConfig
      (some ['4', '\n']) 2 (probed .reset)
    obtain ⟨rfl, rfl⟩ := ops_of_store_some hx hconfig
    refine ⟨_, cs, w', hx, hq, rfl, fun h => ?_⟩
    obtain ⟨v, hv, _, hle⟩ := h.returns.mp rfl
    rw [← (parses_of_bind kstrtou8_decimalU8 hconfig v).mp hv] at hle
    exact absurd hle (by decide)

end Pd

end De1Soc
