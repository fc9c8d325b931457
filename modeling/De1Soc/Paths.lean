import De1Soc.Devmem.Session
import De1Soc.Driver.Buttons
import De1Soc.Driver.Serial
import De1Soc.Store

/-!
# De1Soc.Paths

The ways to the registers, compared.

The blinker is reached by the misc driver, by the sysfs entries of the platform
driver and by the tools on `/dev/mem`.  The shows print what they read with
`%u`, and the stores convert decimal strings, so the text of a byte is a
numeral of it and comes back unchanged; STATE and CONFIG do not have their bits
in the same places, though, and what `state_show` prints exchanges `mode` and
`running` when it is stored (`state_text_exchanges`).  A configuration byte that
is written by the store or by the tool arrives whatever it is, while
`blinker_dev_write` takes 1 to 7 only (`config_paths_agree_iff`).
-/

namespace De1Soc

open Kernel Decimal

/-! ## The text of a byte -/

/-- What `scnprintf` makes of a byte with the format `%u` and a newline. -/
def decimalText (data : BitVec 8) : List Char := Nat.toDigits 10 data.toNat ++ ['\n']

theorem digitsValue_toDigits (n : Nat) : digitsValue (Nat.toDigits 10 n) = n :=
  Nat.ofDigitChars_ten_toDigits

/-- **The text of a byte is a numeral of it.** -/
theorem numeral_decimalText (data : BitVec 8) : Numeral (decimalText data) data.toNat :=
  ⟨[], Nat.toDigits 10 data.toNat, ['\n'], .inl rfl, Nat.toDigits_ne_nil,
    fun _ hd => Nat.isDigit_of_mem_toDigits (by omega) (by omega) hd, .inr rfl, rfl,
    (digitsValue_toDigits _).symm⟩

theorem length_decimalText (data : BitVec 8) :
    2 ≤ (decimalText data).length ∧ (decimalText data).length ≤ 4 := by
  have hpos : 0 < (Nat.toDigits 10 data.toNat).length := Nat.length_toDigits_pos
  have hle : (Nat.toDigits 10 data.toNat).length ≤ 3 := by
    rw [Nat.length_toDigits_le_iff (by omega) (by omega)]
    omega
  rw [decimalText, List.length_append, List.length_singleton]
  omega

namespace Pd

/-! ## The shows -/

/-- The body that the two shows share: the number of characters, and the text. -/
def showRegister (address : Bool) : Path (Int × List Char) := do
  let data ← ioread8 address
  return ((decimalText data).length, decimalText data)

def ledsShow : Path (Int × List Char) := showRegister ioaddrBlinkerLeds

def stateShow : Path (Int × List Char) := showRegister ioaddrBlinkerState

/-- How a show ends. -/
def showRule (address : Bool) : Rule user io (Int × List Char) where
  ok _ _ := True
  fin ops r := ∃ x, accesses ops = [.read address x] ∧
    r = (((decimalText x).length : Int), decimalText x)

theorem showRegister_obeys (address : Bool) :
    (showRegister address).Obeys (showRule address) [] := by
  simp [showRegister, showRule]

/-- **A show** makes one read and prints what it has read. -/
theorem read_of_show {address : Bool} {w w' : Shared Mem} {os : List DriverOp} {cs : List Cycle}
    {r : Int × List Char} (hx : Exec machine w (showRegister address) os cs r w') :
    ∃ x, accesses os = [.read address x] ∧
      r = (((decimalText x).length : Int), decimalText x) := by
  obtain ⟨x, hacc, hr⟩ := hx.fin (showRegister_obeys address)
  rw [List.append_nil, accesses_reverse] at hacc
  exact ⟨x, by simpa using congrArg List.reverse hacc, hr⟩

end Pd

/-! ## Executions on the bus -/

/-- **What an execution leaves** of the configuration and the interrupt, without
buttons. -/
theorem view_of_exec {α : Type} {w w' : Shared Mem} {p : Path α} {os : List DriverOp}
    {cs : List Cycle} {r : α} (hx : Exec machine w p os cs r w') (hq : ∀ c ∈ cs, c.Quiet) :
    Devmem.blinkerView.ShowsAll (w.mem.dev.config, w.mem.dev.irq) (accesses os) ∧
      (w'.mem.dev.config, w'.mem.dev.irq) =
        (accesses os).foldl Devmem.blinkerView.effect (w.mem.dev.config, w.mem.dev.irq) :=
  Devmem.blinkerView.of_accesses (accesses_of_exec hx) hq

namespace Pd

variable {kstrtou8 : List Char → Option (BitVec 8)}

theorem kstrtou8_decimalText (hk : Kstrtou8 kstrtou8) (data : BitVec 8) :
    kstrtou8 (decimalText data) = some data := (hk _ _).mpr (numeral_decimalText data)

/-- A store writes what its text is a numeral of. -/
theorem config_of_store (hk : Kstrtou8 kstrtou8) {text : List Char} {b : BitVec 8}
    (htext : Numeral text b.toNat) {count : BitVec 32} {w w' : Shared Mem} {os : List DriverOp}
    {cs : List Cycle} {r : Int}
    (hx : Exec machine w (configStore kstrtou8 (some text) count) os cs r w')
    (hq : ∀ c ∈ cs, c.Quiet) :
    r = count.toInt ∧ w'.mem.dev.config = w.mem.dev.config.writeConfig b := by
  have hparse : (some text).bind kstrtou8 = some b := (hk text b).mpr htext
  obtain ⟨rfl, rfl⟩ := ops_of_store_some hx hparse
  exact ⟨rfl, (config_of_accesses (accesses_of_exec hx) hq).2⟩

end Pd

/-- Writing back what STATE shows exchanges `mode` and `running`. -/
theorem writeConfig_stateByte (g : Config) : g.writeConfig g.stateByte = g.exchange :=
  Config.writeConfig_eq_exchange g _ _ rfl (by simp) (by simp) (by simp)

/-- A read of the LEDs, with buttons or without, shows those of one of its
cycles. -/
theorem leds_of_read {s s' : Blinker} {x : BitVec 8} {cs : List Cycle}
    (h : blinkerDevice.Accesses s [.read false x] cs s') :
    ∃ before c after, cs = before ++ c :: after ∧ x = (s.run before).leds c := by
  obtain ⟨pre, bus, rest, rfl, _, ⟨held, c, rfl, hreads, rfl⟩, _⟩ := h.cons_inv
  refine ⟨pre ++ held, c, rest, by simp, ?_⟩
  obtain ⟨_, hread, _, haddr⟩ := hreads c (by simp)
  rw [Blinker.run_append, blinkerDevice_run]
  simp [Blinker.readdata, hread, haddr]

/-- **The text of the sysfs entries.**  `leds_show` prints the LEDs of one of its
cycles, and `state_show` the STATE byte; `kstrtou8` reads it back.  Without
buttons `state_show` leaves the configuration and acknowledges the interrupt, and
storing its text as configuration exchanges `mode` and `running`. -/
theorem state_text_exchanges (kstrtou8 : List Char → Option (BitVec 8)) (hk : Pd.Kstrtou8 kstrtou8)
    (w : Shared Mem) :
    (∀ os cs n text w', Exec machine w Pd.ledsShow os cs (n, text) w' →
      n = text.length ∧ text.length ≤ 4 ∧ ∃ before c after, cs = before ++ c :: after ∧
        kstrtou8 text = some ((w.mem.dev.run before).leds c)) ∧
    ∀ os cs n text w₁, Exec machine w Pd.stateShow os cs (n, text) w₁ → (∀ c ∈ cs, c.Quiet) →
      n = text.length ∧ text.length ≤ 4 ∧ kstrtou8 text = some w.mem.dev.stateByte ∧
      w₁.mem.dev.config = w.mem.dev.config ∧ w₁.mem.dev.irq = false ∧
      ∀ count os' cs' r w₂,
        Exec machine w₁ (Pd.configStore kstrtou8 (some text) count) os' cs' r w₂ →
        (∀ c ∈ cs', c.Quiet) →
        r = count.toInt ∧ w₂.mem.dev.config = w.mem.dev.config.exchange ∧
          (w₂.mem.dev.config = w.mem.dev.config ↔ w.mem.dev.mode = w.mem.dev.running) := by
  constructor
  · intro os cs n text w' hx
    obtain ⟨x, hacc, hr⟩ := Pd.read_of_show hx
    obtain ⟨rfl, rfl⟩ := Prod.mk.inj hr
    have hleds := accesses_of_exec hx
    rw [hacc] at hleds
    obtain ⟨before, c, after, hcs, rfl⟩ := leds_of_read hleds
    exact ⟨rfl, (length_decimalText _).2, before, c, after, hcs, Pd.kstrtou8_decimalText hk _⟩
  · intro os cs n text w₁ hx hq
    obtain ⟨x, hacc, hr⟩ := Pd.read_of_show hx
    obtain ⟨rfl, rfl⟩ := Prod.mk.inj hr
    obtain ⟨hshows, hview⟩ := view_of_exec hx hq
    rw [hacc] at hshows hview
    obtain rfl : x = w.mem.dev.stateByte := hshows.1 x rfl
    obtain ⟨hconfig, hirq⟩ := Prod.mk.inj hview
    have hclear : w₁.mem.dev.irq = false := hirq.trans (Bool.and_false _)
    refine ⟨rfl, (length_decimalText _).2, Pd.kstrtou8_decimalText hk _, hconfig, hclear, ?_⟩
    intro count os' cs' r w₂ hx' hq'
    obtain ⟨hr', hconfig'⟩ := Pd.config_of_store hk (numeral_decimalText _) hx' hq'
    have hexchange : w₂.mem.dev.config = w.mem.dev.config.exchange := by
      rw [hconfig', ← writeConfig_stateByte, hconfig]
      rfl
    refine ⟨hr', hexchange, ?_⟩
    rw [hexchange, Config.exchange_eq_iff]
    rfl

/-- In shift mode the text of STATE, stored, starts blink mode and stops the
device. -/
theorem state_text_exchanges_shift :
    ∃ os cs n text w₁ os' cs' r w₂,
      Exec machine (probed { Blinker.reset with mode := false }) Pd.stateShow os cs (n, text) w₁ ∧
        Exec machine w₁ (Pd.configStore Pd.decimalU8 (some text) 4) os' cs' r w₂ ∧ r = 4 ∧
        w₂.mem.dev.config = ⟨false, true, false, 8⟩ := by
  obtain ⟨⟨os, cs, ⟨n, text⟩, w₁⟩, hsolo⟩ : ∃ x, solo (userHolding 0) runner Pd.stateShow
      (probed { Blinker.reset with mode := false }) = some x := ⟨_, rfl⟩
  obtain ⟨hx, hq⟩ := valid_of_solo runner_quiet hsolo
  obtain ⟨os', cs', r, w₂, hx', hq'⟩ :=
    Pd.exists_exec_store Pd.decimalU8 ioaddrBlinkerConfig (some text) 4 w₁
  obtain ⟨_, hstate⟩ := state_text_exchanges Pd.decimalU8 Pd.kstrtou8_decimalU8
    (probed { Blinker.reset with mode := false })
  obtain ⟨_, _, _, _, _, hstore⟩ := hstate _ _ _ _ _ hx hq
  obtain ⟨hr, hconfig, _⟩ := hstore _ _ _ _ _ hx' hq'
  exact ⟨os, cs, n, text, w₁, os', cs', r, w₂, hx, hx', hr, hconfig⟩

/-! ## Three ways to write the configuration -/

namespace Devmem

/-- Digits are read as the number that they are. -/
theorem leadingInt_of_digits {ds : List Char} (hds : ∀ d ∈ ds, d.isDigit = true) :
    leadingInt ds = digitsValue ds := by
  cases ds with
  | nil => rfl
  | cons d ds =>
      have hd := hds d (by simp)
      have hspace : isSpace d = false := by
        rw [← Bool.not_eq_true, isSpace, decide_eq_true_eq]
        intro hmem
        simp only [List.mem_cons, List.not_mem_nil, or_false] at hmem
        obtain rfl | rfl | rfl | rfl | rfl | rfl := hmem <;> contradiction
      have hall : (d :: ds).takeWhile Char.isDigit = d :: ds := List.takeWhile_eq_self_iff.mpr hds
      rw [leadingInt, List.dropWhile_cons_of_neg (by simp [hspace])]
      split
      · next heq =>
          obtain ⟨rfl, rfl⟩ := List.cons.inj heq
          contradiction
      · next heq =>
          obtain ⟨rfl, rfl⟩ := List.cons.inj heq
          contradiction
      · rw [hall]

/-- The decimal digits of a byte, as the parameter of the tool. -/
theorem atoi_toDigits (b : BitVec 8) :
    BitVec.ofInt 8 (atoi (Nat.toDigits 10 b.toNat)) = b := by
  have hlead : leadingInt (Nat.toDigits 10 b.toNat) = b.toNat := by
    rw [leadingInt_of_digits fun d hd => Nat.isDigit_of_mem_toDigits (by omega) (by omega) hd,
      digitsValue_toDigits]
  have hlt : b.toNat < 256 := b.isLt
  rw [atoi_of_range (by rw [hlead, intMin]; omega) (by rw [hlead, intMax]; omega), hlead]
  simp

/-- `-c a` asks for a write of the number in `a`. -/
theorem request_write_config (a : List Char) :
    blinkerDevmemTest.request ["tool".toList, "-c".toList, a] =
      some (doWriteConfig, BitVec.ofInt 8 (atoi a)) := by
  rw [Tool.request, Tool.parseCmdline_eq]
  rfl

end Devmem

/-- `blinker_dev_write` of `b`, having got the semaphore and the byte, takes the
configuration from `g` to `g'`. -/
def MiscLeaves (b : BitVec 8) (g g' : Config) : Prop :=
  ∃ w userBuffer count os cs r w', Exec machine w (blinkerDevWrite userBuffer count) os cs r w' ∧
    (∀ c ∈ cs, c.Quiet) ∧ answers os.reverse = [.copyFrom (some b), .down false] ∧
    w.mem.dev.config = g ∧ w'.mem.dev.config = g'

/-- `config_store` of a numeral of `b` takes the configuration from `g` to
`g'`. -/
def PdLeaves (kstrtou8 : List Char → Option (BitVec 8)) (b : BitVec 8) (g g' : Config) : Prop :=
  ∃ w text count os cs r w', Numeral text b.toNat ∧
    Exec machine w (Pd.configStore kstrtou8 (some text) count) os cs r w' ∧ (∀ c ∈ cs, c.Quiet) ∧
    w.mem.dev.config = g ∧ w'.mem.dev.config = g'

/-- An invocation of the tool that asks for a write of `b` takes the
configuration from `g` to `g'`. -/
def ToolLeaves (b : BitVec 8) (g g' : Config) : Prop :=
  ∃ (s s' : Blinker) (i : Devmem.Invocation) (cs : List Cycle),
    i.tool = Devmem.blinkerDevmemTest ∧ i.request = some (Devmem.doWriteConfig, b) ∧
    blinkerDevice.Accesses s i.accesses cs s' ∧ (∀ c ∈ cs, c.Quiet) ∧ s.config = g ∧
    s'.config = g'

/-- A device with a given configuration. -/
def configured (g : Config) : Blinker :=
  { Blinker.reset with running := g.running, mode := g.mode, enaIrq := g.enaIrq, speed := g.speed }

section Leaves

variable {b : BitVec 8} {g g' : Config}

theorem miscLeaves_iff :
    MiscLeaves b g g' ↔ g' = if b = 0 ∨ 7 < b then g else g.writeConfig b := by
  have hscript : ∀ userBuffer count, Config.apply g
      ((Call.devWrite userBuffer count).script [.copyFrom (some b), .down false]) =
        if b = 0 ∨ 7 < b then g else g.writeConfig b := by
    intro userBuffer count
    by_cases h : b = 0 ∨ 7 < b
    · rw [if_pos h]
      exact congrArg g.apply (if_pos h)
    · rw [if_neg h]
      exact congrArg g.apply (if_neg h)
  constructor
  · rintro ⟨w, userBuffer, count, os, cs, r, w', hx, hq, has, rfl, rfl⟩
    rw [config_of_exec (c := .devWrite userBuffer count) trivial hx hq, has, hscript]
  · rintro rfl
    have hanswers : (Call.devWrite 0 1).Answers [.copyFrom (some b), .down false] :=
      .inr ⟨some b, rfl⟩
    obtain ⟨_, ⟨os, cs, r, w'⟩, hsolo, has, _⟩ :=
      exists_solo (c := .devWrite 0 1) (w := probed (configured g)) trivial hanswers rfl rfl
    obtain ⟨hx, hq⟩ := valid_of_solo runner_quiet hsolo
    refine ⟨_, 0, 1, os, cs, r, w', hx, hq, has, rfl, ?_⟩
    rw [config_of_exec (c := .devWrite 0 1) trivial hx hq, has]
    exact hscript 0 1

theorem pdLeaves_iff {kstrtou8 : List Char → Option (BitVec 8)} (hk : Pd.Kstrtou8 kstrtou8) :
    PdLeaves kstrtou8 b g g' ↔ g' = g.writeConfig b := by
  constructor
  · rintro ⟨w, text, count, os, cs, r, w', htext, hx, hq, rfl, rfl⟩
    exact (Pd.config_of_store hk htext hx hq).2
  · rintro rfl
    obtain ⟨os, cs, r, w', hx, hq⟩ := Pd.exists_exec_store kstrtou8 ioaddrBlinkerConfig
      (some (decimalText b)) 1 (probed (configured g))
    exact ⟨_, _, 1, os, cs, r, w', numeral_decimalText b, hx, hq, rfl,
      (Pd.config_of_store hk (numeral_decimalText b) hx hq).2⟩

theorem toolLeaves_iff : ToolLeaves b g g' ↔ g' = g.writeConfig b := by
  constructor
  · rintro ⟨s, s', i, cs, _, hrequest, h, hq, rfl, rfl⟩
    obtain ⟨_, hview⟩ := Devmem.blinkerView.of_accesses h hq
    rw [i.accesses_eq, hrequest] at hview
    exact (Prod.mk.inj hview).1
  · rintro rfl
    let i : Devmem.Invocation := ⟨Devmem.blinkerDevmemTest, .holding 0,
      ["tool".toList, "-c".toList, Nat.toDigits 10 b.toNat]⟩
    have hrequest : i.request = some (Devmem.doWriteConfig, b) := by
      have hvalid : (Devmem.blinkerDevmemTest.validateSocSystem (.holding 0)).2 &&
          (Devmem.Env.holding 0).mapped := by decide
      rw [Devmem.Invocation.request, if_pos hvalid, Devmem.request_write_config,
        Devmem.atoi_toDigits]
    have hserve :
        blinkerDevice.Serves (configured g) (.write true b) [writeCycle true b] := by
      show Blinker.Serves (configured g) (.write true b) [writeCycle true b]
      exact ⟨_, rfl, rfl, rfl, rfl, rfl, rfl⟩
    have hacc : i.accesses = [.write true b] := by
      rw [i.accesses_eq, hrequest]
      rfl
    have hquiet : ∀ c ∈ [writeCycle true b], c.Quiet := by simp [writeCycle, Cycle.Quiet]
    have hrun : blinkerDevice.Accesses (configured g) i.accesses [writeCycle true b]
        ((configured g).clk (writeCycle true b)) := by
      rw [hacc]
      exact .access hserve (.nil _)
    refine ⟨configured g, _, i, _, rfl, hrequest, hrun, hquiet, rfl, ?_⟩
    exact Blinker.config_clk_of_writes _ ⟨rfl, rfl, rfl, rfl, rfl⟩ (hquiet _ (by simp))

end Leaves

/-- **Three ways to write the configuration.**  From every configuration and with
every byte, the store and the tool leave the same; `blinker_dev_write` leaves it
too exactly when the byte is one that it takes, or would change nothing. -/
theorem config_paths_agree_iff (kstrtou8 : List Char → Option (BitVec 8))
    (hk : Pd.Kstrtou8 kstrtou8) (b : BitVec 8) (g : Config) :
    (∀ g₁ g₂, PdLeaves kstrtou8 b g g₁ → ToolLeaves b g g₂ → g₁ = g₂) ∧
    ((∃ g', PdLeaves kstrtou8 b g g' ∧ ToolLeaves b g g' ∧ MiscLeaves b g g') ↔
      (1 ≤ b.toNat ∧ b.toNat ≤ 7) ∨ g.writeConfig b = g) := by
  have htakes : (b = 0 ∨ 7 < b) ↔ ¬ (1 ≤ b.toNat ∧ b.toNat ≤ 7) := by
    rw [← BitVec.toNat_inj, BitVec.lt_def]
    show b.toNat = 0 ∨ 7 < b.toNat ↔ _
    omega
  simp only [pdLeaves_iff hk, toolLeaves_iff, miscLeaves_iff, htakes]
  constructor
  · rintro g₁ g₂ rfl rfl
    rfl
  · by_cases h : 1 ≤ b.toNat ∧ b.toNat ≤ 7
    · simp [h]
    · simp [h]

/-- The byte 5 from the configuration after reset: all three ways agree. -/
theorem config_paths_agree_five :
    ∃ g', PdLeaves Pd.decimalU8 5 Blinker.reset.config g' ∧
      ToolLeaves 5 Blinker.reset.config g' ∧ MiscLeaves 5 Blinker.reset.config g' :=
  ((config_paths_agree_iff Pd.decimalU8 Pd.kstrtou8_decimalU8 5 Blinker.reset.config).2).mpr
    (.inl (by decide))

end De1Soc
