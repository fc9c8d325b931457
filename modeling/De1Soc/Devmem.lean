import De1Soc.Decimal
import De1Soc.Getopt.Loop
import Mathlib.Data.Finset.Card

/-!
# De1Soc.Devmem

The command line tools that reach a device through `/dev/mem`: the
`blinker_devmem_test` of `driver/blinker_devmem_test`, the `gpio_test_devmem` of
`driver/gpio_test`, and the tool of `driver/test`.

The three programs have the same `main`, `validate_soc_system` and
`parse_cmdline`, up to the options they declare and what they do for each of
them; a `Tool` has these differences.  `parse_cmdline` leaves what it read in
global variables (`Globals`) or ends the program (`Stop`), and `main` gives the
events of a whole run and its exit status.
-/

namespace De1Soc.Devmem

open Getopt

/-! ## `atoi` -/

/-- `isspace`. -/
def isSpace (c : Char) : Bool := c ∈ [' ', '\t', '\n', '\x0b', '\x0c', '\r']

/-- The number at the beginning of a string, as `strtol` reads it. -/
def leadingInt (s : List Char) : Int :=
  match s.dropWhile isSpace with
  | '-' :: ds => - (Decimal.digitsValue (ds.takeWhile Char.isDigit) : Int)
  | '+' :: ds => Decimal.digitsValue (ds.takeWhile Char.isDigit)
  | ds => Decimal.digitsValue (ds.takeWhile Char.isDigit)

/-- `INT_MIN`. -/
def intMin : Int := -0x80000000

/-- `INT_MAX`. -/
def intMax : Int := 0x7fffffff

/-- `atoi`: the number cut to the range of `long`, which is that of `int` here. -/
def atoi (s : List Char) : Int :=
  if leadingInt s < intMin then intMin else if intMax < leadingInt s then intMax else leadingInt s

theorem atoi_of_range {s : List Char} (hmin : intMin ≤ leadingInt s)
    (hmax : leadingInt s ≤ intMax) : atoi s = leadingInt s := by
  rw [atoi, if_neg (Int.not_lt.mpr hmin), if_neg (Int.not_lt.mpr hmax)]

/-! ## What the tools do -/

/-- One line that a reading command prints: the bits of the byte under `mask`,
shifted down. -/
structure Field where
  label : String
  mask : BitVec 8
  shift : Nat
deriving DecidableEq, Repr

/-- The number that is printed. -/
def Field.value (f : Field) (dato : BitVec 8) : Nat := ((dato &&& f.mask) >>> f.shift).toNat

/-- What a program does that can be seen; `value` is a line `label = number`. -/
inductive Event
  | prints (text : String)
  | misaligned (base pageSize : Nat)
  | putsUsage
  | putsHelp
  | extra (arg : List Char)
  | error (message : String)
  | openMem
  | mmap (base : Nat)
  | write (offset : Nat) (byte : BitVec 8)
  | read (offset : Nat) (byte : BitVec 8)
  | value (label : String) (n : Nat)
  | munmap
  | closeMem
deriving DecidableEq, Repr

namespace Event

/-- An access to `/dev/mem`. -/
def isMem : Event → Bool
  | openMem | mmap _ | write _ _ | read _ _ | munmap | closeMem => true
  | _ => false

/-- Part of an action that the user can ask for. -/
def isAction : Event → Bool
  | write _ _ | read _ _ | value _ _ | putsHelp | putsUsage => true
  | _ => false

end Event

/-- The actions. -/
inductive Act
  | write (offset : Nat)
  | read (offset : Nat) (fields : List Field)
  | help
deriving DecidableEq, Repr

/-- The action writes a register. -/
def Act.isWrite : Act → Bool
  | write _ => true
  | _ => false

/-- An action, with the value of the parameter and the contents of the
registers. -/
def Act.run (paramValue : BitVec 8) (reg : Nat → BitVec 8) : Act → List Event
  | write offset => [.write offset paramValue]
  | read offset fields =>
      .read offset (reg offset) :: fields.map fun f => .value f.label (f.value (reg offset))
  | help => [.putsHelp, .putsUsage]

/-- A command: the letter of its option, whether its handler takes the argument
of the option, and its action. -/
structure Command where
  letter : Char
  takesValue : Bool
  act : Act
deriving DecidableEq, Repr

/-- One of the programs: the options that it declares and its commands, in the
order in which `main` comes to them. -/
structure Tool where
  sysfsEntry : String
  base : Nat
  options : Options
  commands : List Command
deriving DecidableEq, Repr

/-- The letters of the commands. -/
def Tool.letters (tool : Tool) : List Char := tool.commands.map (·.letter)

/-! ## The three tools -/

/-- An entry of a `long_options` table; none of them sets a flag. -/
def longOption (name : String) (hasArg : HasArg) (val : Char) : LongOption :=
  ⟨some name.toList, hasArg, false, val⟩

/-- `ALT_LWFPGASLVS_OFST + BLINKER_0_BASE`; `GPIO_TEST_0_BASE` is the same. -/
def deviceBase : Nat := 0xff200000 + 0x40000

/-- `do_write_config`, to `BLINKER_REG_CONFIG_OFFSET`. -/
def doWriteConfig : Act := .write 1

/-- `do_read_state`, of `BLINKER_REG_STATE_OFFSET`. -/
def doReadState : Act := .read 1 [⟨"configuration", 0x0f, 0⟩, ⟨"speed", 0xf0, 4⟩]

/-- `do_write_led`, to `BLINKER_REG_LEDS_OFFSET`. -/
def doWriteLed : Act := .write 0

/-- `do_write_leds`, to `GPIO_TEST_REG_LEDS_OFFSET`. -/
def doWriteLeds : Act := .write 0

/-- `do_read_led`, of `BLINKER_REG_LEDS_OFFSET`. -/
def doReadLed : Act := .read 0 [⟨"leds", 0xff, 0⟩]

/-- `do_read_switches`, of `GPIO_TEST_REG_SWITCHES_OFFSET`. -/
def doReadSwitches : Act := .read 0 [⟨"switches", 0xff, 0⟩]

/-- `do_help`. -/
def doHelp : Act := .help

/-- `driver/blinker_devmem_test`. -/
def blinkerDevmemTest : Tool where
  sysfsEntry := "/sys/bus/platform/devices/ff240000.blinker"
  base := deviceBase
  options :=
    { short := "c:sh".toList
      long := [longOption "write_config" .required 'c', longOption "read_state" .no 's',
        longOption "help" .no 'h'] }
  commands := [⟨'c', true, doWriteConfig⟩, ⟨'s', false, doReadState⟩, ⟨'h', false, doHelp⟩]

/-- `driver/gpio_test`. -/
def gpioTestDevmem : Tool where
  sysfsEntry := "/sys/bus/platform/devices/ff240000.test"
  base := deviceBase
  options :=
    { short := "l:sh".toList
      long := [longOption "write_led" .required 'l', longOption "read_switches" .no 's',
        longOption "help" .no 'h'] }
  commands := [⟨'l', true, doWriteLeds⟩, ⟨'s', false, doReadSwitches⟩, ⟨'h', false, doHelp⟩]

/-- `driver/test`.  The short `d` has no colon in the string, but its handler
takes an argument. -/
def driverTest : Tool where
  sysfsEntry := "/sys/bus/platform/devices/ff240000.blinker"
  base := deviceBase
  options :=
    { short := "dlc:sh".toList
      long := [longOption "write_led" .required 'd', longOption "read_led" .no 'l',
        longOption "write_config" .required 'c', longOption "read_state" .no 's',
        longOption "help" .no 'h'] }
  commands := [⟨'d', true, doWriteLed⟩, ⟨'c', true, doWriteConfig⟩, ⟨'s', false, doReadState⟩,
    ⟨'l', false, doReadLed⟩, ⟨'h', false, doHelp⟩]

/-! ## `parse_cmdline` -/

/-- The global variables: the letters of the commands whose pointers are set,
and `param_value`. -/
structure Globals where
  given : Finset Char
  paramValue : BitVec 8
deriving DecidableEq

/-- The variables when the program starts. -/
def Globals.initial : Globals := ⟨∅, 0⟩

/-- How `parse_cmdline` ends the program: `error` with status 1, after the
arguments that are left have been printed, or a read through the null pointer
that `optarg` is. -/
inductive Stop
  | error (extra : List (List Char)) (message : String)
  | nullOptarg
deriving DecidableEq, Repr

/-- The message for an option that is none. -/
def wrongOptions : Stop := .error [] "ERROR: wrong command line options."

namespace Tool

/-- The body of the loop: a value that is the letter of no command, `0` among
them, is an error. -/
def handle (tool : Tool) (g : Globals) (t : Token) : Except Stop Globals :=
  match tool.commands.find? (·.letter = t.ret) with
  | none => .error wrongOptions
  | some cmd =>
      if cmd.takesValue then
        match t.optarg with
        | none => .error .nullOptarg
        | some a => .ok ⟨insert cmd.letter g.given, BitVec.ofInt 8 (atoi a)⟩
      else .ok { g with given := insert cmd.letter g.given }

/-- `action_count`. -/
def actionCount (tool : Tool) (g : Globals) : Nat := tool.commands.countP (·.letter ∈ g.given)

/-- The checks behind the loop; `argv` has been permuted in place, so `argc` is
its length. -/
def checks (tool : Tool) (g : Globals) (st : State) : Except Stop Globals :=
  if st.optind < st.argv.length then .error (.error st.left "ERROR: wrong command line options")
  else if tool.actionCount g = 0 then .error (.error [] "ERROR: no options parsed")
  else if 1 < tool.actionCount g then .error (.error [] "ERROR: too many options parsed")
  else .ok g

/-- **`parse_cmdline`**, with the tokens that `getopt_long` has delivered.  The
fuel is more than the calls that the loop makes. -/
def parseCmdline (tool : Tool) (argv : List (List Char)) :
    Option (List Token × Except Stop Globals) :=
  (loop tool.options tool.handle (weight argv + 1) (State.init argv) .initial).map fun r =>
    (r.1, r.2.bind fun x => tool.checks x.1 x.2)

end Tool

/-! ## `main` -/

/-- What a run finds: which directories there are, whether the calls succeed,
the size of a page, and the contents of the registers. -/
structure Env where
  opendir : String → Bool
  closedir : Bool
  pageSize : Nat
  openMem : Bool
  mmap : Bool
  munmap : Bool
  reg : Nat → BitVec 8

/-- The end of a run. -/
inductive Exit
  | status (n : Nat)
  | segfault
deriving DecidableEq, Repr

/-- What a run shows when `parse_cmdline` ends it. -/
def Stop.run : Stop → List Event × Exit
  | error extra message =>
      ((if extra = [] then [] else .prints "extra characters on command line: " :: extra.map .extra)
        ++ [.putsUsage, .error message], .status 1)
  | nullOptarg => ([], .segfault)

namespace Tool

/-- `validate_soc_system`: the events, and whether it returns.  A base address
that is not page aligned is only reported. -/
def validateSocSystem (tool : Tool) (env : Env) : List Event × Bool :=
  if !env.opendir tool.sysfsEntry then
    ([.prints "ERROR: blinker may not be present in the system hardware"], false)
  else if !env.closedir then
    ([.prints "ERROR: blinker may not be present in the system hardware"], false)
  else if tool.base &&& (env.pageSize - 1) ≠ 0 then ([.misaligned tool.base env.pageSize], true)
  else ([], true)

/-- The actions of the commands that are given. -/
def actions (tool : Tool) (env : Env) (g : Globals) : List Event :=
  (tool.commands.filter (·.letter ∈ g.given)).flatMap fun cmd => cmd.act.run g.paramValue env.reg

/-- `main` behind `parse_cmdline`. -/
def access (tool : Tool) (env : Env) (g : Globals) : List Event × Exit :=
  if !env.openMem then ([.openMem, .prints "devmem open"], .status 1)
  else if !env.mmap then
    ([.openMem, .mmap tool.base, .prints "devmem mmap", .closeMem], .status 1)
  else if !env.munmap then
    ([.openMem, .mmap tool.base] ++ tool.actions env g ++
      [.munmap, .prints "devmem munmamp", .closeMem], .status 1)
  else ([.openMem, .mmap tool.base] ++ tool.actions env g ++ [.munmap, .closeMem], .status 0)

/-- `main` behind `validate_soc_system`. -/
def afterParse (tool : Tool) (env : Env) : Except Stop Globals → List Event × Exit
  | .error e => e.run
  | .ok g => tool.access env g

/-- **`main`**: the events of a run, and how it ends. -/
def main (tool : Tool) (env : Env) (argv : List (List Char)) : Option (List Event × Exit) :=
  if (tool.validateSocSystem env).2 then
    (tool.parseCmdline argv).map fun r =>
      ((tool.validateSocSystem env).1 ++ (tool.afterParse env r.2).1, (tool.afterParse env r.2).2)
  else some ((tool.validateSocSystem env).1, .status 1)

end Tool

end De1Soc.Devmem
