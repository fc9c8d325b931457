import De1Soc.Blinker.Config
import De1Soc.Kernel.Prog

/-!
# De1Soc.Driver

The misc device driver (`blinker_misc_module.c`) as kernel paths, with the
register layout of `blinker_module.h`.

Each file operation, the interrupt handler and the sysfs store is one `Path`
under its C name, statement for statement; log messages are left out.  The
operations that reach outside the code are of two kinds:

* `user`: accesses to user memory, whose outcome the environment decides
  (`none` / `true` is a fault);
* `io`: the mapped registers, and the driver's own variables.

`IOC_SET_SPEED` is spelled with an undefined `OUT_IOC_TYPE` in the header and
`IOC_GET_CONFIG` is not defined there at all, so the commands are named
(`Cmd`) and not numbered; every other number is `Cmd.other`.
-/

namespace De1Soc

open Kernel

/-! ## blinker_module.h -/

def systemBusWidth : Nat := 8

/-- `__IO_CALC_ADDRESS_NATIVE`: the peripheral has one address line, bit 0
of the byte offset. -/
def ioCalcAddressNative (regnum : Nat) : Bool := (regnum * (systemBusWidth / 8)).testBit 0

def blinkerSpeedReg : Nat := 0
def blinkerConfigReg : Nat := 1
def blinkerLedsReg : Nat := 0
def blinkerStateReg : Nat := 1

def ioaddrBlinkerSpeed : Bool := ioCalcAddressNative blinkerSpeedReg
def ioaddrBlinkerConfig : Bool := ioCalcAddressNative blinkerConfigReg
def ioaddrBlinkerLeds : Bool := ioCalcAddressNative blinkerLedsReg
def ioaddrBlinkerState : Bool := ioCalcAddressNative blinkerStateReg

@[simp] theorem ioaddrBlinkerSpeed_eq : ioaddrBlinkerSpeed = false := by decide
@[simp] theorem ioaddrBlinkerConfig_eq : ioaddrBlinkerConfig = true := by decide
@[simp] theorem ioaddrBlinkerLeds_eq : ioaddrBlinkerLeds = false := by decide
@[simp] theorem ioaddrBlinkerState_eq : ioaddrBlinkerState = true := by decide

def blinkerConfigMsk : BitVec 8 := 0x07
def blinkerStartMsk : BitVec 8 := 0x01
def blinkerStopMsk : BitVec 8 := 0xfe
def blinkerBlinkMsk : BitVec 8 := 0x02
def blinkerShiftMsk : BitVec 8 := 0xfd
def blinkerIenaMsk : BitVec 8 := 0x04
def blinkerIdisMsk : BitVec 8 := 0xfb

/-- The commands that `blinker_dev_ioctl` switches on. -/
inductive Cmd
  | setSpeed
  | setRunning
  | clearRunning
  | enaInt
  | disInt
  | setMode
  | getLeds
  | getConfig
  | other (cmd : BitVec 32)
deriving DecidableEq, Repr

@[simp] def ERESTARTSYS : Int := 512
@[simp] def EFAULT : Int := 14
@[simp] def EINVAL : Int := 22
@[simp] def IRQ_HANDLED : Int := 1

/-! ## What the paths do outside themselves -/

/-- The counters of `struct blinker_dev`. -/
inductive Counter
  | openCount
  | releaseCount
  | ioctlCount
  | readCount
  | writeCount
deriving DecidableEq, Repr

/-- Accesses to user memory: `get_user` and `put_user` go through a
`uint32_t *`, the copies move one byte. -/
inductive UserOp
  | getUser (arg : BitVec 32)
  | putUser (arg : BitVec 32) (x : BitVec 32)
  | copyFromUser (src : BitVec 32)
  | copyToUser (dst : BitVec 32) (x : BitVec 8)
deriving DecidableEq, Repr

/-- User accesses and their outcomes. -/
abbrev user : Sig where
  Op := UserOp
  Res
    | .getUser _ => Option (BitVec 32)
    | .putUser _ _ => Bool
    | .copyFromUser _ => Option (BitVec 8)
    | .copyToUser _ _ => Bool

/-- Accesses to the mapped registers and to the driver's variables. -/
inductive IoOp
  | ioread8 (address : Bool)
  | iowrite8 (data : BitVec 8) (address : Bool)
  | memcpyFromio (address : Bool)
  | memcpyToio (address : Bool) (data : BitVec 8)
  | incr (c : Counter)
  | incrIrqCount
  | setInterruptFlag (b : Bool)
  | wakeUp
deriving DecidableEq, Repr

/-- Register and variable accesses and their results. -/
abbrev io : Sig where
  Op := IoOp
  Res
    | .ioread8 _ | .memcpyFromio _ => BitVec 8
    | _ => Unit

/-- A kernel path of the driver. -/
abbrev Path := Prog user io

/-- An operation of a path. -/
abbrev DriverOp := Op user io

@[simp] def downInterruptible : Path Bool := .down .ret
@[simp] def up : Path Unit := .up (.ret ())
@[simp] def spinLock : Path Unit := .lock (.ret ())
@[simp] def spinUnlock : Path Unit := .unlock (.ret ())
@[simp] def waitEventInterruptible : Path Bool := .wait .ret
@[simp] def getUser (arg : BitVec 32) : Path (Option (BitVec 32)) := .ask (Q := user) (.getUser arg) .ret
@[simp] def putUser (x arg : BitVec 32) : Path Bool := .ask (Q := user) (.putUser arg x) .ret
@[simp] def copyFromUser (src : BitVec 32) : Path (Option (BitVec 8)) :=
  .ask (Q := user) (.copyFromUser src) .ret
@[simp] def copyToUser (dst : BitVec 32) (x : BitVec 8) : Path Bool :=
  .ask (Q := user) (.copyToUser dst x) .ret
@[simp] def ioread8 (address : Bool) : Path (BitVec 8) := .io (A := io) (.ioread8 address) .ret
@[simp] def iowrite8 (data : BitVec 8) (address : Bool) : Path Unit :=
  .io (A := io) (.iowrite8 data address) .ret
@[simp] def memcpyFromio (address : Bool) : Path (BitVec 8) := .io (A := io) (.memcpyFromio address) .ret
@[simp] def memcpyToio (address : Bool) (data : BitVec 8) : Path Unit :=
  .io (A := io) (.memcpyToio address data) .ret
@[simp] def incr (c : Counter) : Path Unit := .io (A := io) (.incr c) .ret
@[simp] def incrIrqCount : Path Unit := .io (A := io) .incrIrqCount .ret
@[simp] def setInterruptFlag (b : Bool) : Path Unit := .io (A := io) (.setInterruptFlag b) .ret
@[simp] def wakeUpInterruptible : Path Unit := .io (A := io) .wakeUp .ret

/-! ## The file operations -/

def blinkerDevOpen : Path Int := do
  if ← downInterruptible then
    return -ERESTARTSYS
  incr .openCount
  up
  return 0

def blinkerDevRelease : Path Int := do
  if ← downInterruptible then
    return -ERESTARTSYS
  incr .releaseCount
  up
  return 0

/-- The read-modify-write of CONFIG through STATE that five commands share:
`f` is what each does to the byte it has read. -/
@[simp] def modifyConfig (f : BitVec 8 → BitVec 8) : Path Unit := do
  spinLock
  let currentConfig ← ioread8 ioaddrBlinkerState
  iowrite8 (f currentConfig) ioaddrBlinkerConfig
  spinUnlock

/-- The byte that `IOC_SET_RUNNING` writes, of the one it has read. -/
def setRunningByte (cur : BitVec 8) : BitVec 8 := (cur &&& blinkerConfigMsk) ||| blinkerStartMsk
def clearRunningByte (cur : BitVec 8) : BitVec 8 := (cur &&& blinkerConfigMsk) &&& blinkerStopMsk
def enaIntByte (cur : BitVec 8) : BitVec 8 := (cur &&& blinkerConfigMsk) ||| blinkerIenaMsk
def disIntByte (cur : BitVec 8) : BitVec 8 := (cur &&& blinkerConfigMsk) &&& blinkerIdisMsk
def setModeByte (mode cur : BitVec 8) : BitVec 8 :=
  if mode = 0 then (cur &&& blinkerConfigMsk) &&& blinkerShiftMsk
  else (cur &&& blinkerConfigMsk) ||| blinkerBlinkMsk

def blinkerDevIoctl (cmd : Cmd) (arg : BitVec 32) : Path Int := do
  if ← downInterruptible then
    return -ERESTARTSYS
  incr .ioctlCount
  match cmd with
  | .setSpeed =>
      let some value ← getUser arg
        | up
          return -EFAULT
      -- `get_user` loads 32 bits, the variable keeps the low 8
      let speed := value.setWidth 8
      if speed < 1 ∨ speed > 15 then
        up
        return -EINVAL
      spinLock
      iowrite8 speed ioaddrBlinkerSpeed
      spinUnlock
  | .setRunning => modifyConfig setRunningByte
  | .clearRunning => modifyConfig clearRunningByte
  | .enaInt => modifyConfig enaIntByte
  | .disInt => modifyConfig disIntByte
  | .setMode =>
      let some value ← getUser arg
        | up
          return -EFAULT
      let mode := value.setWidth 8
      if mode < 0 ∨ mode > 1 then
        up
        return -EINVAL
      modifyConfig (setModeByte mode)
  | .getLeds =>
      let leds ← ioread8 ioaddrBlinkerLeds
      if ← putUser (leds.setWidth 32) arg then
        up
        return -EFAULT
  | .getConfig =>
      let currentConfig ← ioread8 ioaddrBlinkerState
      if ← putUser (currentConfig.setWidth 32) arg then
        up
        return -EFAULT
  | .other _ =>
      up
      return -EINVAL
  up
  return 0

/-- `count` is a `size_t`, the result an `ssize_t` of the same width. -/
def blinkerDevRead (userBuffer count : BitVec 32) : Path Int := do
  if ← downInterruptible then
    return -ERESTARTSYS
  incr .readCount
  if ← waitEventInterruptible then
    up
    return -ERESTARTSYS
  spinLock
  setInterruptFlag false
  spinUnlock
  let state ← memcpyFromio ioaddrBlinkerState
  if ← copyToUser userBuffer state then
    up
    return -EFAULT
  up
  return count.toInt

def blinkerDevWrite (userBuffer count : BitVec 32) : Path Int := do
  if ← downInterruptible then
    return -ERESTARTSYS
  incr .writeCount
  let some config ← copyFromUser userBuffer
    | up
      return -EFAULT
  if config < 1 ∨ config > 7 then
    up
    return -EINVAL
  memcpyToio ioaddrBlinkerConfig config
  up
  return count.toInt

/-! ## The interrupt handler and the sysfs store -/

def blinkerDriverInterruptHandler : Path Int := do
  spinLock
  -- clear the interrupt by reading the state register
  let _data ← ioread8 ioaddrBlinkerState
  incrIrqCount
  let _data ← ioread8 ioaddrBlinkerLeds
  setInterruptFlag true
  spinUnlock
  wakeUpInterruptible
  return IRQ_HANDLED

/-- The visible part of `config_store`; the byte it has parsed and the value
it returns come from parts of the function that the source leaves out. -/
def configStore (data : BitVec 8) (result : Int) : Path Int := do
  spinLock
  iowrite8 data ioaddrBlinkerConfig
  spinUnlock
  return result

/-! ## All entry points -/

/-- The calls that enter the driver. -/
inductive Call
  | devOpen
  | devRelease
  | devIoctl (cmd : Cmd) (arg : BitVec 32)
  | devRead (userBuffer count : BitVec 32)
  | devWrite (userBuffer count : BitVec 32)
  | storeConfig (data : BitVec 8) (result : Int)
  | interrupt
deriving DecidableEq, Repr

/-- The code of each call. -/
def Call.code : Call → Path Int
  | .devOpen => blinkerDevOpen
  | .devRelease => blinkerDevRelease
  | .devIoctl cmd arg => blinkerDevIoctl cmd arg
  | .devRead userBuffer count => blinkerDevRead userBuffer count
  | .devWrite userBuffer count => blinkerDevWrite userBuffer count
  | .storeConfig data result => configStore data result
  | .interrupt => blinkerDriverInterruptHandler

end De1Soc
