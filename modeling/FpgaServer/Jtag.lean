import FpgaServer.IoFtdi
import FpgaServer.Tap
/-!
# Jtag — `devices/xc3sprog/jtag.cpp`

`Jtag` keeps the state of the test access port beside an `IOBase`, which is any here.  `tapState_t` is a `Tap`, and `UNKNOWN` is
none; a negative `numDevices` or `deviceIndex` is none as well.  A device found by `getChain` gets its instruction length later; the
source leaves it uninitialized until then, and nothing is said here of a `shiftIR` that would add it up (`LengthsSet`).
-/
namespace Fpga
namespace Xc3s

open Base (Tap)

/-- `chainParam_t`. -/
structure ChainParam where
  idcode : UInt32
  irlen : Option Nat
  deriving DecidableEq, Repr

structure Jtag (ι : Type) where
  io : ι
  currentState : Option Tap
  devices : List ChainParam
  numDevices : Option Nat
  postDRState : Tap
  postIRState : Tap
  deviceIndex : Option Nat
  shiftDRincomplete : Bool

/-- `Jtag::Jtag`. -/
def Jtag.new {ι : Type} (io : ι) : Jtag ι := ⟨io, none, [], none, .runTestIdle, .runTestIdle, none, false⟩

namespace Jtag

/-- One turn of the loop of `setTapState` in a known state: the level of TMS, and the state the loop goes on in. -/
def towards (current state : Tap) : Bool × Tap :=
  match current with
  | .testLogicReset =>
    match state with
    | .testLogicReset => (true, .testLogicReset)
    | _ => (false, .runTestIdle)
  | .runTestIdle =>
    match state with
    | .runTestIdle => (false, .runTestIdle)
    | _ => (true, .selectDRScan)
  | .selectDRScan =>
    match state with
    | .captureDR | .shiftDR | .exit1DR | .pauseDR | .exit2DR | .updateDR => (false, .captureDR)
    | _ => (true, .selectIRScan)
  | .captureDR =>
    match state with
    | .shiftDR => (false, .shiftDR)
    | _ => (true, .exit1DR)
  | .shiftDR =>
    match state with
    | .shiftDR => (false, .shiftDR)
    | _ => (true, .exit1DR)
  | .exit1DR =>
    match state with
    | .pauseDR | .exit2DR | .shiftDR | .exit1DR => (false, .pauseDR)
    | _ => (true, .updateDR)
  | .pauseDR =>
    match state with
    | .pauseDR => (false, .pauseDR)
    | _ => (true, .exit2DR)
  | .exit2DR =>
    match state with
    | .shiftDR | .exit1DR | .pauseDR => (false, .shiftDR)
    | _ => (true, .updateDR)
  | .updateDR =>
    match state with
    | .runTestIdle => (false, .runTestIdle)
    | _ => (true, .selectDRScan)
  | .selectIRScan =>
    match state with
    | .captureIR | .shiftIR | .exit1IR | .pauseIR | .exit2IR | .updateIR => (false, .captureIR)
    | _ => (true, .testLogicReset)
  | .captureIR =>
    match state with
    | .shiftIR => (false, .shiftIR)
    | _ => (true, .exit1IR)
  | .shiftIR =>
    match state with
    | .shiftIR => (false, .shiftIR)
    | _ => (true, .exit1IR)
  | .exit1IR =>
    match state with
    | .pauseIR | .exit2IR | .shiftIR | .exit1IR => (false, .pauseIR)
    | _ => (true, .updateIR)
  | .pauseIR =>
    match state with
    | .pauseIR => (false, .pauseIR)
    | _ => (true, .exit2IR)
  | .exit2IR =>
    match state with
    | .shiftIR | .exit1IR | .pauseIR => (false, .shiftIR)
    | _ => (true, .updateIR)
  | .updateIR =>
    match state with
    | .runTestIdle => (false, .runTestIdle)
    | _ => (true, .selectDRScan)

variable {ι α : Type} [IoBase ι]

abbrev PortM (ι α : Type) := EStateM String (Jtag ι) α

def onIo (x : EStateM String ι α) : PortM ι α := Base.zoom (·.io) (fun io j => { j with io := io }) x

def setTms (val : Bool) : PortM ι Unit := onIo (IoBase.setTms val)

def tapTestLogicReset : PortM ι Unit := do
  (List.replicate 5 true).forM setTms
  modify (fun j => { j with currentState := some .testLogicReset })
  onIo (IoBase.flushTms true)

/-- The loop of `setTapState`, with the turns left. -/
def walk (state : Tap) : Nat → PortM ι Unit
  | 0 => pure ()
  | left + 1 => do
    match (← get).currentState with
    | some current =>
      if current = state then
        return
      modify (fun j => { j with currentState := some (towards current state).2 })
      setTms (towards current state).1
      walk state left
    | none =>
      tapTestLogicReset
      setTms true
      walk state left

/-- `setTapState`.  The loop comes to its end within 16 turns, from wherever it starts. -/
def setTapState (state : Tap) (pre : Nat) : PortM ι Unit := do
  walk state 16
  (List.replicate pre false).forM setTms

def nextTapState (tms : Bool) : PortM ι Unit := do
  match (← get).currentState with
  | some .shiftDR => if tms then modify (fun j => { j with currentState := some .exit1DR })
  | some .shiftIR => if tms then modify (fun j => { j with currentState := some .exit1IR })
  | _ => tapTestLogicReset

/-- The bits before the selected device: one for every device after it, or as many as align the data. -/
def preBits (numDevices post align : Nat) : Nat :=
  if align = 0 then numDevices - post - 1
  else
    -- `-post` raised by `align` until it is positive
    align - post % align

/-- The transfer of `shiftDR`.  `shiftTDI` and `shiftTDO` are `shiftTDITDO` with a null pointer. -/
def transfer (tdi tdo : Option (List UInt8)) (length : Nat) (last : Bool) : PortM ι (Option (List UInt8)) := do
  if tdi.isSome ∨ tdo.isSome then
    onIo (IoBase.shiftTDITDO tdi tdo length last)
  else
    onIo (IoBase.shift false length last)
    return none

def shiftDR (tdi tdo : Option (List UInt8)) (length align : Nat) (exit : Bool) : PortM ι (Option (List UInt8)) := do
  let j ← get
  match j.deviceIndex with
  | none => return tdo
  | some post =>
    if j.shiftDRincomplete = false then
      setTapState .shiftDR (preBits (j.numDevices.getD 0) post align)
    let tdo ← transfer tdi tdo length (decide (post = 0) && exit)
    nextTapState (decide (post = 0) && exit)
    if exit then
      onIo (IoBase.shift false post true)
      if post ≠ 0 then
        nextTapState true
      setTapState j.postDRState 0
      modify (fun j => { j with shiftDRincomplete := false })
    else
      modify (fun j => { j with shiftDRincomplete := true })
    return tdo

/-- The sum of the instruction lengths of some devices. -/
def irlens (devices : List ChainParam) : Nat := (devices.map (fun d => d.irlen.getD 0)).sum

/-- The instruction length of the selected device. -/
def selectedIrlen (j : Jtag ι) (index : Nat) : Nat := (j.devices[index]?.bind (·.irlen)).getD 0

/-- The instruction lengths `shiftIR` adds up have been set. -/
def LengthsSet (j : Jtag ι) (index : Nat) : Prop :=
  ∀ d ∈ j.devices.take (max (j.numDevices.getD 0) (index + 1)), d.irlen.isSome = true

def shiftIR (tdi : List UInt8) (tdo : Option (List UInt8)) : PortM ι (Option (List UInt8)) := do
  let j ← get
  match j.deviceIndex with
  | none => return tdo
  | some index =>
    setTapState .shiftIR 0
    let devices := j.devices.take (j.numDevices.getD 0)
    let pre := irlens (devices.drop (index + 1))
    let post := irlens (j.devices.take index)
    onIo (IoBase.shift true pre false)
    let tdo ← onIo (IoBase.shiftTDITDO (some tdi) tdo (j.selectedIrlen index) (decide (post = 0)))
    onIo (IoBase.shift true post true)
    nextTapState true
    setTapState j.postIRState 0
    return tdo

def cycleTCK (n : Nat) (tdi : Bool) : PortM ι Unit := onIo (IoBase.shift tdi n false)

def usleep (usec : Nat) : PortM ι Unit := onIo (IoBase.usleep usec)

/-- `byteArrayToLong`, as a `DeviceID`. -/
def byteArrayToLong (bytes : List UInt8) : UInt32 :=
  UInt32.ofNat ((bytes.getD 3 0).toNat <<< 24 + (bytes.getD 2 0).toNat <<< 16 + (bytes.getD 1 0).toNat <<< 8 +
    (bytes.getD 0 0).toNat)

/-- The loop of `getChain`, with the devices still allowed and the array `idx`. -/
def readIdcodes : Nat → List UInt8 → PortM ι Unit
  | 0, _ => pure ()
  | left + 1, idx => do
    let idx := (← onIo (IoBase.shiftTDITDO (some [0, 0, 0, 0]) (some idx) 32 false)).getD idx
    let id := byteArrayToLong idx
    if id ≠ 0 ∧ id ≠ 0xffffffff then
      modify (fun j => { j with numDevices := some (j.numDevices.getD 0 + 1), devices := ⟨id, none⟩ :: j.devices })
      readIdcodes left idx
    else
      return

/-- `getChain`; `idx` is what the array on the stack holds. -/
def getChain (detect : Bool) (idx : List UInt8) : PortM ι Nat := do
  if (← get).numDevices = none ∨ detect = true then
    tapTestLogicReset
    setTapState .shiftDR 0
    modify (fun j => { j with numDevices := some 0 })
    readIdcodes 1000 idx
    setTapState .testLogicReset 0
  return (← get).numDevices.getD 0

def selectDevice (dev : Nat) : PortM ι Unit :=
  modify (fun j => { j with deviceIndex := if dev ≥ j.numDevices.getD 0 then none else some dev })

def setDeviceIRLength (dev len : Nat) : PortM ι Unit :=
  modify (fun j =>
    if dev ≥ j.numDevices.getD 0 then j else { j with devices := j.devices.modify dev (fun d => { d with irlen := some len }) })

def getDeviceID (j : Jtag ι) (dev : Nat) : UInt32 := (j.devices[dev]?.map (·.idcode)).getD 0

/-- The calls a program makes on its `Jtag`. -/
inductive Call where
  | tapTestLogicReset
  | setTapState (state : Tap) (pre : Nat)
  | shiftDR (tdi tdo : Option (List UInt8)) (length align : Nat) (exit : Bool)
  | shiftIR (tdi : List UInt8) (tdo : Option (List UInt8))
  | cycleTCK (n : Nat) (tdi : Bool)
  | usleep (usec : Nat)
  | getChain (detect : Bool) (idx : List UInt8)
  | selectDevice (dev : Nat)
  | setDeviceIRLength (dev len : Nat)
  deriving DecidableEq, Repr

/-- A call without what it returns. -/
def Call.run : Call → PortM ι Unit
  | .tapTestLogicReset => Jtag.tapTestLogicReset
  | .setTapState state pre => Jtag.setTapState state pre
  | .shiftDR tdi tdo length align exit => do let _ ← Jtag.shiftDR tdi tdo length align exit
  | .shiftIR tdi tdo => do let _ ← Jtag.shiftIR tdi tdo
  | .cycleTCK n tdi => Jtag.cycleTCK n tdi
  | .usleep usec => Jtag.usleep usec
  | .getChain detect idx => do let _ ← Jtag.getChain detect idx
  | .selectDevice dev => Jtag.selectDevice dev
  | .setDeviceIRLength dev len => Jtag.setDeviceIRLength dev len

end Jtag
end Xc3s
end Fpga
