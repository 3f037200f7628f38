import FpgaServer.BitFile
import FpgaServer.Device
/-!
# DeviceProgrammer — `devices/DeviceProgrammer.cpp` on `devices/xc3sprog`

The programmer of a device with what it takes: a libftdi context on interface B, from the constructor of `IOFtdi` on, and the
handle of the bitfile.  `Jtag` and `ProgAlgXC3S` reach the device through their `IOFtdi` and take nothing, so they act on the
environment alone.  `Holding` is the environment of a device with everything programmers hold of it; it is again an
environment, in which `reprogramDevice` runs.
-/
namespace Fpga

open Base (handle zoom)

variable {ε α : Type}

/-- `FAMILY_XC6S` and `FAMILY_XC7`. -/
inductive Family where
  | xc6s
  | xc7
  deriving DecidableEq, Repr

/-- The states of the test access port the programmer asks for itself. -/
inductive TapState where
  | testLogicReset
  | shiftDR
  deriving DecidableEq, Repr

/-- What the programmer calls below itself: the file system, what libftdi tells about its context, and the traffic on the
JTAG chain.  A failed call returns the text of the exception it throws; `shiftTDITDO` returns the 32 bits it has shifted
out, and `loopback` is the `try` block of `IOFtdi::deinit`. -/
class Xc3sprog (ε : Type) where
  fopen : String → ε → Option (List UInt8) × ε
  hasFastClock : ε → Bool
  ftdiGetErrorString : ε → String
  tapTestLogicReset : ε → Option String × ε
  setTapState : TapState → ε → Option String × ε
  shiftTDITDO : ε → Except String UInt32 × ε
  arrayProgram : Family → BitFile → ε → Option String × ε
  loopback : ε → ε

/-- Code that acts on the device and may throw. -/
abbrev JtagM (ε α : Type) := EStateM String ε α

/-- A call that throws where it fails. -/
def attempt (f : ε → Option String × ε) : JtagM ε Unit := do
  match ← modifyGet f with
  | none => pure ()
  | some what => throw what

/-- A block with an object in it: where an exception leaves it, the destructor runs and the exception goes on. -/
def unwinding {σ : Type} (destructor : EStateM String σ Unit) (x : EStateM String σ α) : EStateM String σ α :=
  handle x (fun what => some (do
    destructor
    throw what))

theorem run_unwinding {σ : Type} (destructor : EStateM String σ Unit) (x : EStateM String σ α) (s : σ) :
    (unwinding destructor x).run s = match x.run s with
      | .ok a t => .ok a t
      | .error what t => (do destructor; throw what : EStateM String σ α).run t := by
  rw [unwinding, Base.run_handle]
  cases x.run s <;> rfl

/-! ## The chain -/

namespace Jtag

variable [Xc3sprog ε]

/-- `MAXNUMDEVICES`. -/
def maxNumDevices : Nat := 1000

/-- The loop of `getChain`, with the devices still allowed and those found, the last one first. -/
def readIdcodes : Nat → List UInt32 → JtagM ε (List UInt32)
  | 0, devices => pure devices
  | left + 1, devices => do
    match ← modifyGet Xc3sprog.shiftTDITDO with
    | .error what => throw what
    | .ok id =>
      if id ≠ 0 ∧ id ≠ 0xffffffff then
        readIdcodes left (id :: devices)
      else
        pure devices

/-- `Jtag::getChain` on a chain not looked at before. -/
def getChain : JtagM ε (List UInt32) := do
  attempt Xc3sprog.tapTestLogicReset
  attempt (Xc3sprog.setTapState .shiftDR)
  let devices ← readIdcodes maxNumDevices []
  attempt (Xc3sprog.setTapState .testLogicReset)
  return devices

end Jtag

/-- The families of the two devices the programmer knows. -/
def familyOf (idcode : UInt32) : Option Family :=
  if idcode = 0x24001093 then some .xc6s
  else if idcode = 0x0362d093 then some .xc7
  else none

/-- The body of the constructor of `DeviceProgrammer`: the chain has to hold one device, and a known one. -/
def checkChain [Xc3sprog ε] : JtagM ε Family := do
  let devices ← Jtag.getChain
  if devices.length ≠ 1 then
    throw "Error in Jtag chain"
  match familyOf (devices.headD 0) with
  | none => throw "Unexpected Jtag device ID"
  | some family =>
    attempt (Xc3sprog.setTapState .testLogicReset)
    return family

/-! ## Interface B -/

section
variable [Ftdi ε] [Xc3sprog ε]

/-- `mpsse_send` of commands just added to an empty buffer. -/
def mpsseSend (commands : List UInt8) : JtagM ε Unit := do
  let written ← modifyGet (Ftdi.writeData commands)
  if written ≠ commands.length then
    throw (Xc3sprog.ftdiGetErrorString (← get))

/-- The pins and the clock divisor: `SET_BITS_LOW`, `TCK_DIVISOR` and `SET_BITS_HIGH`. -/
def initCommands : List UInt8 := [0x80, 0x00, 0x0b, 0x86, 0x00, 0x00, 0x82, 0x00, 0x00]

/-- `DIS_DIV_5` and `TCK_DIVISOR`. -/
def undividedClock : List UInt8 := [0x8a, 0x86, 0x00, 0x00]

/-- `IOFtdi::Init` from the open device on, with the frequency at its default; false where it returns an error. -/
def configure : JtagM ε Bool := do
  if (← modifyGet (Ftdi.setBitmode 0 .reset)).isSome then
    return false
  if (← modifyGet Ftdi.usbPurgeBuffers).isSome then
    return false
  if (← modifyGet (Ftdi.setLatencyTimer 1)).isSome then
    return false
  if (← modifyGet (Ftdi.setBitmode 0xfb .mpsse)).isSome then
    return false
  let _ ← modifyGet (Ftdi.readData 5)
  let fast := Xc3sprog.hasFastClock (← get)
  mpsseSend initCommands
  if fast then
    mpsseSend undividedClock
  return true

end

/-! ## What is held -/

/-- A `DeviceProgrammer`: the handle of its `IOFtdi` and `m_family`. -/
structure DeviceProgrammer where
  ftdiHandle : Nat
  family : Family
  deriving DecidableEq, Repr

/-- A device with what programmers hold of it: contexts allocated and not freed, bitfiles opened and not closed; and the
programmer at work.  No context has the number of one still to come. -/
structure Holding (ε : Type) where
  usb : ε
  contexts : List Context
  nextContext : Nat
  bitfiles : List String
  programmer : Option DeviceProgrammer
  fresh : ∀ c ∈ contexts, c.id < nextContext

abbrev HoldingM (ε α : Type) := EStateM String (Holding ε) α

namespace Holding

def empty (usb : ε) : Holding ε := ⟨usb, [], 0, [], none, fun _ hc => absurd hc List.not_mem_nil⟩

/-- The interfaces the contexts of programmers have claimed. -/
def claimed (h : Holding ε) : List Interface := (h.contexts.filter (·.opened)).map (·.interface)

/-- A new context. -/
def alloc (h : Holding ε) : Holding ε :=
  { h with
    contexts := ⟨h.nextContext, .A, false⟩ :: h.contexts
    nextContext := h.nextContext + 1
    fresh := by
      intro c hc
      rcases List.mem_cons.1 hc with rfl | hc
      · exact Nat.lt_succ_self _
      · exact Nat.lt_succ_of_lt (h.fresh c hc) }

/-- The context with another interface, and open or not. -/
def update (h : Holding ε) (a : Nat) (f : Context → Interface × Bool) : Holding ε :=
  { h with
    contexts := h.contexts.map (fun c => if c.id = a then ⟨a, (f c).1, (f c).2⟩ else c)
    fresh := by
      intro c hc
      obtain ⟨b, hb, rfl⟩ := List.mem_map.1 hc
      have := h.fresh b hb
      split
      · rename_i hba
        exact hba ▸ this
      · exact this }

/-- Without the context. -/
def free (h : Holding ε) (a : Nat) : Holding ε :=
  { h with
    contexts := h.contexts.filter (fun c => c.id ≠ a)
    fresh := fun c hc => h.fresh c (List.mem_filter.1 hc).1 }

/-- A call on the device. -/
def lift (f : ε → α × ε) (h : Holding ε) : α × Holding ε := ((f h.usb).1, { h with usb := (f h.usb).2 })

def onUsb (x : JtagM ε α) : HoldingM ε α := zoom (·.usb) (fun e h => { h with usb := e }) x

section
variable [Ftdi ε]

def ftdiNew : HoldingM ε (Option Nat) := do
  if ← onUsb (modifyGet Ftdi.ftdiNew) then
    modifyGet (fun h => (some h.nextContext, h.alloc))
  else
    return none

def ftdiSetInterface (a : Nat) (i : Interface) : HoldingM ε Unit := modify (·.update a (fun c => (i, c.opened)))

def ftdiUsbOpenDev (a : Nat) (i : Interface) : HoldingM ε (Option String) := do
  let h ← get
  let r ← onUsb (modifyGet (Ftdi.usbOpenDev i h.claimed))
  if r = none then
    modify (·.update a (fun c => (c.interface, true)))
  return r

def ftdiUsbClose (a : Nat) : HoldingM ε Unit := modify (·.update a (fun c => (c.interface, false)))

def ftdiFree (a : Nat) : HoldingM ε Unit := modify (·.free a)

variable [Xc3sprog ε]

/-- `IOFtdi::Init`; none where it returns an error.  `ftdi_set_interface` refuses the null context of a failed `ftdi_new`. -/
def init : HoldingM ε (Option Nat) := do
  match ← ftdiNew with
  | none => return none
  | some a =>
    ftdiSetInterface a .B
    let r ← ftdiUsbOpenDev a .B
    if r.isSome then do
      ftdiFree a
      return none
    else
      -- none of the exits from here on closes or frees the context
      if ← onUsb configure then
        return some a
      else
        return none

/-- `IOFtdi::IOFtdi`.  One that throws leaves no object, so that `deinit` is never called. -/
def ioFtdi : HoldingM ε Nat := do
  match ← init with
  | none => throw "Error initializing IOFtdi"
  | some a => return a

/-- `IOFtdi::deinit`, which the destructor calls. -/
def deinit (a : Nat) : HoldingM ε Unit := do
  onUsb (modify Xc3sprog.loopback)
  let _ ← onUsb (modifyGet (Ftdi.setBitmode 0 .reset))
  let _ ← onUsb (modifyGet Ftdi.usbReset)
  ftdiUsbClose a
  ftdiFree a

/-- `DeviceProgrammer::DeviceProgrammer`: the members are destroyed where its body throws. -/
def construct : HoldingM ε DeviceProgrammer := do
  let a ← ioFtdi
  let family ← unwinding (deinit a) (onUsb checkChain)
  return ⟨a, family⟩

end

variable [Xc3sprog ε]

/-- `fopen(.., "rb")`. -/
def fopen (fname : String) : HoldingM ε (Option (List UInt8)) := do
  let file ← onUsb (modifyGet (Xc3sprog.fopen fname))
  if file.isSome then
    modify (fun h => { h with bitfiles := fname :: h.bitfiles })
  return file

/-- `DeviceProgrammer::program`.  Nothing closes the file. -/
def program (family : Family) (fname : String) : HoldingM ε Unit := do
  match ← fopen fname with
  | none => throw "Could not open bitfile"
  | some bytes =>
    match BitFile.readBitfile bytes with
    | none => throw "Error processing bitfile"
    | some bitfile => onUsb (attempt (Xc3sprog.arrayProgram family bitfile))

variable [Ftdi ε]

/-- `programmer.program(..)`, and the end of the block the programmer lives in. -/
def finish (p : DeviceProgrammer) (fname : String) : HoldingM ε Unit := do
  unwinding (deinit p.ftdiHandle) (program p.family fname)
  deinit p.ftdiHandle

end Holding
end Fpga
