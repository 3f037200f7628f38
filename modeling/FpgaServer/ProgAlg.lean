import FpgaServer.DeviceProgrammer
import FpgaServer.Jtag
/-!
# ProgAlg — `devices/xc3sprog/progalgxc3s.cpp`

`ProgAlgXC3S` for the two families of `DeviceProgrammer`, and what the constructor of `DeviceProgrammer` does with its `Jtag`.  The
algorithm reaches the device through four calls of `Jtag` alone (`Scanner`).  Its first loop has no bound, so that it is given up
here after some turns.
-/
namespace Fpga

/-- `BitFile::getLength`, in bits; `shiftDR` takes it as an `int`. -/
def BitFile.getLength (f : BitFile) : Nat := 8 * f.buffer.length % 2 ^ 32

namespace Xc3s

/-- What `ProgAlgXC3S` calls. -/
class Scanner (ι : Type) where
  shiftIR : List UInt8 → Option (List UInt8) → EStateM String ι (Option (List UInt8))
  shiftDR : Option (List UInt8) → Option (List UInt8) → Nat → EStateM String ι (Option (List UInt8))
  cycleTCK : Nat → EStateM String ι Unit
  usleep : Nat → EStateM String ι Unit

instance {ι : Type} [IoBase ι] : Scanner (Jtag ι) where
  shiftIR := Jtag.shiftIR
  shiftDR tdi tdo length := Jtag.shiftDR tdi tdo length 0 true
  cycleTCK n := Jtag.cycleTCK n true
  usleep := Jtag.usleep

namespace ProgAlgXC3S

/-! ## The instructions -/

def jprogram : List UInt8 := [0xcb, 0xff]
def cfgIn : List UInt8 := [0xc5, 0xff]
def jshutdown : List UInt8 := [0xcd, 0xff]
def jstart : List UInt8 := [0xcc, 0xff]
def iscEnable : List UInt8 := [0xd0, 0xff]
def iscDisable : List UInt8 := [0xd6, 0xff]
def bypass : List UInt8 := [0xff, 0xff]
def iscDna : List UInt8 := [0x31]

/-- `tck_len`, which the constructor of `ProgAlgXC3S` sets by the family. -/
def tckLen : Family → Nat
  | .xc7 => 12
  | .xc6s => 12

variable {ι : Type} [Scanner ι]

abbrev ScanM (ι α : Type) := EStateM String ι α

/-- `shiftIR` without a buffer for TDO. -/
def load (instruction : List UInt8) : ScanM ι Unit := do
  let _ ← Scanner.shiftIR instruction none

/-- `shiftIR` with `buf`, which is a byte. -/
def poll (instruction : List UInt8) (buf : UInt8) : ScanM ι UInt8 := do
  let out ← Scanner.shiftIR instruction (some [buf])
  return (out.getD []).headD buf

/-- `shiftDR` without a buffer for TDO. -/
def send (data : List UInt8) (length : Nat) : ScanM ι Unit := do
  let _ ← Scanner.shiftDR (some data) none length

def flowEnable (family : Family) : ScanM ι Unit := do
  load iscEnable
  send [0] 5
  Scanner.cycleTCK (tckLen family)

def flowDisable (family : Family) : ScanM ι Unit := do
  load iscDisable
  Scanner.cycleTCK (tckLen family)
  load bypass
  send [0] 1
  Scanner.cycleTCK 1

def flowProgramLegacy (family : Family) (file : BitFile) : ScanM ι Unit := do
  load jshutdown
  Scanner.cycleTCK (tckLen family)
  load cfgIn
  send file.buffer file.getLength
  Scanner.cycleTCK 1
  load jstart
  Scanner.cycleTCK (2 * tckLen family)
  load bypass
  send [0] 1
  Scanner.cycleTCK 1

/-- The loop that waits until the configuration is cleared, with the turns it is given; none where they are not enough. -/
def waitCleared : Nat → UInt8 → ScanM ι (Option UInt8)
  | 0, _ => pure none
  | turns + 1, buf => do
    let buf ← poll cfgIn buf
    if buf &&& 0x10 ≠ 0 then
      return some buf
    else
      waitCleared turns buf

/-- The `switch` in `array_program`.  What is read into the array decides nothing. -/
def readDna (family : Family) : ScanM ι Unit := do
  match family with
  | .xc6s =>
    load iscEnable
    load iscDna
    let _ ← Scanner.shiftDR none (some (List.replicate 8 0)) 64
    Scanner.cycleTCK 1
  | .xc7 => pure ()

/-- The loop that waits until the device comes up, with the polls left of 50; what is left of them. -/
def waitUp : Nat → UInt8 → ScanM ι Nat
  | 0, _ => pure 0
  | left + 1, buf => do
    if buf &&& 0x23 ≠ 0x21 then
      let buf ← poll bypass buf
      Scanner.usleep 1000
      waitUp left buf
    else
      return left + 1

/-- `array_program`; none where the device does not clear its configuration in some turns. -/
def arrayProgram (family : Family) (file : BitFile) (turns : Nat) : ScanM ι (Option Unit) := do
  flowEnable family
  load jprogram
  match ← waitCleared turns 0 with
  | none => return none
  | some buf =>
    readDna family
    flowProgramLegacy family file
    flowDisable family
    -- the status checked first is the one that ended the other loop
    let left ← waitUp 50 buf
    if left = 0 then
      throw "Error configuring device"
    return some ()

end ProgAlgXC3S

/-! ## `DeviceProgrammer` -/

namespace DeviceProgrammer

/-- `XC6_XC7_IRLEN`. -/
def irlen : Nat := 6

variable {ι : Type} [IoBase ι]

/-- The body of the constructor: the family of the one device of the chain. -/
def construct (idx : List UInt8) : Jtag.PortM ι Family := do
  let n ← Jtag.getChain false idx
  if n ≠ 1 then
    throw "Error in Jtag chain"
  match familyOf ((← get).getDeviceID 0) with
  | none => throw "Unexpected Jtag device ID"
  | some family =>
    Jtag.setDeviceIRLength 0 irlen
    Jtag.setTapState .testLogicReset 0
    Jtag.selectDevice 0
    return family

/-- The constructor and `program`, with the file read. -/
def program (idx : List UInt8) (file : BitFile) (turns : Nat) : Jtag.PortM ι (Option Unit) := do
  let family ← construct idx
  ProgAlgXC3S.arrayProgram family file turns

end DeviceProgrammer
end Xc3s
end Fpga
