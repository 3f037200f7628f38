import Mathlib.Data.List.Nodup
import Mathlib.Data.List.Perm.Subperm
import FpgaServer.Ftdi
import FpgaServer.Command
import FpgaServer.OrdMap
/-!
# Device — `devices/Device.cpp`

A device object and its operations over the libftdi environment.  `ω` is the world outside the object that its change
callback acts on.  The register words of the bulk operations are kept as the values their big-endian bytes stand for.
`contexts` is the libftdi contexts allocated on behalf of the object and not freed.
-/
namespace Fpga

open Base (OrdMap zoom)

/-- The key of a tracked register, ordered as `std::pair<uint8_t, uint8_t>`. -/
structure AddrPort where
  addr : UInt8
  port : UInt8
  deriving DecidableEq, Repr

def AddrPort.rank (k : AddrPort) : Nat := k.addr.toNat * 256 + k.port.toNat

theorem AddrPort.rank_injective : Function.Injective AddrPort.rank := by
  rintro ⟨a, p⟩ ⟨b, q⟩ h
  have := p.toNat_lt
  have := q.toNat_lt
  simp only [AddrPort.rank] at h
  rw [AddrPort.mk.injEq, ← UInt8.toNat_inj, ← UInt8.toNat_inj]
  omega

instance : LinearOrder AddrPort := LinearOrder.lift' AddrPort.rank AddrPort.rank_injective

theorem AddrPort.rank_lt (k : AddrPort) : k.rank < 65536 := by
  have := k.addr.toNat_lt
  have := k.port.toNat_lt
  simp only [AddrPort.rank]
  omega

/-- There are no more keys than pairs of bytes. -/
theorem length_keys_le {ν : Type} (m : OrdMap AddrPort ν) : m.keys.length ≤ 65536 := by
  have hnd : (m.keys.map AddrPort.rank).Nodup := m.keys_nodup.map AddrPort.rank_injective
  have hsub : m.keys.map AddrPort.rank ⊆ List.range 65536 := by
    intro n hn
    obtain ⟨k, -, rfl⟩ := List.mem_map.1 hn
    exact List.mem_range.2 k.rank_lt
  simpa using (hnd.subperm hsub).length_le

/-- The register a tracked key is read as on the wire. -/
def AddrPort.reg (k : AddrPort) : Reg := Reg.of k.addr k.port

/-- An `ftdi_context`. -/
structure Context where
  id : Nat
  interface : Interface
  opened : Bool
  deriving DecidableEq, Repr

structure Device (ε ω : Type) where
  name : String
  libusbDevice : Nat
  ftdi : Option Nat
  trackedRegs : OrdMap AddrPort UInt16
  regChangedCb : Option (String → UInt8 → UInt8 → UInt16 → EStateM Fault ω Unit)
  contexts : List Context
  nextContext : Nat
  usb : ε

/-- The object an operation runs on, and the world its callback acts on. -/
structure DeviceState (ε ω : Type) where
  dev : Device ε ω
  out : ω

abbrev DeviceM (ε ω α : Type) := EStateM Fault (DeviceState ε ω) α

variable {ε ω : Type}

def Device.isOpen (d : Device ε ω) : Bool := d.ftdi.isSome

/-- A size handed to an `int` parameter. -/
def cInt (n : Nat) : Int := Int.bmod n 4294967296

theorem cInt_of_lt {n : Nat} (h : n < 2147483648) : cInt n = n := by
  unfold cInt
  rw [Int.bmod_eq_of_le] <;> omega

namespace Device

def modifyDev (f : Device ε ω → Device ε ω) : DeviceM ε ω Unit := modify (fun s => { s with dev := f s.dev })

/-- A call into the environment of the device. -/
def usbCall {α : Type} (f : ε → α × ε) : DeviceM ε ω α :=
  modifyGet (fun s => ((f s.dev.usb).1, { s with dev := { s.dev with usb := (f s.dev.usb).2 } }))

variable [Ftdi ε]

/-! ## Opening and closing -/

/-- `ftdi_new`, and the exception where it returns null. -/
def ftdiNew : DeviceM ε ω Nat := do
  if ← usbCall Ftdi.ftdiNew then
    let s ← get
    modifyDev (fun d => { d with contexts := ⟨d.nextContext, .A, false⟩ :: d.contexts, nextContext := d.nextContext + 1 })
    return s.dev.nextContext
  else
    raise "ftdi_new failed"

def updateContext (id : Nat) (f : Context → Context) : DeviceM ε ω Unit :=
  modifyDev (fun d => { d with contexts := d.contexts.map (fun c => if c.id = id then f c else c) })

def ftdiSetInterface (id : Nat) (i : Interface) : DeviceM ε ω Unit := updateContext id (fun c => { c with interface := i })

def ftdiUsbClose (id : Nat) : DeviceM ε ω Unit := updateContext id (fun c => { c with opened := false })

def ftdiFree (id : Nat) : DeviceM ε ω Unit :=
  modifyDev (fun d => { d with contexts := d.contexts.filter (fun c => c.id ≠ id) })

def ftdiUsbOpenDev (id : Nat) (i : Interface) : DeviceM ε ω (Option String) := do
  let s ← get
  let r ← usbCall (Ftdi.usbOpenDev i ((s.dev.contexts.filter (·.opened)).map (·.interface)))
  if r = none then
    updateContext id (fun c => { c with opened := true })
  return r

/-- The exit of a failed libftdi call: clean up, then throw the error text. -/
def exitOn (r : Option String) (cleanUp : DeviceM ε ω Unit) : DeviceM ε ω Unit :=
  match r with
  | none => pure ()
  | some errorstr => do
    cleanUp
    raise errorstr

/-- `Device::open`. -/
def openDevice : DeviceM ε ω Unit := do
  let s ← get
  if s.dev.isOpen then
    return
  -- interface A
  let a ← ftdiNew
  ftdiSetInterface a .A
  let r ← ftdiUsbOpenDev a .A
  exitOn r (ftdiFree a)
  -- interface B: purge its buffers and close it again; no exit of this part releases the context of A
  let b ← ftdiNew
  ftdiSetInterface b .B
  let r ← ftdiUsbOpenDev b .B
  exitOn r (ftdiFree b)
  let r ← usbCall Ftdi.usbPurgeBuffers
  exitOn r (do ftdiUsbClose b; ftdiFree b)
  ftdiUsbClose b
  ftdiFree b
  -- reset, then synchronous FIFO mode
  let r ← usbCall Ftdi.usbReset
  exitOn r (do ftdiUsbClose a; ftdiFree a)
  let r ← usbCall (Ftdi.setBitmode 0 .syncff)
  exitOn r (do ftdiUsbClose a; ftdiFree a)
  let r ← usbCall (Ftdi.setLatencyTimer 1)
  exitOn r (do ftdiUsbClose a; ftdiFree a)
  modifyDev (fun d => { d with ftdi := some a })

/-- `Device::close`. -/
def close : DeviceM ε ω Unit := do
  let s ← get
  match s.dev.ftdi with
  | none => pure ()
  | some a =>
    let _ ← usbCall (Ftdi.setBitmode 0xfb .reset)
    ftdiUsbClose a
    ftdiFree a
    modifyDev (fun d => { d with ftdi := none })

/-! ## The channel -/

/-- `ftdi_write_data(m_ftdi, ..)`: it checks for a null context. -/
def ftdiWriteData (bytes : List UInt8) : DeviceM ε ω Int := do
  let s ← get
  match s.dev.ftdi with
  | none => pure (-666)
  | some _ => usbCall (Ftdi.writeData bytes)

/-- The copy in `ftdi_read_data`, once no check has failed. -/
def copyOut (size : Int) : Except Int (List UInt8) → DeviceM ε ω (Except Int (List UInt8))
  | .error code => pure (.error code)
  | .ok bytes => if size < 0 then throw .overrun else pure (.ok bytes)

/-- `ftdi_read_data(m_ftdi, ..)`: it dereferences the context before it checks it, and where no check fails it copies a negative
number of bytes as it is. -/
def ftdiReadData (size : Int) : DeviceM ε ω (Except Int (List UInt8)) := do
  let s ← get
  match s.dev.ftdi with
  | none => throw .crash
  | some _ => do
    let result ← usbCall (Ftdi.readData size)
    copyOut size result

/-- The loop of `ftdi_read_data_wait`, with the attempts left and the bytes received. -/
def readLoop (size : Int) : Nat → List UInt8 → DeviceM ε ω (List UInt8)
  | 0, recv => pure recv
  | i + 1, recv => do
    match ← ftdiReadData (size - recv.length) with
    | .error _ => raise "FTDI read error"
    | .ok bytes =>
      if ((recv ++ bytes).length : Int) ≠ size then
        readLoop size i (recv ++ bytes)
      else
        pure (recv ++ bytes)

def ftdiReadDataWait (size : Int) : DeviceM ε ω (List UInt8) := do
  let recv ← readLoop size 100 []
  raiseIf ((recv.length : Int) ≠ size) "FTDI read timeout"
  return recv

/-- `Device::writeRaw`, from the bytes not yet sent on. -/
def writeRaw (rest : List UInt8) : DeviceM ε ω Unit :=
  if _h : rest = [] then
    pure ()
  else do
    let r ← ftdiWriteData (rest.take (cInt rest.length).toNat)
    if _hr : r ≤ 0 then
      raise "FTDI write error"
    else
      writeRaw (rest.drop r.toNat)
termination_by rest.length
decreasing_by
  have := List.length_pos_iff.2 _h
  simp only [List.length_drop]
  omega

def readRaw (n : Nat) : DeviceM ε ω (List UInt8) :=
  if n = 0 then
    pure []
  else
    ftdiReadDataWait (cInt n)

/-! ## Registers -/

/-- Invoke the change callback, if one is set. -/
def regChanged (addr port : UInt8) (value : UInt16) : DeviceM ε ω Unit := do
  let s ← get
  match s.dev.regChangedCb with
  | none => pure ()
  | some cb => zoom (·.out) (fun w s => { s with out := w }) (cb s.dev.name addr port value)

/-- Store an observed value of a tracked register and report it if it differs from the cached one. -/
def storeResult (k : AddrPort) (value : UInt16) : DeviceM ε ω Unit := do
  let s ← get
  match s.dev.trackedRegs.find? k with
  | none => pure ()
  | some old =>
    modifyDev (fun d => { d with trackedRegs := d.trackedRegs.set k value })
    if value ≠ old then
      regChanged k.addr k.port value

def writeReg (addr port : UInt8) (value : UInt16) : DeviceM ε ω Unit := do
  let n ← ftdiWriteData (writeRegPacket addr port value)
  raiseIf (n ≠ 4) "FTDI write error"

def readReg (addr port : UInt8) : DeviceM ε ω UInt16 := do
  let n ← ftdiWriteData (readRegPacket addr port)
  raiseIf (n ≠ 2) "FTDI write error"
  let recv ← ftdiReadDataWait 2
  let value := (words recv).headD 0
  storeResult ⟨addr, port⟩ value
  return value

/-- The most words a packet holds: its length field has 16 bits. -/
def nPacketMax : Nat := 65535

/-- `Device::writeRegN`, from the words not yet sent on. -/
def writeRegN (addr port : UInt8) (rest : List UInt16) : DeviceM ε ω Unit :=
  if _h : rest = [] then
    pure ()
  else do
    let packet := writeRegNPacket addr port (rest.take nPacketMax)
    let n ← ftdiWriteData packet
    raiseIf (n ≤ 0) "FTDI write error"
    raiseIf (n < packet.length) "FTDI unhandled partial write"
    writeRegN addr port (rest.drop nPacketMax)
termination_by rest.length
decreasing_by
  have := List.length_pos_iff.2 _h
  simp only [List.length_drop, nPacketMax]
  omega

/-- `Device::readRegN`, with the number of words still to be read. -/
def readRegN (addr port : UInt8) (left : Nat) : DeviceM ε ω (List UInt16) :=
  if _h : left = 0 then
    pure []
  else do
    let nPacket := min left nPacketMax
    let n ← ftdiWriteData (readRegNPacket addr port nPacket)
    raiseIf (n ≠ 4) "FTDI write error"
    let recv ← ftdiReadDataWait (cInt (2 * nPacket))
    let more ← readRegN addr port (left - nPacket)
    return words recv ++ more
termination_by left
decreasing_by
  simp only [nPacketMax]
  omega

/-- `Device::trackReg` with `enabled` at its default. -/
def trackReg (addr port : UInt8) : DeviceM ε ω Unit :=
  modifyDev (fun d => { d with trackedRegs := d.trackedRegs.insert ⟨addr, port⟩ 0 })

/-- `Device::trackReg` with `enabled` false. -/
def untrackReg (addr port : UInt8) : DeviceM ε ω Unit :=
  modifyDev (fun d => { d with trackedRegs := d.trackedRegs.erase ⟨addr, port⟩ })

/-- The last loop of `updateTrackedRegs`: the i-th response word belongs to the i-th key. -/
def storeResults : List (AddrPort × UInt16) → DeviceM ε ω Unit
  | [] => pure ()
  | kv :: rest => do
    storeResult kv.1 kv.2
    storeResults rest

/-- One read command for each key, in one buffer. -/
def readRegPackets (keys : List AddrPort) : List UInt8 := keys.flatMap (fun k => readRegPacket k.addr k.port)

def updateTrackedRegs : DeviceM ε ω Unit := do
  let s ← get
  let keys := s.dev.trackedRegs.keys
  if keys = [] then
    return
  let n ← ftdiWriteData (readRegPackets keys)
  raiseIf (n ≠ cInt (2 * keys.length)) "FTDI write error"
  let recv ← ftdiReadDataWait (cInt (2 * keys.length))
  storeResults (keys.zip (words recv))

def setRegChangedCallback (cb : String → UInt8 → UInt8 → UInt16 → EStateM Fault ω Unit) : DeviceM ε ω Unit :=
  modifyDev (fun d => { d with regChangedCb := some cb })

end Device
end Fpga
