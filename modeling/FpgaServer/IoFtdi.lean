import FpgaServer.Chunks
import FpgaServer.Bits
import FpgaServer.Ftdi
/-!
# IoFtdi — `devices/xc3sprog/iobase.cpp` and `ioftdi.cpp`

`IOFtdi` with its base class `IOBase`: TMS levels are collected in `tms_buf`, every transfer becomes MPSSE commands in `usbuf`,
and `usbuf` goes out where it would run over, where an answer is wanted, or on a forced flush.  A buffer to read into is a list
that a transfer overwrites from a position on; what a short read does not reach keeps its old bytes.  `Host` is what the process
sees beside the libftdi calls.  The debug file and the messages on `stderr` are left out.
-/
namespace Fpga
namespace Xc3s

open Base

/-- `ftdi_get_error_string`, `errno` with the texts of `strerror`, and the bytes a buffer on the stack holds before anything is
written to it. -/
class Host (ε : Type) where
  ftdiGetErrorString : ε → String
  errno : ε → Nat
  strerror : Nat → String
  stack : ε → Nat → UInt8

/-- `TX_BUF`. -/
def txBuf : Nat := 4096

/-- `CHUNK_SIZE*8`. -/
def chunkBits : Nat := 1024

structure IoFtdi (ε : Type) where
  usb : ε
  usbuf : List UInt8
  tmsBuf : List Bool
  hasFastClock : Bool
  tckFreq : Nat

/-- A buffer with some bytes written to it from a position on. -/
def store (buf : List UInt8) (pos : Nat) (bytes : List UInt8) : List UInt8 :=
  buf.take pos ++ bytes ++ buf.drop (pos + bytes.length)

namespace IoFtdi

variable {ε : Type} [Ftdi ε] [Host ε]

abbrev IoM (ε α : Type) := EStateM String (IoFtdi ε) α

def onUsb {α : Type} (f : ε → α × ε) : IoM ε α := modifyGet (fun io => ((f io.usb).1, { io with usb := (f io.usb).2 }))

def mpsseSend : IoM ε Unit := do
  let io ← get
  if io.usbuf.isEmpty then
    return
  let written ← onUsb (Ftdi.writeData io.usbuf)
  if written ≠ io.usbuf.length then
    throw (Host.ftdiGetErrorString (← get).usb)
  modify (fun io => { io with usbuf := [] })

def mpsseAddCmd (cmd : List UInt8) : IoM ε Unit := do
  if (← get).usbuf.length + cmd.length + 1 ≥ txBuf then
    mpsseSend
  modify (fun io => { io with usbuf := io.usbuf ++ cmd })

theorem run_mpsseSend (io : IoFtdi ε) : mpsseSend.run io =
    if io.usbuf = [] then .ok () io
    else if (Ftdi.writeData io.usbuf io.usb).1 = io.usbuf.length then
      .ok () { io with usb := (Ftdi.writeData io.usbuf io.usb).2, usbuf := [] }
    else
      .error (Host.ftdiGetErrorString (Ftdi.writeData io.usbuf io.usb).2)
        { io with usb := (Ftdi.writeData io.usbuf io.usb).2 } := by
  unfold mpsseSend
  rw [EStateM.run_bind, EStateM.run_get]
  simp only [List.isEmpty_iff]
  by_cases hempty : io.usbuf = []
  · rw [if_pos hempty, if_pos hempty]
    rfl
  · rw [if_neg hempty, if_neg hempty, EStateM.run_bind]
    by_cases hw : (Ftdi.writeData io.usbuf io.usb).1 = io.usbuf.length
    · simp [onUsb, hw]
    · simp [onUsb, hw]

theorem run_mpsseAddCmd (cmd : List UInt8) (io : IoFtdi ε) : (mpsseAddCmd cmd).run io =
    if io.usbuf.length + cmd.length + 1 ≥ txBuf then
      (do mpsseSend; modify (fun io => { io with usbuf := io.usbuf ++ cmd }) : IoM ε Unit).run io
    else .ok () { io with usbuf := io.usbuf ++ cmd } := by
  unfold mpsseAddCmd
  rw [EStateM.run_bind, EStateM.run_get]
  simp only
  split <;> rfl

/-- `ftdi_read_data`: the bytes and the result. -/
def readData (len : Nat) : IoM ε (List UInt8 × Int) := do
  match ← onUsb (Ftdi.readData len) with
  | .ok bytes => return (bytes, bytes.length)
  | .error code => return ([], code)

/-- The variables of `readusb`. -/
structure Reading where
  read : List UInt8
  lastRead : Int
  lastErrno : Nat
  waited : Bool
  deriving DecidableEq, Repr

/-- The loop of `readusb`, with the tries left. -/
def retry (len : Nat) : Nat → Reading → IoM ε Reading
  | 0, r => pure { r with waited := true }
  | left + 1, r => do
    if r.read.length < len then
      let (bytes, lastRead) ← readData (len - r.read.length)
      -- a try that gets nothing keeps `errno`, which nothing has cleared
      let io ← get
      retry len left ⟨r.read ++ bytes, lastRead, if lastRead > 0 then 0 else Host.errno io.usb, false⟩
    else
      pure r

def readusb (len : Nat) : IoM ε (List UInt8) := do
  mpsseAddCmd [0x87]
  mpsseSend
  let (bytes, lastRead) ← readData len
  let r ← retry len 1000 ⟨bytes, lastRead, 0, false⟩
  if r.waited = true ∧ r.lastErrno ≠ 0 then
    throw (Host.strerror ε r.lastErrno)
  if r.lastRead < 0 then
    throw (Host.strerror ε (-r.lastRead).toNat)
  return r.read

/-! ## TMS -/

/-- The operand of a TMS command: the levels from the lowest bit up, and TDI high. -/
def tmsByte (levels : List Bool) : UInt8 := 0x80 ||| byteOf levels

/-- `tx_tms`.  Six bits a command: with seven, the FT2232L sets TDO to TMS. -/
def txTms (pat : List Bool) (force : Bool) : IoM ε Unit := do
  if pat.isEmpty then
    return
  (chunksOf 6 pat).forM (fun levels => mpsseAddCmd [0x4b, UInt8.ofNat (levels.length - 1), tmsByte levels])
  if force then
    mpsseSend

def flushTms (force : Bool) : IoM ε Unit := do
  let io ← get
  if io.tmsBuf.length ≠ 0 then
    txTms io.tmsBuf force
  modify (fun io => { io with tmsBuf := [] })

def setTms (val : Bool) : IoM ε Unit := do
  if (← get).tmsBuf.length + 1 > chunkBits then
    flushTms false
  modify (fun io => { io with tmsBuf := io.tmsBuf ++ [val] })

/-! ## Data -/

/-- `MPSSE_DO_READ|MPSSE_READ_NEG`, `MPSSE_DO_WRITE` and `MPSSE_LSB|MPSSE_WRITE_NEG`. -/
def dataCommand (tdi tdo : Bool) : UInt8 := (if tdo then 0x24 else 0) ||| (if tdi then 0x10 else 0) ||| 0x09

/-- A command for so many bytes, with the bytes. -/
def txBytes (tdi : Option (List UInt8)) (tdo : Bool) (buflen : Nat) : IoM ε Unit := do
  mpsseAddCmd [dataCommand tdi.isSome tdo, UInt8.ofNat (buflen - 1), UInt8.ofNat ((buflen - 1) / 256)]
  match tdi with
  | some bytes => mpsseAddCmd (bytes.take buflen)
  | none => pure ()

/-- `readusb` into the buffer for TDO, where there is one. -/
def readTdo (tdo : Option (List UInt8)) (pos buflen : Nat) : IoM ε (Option (List UInt8)) := do
  match tdo with
  | none => return none
  | some buf =>
    let bytes ← readusb buflen
    return some (store buf pos bytes)

/-- The loop of `txrx_block` over the chunks that fill `usbuf`: what is left of TDI, the buffer for TDO with the position in it,
and the bits left. -/
def txrxChunks (tdi tdo : Option (List UInt8)) (pos rem : Nat) :
    IoM ε (Option (List UInt8) × Option (List UInt8) × Nat × Nat) := do
  if _h : rem / 8 > txBuf - 3 then
    txBytes tdi tdo.isSome (txBuf - 3)
    let tdo ← readTdo tdo pos (txBuf - 3)
    txrxChunks (tdi.map (·.drop (txBuf - 3))) tdo (pos + (txBuf - 3)) (rem - (txBuf - 3) * 8)
  else
    return (tdi, tdo, pos, rem)
termination_by rem
decreasing_by
  simp only [txBuf] at *
  omega

/-- A command for the bits after the last whole byte. -/
def txBits (tdi : Option (List UInt8)) (tdo : Bool) (rembits : Nat) : IoM ε Unit := do
  mpsseAddCmd [dataCommand tdi.isSome tdo ||| 0x02, UInt8.ofNat (rembits - 1)]
  match tdi with
  | some bytes => mpsseAddCmd (bytes.take 1)
  | none => pure ()

/-- The last bit, with TMS high.  Without TDI it is a zero. -/
def txLast (tdi : Option (List UInt8)) (tdo : Bool) (rembits : Nat) : IoM ε Unit := do
  let lastbit := match tdi with
    | some bytes => (bytes.headD 0).toNat.testBit rembits
    | none => false
  mpsseAddCmd [0x4b ||| (if tdo then 0x24 else 0), 0, if lastbit then 0x81 else 1]

/-- What a buffer on the stack holds after a read into it. -/
def onStack (e : ε) (buflen : Nat) (bytes : List UInt8) : List UInt8 :=
  bytes ++ (List.range (buflen - bytes.length)).map (fun i => Host.stack e (bytes.length + i))

/-- The bytes of the last read with the last bit put in its place: with no other bits it makes a byte of its own, else it goes
on top of them. -/
def lastInPlace (rbuf : List UInt8) (rembits : Nat) : List UInt8 :=
  let last := rbuf.getLastD 0
  if rembits = 0 then
    rbuf.dropLast ++ [if last &&& 0x80 ≠ 0 then 1 else 0]
  else
    rbuf.dropLast.dropLast ++
      [(rbuf.dropLast.getLastD 0 >>> UInt8.ofNat (8 - rembits)) ||| ((last &&& 0x80) >>> UInt8.ofNat (7 - rembits))]

/-- The last bytes read, where no bit with TMS high is among them: the bits of an incomplete byte are shifted down. -/
def shiftedDown (buf : List UInt8) (pos buflen rembits : Nat) : List UInt8 :=
  if rembits ≠ 0 then buf.modify (pos + buflen - 1) (· >>> UInt8.ofNat (8 - rembits)) else buf

/-- The end of `txrx_block`: the bits after the last whole byte, and what is still to be read, whole bytes not yet read
first. -/
def txrxTail (tdi tdo : Option (List UInt8)) (pos unread rembits : Nat) (last : Bool) : IoM ε (Option (List UInt8)) := do
  if rembits ≠ 0 then
    txBits tdi tdo.isSome rembits
  if last then
    txLast tdi tdo.isSome rembits
  let buflen := unread + (if rembits ≠ 0 then 1 else 0) + (if last then 1 else 0)
  match tdo with
  | none => return none
  | some buf =>
    let bytes ← readusb buflen
    if last then
      let io ← get
      return some (store buf pos (lastInPlace (onStack io.usb buflen bytes) rembits))
    else
      return some (shiftedDown (store buf pos bytes) pos buflen rembits)

/-- `txrx_block` after its loop. -/
def txrxRest (tdi tdo : Option (List UInt8)) (pos rem : Nat) (last : Bool) : IoM ε (Option (List UInt8)) := do
  let whole := rem / 8
  if whole ≠ 0 then
    txBytes tdi tdo.isSome whole
  let tdi := tdi.map (·.drop whole)
  if whole ≥ txBuf - 4 then
    -- no space for the last data: the whole bytes are read now
    let tdo ← readTdo tdo pos whole
    txrxTail tdi tdo (pos + whole) 0 (rem % 8) last
  else
    txrxTail tdi tdo pos whole (rem % 8) last

def txrxBlock (tdi tdo : Option (List UInt8)) (length : Nat) (last : Bool) : IoM ε (Option (List UInt8)) := do
  let (tdi, tdo, pos, rem) ← txrxChunks tdi tdo 0 (if last then length - 1 else length)
  txrxRest tdi tdo pos rem last

/-- `shiftTDITDO`; a null pointer is none. -/
def shiftTDITDO (tdi tdo : Option (List UInt8)) (length : Nat) (last : Bool) : IoM ε (Option (List UInt8)) := do
  if length = 0 then
    return tdo
  flushTms false
  txrxBlock tdi tdo length last

/-- `ones` or `zeros`. -/
def block (tdi : Bool) : List UInt8 := List.replicate 128 (if tdi then 0xff else 0)

/-- The loop of `shift`, and the rest. -/
def shiftBlocks (tdi : Bool) (len : Nat) (last : Bool) : IoM ε Unit := do
  if _h : len > chunkBits then
    let _ ← txrxBlock (some (block tdi)) none chunkBits false
    shiftBlocks tdi (len - chunkBits) last
  else
    let _ ← shiftTDITDO (some (block tdi)) none len last
termination_by len
decreasing_by
  simp only [chunkBits] at *
  omega

def shift (tdi : Bool) (length : Nat) (last : Bool) : IoM ε Unit := do
  flushTms false
  shiftBlocks tdi length last

/-! ## Waiting -/

/-- The clocks `Usleep` waits for, in 32 bits. -/
def ticks (tckFreq usec : Nat) : Nat := (usec * (tckFreq / 100) + tckFreq / 100 + (2 ^ 32 - 1)) % 2 ^ 32 / 10000

/-- The zero bytes `Usleep` sends for a slow clock, with what is then left of the clocks. -/
def slowTicks (n : Nat) : IoM ε Unit := do
  if _h : n > 8 then
    mpsseAddCmd [0]
    slowTicks (n - 8)
  else if n ≠ 0 then
    -- `buf[1]` and `buf[2]` are set and not sent
    mpsseAddCmd [0x1b]
termination_by n
decreasing_by omega

/-- The commands of `Usleep` for so many clocks. -/
def toggleTck (hasFastClock : Bool) (n : Nat) : IoM ε Unit := do
  if hasFastClock then
    if n > 8 then
      mpsseAddCmd [0x8f, UInt8.ofNat (n / 8), UInt8.ofNat (n / 8 / 256)]
    let n := if n > 8 then n % 8 else n
    if n ≠ 0 then
      mpsseAddCmd [0x8e, UInt8.ofNat (n - 1)]
  else
    if n > 8 then
      mpsseAddCmd [0x19, UInt8.ofNat (n / 8), UInt8.ofNat (n / 8 / 256)]
    slowTicks n

def usleep (usec : Nat) : IoM ε Unit := do
  flushTms false
  if usec < 20000 then
    let io ← get
    toggleTck io.hasFastClock (ticks io.tckFreq usec)
  else
    -- and the process sleeps
    mpsseSend

end IoFtdi

/-- What `Jtag` calls of its `IOBase`. -/
class IoBase (ι : Type) where
  setTms : Bool → EStateM String ι Unit
  flushTms : Bool → EStateM String ι Unit
  shiftTDITDO : Option (List UInt8) → Option (List UInt8) → Nat → Bool → EStateM String ι (Option (List UInt8))
  shift : Bool → Nat → Bool → EStateM String ι Unit
  usleep : Nat → EStateM String ι Unit

instance {ε : Type} [Ftdi ε] [Host ε] : IoBase (IoFtdi ε) where
  setTms := IoFtdi.setTms
  flushTms := IoFtdi.flushTms
  shiftTDITDO := IoFtdi.shiftTDITDO
  shift := IoFtdi.shift
  usleep := IoFtdi.usleep

end Xc3s
end Fpga
