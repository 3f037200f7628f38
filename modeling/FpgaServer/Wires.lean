import FpgaServer.IoFtdi
import FpgaServer.Tap
/-!
# Wires — what the calls of `IOBase` are for

The same calls on the lines of a target themselves: a TMS level is a clock with TDI high, a shift is a clock for every bit, and
what is read are the levels of TDO, eight to a byte.  Nothing is buffered and nothing can fail.  `IoFtdi` on a working cable does
no more and no less (`Cable`), and what `Jtag` does with it is said about these.
-/
namespace Fpga
namespace Xc3s

open Base

/-- The lines, with what `Usleep` goes by. -/
structure Wires (σ : Type) where
  pins : Pins σ
  hasFastClock : Bool
  tckFreq : Nat

/-- The bits of a shift.  Without data TDI stays as it is held, and is low with the last bit. -/
def tdiBits (held : Bool) (tdi : Option (List UInt8)) (length : Nat) (last : Bool) : List Bool :=
  match tdi with
  | some bytes => (bytesBits bytes).take length
  | none => if last then (List.replicate (length - 1) held ++ [false]).take length else List.replicate length held

theorem length_tdiBits {held : Bool} {tdi : Option (List UInt8)} {n : Nat} {last : Bool}
    (hlen : ∀ bytes ∈ tdi, n ≤ 8 * bytes.length) :
    (tdiBits held tdi n last).length = n := by
  cases tdi with
  | some bytes => rw [tdiBits, List.length_take, length_bytesBits, Nat.min_eq_left (hlen bytes rfl)]
  | none =>
    cases last with
    | false => exact List.length_replicate
    | true =>
      have hle : n ≤ (List.replicate (n - 1) held ++ [false]).length := by
        rw [List.length_append, List.length_replicate, List.length_singleton]
        omega
      exact List.length_take_of_le hle

/-- The bits on TDI while `Usleep` waits. -/
def idleBits (hasFastClock held : Bool) (n : Nat) : List Bool :=
  if hasFastClock then
    List.replicate ((if n > 8 then 8 * (n / 8 + 1) + n % 8 else n)) held
  else
    bytesBits (List.replicate (n / 8) 0 ++ [0x1b])

namespace Wires

variable {σ : Type} [Target σ]

def clocked (w : Wires σ) (cs : List Clock) : Wires σ := { w with pins := w.pins.clocked cs }

def setTms (val : Bool) : EStateM String (Wires σ) Unit := modify (·.clocked [⟨val, true⟩])

/-- The clocks of a shift. -/
def shiftClocks (w : Wires σ) (tdi : Option (List UInt8)) (length : Nat) (last : Bool) : List Clock :=
  scan w.pins.tms last (tdiBits w.pins.tdi tdi length last)

def shiftTDITDO (tdi tdo : Option (List UInt8)) (length : Nat) (last : Bool) :
    EStateM String (Wires σ) (Option (List UInt8)) :=
  modifyGet (fun w =>
    (tdo.map (fun buf => store buf 0 (packBits (w.pins.shown (w.shiftClocks tdi length last)))),
      w.clocked (w.shiftClocks tdi length last)))

def shift (tdi : Bool) (length : Nat) (last : Bool) : EStateM String (Wires σ) Unit :=
  modify (fun w => w.clocked (scan w.pins.tms last (List.replicate length tdi)))

def usleep (usec : Nat) : EStateM String (Wires σ) Unit :=
  modify (fun w =>
    if usec < 20000 then
      w.clocked (w.pins.holding (idleBits w.hasFastClock w.pins.tdi (IoFtdi.ticks w.tckFreq usec)))
    else w)

end Wires

instance {σ : Type} [Target σ] : IoBase (Wires σ) where
  setTms := Wires.setTms
  flushTms _ := pure ()
  shiftTDITDO := Wires.shiftTDITDO
  shift := Wires.shift
  usleep := Wires.usleep

end Xc3s
end Fpga
