import FpgaServer.CableJtag
import FpgaServer.ChainJtag
import FpgaServer.ProgAlg
/-!
# Scans — the programming algorithm under a simulation

`ProgAlgXC3S` is made of four calls.  Where these simulate the calls of something else, the algorithm does
(`simulates_arrayProgram`), and what carries the calls of an `IOBase` carries the four.
-/
namespace Fpga
namespace Xc3s

open Base

/-- The calls of a `Scanner` simulate those of another. -/
structure Scans {ι τ : Type} [Scanner ι] [Scanner τ] (S : ∀ {α : Type}, EStateM String ι α → EStateM String τ α → Prop)
    (paced : Nat → Prop) : Prop where
  shiftIR : ∀ (tdi : List UInt8) (tdo : Option (List UInt8)), 1 ≤ tdi.length → (∀ buf ∈ tdo, 1 ≤ buf.length) →
    S (Scanner.shiftIR tdi tdo) (Scanner.shiftIR tdi tdo)
  shiftDR : ∀ (tdi tdo : Option (List UInt8)) (length : Nat), 0 < length → (∀ bytes ∈ tdi, length ≤ 8 * bytes.length) →
    (∀ buf ∈ tdo, length ≤ 8 * buf.length) → S (Scanner.shiftDR tdi tdo length) (Scanner.shiftDR tdi tdo length)
  cycleTCK : ∀ n, S (Scanner.cycleTCK n) (Scanner.cycleTCK n)
  usleep : ∀ usec, paced usec → S (Scanner.usleep usec) (Scanner.usleep usec)

namespace ProgAlgXC3S

variable {ι τ : Type} [Scanner ι] [Scanner τ] {S : ∀ {α : Type}, EStateM String ι α → EStateM String τ α → Prop} {paced : Nat → Prop}
  (hS : Simulation S) (h : Scans S paced)
include hS h

theorem simulates_load {instruction : List UInt8} (hi : 1 ≤ instruction.length) : S (load instruction) (load instruction) :=
  hS.bind (h.shiftIR instruction none hi (fun _ hb => by cases hb)) (fun _ => hS.pure ())

theorem simulates_poll {instruction : List UInt8} (hi : 1 ≤ instruction.length) (buf : UInt8) :
    S (poll instruction buf) (poll instruction buf) := by
  apply hS.bind
  · apply h.shiftIR instruction _ hi
    intro b hb
    rw [← Option.some.inj hb]
    exact Nat.le_refl 1
  · exact fun out => hS.pure _

theorem simulates_send {data : List UInt8} {length : Nat} (hpos : 0 < length) (hdata : length ≤ 8 * data.length) :
    S (send data length) (send data length) := by
  apply hS.bind
  · apply h.shiftDR (some data) none length hpos
    · intro bytes hb
      rw [← Option.some.inj hb]
      exact hdata
    · exact fun _ hb => by cases hb
  · exact fun _ => hS.pure ()

theorem simulates_flowEnable (family : Family) : S (flowEnable family) (flowEnable family) := by
  apply hS.bind (simulates_load hS h (by decide))
  intro _
  apply hS.bind (simulates_send hS h (by decide) (by decide))
  exact fun _ => h.cycleTCK _

theorem simulates_flowDisable (family : Family) : S (flowDisable family) (flowDisable family) := by
  apply hS.bind (simulates_load hS h (by decide))
  intro _
  apply hS.bind (h.cycleTCK _)
  intro _
  apply hS.bind (simulates_load hS h (by decide))
  intro _
  apply hS.bind (simulates_send hS h (by decide) (by decide))
  exact fun _ => h.cycleTCK _

theorem simulates_flowProgramLegacy (family : Family) {file : BitFile} (hfile : 0 < file.getLength) :
    S (flowProgramLegacy family file) (flowProgramLegacy family file) := by
  apply hS.bind (simulates_load hS h (by decide))
  intro _
  apply hS.bind (h.cycleTCK _)
  intro _
  apply hS.bind (simulates_load hS h (by decide))
  intro _
  apply hS.bind (simulates_send hS h hfile (Nat.mod_le _ _))
  intro _
  apply hS.bind (h.cycleTCK _)
  intro _
  apply hS.bind (simulates_load hS h (by decide))
  intro _
  apply hS.bind (h.cycleTCK _)
  intro _
  apply hS.bind (simulates_load hS h (by decide))
  intro _
  apply hS.bind (simulates_send hS h (by decide) (by decide))
  exact fun _ => h.cycleTCK _

theorem simulates_waitCleared : ∀ (turns : Nat) (buf : UInt8), S (waitCleared turns buf) (waitCleared turns buf)
  | 0, _ => hS.pure none
  | turns + 1, buf => by
    unfold waitCleared
    apply hS.bind (simulates_poll hS h (by decide) buf)
    intro buf'
    by_cases hclear : buf' &&& 0x10 ≠ 0
    · rw [if_pos hclear, if_pos hclear]
      exact hS.pure _
    · rw [if_neg hclear, if_neg hclear]
      exact simulates_waitCleared turns buf'

theorem simulates_readDna (family : Family) : S (readDna family) (readDna family) := by
  cases family with
  | xc6s =>
    apply hS.bind (simulates_load hS h (by decide))
    intro _
    apply hS.bind (simulates_load hS h (by decide))
    intro _
    apply hS.bind
    · apply h.shiftDR none _ 64 (by decide)
      · exact fun _ hb => by cases hb
      · intro buf hb
        rw [← Option.some.inj hb]
        decide
    · exact fun _ => h.cycleTCK 1
  | xc7 => exact hS.pure ()

theorem simulates_waitUp (hpaced : paced 1000) : ∀ (left : Nat) (buf : UInt8), S (waitUp left buf) (waitUp left buf)
  | 0, _ => hS.pure 0
  | left + 1, buf => by
    unfold waitUp
    by_cases hup : buf &&& 0x23 ≠ 0x21
    · rw [if_pos hup, if_pos hup]
      apply hS.bind (simulates_poll hS h (by decide) buf)
      intro buf'
      exact hS.bind (h.usleep 1000 hpaced) (fun _ => simulates_waitUp hpaced left buf')
    · rw [if_neg hup, if_neg hup]
      exact hS.pure _

/-- **The algorithm simulates the algorithm**, for a bitfile with data. -/
theorem simulates_arrayProgram (hpaced : paced 1000) (family : Family) {file : BitFile} (hfile : 0 < file.getLength) (turns : Nat) :
    S (arrayProgram family file turns) (arrayProgram family file turns) := by
  unfold arrayProgram
  apply hS.bind (simulates_flowEnable hS h family)
  intro _
  apply hS.bind (simulates_load hS h (by decide))
  intro _
  apply hS.bind (simulates_waitCleared hS h turns 0)
  intro cleared
  cases cleared with
  | none => exact hS.pure none
  | some buf =>
    apply hS.bind (simulates_readDna hS h family)
    intro _
    apply hS.bind (simulates_flowProgramLegacy hS h family hfile)
    intro _
    apply hS.bind (simulates_flowDisable hS h family)
    intro _
    apply hS.bind (simulates_waitUp hS h hpaced 50 buf)
    intro left
    by_cases hleft : left = 0
    · rw [if_pos hleft, if_pos hleft]
      exact hS.bind (hS.throw _) (fun _ => hS.pure _)
    · rw [if_neg hleft, if_neg hleft]
      exact hS.pure _

end ProgAlgXC3S

/-! ## On a cable -/

/-- What carries the calls of `IOBase` carries the four calls. -/
theorem scans_carried {ι τ : Type} [IoBase ι] [IoBase τ] {I G : ι → Prop} {view : ι → τ} {paced : Nat → Prop}
    (h : Carries I G view paced) :
    Scans (fun {α} (x : EStateM String (Jtag ι) α) y => Jtag.RetracesOn I Jtag.Short G view x y) paced where
  shiftIR _ _ hi hroom := Jtag.retraces_shiftIR h hi hroom
  shiftDR _ _ _ _ hdata hroom := Jtag.retraces_shiftDR h 0 true hdata hroom
  cycleTCK n := Jtag.retraces_onIo (h.shift true n false)
  usleep usec hpaced := Jtag.retraces_onIo (h.usleep usec hpaced)

end Xc3s
end Fpga
