import FpgaServer.Cable
import FpgaServer.Wires
/-!
# Shifts — the commands of a transfer, and what is read of it

Each command `IoFtdi` adds is the clocks of `Wires` for the engine at the other end.  A `Transfer` has clocked the target, has
been answered and has read no more than the answers; where nothing is owed after it, nothing was owed before and the bytes read
are the answers (`Transfer.settled`).
-/
namespace Fpga
namespace Xc3s

open Base

variable {σ : Type} [Target σ]

/-- The engine cycled, and answers waiting. -/
def Link.cycled (l : Link σ) (cs : List Clock) (answers : List UInt8) : Link σ := ⟨l.engine.cycle cs, l.owed ++ answers⟩

theorem Link.cycled_cycled (l : Link σ) (cs ds : List Clock) (as bs : List UInt8) :
    (l.cycled cs as).cycled ds bs = l.cycled (cs ++ ds) (as ++ bs) := by
  simp only [cycled, Engine.cycle_append, List.append_assoc]

theorem Link.cycled_nil (l : Link σ) : l.cycled [] [] = l := by
  simp [cycled]

/-! ## TMS -/

namespace IoFtdi

theorem toNat_tmsByte {levels : List Bool} (h : levels.length ≤ 6) : (tmsByte levels).toNat = 128 + ofBits levels := by
  have hlt : ofBits levels < 2 ^ 7 :=
    Nat.lt_of_lt_of_le (ofBits_lt levels) (Nat.pow_le_pow_right (by decide) (by omega))
  rw [tmsByte, UInt8.toNat_or, toNat_byteOf (by omega)]
  exact (Nat.two_pow_add_eq_or_of_lt hlt 1).symm

/-- The operand gives the levels back, lowest bit first. -/
theorem bits_tmsByte {levels : List Bool} (h : levels.length ≤ 6) : bits levels.length (tmsByte levels).toNat = levels := by
  have hmod : (128 + ofBits levels) % 2 ^ levels.length = ofBits levels := by
    have hdvd : 2 ^ levels.length ∣ 128 := Nat.pow_dvd_pow 2 (show levels.length ≤ 7 by omega)
    obtain ⟨k, hk⟩ := hdvd
    rw [hk, Nat.mul_add_mod, Nat.mod_eq_of_lt (ofBits_lt levels)]
  rw [toNat_tmsByte h, ← bits_mod, hmod, bits_ofBits]

/-- TDI is high with every TMS level. -/
theorem testBit_tmsByte {levels : List Bool} (h : levels.length ≤ 6) : (tmsByte levels).toNat.testBit 7 = true := by
  have hlt : ofBits levels < 2 ^ 7 :=
    Nat.lt_of_lt_of_le (ofBits_lt levels) (Nat.pow_le_pow_right (by decide) (by omega))
  have htop : (2 ^ 7 + ofBits levels).testBit 7 = true := by
    rw [Nat.testBit_two_pow_add_eq, Nat.testBit_lt_two_pow hlt]
    rfl
  rw [toNat_tmsByte h]
  exact htop

/-- The command for a group of levels. -/
def tmsCommand (levels : List Bool) : List UInt8 := [0x4b, UInt8.ofNat (levels.length - 1), tmsByte levels]

theorem fed_tmsCommand {l : Link σ} (hl : l.engine.expect = .command) {levels : List Bool} (hpos : levels ≠ [])
    (h : levels.length ≤ 6) : l.fed (tmsCommand levels) = l.cycled (tmsClocks true levels) [] := by
  have hlen := List.length_pos_iff.2 hpos
  have hcount : (UInt8.ofNat (levels.length - 1)).toNat % 8 + 1 = levels.length := by
    rw [UInt8.toNat_ofNat_of_lt' (by simp only [UInt8.size]; omega)]
    omega
  have hdecode : Mpsse.decode 0x4b = some (.tms false) := rfl
  rw [Link.fed, tmsCommand, Engine.run_tms hl hdecode, hcount, bits_tmsByte h, testBit_tmsByte h]
  rfl

theorem fed_tmsCommands : ∀ (gs : List (List Bool)) {l : Link σ}, l.engine.expect = .command →
    (∀ g ∈ gs, g ≠ [] ∧ g.length ≤ 6) → l.fed (gs.flatMap tmsCommand) = l.cycled (tmsClocks true gs.flatten) []
  | [], l, _, _ => by
    rw [List.flatMap_nil, Link.fed_nil, List.flatten_nil]
    exact (Link.cycled_nil l).symm
  | g :: gs, l, hl, h => by
    obtain ⟨hg, hlen⟩ := h g List.mem_cons_self
    have hrest := fed_tmsCommands gs (l := l.cycled (tmsClocks true g) []) hl
      (fun g' hg' => h g' (List.mem_cons_of_mem _ hg'))
    rw [List.flatMap_cons, Link.fed_append, fed_tmsCommand hl hg hlen, hrest, Link.cycled_cycled, List.flatten_cons,
      tmsClocks_append]
    rfl

/-! ## Data -/

/-- The bytes of `txBytes`. -/
def bytesCommand (tdi : Option (List UInt8)) (tdo : Bool) (buflen : Nat) : List UInt8 :=
  [dataCommand tdi.isSome tdo, UInt8.ofNat (buflen - 1), UInt8.ofNat ((buflen - 1) / 256)] ++ ((tdi.map (·.take buflen)).getD [])

/-- The bytes of `txBits`. -/
def bitsCommand (tdi : Option (List UInt8)) (tdo : Bool) (rembits : Nat) : List UInt8 :=
  [dataCommand tdi.isSome tdo ||| 0x02, UInt8.ofNat (rembits - 1)] ++ ((tdi.map (·.take 1)).getD [])

/-- Whole bytes of data: TDI as it is held where there are none. -/
def wholeBits (held : Bool) (tdi : Option (List UInt8)) (n : Nat) : List Bool :=
  match tdi with
  | some bytes => bytesBits (bytes.take n)
  | none => List.replicate (8 * n) held

/-- The bits after them. -/
def restBits (held : Bool) (tdi : Option (List UInt8)) (n : Nat) : List Bool :=
  match tdi with
  | some bytes => (bytesBits bytes).take n
  | none => List.replicate n held

/-- The bit that goes with TMS high. -/
def lastBit (tdi : Option (List UInt8)) (rembits : Nat) : Bool :=
  match tdi with
  | some bytes => (bytes.headD 0).toNat.testBit rembits
  | none => false

/-- Where a shift reads TDI or writes TDO, its commands are commands of the engine. -/
theorem decode_dataCommand {tdi tdo : Bool} (h : tdi = true ∨ tdo = true) :
    Mpsse.decode (dataCommand tdi tdo) = some (.bytes tdi tdo) ∧
      Mpsse.decode (dataCommand tdi tdo ||| 0x02) = some (.bits tdi tdo) := by
  cases tdi <;> cases tdo
  · simp at h
  · exact ⟨rfl, rfl⟩
  · exact ⟨rfl, rfl⟩
  · exact ⟨rfl, rfl⟩

theorem toNat_operands {n : Nat} (hpos : 0 < n) (h : n ≤ 65536) :
    (UInt8.ofNat (n - 1)).toNat + 256 * (UInt8.ofNat ((n - 1) / 256)).toNat + 1 = n := by
  simp only [UInt8.toNat_ofNat']
  omega

theorem toNat_operand {n : Nat} (hpos : 0 < n) (h : n ≤ 8) : (UInt8.ofNat (n - 1)).toNat % 8 + 1 = n := by
  simp only [UInt8.toNat_ofNat']
  omega

/-- A command for bytes clocks them, and is answered with TDO, packed. -/
theorem fed_bytesCommand {l : Link σ} (hl : l.engine.expect = .command) {tdi : Option (List UInt8)} {tdo : Bool}
    (hany : tdi.isSome = true ∨ tdo = true) {n : Nat} (hpos : 0 < n) (hn : n ≤ 65536) (hlen : ∀ bytes ∈ tdi, n ≤ bytes.length) :
    l.fed (bytesCommand tdi tdo n) = l.cycled (l.engine.pins.holding (wholeBits l.engine.pins.tdi tdi n))
      (if tdo then packBits (l.engine.pins.shown (l.engine.pins.holding (wholeBits l.engine.pins.tdi tdi n))) else []) := by
  have hdecode := (decode_dataCommand hany).1
  cases tdi with
  | some bytes =>
    have hdata : (bytes.take n).length =
        (UInt8.ofNat (n - 1)).toNat + 256 * (UInt8.ofNat ((n - 1) / 256)).toNat + 1 := by
      rw [toNat_operands hpos hn, List.length_take, Nat.min_eq_left (hlen bytes rfl)]
    have hrun := Engine.run_bytes hl hdecode hdata
    rw [Link.fed, bytesCommand, Option.map_some, Option.getD_some, hrun]
    rfl
  | none =>
    have htdo : tdo = true := by simpa using hany
    subst htdo
    have hrun := Engine.run_readBytes hl hdecode (UInt8.ofNat (n - 1)) (UInt8.ofNat ((n - 1) / 256))
    rw [toNat_operands hpos hn] at hrun
    rw [Link.fed, bytesCommand, Option.map_none, Option.getD_none, List.append_nil, hrun]
    rfl

/-- A command for bits is answered with the register of TDO. -/
theorem fed_bitsCommand {l : Link σ} (hl : l.engine.expect = .command) {tdi : Option (List UInt8)} {tdo : Bool}
    (hany : tdi.isSome = true ∨ tdo = true) {n : Nat} (hpos : 0 < n) (hn : n ≤ 8) (hlen : ∀ bytes ∈ tdi, 0 < bytes.length) :
    l.fed (bitsCommand tdi tdo n) = l.cycled (l.engine.pins.holding (restBits l.engine.pins.tdi tdi n))
      ((l.engine.cycle (l.engine.pins.holding (restBits l.engine.pins.tdi tdi n))).answer tdo) := by
  have hdecode := (decode_dataCommand hany).2
  cases tdi with
  | some bytes =>
    cases bytes with
    | nil => exact absurd (hlen [] rfl) (Nat.lt_irrefl 0)
    | cons b bytes =>
      have hbits : restBits l.engine.pins.tdi (some (b :: bytes)) n = bits n b.toNat := by
        rw [restBits, bytesBits_cons, List.take_append_of_le_length (by simpa using hn), byteBits, take_bits hn]
      have hrun := Engine.run_bits hl hdecode (UInt8.ofNat (n - 1)) b
      rw [toNat_operand hpos hn] at hrun
      rw [hbits, Link.fed, bitsCommand, Option.map_some, Option.getD_some, List.take_succ_cons, List.take_zero]
      exact congrArg (fun r => (⟨r.1, l.owed ++ r.2⟩ : Link σ)) hrun
  | none =>
    have htdo : tdo = true := by simpa using hany
    subst htdo
    have hrun := Engine.run_readBits hl hdecode (UInt8.ofNat (n - 1))
    rw [toNat_operand hpos hn] at hrun
    rw [Link.fed, bitsCommand, Option.map_none, Option.getD_none, List.append_nil, hrun]
    rfl

/-- The bytes of `txLast`. -/
def lastCommand (tdi : Option (List UInt8)) (tdo : Bool) (rembits : Nat) : List UInt8 :=
  [0x4b ||| (if tdo then 0x24 else 0), 0, if lastBit tdi rembits then 0x81 else 1]

theorem fed_lastCommand {l : Link σ} (hl : l.engine.expect = .command) (tdi : Option (List UInt8)) (tdo : Bool) (n : Nat) :
    l.fed (lastCommand tdi tdo n) =
      l.cycled [⟨true, lastBit tdi n⟩] ((l.engine.cycle [⟨true, lastBit tdi n⟩]).answer tdo) := by
  have hdecode : Mpsse.decode (0x4b ||| (if tdo then 0x24 else 0)) = some (.tms tdo) := by cases tdo <;> rfl
  have hrun := Engine.run_tms hl hdecode 0 (if lastBit tdi n then 0x81 else 1)
  have hclock : tmsClocks ((if lastBit tdi n then 0x81 else 1 : UInt8).toNat.testBit 7)
      (bits ((0 : UInt8).toNat % 8 + 1) (if lastBit tdi n then 0x81 else 1 : UInt8).toNat) = [⟨true, lastBit tdi n⟩] := by
    cases lastBit tdi n <;> rfl
  rw [hclock] at hrun
  rw [Link.fed, lastCommand, hrun]
  rfl

/-! ## What is added to `usbuf` -/

variable [Host (Chip σ)]

/-- The commands of `tx_tms`. -/
theorem emits_txTms (pat : List Bool) (force : Bool) :
    Emits ((chunksOf 6 pat).flatMap tmsCommand) (txTms pat force : IoM (Chip σ) Unit) := by
  unfold txTms
  by_cases hempty : pat = []
  · subst hempty
    rw [chunksOf_nil]
    exact Emits.pure ()
  · rw [if_neg (by simpa using hempty)]
    have hsend : Emits [] (if force then mpsseSend else pure () : IoM (Chip σ) Unit) := by
      cases force
      · exact Emits.pure ()
      · exact emits_mpsseSend
    have hall := (Emits.forM (fun levels => emits_mpsseAddCmd (tmsCommand levels)) (chunksOf 6 pat)).bind (fun _ => hsend)
    rw [List.append_nil] at hall
    exact hall

theorem emits_txBytes (tdi : Option (List UInt8)) (tdo : Bool) (buflen : Nat) :
    Emits (bytesCommand tdi tdo buflen) (txBytes tdi tdo buflen : IoM (Chip σ) Unit) := by
  unfold txBytes bytesCommand
  cases tdi with
  | none => exact (emits_mpsseAddCmd _).bind (fun _ => Emits.pure ())
  | some bytes => exact (emits_mpsseAddCmd _).bind (fun _ => emits_mpsseAddCmd _)

theorem emits_txBits (tdi : Option (List UInt8)) (tdo : Bool) (rembits : Nat) :
    Emits (bitsCommand tdi tdo rembits) (txBits tdi tdo rembits : IoM (Chip σ) Unit) := by
  unfold txBits bitsCommand
  cases tdi with
  | none => exact (emits_mpsseAddCmd _).bind (fun _ => Emits.pure ())
  | some bytes => exact (emits_mpsseAddCmd _).bind (fun _ => emits_mpsseAddCmd _)

theorem emits_txLast (tdi : Option (List UInt8)) (tdo : Bool) (rembits : Nat) :
    Emits (lastCommand tdi tdo rembits) (txLast tdi tdo rembits : IoM (Chip σ) Unit) := by
  cases tdi <;> exact emits_mpsseAddCmd _

end IoFtdi
end Xc3s
end Fpga
