import Mathlib.Data.Nat.Bitwise
import FpgaServer.Transducer
/-!
# Command — the register command format

A command is a stream of big-endian 16-bit words: a header with the opcode in its top four bits and address and port in
six bits each, then by opcode nothing (`READREG`), a value (`WRITEREG`), a count (`READREG_N`), or a count and as many
words (`WRITEREG_N`).  `commandParser` is the reference reader of the byte stream: it emits a command when it is complete, and a
store whenever a data word of a write arrives.  It stops at a header with any other opcode.
-/
namespace Fpga

open Base (Transducer)

def cmdReadReg : UInt16 := 1
def cmdWriteReg : UInt16 := 2
def cmdReadRegN : UInt16 := 3
def cmdWriteRegN : UInt16 := 4

/-- The header word of `Device.cpp`. -/
def header (cmd : UInt16) (addr port : UInt8) : UInt16 :=
  (cmd <<< 12) ||| ((addr.toUInt16 &&& 0x3f) <<< 6) ||| (port.toUInt16 &&& 0x3f)

/-- The bytes of `htobe16(w)` in memory. -/
def be16 (w : UInt16) : List UInt8 := [(w >>> 8).toUInt8, w.toUInt8]

/-- `be16toh` of two bytes in memory. -/
def ofBe16 (b c : UInt8) : UInt16 := (b.toUInt16 <<< 8) ||| c.toUInt16

/-- A byte buffer read as big-endian words; an odd last byte is not part of any. -/
def words : List UInt8 → List UInt16
  | b :: c :: l => ofBe16 b c :: words l
  | _ => []

theorem header_toNat {cmd : UInt16} (h : cmd.toNat < 16) (addr port : UInt8) :
    (header cmd addr port).toNat = cmd.toNat * 4096 + (addr.toNat % 64 * 64 + port.toNat % 64) := by
  have hand : ∀ n : Nat, n &&& 63 = n % 64 := fun n => Nat.and_two_pow_sub_one_eq_mod n 6
  have hp : port.toNat % 64 < 2 ^ 6 := Nat.mod_lt _ (by decide)
  have hlow : (addr.toNat % 64) <<< 6 ||| port.toNat % 64 = addr.toNat % 64 * 64 + port.toNat % 64 := by
    rw [← Nat.shiftLeft_add_eq_or_of_lt hp, Nat.shiftLeft_eq]
  simp only [header, UInt16.toNat_or, UInt16.toNat_shiftLeft, UInt16.toNat_and, UInt8.toNat_toUInt16,
    UInt16.reduceToNat, hand, Nat.reduceMod]
  rw [Nat.mod_eq_of_lt (b := 2 ^ 16) (by rw [Nat.shiftLeft_eq]; omega),
    Nat.mod_eq_of_lt (b := 2 ^ 16) (by rw [Nat.shiftLeft_eq]; omega), Nat.or_assoc, hlow,
    ← Nat.shiftLeft_add_eq_or_of_lt (by omega), Nat.shiftLeft_eq]

theorem ofBe16_toNat (b c : UInt8) : (ofBe16 b c).toNat = b.toNat * 256 + c.toNat := by
  have hb := b.toNat_lt
  have hc := c.toNat_lt
  simp only [ofBe16, UInt16.toNat_or, UInt16.toNat_shiftLeft, UInt8.toNat_toUInt16, UInt16.reduceToNat, Nat.reduceMod]
  rw [Nat.mod_eq_of_lt (b := 2 ^ 16) (by rw [Nat.shiftLeft_eq]; omega), ← Nat.shiftLeft_add_eq_or_of_lt (by omega),
    Nat.shiftLeft_eq]

theorem ofBe16_be16 (w : UInt16) : ofBe16 (w >>> 8).toUInt8 w.toUInt8 = w := by
  have hw := w.toNat_lt
  refine UInt16.toNat_inj.1 ?_
  rw [ofBe16_toNat]
  simp only [UInt16.toNat_toUInt8, UInt16.toNat_shiftRight, UInt16.reduceToNat, Nat.reduceMod, Nat.shiftRight_eq_div_pow]
  omega

theorem be16_ofBe16 (b c : UInt8) : be16 (ofBe16 b c) = [b, c] := by
  have hb := b.toNat_lt
  have hc := c.toNat_lt
  simp only [be16, List.cons.injEq, and_true, ← UInt8.toNat_inj, UInt16.toNat_toUInt8, UInt16.toNat_shiftRight,
    ofBe16_toNat, UInt16.reduceToNat, Nat.reduceMod, Nat.shiftRight_eq_div_pow]
  omega

@[simp] theorem length_be16s (ws : List UInt16) : (ws.flatMap be16).length = 2 * ws.length := by
  simp [List.length_flatMap, be16]
  omega

/-- Words read from whole bytes are those bytes. -/
theorem be16s_words : ∀ {bytes : List UInt8} {n : Nat}, bytes.length = 2 * n → (words bytes).flatMap be16 = bytes
  | [], _, _ => rfl
  | [b], n, h => by simp only [List.length_singleton] at h; omega
  | b :: c :: bytes, 0, h => by simp at h
  | b :: c :: bytes, n + 1, h => by
    have ih : (words bytes).flatMap be16 = bytes := be16s_words (n := n) (by simp only [List.length_cons] at h; omega)
    rw [words, List.flatMap_cons, ih, be16_ofBe16]
    rfl

theorem length_words : ∀ {bytes : List UInt8} {n : Nat}, bytes.length = 2 * n → (words bytes).length = n := by
  intro bytes n h
  have := congrArg List.length (be16s_words h)
  rw [length_be16s] at this
  omega

theorem words_be16s : ∀ (ws : List UInt16), words (ws.flatMap be16) = ws
  | [] => rfl
  | w :: ws => by
    have ih := words_be16s ws
    simp only [List.flatMap_cons, be16, List.cons_append, List.nil_append, words, ofBe16_be16] at ih ⊢
    rw [ih]

/-! ## Commands and the reference parser -/

/-- A register: the six address bits and the six port bits of a header. -/
structure Reg where
  addr : Nat
  port : Nat
  deriving DecidableEq, Repr

/-- The register a caller's address and port name on the wire: their low six bits. -/
def Reg.of (addr port : UInt8) : Reg := ⟨addr.toNat % 64, port.toNat % 64⟩

inductive Command where
  | readReg (r : Reg)
  | writeReg (r : Reg) (value : UInt16)
  | readRegN (r : Reg) (count : Nat)
  | writeRegN (r : Reg) (data : List UInt16)
  deriving DecidableEq, Repr

inductive Event where
  | store (r : Reg) (value : UInt16)
  | command (c : Command)
  deriving DecidableEq, Repr

/-- What the next word is. -/
inductive Phase where
  | header
  | value (r : Reg)
  | readCount (r : Reg)
  | writeCount (r : Reg)
  | data (r : Reg) (left : Nat) (got : List UInt16)
  | bad
  deriving DecidableEq, Repr

/-- The phase, and the first byte of a word whose second has not arrived. -/
structure ParserState where
  phase : Phase
  half : Option UInt8
  deriving DecidableEq, Repr

/-- A command boundary: nothing is left over. -/
def boundary : ParserState := ⟨.header, none⟩

def stepHeader (w : UInt16) : Phase × List Event :=
  let r : Reg := ⟨w.toNat / 64 % 64, w.toNat % 64⟩
  match w.toNat / 4096 with
  | 1 => (.header, [.command (.readReg r)])
  | 2 => (.value r, [])
  | 3 => (.readCount r, [])
  | 4 => (.writeCount r, [])
  | _ => (.bad, [])

def stepWord : Phase → UInt16 → Phase × List Event
  | .header, w => stepHeader w
  | .value r, w => (.header, [.store r w, .command (.writeReg r w)])
  | .readCount r, w => (.header, [.command (.readRegN r w.toNat)])
  | .writeCount r, w => if w.toNat = 0 then (.header, [.command (.writeRegN r [])]) else (.data r w.toNat [], [])
  | .data r left got, w =>
    if left ≤ 1 then (.header, [.store r w, .command (.writeRegN r (got ++ [w]))])
    else (.data r (left - 1) (got ++ [w]), [.store r w])
  | .bad, _ => (.bad, [])

def commandParser : Transducer UInt8 ParserState Event where
  step s b :=
    match s.half with
    | none => (⟨s.phase, some b⟩, [])
    | some a => (⟨(stepWord s.phase (ofBe16 a b)).1, none⟩, (stepWord s.phase (ofBe16 a b)).2)

def Event.command? : Event → Option Command
  | .command c => some c
  | .store _ _ => none

def Event.store? : Event → Option (Reg × UInt16)
  | .store r w => some (r, w)
  | .command _ => none

/-- How many words the command asks back. -/
def Event.requested : Event → Nat
  | .command (.readReg _) => 1
  | .command (.readRegN _ n) => n
  | _ => 0

theorem run_be16 (p : Phase) (w : UInt16) :
    commandParser.run ⟨p, none⟩ (be16 w) = (⟨(stepWord p w).1, none⟩, (stepWord p w).2) := by
  simp only [be16, Transducer.run, commandParser, ofBe16_be16, List.append_nil, List.nil_append]

theorem run_be16_append (p : Phase) (w : UInt16) (bs : List UInt8) :
    commandParser.run ⟨p, none⟩ (be16 w ++ bs) = ((commandParser.run ⟨(stepWord p w).1, none⟩ bs).1,
      (stepWord p w).2 ++ (commandParser.run ⟨(stepWord p w).1, none⟩ bs).2) := by
  rw [Transducer.run_append, run_be16]

/-- A header is read back as its opcode's phase and its register. -/
theorem stepHeader_header (cmd : UInt16) (h : cmd.toNat < 16) (addr port : UInt8) :
    stepHeader (header cmd addr port) = match cmd.toNat with
      | 1 => (.header, [.command (.readReg (Reg.of addr port))])
      | 2 => (.value (Reg.of addr port), [])
      | 3 => (.readCount (Reg.of addr port), [])
      | 4 => (.writeCount (Reg.of addr port), [])
      | _ => (.bad, []) := by
  have hn := header_toNat h addr port
  have hop : (header cmd addr port).toNat / 4096 = cmd.toNat := by omega
  have hr : (⟨(header cmd addr port).toNat / 64 % 64, (header cmd addr port).toNat % 64⟩ : Reg) = Reg.of addr port := by
    simp only [Reg.of, Reg.mk.injEq]
    omega
  simp only [stepHeader, hop, hr]

/-! ## The packets of the five operations -/

def readRegPacket (addr port : UInt8) : List UInt8 := be16 (header cmdReadReg addr port)

def writeRegPacket (addr port : UInt8) (value : UInt16) : List UInt8 :=
  be16 (header cmdWriteReg addr port) ++ be16 value

def readRegNPacket (addr port : UInt8) (n : Nat) : List UInt8 :=
  be16 (header cmdReadRegN addr port) ++ be16 (UInt16.ofNat n)

def writeRegNPacket (addr port : UInt8) (data : List UInt16) : List UInt8 :=
  be16 (header cmdWriteRegN addr port) ++ be16 (UInt16.ofNat data.length) ++ data.flatMap be16

theorem reads_readRegPacket (addr port : UInt8) :
    commandParser.Reads boundary (readRegPacket addr port) [.command (.readReg (Reg.of addr port))] := by
  have h := stepHeader_header cmdReadReg (by decide) addr port
  rw [Transducer.Reads, boundary, readRegPacket, run_be16, stepWord, h]
  rfl

theorem reads_writeRegPacket (addr port : UInt8) (value : UInt16) :
    commandParser.Reads boundary (writeRegPacket addr port value)
      [.store (Reg.of addr port) value, .command (.writeReg (Reg.of addr port) value)] := by
  have h := stepHeader_header cmdWriteReg (by decide) addr port
  rw [Transducer.Reads, boundary, writeRegPacket, run_be16_append, stepWord, h]
  simp only [cmdWriteReg, UInt16.reduceToNat, run_be16, stepWord, List.nil_append]

theorem reads_readRegNPacket (addr port : UInt8) {n : Nat} (hn : n < 65536) :
    commandParser.Reads boundary (readRegNPacket addr port n) [.command (.readRegN (Reg.of addr port) n)] := by
  have h := stepHeader_header cmdReadRegN (by decide) addr port
  rw [Transducer.Reads, boundary, readRegNPacket, run_be16_append, stepWord, h]
  simp only [cmdReadRegN, UInt16.reduceToNat, run_be16, stepWord, List.nil_append, UInt16.toNat_ofNat_of_lt' hn]

/-- The data words of a packet, from any point of it on. -/
theorem run_data (r : Reg) : ∀ (ws got : List UInt16), ws ≠ [] →
    commandParser.run ⟨.data r ws.length got, none⟩ (ws.flatMap be16) =
      (boundary, ws.map (Event.store r) ++ [.command (.writeRegN r (got ++ ws))])
  | [w], got, _ => by
    simp only [List.flatMap_cons, List.flatMap_nil, List.append_nil, run_be16, stepWord, List.length_singleton,
      Nat.le_refl, if_true, List.map_cons, List.map_nil, List.cons_append, List.nil_append]
    rfl
  | w :: v :: ws, got, _ => by
    have ih := run_data r (v :: ws) (got ++ [w]) (by simp)
    rw [List.flatMap_cons, run_be16_append]
    have hstep : stepWord (.data r (w :: v :: ws).length got) w =
        (.data r (v :: ws).length (got ++ [w]), [.store r w]) := by
      simp [stepWord]
    rw [hstep, ih]
    simp

theorem reads_writeRegNPacket (addr port : UInt8) {data : List UInt16} (hne : data ≠ []) (hn : data.length < 65536) :
    commandParser.Reads boundary (writeRegNPacket addr port data) (data.map (Event.store (Reg.of addr port)) ++
      [.command (.writeRegN (Reg.of addr port) data)]) := by
  have h := stepHeader_header cmdWriteRegN (by decide) addr port
  have hpos : data.length ≠ 0 := fun h0 => hne (List.eq_nil_of_length_eq_zero h0)
  rw [Transducer.Reads, boundary, writeRegNPacket, List.append_assoc, run_be16_append, stepWord, h]
  simp only [cmdWriteRegN, UInt16.reduceToNat, run_be16_append, stepWord, List.nil_append,
    UInt16.toNat_ofNat_of_lt' hn, if_neg hpos, run_data _ data [] hne]
  rfl

end Fpga
