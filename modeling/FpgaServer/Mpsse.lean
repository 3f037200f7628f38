import FpgaServer.Tap
/-!
# Mpsse — a byte stream that drives test access pins

The serial engine of the FTDI chips, as far as one uses it for JTAG: a command byte with its operands sets the pins or clocks
some bits, the lowest bit of a byte first, and the commands that read answer with a byte for every eight bits.  TDO goes into a
register from its top; a byte of fewer bits is that register as it stands, with bits of earlier reads below.  `mpsse` reads one
byte at a time, so that it does not matter how the stream comes in (`Transducer.run_append`); one lemma for each form of command
says which clocks the whole command is.
-/
namespace Base

namespace Mpsse

/-- The commands, with what each may do besides: write TDI, read TDO. -/
inductive Command where
  | setBitsLow
  | setBitsHigh
  | tckDivisor
  | undivided
  | sendImmediate
  | clockBits
  | clockBytes
  | bytes (write read : Bool)
  | bits (write read : Bool)
  | tms (read : Bool)
  deriving DecidableEq, Repr

def commands : List (UInt8 × Command) :=
  [(0x80, .setBitsLow), (0x82, .setBitsHigh), (0x86, .tckDivisor), (0x8a, .undivided), (0x87, .sendImmediate),
   (0x8e, .clockBits), (0x8f, .clockBytes),
   (0x19, .bytes true false), (0x3d, .bytes true true), (0x2d, .bytes false true),
   (0x1b, .bits true false), (0x3f, .bits true true), (0x2f, .bits false true),
   (0x4b, .tms false), (0x6f, .tms true)]

def decode (b : UInt8) : Option Command := commands.lookup b

/-- How many operands follow the command byte. -/
def Command.operands : Command → Nat
  | .undivided | .sendImmediate => 0
  | .clockBits => 1
  | .bits false _ => 1
  | _ => 2

/-- What the next byte is: a command, an operand with so many more after it, or a byte to clock out with so many more after
it. -/
inductive Expect where
  | command
  | operand (command : Command) (got : List UInt8) (more : Nat)
  | data (read : Bool) (more : Nat)
  deriving DecidableEq, Repr

end Mpsse

open Mpsse

/-- The engine: the pins, the register TDO is shifted into, and where it is in the stream. -/
structure Engine (σ : Type) where
  pins : Pins σ
  rx : UInt8
  expect : Expect

variable {σ : Type} [Target σ]

namespace Engine

/-- Some clocks, with the register of TDO. -/
def cycle (e : Engine σ) (cs : List Clock) : Engine σ :=
  { e with pins := e.pins.clocked cs, rx := (e.pins.shown cs).foldl shiftIn e.rx }

@[simp] theorem cycle_nil (e : Engine σ) : e.cycle [] = e := rfl

@[simp] theorem pins_cycle (e : Engine σ) (cs : List Clock) : (e.cycle cs).pins = e.pins.clocked cs := rfl

theorem cycle_append (e : Engine σ) (cs ds : List Clock) : e.cycle (cs ++ ds) = (e.cycle cs).cycle ds := by
  simp only [cycle, Pins.clocked_append, Pins.shown_append, List.foldl_append]

/-- `n` bytes clocked with TDI as it is held, and what is read of them. -/
def readBytes (e : Engine σ) : Nat → Engine σ × List UInt8
  | 0 => (e, [])
  | n + 1 =>
    let e' := e.cycle (e.pins.holding (List.replicate 8 e.pins.tdi))
    ((e'.readBytes n).1, e'.rx :: (e'.readBytes n).2)

/-- A byte of data. -/
def sendByte (e : Engine σ) (b : UInt8) : Engine σ := e.cycle (e.pins.holding (byteBits b))

def answer (e : Engine σ) (read : Bool) : List UInt8 := if read then [e.rx] else []

/-- A command with its operands. -/
def execute (e : Engine σ) : Command → List UInt8 → Engine σ × List UInt8
  | .setBitsLow, [value, direction] =>
    -- the levels of TDI and TMS, where they are outputs
    ({ e with pins.tdi := if direction.toNat.testBit 1 then value.toNat.testBit 1 else e.pins.tdi,
              pins.tms := if direction.toNat.testBit 3 then value.toNat.testBit 3 else e.pins.tms }, [])
  | .clockBits, [n] => (e.cycle (e.pins.holding (List.replicate (n.toNat % 8 + 1) e.pins.tdi)), [])
  | .clockBytes, [lo, hi] =>
    (e.cycle (e.pins.holding (List.replicate (8 * (lo.toNat + 256 * hi.toNat + 1)) e.pins.tdi)), [])
  | .bytes true read, [lo, hi] => ({ e with expect := .data read (lo.toNat + 256 * hi.toNat) }, [])
  | .bytes false _, [lo, hi] => e.readBytes (lo.toNat + 256 * hi.toNat + 1)
  | .bits true read, [n, b] =>
    ((e.cycle (e.pins.holding (bits (n.toNat % 8 + 1) b.toNat))),
      (e.cycle (e.pins.holding (bits (n.toNat % 8 + 1) b.toNat))).answer read)
  | .bits false _, [n] =>
    ((e.cycle (e.pins.holding (List.replicate (n.toNat % 8 + 1) e.pins.tdi))),
      (e.cycle (e.pins.holding (List.replicate (n.toNat % 8 + 1) e.pins.tdi))).answer true)
  | .tms read, [n, b] =>
    -- bit 7 is the level of TDI
    ((e.cycle (tmsClocks (b.toNat.testBit 7) (bits (n.toNat % 8 + 1) b.toNat))),
      (e.cycle (tmsClocks (b.toNat.testBit 7) (bits (n.toNat % 8 + 1) b.toNat))).answer read)
  | _, _ => (e, [])

/-- A byte of the stream.  One that is no command is reported as `0xfa`. -/
def step (e : Engine σ) (b : UInt8) : Engine σ × List UInt8 :=
  match e.expect with
  | .command =>
    match decode b with
    | none => (e, [0xfa, b])
    | some c =>
      match c.operands with
      | 0 => e.execute c []
      | n + 1 => ({ e with expect := .operand c [] n }, [])
  | .operand c got 0 => ({ e with expect := .command } : Engine σ).execute c (got ++ [b])
  | .operand c got (n + 1) => ({ e with expect := .operand c (got ++ [b]) n }, [])
  | .data read more =>
    ({ e.sendByte b with expect := match more with | 0 => .command | n + 1 => .data read n }, (e.sendByte b).answer read)

end Engine

/-- The engine as a machine that reads bytes and answers with bytes. -/
def mpsse (σ : Type) [Target σ] : Transducer UInt8 (Engine σ) UInt8 := ⟨Engine.step⟩

namespace Engine

variable {e : Engine σ}

theorem run_cons (e : Engine σ) (b : UInt8) (bytes : List UInt8) : (mpsse σ).run e (b :: bytes) =
    (((mpsse σ).run (e.step b).1 bytes).1, (e.step b).2 ++ ((mpsse σ).run (e.step b).1 bytes).2) := rfl

/-- The command byte of a command with operands. -/
theorem step_command (h : e.expect = .command) {b : UInt8} {c : Command} {n : Nat} (hb : decode b = some c)
    (hc : c.operands = n + 1) : e.step b = ({ e with expect := .operand c [] n }, []) := by
  unfold step
  rw [h]
  simp only [hb, hc]

/-- The operands that come, and the command once the last of them is there. -/
theorem run_operands {c : Command} : ∀ (ops got : List UInt8) (last : UInt8) (e : Engine σ),
    e.expect = .operand c got ops.length →
      (mpsse σ).run e (ops ++ [last]) = ({ e with expect := .command } : Engine σ).execute c (got ++ ops ++ [last])
  | [], got, last, e, h => by
    rw [List.nil_append, run_cons, step, h]
    simp
  | op :: ops, got, last, e, h => by
    have hstep : e.step op = ({ e with expect := .operand c (got ++ [op]) ops.length }, []) := by
      unfold step
      rw [h]
      rfl
    rw [List.cons_append, run_cons, hstep, run_operands ops (got ++ [op]) last _ rfl, List.nil_append]
    simp only [List.append_assoc, List.singleton_append]

/-- **A command with its operands is executed**, from where the engine expects one. -/
theorem run_command (h : e.expect = .command) {b : UInt8} {c : Command} (hb : decode b = some c) (ops : List UInt8)
    (last : UInt8) (hc : c.operands = ops.length + 1) : (mpsse σ).run e (b :: (ops ++ [last])) = e.execute c (ops ++ [last]) := by
  have hback : ({ e with expect := .command } : Engine σ) = e := by
    rw [← h]
  have hrun := run_operands ops [] last { e with expect := .operand c [] ops.length } rfl
  rw [List.nil_append] at hrun
  rw [run_cons, step_command h hb hc, List.nil_append, hrun]
  exact congrArg (fun e => execute e c (ops ++ [last])) hback

/-! ## What each command comes to -/

theorem run_sendImmediate (h : e.expect = .command) : (mpsse σ).run e [0x87] = (e, []) := by
  have hstep : e.step 0x87 = (e, []) := by
    unfold step
    rw [h]
    rfl
  rw [run_cons, hstep]
  rfl

variable {read : Bool} {b : UInt8}

theorem run_tms (h : e.expect = .command) (hb : decode b = some (.tms read)) (n v : UInt8) :
    (mpsse σ).run e [b, n, v] =
      (e.cycle (tmsClocks (v.toNat.testBit 7) (bits (n.toNat % 8 + 1) v.toNat)),
        (e.cycle (tmsClocks (v.toNat.testBit 7) (bits (n.toNat % 8 + 1) v.toNat))).answer read) :=
  run_command h hb [n] v rfl

theorem run_bits (h : e.expect = .command) (hb : decode b = some (.bits true read)) (n v : UInt8) :
    (mpsse σ).run e [b, n, v] =
      (e.cycle (e.pins.holding (bits (n.toNat % 8 + 1) v.toNat)),
        (e.cycle (e.pins.holding (bits (n.toNat % 8 + 1) v.toNat))).answer read) :=
  run_command h hb [n] v rfl

theorem run_readBits (h : e.expect = .command) (hb : decode b = some (.bits false true)) (n : UInt8) :
    (mpsse σ).run e [b, n] =
      (e.cycle (e.pins.holding (List.replicate (n.toNat % 8 + 1) e.pins.tdi)),
        (e.cycle (e.pins.holding (List.replicate (n.toNat % 8 + 1) e.pins.tdi))).answer true) :=
  run_command h hb [] n rfl

theorem run_clockBits (h : e.expect = .command) (n : UInt8) :
    (mpsse σ).run e [0x8e, n] = (e.cycle (e.pins.holding (List.replicate (n.toNat % 8 + 1) e.pins.tdi)), []) :=
  run_command (c := .clockBits) h rfl [] n rfl

theorem run_clockBytes (h : e.expect = .command) (lo hi : UInt8) : (mpsse σ).run e [0x8f, lo, hi] =
    (e.cycle (e.pins.holding (List.replicate (8 * (lo.toNat + 256 * hi.toNat + 1)) e.pins.tdi)), []) :=
  run_command (c := .clockBytes) h rfl [lo] hi rfl

/-- A byte on TDI, and the byte of TDO that goes with it. -/
theorem sendByte_answer (e : Engine σ) (v : UInt8) (read : Bool) :
    (e.sendByte v).answer read = if read then packBits (e.pins.shown (e.pins.holding (byteBits v))) else [] := by
  have hlen : (e.pins.shown (e.pins.holding (byteBits v))).length = 8 := by
    rw [Pins.length_shown, length_holding, length_byteBits]
  have hrx : (e.sendByte v).rx = byteOf (e.pins.shown (e.pins.holding (byteBits v))) := shiftIns_byte hlen e.rx
  have hne : e.pins.shown (e.pins.holding (byteBits v)) ≠ [] := by
    intro hnil
    rw [hnil] at hlen
    cases hlen
  rw [answer, hrx, packBits_short hne (Nat.le_of_eq hlen)]

/-- The data of a command that clocks out bytes. -/
theorem run_data : ∀ (data : List UInt8) (more : Nat) (e : Engine σ), e.expect = .data read more → data.length = more + 1 →
    (mpsse σ).run e data = ({ e.cycle (e.pins.holding (bytesBits data)) with expect := .command },
      if read then packBits (e.pins.shown (e.pins.holding (bytesBits data))) else [])
  | [], more, e, _, hlen => absurd hlen (by simp)
  | [v], more, e, h, hlen => by
    have hmore : more = 0 := by simpa using hlen.symm
    subst hmore
    rw [run_cons, step, h]
    simp only [Transducer.run_nil, List.append_nil, bytesBits_cons, bytesBits_nil, sendByte_answer]
    rfl
  | v :: w :: data, 0, e, _, hlen => absurd hlen (by simp)
  | v :: w :: data, more + 1, e, h, hlen => by
    have hstep : e.step v = ({ e.sendByte v with expect := .data read more }, (e.sendByte v).answer read) := by
      unfold step
      rw [h]
    have hbits : e.pins.holding (bytesBits (v :: w :: data)) =
        e.pins.holding (byteBits v) ++ e.pins.holding (bytesBits (w :: data)) := holding_append _ _ _
    have hbytes : packBits (e.pins.shown (e.pins.holding (byteBits v)) ++
        (e.pins.clocked (e.pins.holding (byteBits v))).shown (e.pins.holding (bytesBits (w :: data)))) =
          packBits (e.pins.shown (e.pins.holding (byteBits v))) ++
            packBits ((e.pins.clocked (e.pins.holding (byteBits v))).shown (e.pins.holding (bytesBits (w :: data)))) :=
      packBits_append (n := 1) (by simp) _
    rw [run_cons, hstep, run_data (w :: data) more _ rfl (by simpa using hlen), sendByte_answer, hbits, cycle_append,
      Pins.shown_append, hbytes]
    simp only [sendByte, pins_cycle, holding_holding]
    cases read <;> rfl

/-- **Bytes of data**: as many as the two operands say and one more. -/
theorem run_bytes (h : e.expect = .command) (hb : decode b = some (.bytes true read)) {lo hi : UInt8} {data : List UInt8}
    (hlen : data.length = lo.toNat + 256 * hi.toNat + 1) :
    (mpsse σ).run e ([b, lo, hi] ++ data) = (e.cycle (e.pins.holding (bytesBits data)),
      if read then packBits (e.pins.shown (e.pins.holding (bytesBits data))) else []) := by
  have hhead : (mpsse σ).run e [b, lo, hi] = ({ e with expect := .data read (lo.toNat + 256 * hi.toNat) }, []) :=
    run_command h hb [lo] hi rfl
  have hback : ({ e.cycle (e.pins.holding (bytesBits data)) with expect := .command } : Engine σ) =
      e.cycle (e.pins.holding (bytesBits data)) := by
    rw [cycle, ← h]
  rw [Transducer.run_append, hhead, List.nil_append, run_data data _ _ rfl hlen]
  exact congrArg (fun e => (e, _)) hback

theorem readBytes_eq (e : Engine σ) (n : Nat) :
    e.readBytes n = (e.cycle (e.pins.holding (List.replicate (8 * n) e.pins.tdi)),
      packBits (e.pins.shown (e.pins.holding (List.replicate (8 * n) e.pins.tdi)))) := by
  induction n generalizing e with
  | zero => simp [readBytes, Pins.holding, dataClocks]
  | succ n ih =>
    have hlen : (e.pins.shown (e.pins.holding (List.replicate 8 e.pins.tdi))).length = 8 := by simp
    have hrx : (e.cycle (e.pins.holding (List.replicate 8 e.pins.tdi))).rx =
        byteOf (e.pins.shown (e.pins.holding (List.replicate 8 e.pins.tdi))) := shiftIns_byte hlen e.rx
    have htdi : (e.cycle (e.pins.holding (List.replicate 8 e.pins.tdi))).pins.tdi = e.pins.tdi := rfl
    have hsplit : List.replicate (8 * (n + 1)) e.pins.tdi = List.replicate 8 e.pins.tdi ++ List.replicate (8 * n) e.pins.tdi := by
      rw [← List.replicate_add]
      congr 1
      omega
    rw [readBytes, ih, hsplit, holding_append, cycle_append, Pins.shown_append, packBits_append_byte hlen, hrx, htdi, pins_cycle,
      holding_holding]

theorem run_readBytes (h : e.expect = .command) (hb : decode b = some (.bytes false true)) (lo hi : UInt8) :
    (mpsse σ).run e [b, lo, hi] =
      (e.cycle (e.pins.holding (List.replicate (8 * (lo.toNat + 256 * hi.toNat + 1)) e.pins.tdi)),
        packBits (e.pins.shown (e.pins.holding (List.replicate (8 * (lo.toNat + 256 * hi.toNat + 1)) e.pins.tdi)))) := by
  rw [← readBytes_eq]
  exact run_command h hb [lo] hi rfl

end Engine
end Base
