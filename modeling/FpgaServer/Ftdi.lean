import FpgaServer.Effect
/-!
# Ftdi — what the code calls below itself

The libftdi calls `Device.cpp` makes and the programmer it calls, as functions of an environment `ε` the code cannot see
into: every behaviour of the USB device, the bus and the programmer is some instance.  `Fault` is how a C++ function ends
other than by returning.
-/
namespace Fpga

/-- A `std::exception` with its `what()` text, a null or dangling pointer handed to code that dereferences it, or a copy of a
negative number of bytes.  No handler sees a crash or an overrun: either ends the process. -/
inductive Fault where
  | exception (what : String)
  | crash
  | overrun
  deriving DecidableEq, Repr

/-- `throw std::runtime_error(what)`. -/
def raise {σ α : Type} (what : String) : EStateM Fault σ α := throw (.exception what)

/-- `if (c) throw std::runtime_error(what)`. -/
def raiseIf {σ : Type} (c : Prop) [Decidable c] (what : String) : EStateM Fault σ Unit :=
  if c then raise what else pure ()

theorem raiseIf_bind_pos {σ α : Type} {c : Prop} [Decidable c] (h : c) (what : String) (f : Unit → EStateM Fault σ α) :
    (raiseIf c what >>= f) = raise what := by
  rw [raiseIf, if_pos h]
  rfl

theorem raiseIf_bind_neg {σ α : Type} {c : Prop} [Decidable c] (h : ¬ c) (what : String)
    (f : Unit → EStateM Fault σ α) : (raiseIf c what >>= f) = f () := by
  rw [raiseIf, if_neg h]
  rfl

theorem within_raiseIf {σ : Type} {R : σ → σ → Prop} [IsPreorder σ R] (c : Prop) [Decidable c] (what : String) :
    Base.Within R (raiseIf c what) := by
  unfold raiseIf
  split
  · exact Base.Within.throw _
  · exact Base.Within.pure _

/-- `catch (const std::exception& e)`, and `catch (...)` too: nothing the server throws is outside `std::exception`. -/
def catchException {σ α : Type} (x : EStateM Fault σ α) (h : String → EStateM Fault σ α) : EStateM Fault σ α :=
  Base.handle x (fun
    | .exception what => some (h what)
    | .crash | .overrun => none)

/-- A `catch` block that throws again returns only what its `try` block returns. -/
theorem ok_of_rethrow {σ α β : Type} {x : EStateM Fault σ α} {cleanUp : EStateM Fault σ β} {s t : σ} {a : α}
    (h : (catchException x (fun what => do let _ ← cleanUp; raise what)).run s = .ok a t) : x.run s = .ok a t := by
  rw [catchException, Base.run_handle] at h
  cases hx : x.run s with
  | ok b u => rwa [hx] at h
  | error e u =>
    rw [hx] at h
    cases e with
    | crash => cases h
    | overrun => cases h
    | exception what =>
      obtain ⟨b, v, -, hraise⟩ := Base.bind_ok_iff.1 h
      cases hraise

theorem within_catchException {σ α : Type} {R : σ → σ → Prop} [IsPreorder σ R] {x : EStateM Fault σ α}
    {h : String → EStateM Fault σ α} (hx : Base.Within R x) (hh : ∀ what, Base.Within R (h what)) :
    Base.Within R (catchException x h) := by
  refine hx.handle (fun e y he => ?_)
  cases e with
  | exception what =>
    cases he
    exact hh what
  | crash => cases he
  | overrun => cases he

theorem final_catchException {σ α : Type} {P : σ → Prop} {x : EStateM Fault σ α} {h : String → EStateM Fault σ α} {s : σ}
    (hx : P (Base.final (x.run s))) (hh : ∀ what t, P t → P (Base.final ((h what).run t))) :
    P (Base.final ((catchException x h).run s)) := by
  refine Base.final_handle hx (fun e y t he ht => ?_)
  cases e with
  | exception what =>
    cases he
    exact hh what t ht
  | crash => cases he
  | overrun => cases he

/-- The interfaces of an FT2232 chip: registers and data on A, JTAG on B. -/
inductive Interface where
  | A
  | B
  deriving DecidableEq, Repr

inductive BitMode where
  | reset
  | syncff
  | mpsse
  deriving DecidableEq, Repr

/-- The libftdi calls on one device.  A failed call returns its error text; `usbOpenDev` is told which interfaces of the
device this process has already claimed.  A read returns at most what was asked for, a write takes at most what was
offered.  Of a read of a negative size only the checks before the copy are told here: `Device.ftdiReadData` has the rest. -/
class Ftdi (ε : Type) where
  ftdiNew : ε → Bool × ε
  usbOpenDev : Interface → List Interface → ε → Option String × ε
  usbPurgeBuffers : ε → Option String × ε
  usbReset : ε → Option String × ε
  setBitmode : UInt8 → BitMode → ε → Option String × ε
  setLatencyTimer : UInt8 → ε → Option String × ε
  writeData : List UInt8 → ε → Int × ε
  readData : Int → ε → Except Int (List UInt8) × ε
  writeData_le : ∀ bytes e, (writeData bytes e).1 ≤ bytes.length
  readData_le : ∀ size e bytes, 0 ≤ size → (readData size e).1 = .ok bytes → bytes.length ≤ size.toNat

/-- `DeviceProgrammer` on one device: its constructor, and `program` with a bitfile name.  `some` is the text of the
exception it throws. -/
class Programmer (ε : Type) where
  construct : ε → Option String × ε
  program : String → ε → Option String × ε

end Fpga
