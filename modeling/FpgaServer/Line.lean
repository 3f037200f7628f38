import FpgaServer.Device
/-!
# Line — a device on the other end of the channel

The environment with a working device in it: the bytes that reach it go through the reference parser into a machine that
reacts to every event and answers a read command with as many words as it asks for (`Fabric`).  The channel delivers the
response bytes in order.  The two scripts say how each write and each read of the channel goes: a write reaches the device
in full or is cut after any number of bytes and reported as failed or short; a read delivers any number of the waiting
bytes, none included, or fails.  A script that has run out stands for calls that go well.
-/
namespace Fpga

open Base (Transducer)

/-- What sits behind the parser. -/
class Fabric (δ : Type) where
  react : δ → Event → δ × List UInt16
  length_react : ∀ s e, (react s e).2.length = e.requested

/-- The machine as a reader of events: each event with the words it produced. -/
def fabric (δ : Type) [Fabric δ] : Transducer Event δ (Event × List UInt16) where
  step s e := ((Fabric.react s e).1, [(e, (Fabric.react s e).2)])

inductive WriteStep where
  | full
  | cut (reached : Nat) (result : Int)
  deriving DecidableEq, Repr

inductive ReadStep where
  | deliver (atMost : Nat)
  | fail (code : Int)
  deriving DecidableEq, Repr

/-- The device side: everything it received, and every event with the words produced for it. -/
structure Board (δ : Type) where
  parser : ParserState
  state : δ
  sent : List UInt8
  log : List (Event × List UInt16)

/-- The channel: the response bytes not yet read, the two scripts, and the results of the programmer. -/
structure Line (δ : Type) where
  board : Board δ
  pending : List UInt8
  writes : List WriteStep
  reads : List ReadStep
  programs : List (Option String)

variable {δ : Type}

def Board.events (b : Board δ) : List Event := b.log.map (·.1)

def Line.readData (size : Int) (l : Line δ) : Except Int (List UInt8) × Line δ :=
  match l.reads with
  | [] => (.ok (l.pending.take size.toNat), { l with pending := l.pending.drop size.toNat })
  | .deliver k :: rs => (.ok (l.pending.take (min k size.toNat)),
      { l with pending := l.pending.drop (min k size.toNat), reads := rs })
  | .fail code :: rs => (.error code, { l with reads := rs })

/-- A read takes bytes off the front of the waiting ones. -/
theorem Line.readData_spec (size : Int) (l : Line δ) : ∃ pending reads,
    (l.readData size).2 = { l with pending := pending, reads := reads } ∧
      ∀ bytes, (l.readData size).1 = .ok bytes → bytes ++ pending = l.pending := by
  unfold Line.readData
  split
  · refine ⟨_, l.reads, rfl, fun bytes h => ?_⟩
    cases h
    exact List.take_append_drop _ _
  · refine ⟨_, _, rfl, fun bytes h => ?_⟩
    cases h
    exact List.take_append_drop _ _
  · exact ⟨_, _, rfl, fun bytes h => by cases h⟩

variable [Fabric δ]

/-- The events the bytes complete, with the words produced for them. -/
def Board.reaction (b : Board δ) (bytes : List UInt8) : List (Event × List UInt16) :=
  ((fabric δ).run b.state (commandParser.run b.parser bytes).2).2

def Board.receive (b : Board δ) (bytes : List UInt8) : Board δ where
  parser := (commandParser.run b.parser bytes).1
  state := ((fabric δ).run b.state (commandParser.run b.parser bytes).2).1
  sent := b.sent ++ bytes
  log := b.log ++ b.reaction bytes

/-- The bytes reach the device, and its answers join the waiting ones. -/
def Line.receive (l : Line δ) (bytes : List UInt8) : Line δ :=
  { l with board := l.board.receive bytes,
           pending := l.pending ++ (l.board.reaction bytes).flatMap (fun x => x.2.flatMap be16) }

def Line.writeData (bytes : List UInt8) (l : Line δ) : Int × Line δ :=
  match l.writes with
  | [] => (bytes.length, l.receive bytes)
  | .full :: ws => (bytes.length, { l.receive bytes with writes := ws })
  | .cut k r :: ws => (min r (bytes.length - 1), { l.receive (bytes.take k) with writes := ws })

instance : Ftdi (Line δ) where
  ftdiNew l := (true, l)
  usbOpenDev _ _ l := (none, l)
  usbPurgeBuffers l := (none, l)
  usbReset l := (none, l)
  setBitmode _ _ l := (none, l)
  setLatencyTimer _ l := (none, l)
  writeData := Line.writeData
  readData := Line.readData
  writeData_le bytes l := by
    unfold Line.writeData
    split <;> simp only [Int.le_refl]
    omega
  readData_le size l bytes _ h := by
    unfold Line.readData at h
    split at h
    · cases h
      exact List.length_take_le _ _
    · cases h
      exact (List.length_take_le _ _).trans (Nat.min_le_right _ _)
    · cases h

instance : Programmer (Line δ) where
  construct l := (none, l)
  program _ l := (l.programs.head?.join, { l with programs := l.programs.tail })

/-! ## What the device has received -/

theorem Board.receive_nil (b : Board δ) : b.receive [] = b := by
  simp [Board.receive, Board.reaction]

theorem Board.receive_append (b : Board δ) (v w : List UInt8) : (b.receive v).receive w = b.receive (v ++ w) := by
  simp [Board.receive, Board.reaction, Transducer.run_append]

theorem fabric_run_fst (s : δ) (es : List Event) : ((fabric δ).run s es).2.map (·.1) = es := by
  induction es generalizing s with
  | nil => rfl
  | cons e es ih =>
    rw [Transducer.run_cons, List.map_append, ih]
    rfl

theorem Board.events_receive (b : Board δ) (bytes : List UInt8) :
    (b.receive bytes).events = b.events ++ (commandParser.run b.parser bytes).2 := by
  simp only [Board.events, Board.receive, Board.reaction, List.map_append, fabric_run_fst]

/-- Every event is logged with as many words as it requests. -/
theorem length_of_mem_run {s : δ} {es : List Event} {x : Event × List UInt16} :
    x ∈ ((fabric δ).run s es).2 → x.2.length = x.1.requested := by
  induction es generalizing s with
  | nil => exact fun h => absurd h List.not_mem_nil
  | cons e es ih =>
    rw [Transducer.run_cons]
    intro h
    rcases List.mem_append.1 h with h | h
    · rw [List.mem_singleton.1 h]
      exact Fabric.length_react s e
    · exact ih h

/-- **A write reaches the device as a prefix of what was offered**, and in full when its result says so. -/
theorem Line.writeData_spec (bytes : List UInt8) (l : Line δ) :
    ∃ reached, reached <+: bytes ∧ (l.writeData bytes).2.board = l.board.receive reached ∧
      (l.writeData bytes).2.pending = (l.receive reached).pending ∧
      ((l.writeData bytes).1 = bytes.length → reached = bytes) := by
  unfold Line.writeData
  split
  · exact ⟨bytes, List.prefix_refl _, rfl, rfl, fun _ => rfl⟩
  · exact ⟨bytes, List.prefix_refl _, rfl, rfl, fun _ => rfl⟩
  · refine ⟨_, List.take_prefix _ _, rfl, rfl, fun h => ?_⟩
    simp only at h
    omega

/-- All writes of the script succeed. -/
def Line.WritesSucceed (l : Line δ) : Prop := ∀ w ∈ l.writes, w = .full

theorem Line.writeData_of_succeed {l : Line δ} (h : l.WritesSucceed) (bytes : List UInt8) :
    (l.writeData bytes).1 = bytes.length ∧ (l.writeData bytes).2.WritesSucceed := by
  unfold Line.writeData
  split
  · exact ⟨rfl, h⟩
  · rename_i ws hw
    exact ⟨rfl, fun w hm => h w (by rw [hw]; exact List.mem_cons_of_mem _ hm)⟩
  · rename_i k r ws hw
    have := h (.cut k r) (by rw [hw]; exact List.mem_cons_self)
    cases this

/-- A device whose registers hold what was last stored. -/
structure RegisterFile where
  value : Reg → UInt16

instance : Fabric RegisterFile where
  react s
    | .store r w => (⟨fun q => if q = r then w else s.value q⟩, [])
    | .command (.readReg r) => (s, [s.value r])
    | .command (.readRegN r n) => (s, List.replicate n (s.value r))
    | .command _ => (s, [])
  length_react s e := by
    cases e with
    | store r w => rfl
    | command c => cases c <;> simp [Event.requested]

end Fpga
