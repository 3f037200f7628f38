import FpgaServer.LastWrite
import FpgaServer.SessionReads
/-!
# Idle — operations on a line where nothing goes wrong

The device is at a command boundary, every answer has been read and no call fails.  Then each operation returns, its packets
reach the device as the events they stand for, and a read returns the words produced for them (`run_exchange` and the
operations after it).  `Uniform` is a device whose bulk commands are no more than repeated single ones.
-/
namespace Fpga

open Base (OrdMap Transducer final chunksOf countsOf)

variable {δ ω α : Type}

/-- A command boundary, nothing waiting, and scripts that have run out. -/
structure Line.Idle (l : Line δ) : Prop where
  parser : l.board.parser = boundary
  pending : l.pending = []
  writes : l.writes = []
  reads : l.reads = []

variable [Fabric δ]

/-- The state after events. -/
def after (s : δ) (events : List Event) : δ := ((fabric δ).run s events).1

/-- The words produced for events. -/
def answers (s : δ) (events : List Event) : List UInt16 := ((fabric δ).run s events).2.flatMap (·.2)

@[simp] theorem after_nil (s : δ) : after s [] = s := rfl

@[simp] theorem answers_nil (s : δ) : answers s [] = [] := rfl

theorem after_cons (s : δ) (e : Event) (events : List Event) :
    after s (e :: events) = after (Fabric.react s e).1 events := rfl

theorem answers_cons (s : δ) (e : Event) (events : List Event) :
    answers s (e :: events) = (Fabric.react s e).2 ++ answers (Fabric.react s e).1 events := by
  simp [answers, Transducer.run_cons, fabric]

theorem after_append (s : δ) (es fs : List Event) : after s (es ++ fs) = after (after s es) fs := by
  simp [after, Transducer.run_append]

theorem answers_append (s : δ) (es fs : List Event) : answers s (es ++ fs) = answers s es ++ answers (after s es) fs := by
  simp [answers, after, Transducer.run_append]

theorem length_answers_eq (s : δ) (events : List Event) : (answers s events).length = (events.map Event.requested).sum := by
  rw [answers, length_answers (fun x => length_of_mem_run), fabric_run_fst]

/-- The device has received the bytes, and their answers have been read. -/
def served (s : DeviceState (Line δ) ω) (bytes : List UInt8) : DeviceState (Line δ) ω :=
  { s with dev := { s.dev with usb := { s.dev.usb with board := s.dev.usb.board.receive bytes } } }

theorem served_nil_eq (s : DeviceState (Line δ) ω) : served s [] = s := by
  simp [served, Board.receive_nil]

theorem served_append (s : DeviceState (Line δ) ω) (v w : List UInt8) : served (served s v) w = served s (v ++ w) := by
  simp [served, Board.receive_append]

@[simp] theorem served_isOpen (s : DeviceState (Line δ) ω) (bytes : List UInt8) :
    (served s bytes).dev.isOpen = s.dev.isOpen := rfl

variable {s : DeviceState (Line δ) ω} {packet : List UInt8} {events : List Event}

theorem Line.Idle.served (h : s.dev.usb.Idle) (hreads : commandParser.Reads boundary packet events) :
    (served s packet).dev.usb.Idle := by
  refine ⟨?_, h.pending, h.writes, h.reads⟩
  simp only [Fpga.served, Board.receive, h.parser]
  rw [hreads]

theorem Line.Idle.state (h : s.dev.usb.Idle) (hreads : commandParser.Reads boundary packet events) :
    (Fpga.served s packet).dev.usb.board.state = after s.dev.usb.board.state events := by
  simp only [Fpga.served, Board.receive, h.parser]
  rw [hreads]
  rfl

theorem run_write (hopen : s.dev.isOpen = true) (h : s.dev.usb.Idle) (packet : List UInt8) :
    (Device.ftdiWriteData packet).run s = .ok (packet.length : Int)
      { s with dev := { s.dev with usb := s.dev.usb.receive packet } } := by
  rw [run_ftdiWriteData hopen]
  simp only [Line.writeData, h.writes]

omit [Fabric δ] in
theorem readData_all {l : Line δ} {size : Int} (hreads : l.reads = []) (hsize : (l.pending.length : Int) = size) :
    l.readData size = (.ok l.pending, { l with pending := [] }) := by
  have htake : l.pending.take size.toNat = l.pending := List.take_of_length_le (by omega)
  have hdrop : l.pending.drop size.toNat = [] := List.drop_eq_nil_of_le (by omega)
  simp only [Line.readData, hreads, htake, hdrop]

theorem run_ftdiReadData (hopen : s.dev.isOpen = true) {size : Int} (hsize : 0 ≤ size) :
    (Device.ftdiReadData size).run s = .ok (s.dev.usb.readData size).1
      { s with dev := { s.dev with usb := (s.dev.usb.readData size).2 } } := run_readData hopen hsize

/-- The first attempt gets all that is asked for. -/
theorem run_wait {size : Int} (hopen : s.dev.isOpen = true) (hreads : s.dev.usb.reads = [])
    (hsize : (s.dev.usb.pending.length : Int) = size) :
    (Device.ftdiReadDataWait size).run s = .ok s.dev.usb.pending
      { s with dev := { s.dev with usb := { s.dev.usb with pending := [] } } } := by
  have hread : (Device.ftdiReadData (size - ([] : List UInt8).length)).run s = .ok (.ok s.dev.usb.pending)
      { s with dev := { s.dev with usb := { s.dev.usb with pending := [] } } } := by
    rw [run_ftdiReadData hopen (by simp; omega), readData_all hreads (by simpa using hsize)]
  have hloop : (Device.readLoop size 100 []).run s = .ok s.dev.usb.pending
      { s with dev := { s.dev with usb := { s.dev.usb with pending := [] } } } := by
    rw [Device.readLoop, EStateM.run_bind, hread]
    simp only [List.nil_append, hsize, ne_eq, not_true_eq_false, if_false, EStateM.run_pure]
  rw [Device.ftdiReadDataWait, EStateM.run_bind, hloop]
  simp only
  rw [raiseIf_bind_neg (by simp [hsize])]
  rfl

/-- **One exchange**: the device handles the packet, and the words produced for it are read. -/
theorem run_exchange (hopen : s.dev.isOpen = true) (h : s.dev.usb.Idle)
    (hreads : commandParser.Reads boundary packet events) {size : Int}
    (hsize : size = 2 * ((events.map Event.requested).sum : Nat)) (what : String) (f : List UInt8 → DeviceM (Line δ) ω α) :
    (do
      let n ← Device.ftdiWriteData packet
      raiseIf (n ≠ packet.length) what
      let recv ← Device.ftdiReadDataWait size
      f recv).run s = (f ((answers s.dev.usb.board.state events).flatMap be16)).run (served s packet) := by
  have hpending : (s.dev.usb.receive packet).pending = (answers s.dev.usb.board.state events).flatMap be16 := by
    simp only [Line.receive, h.pending, List.nil_append, Board.reaction, h.parser, answers, List.flatMap_assoc]
    rw [hreads]
  have hlen : ((s.dev.usb.receive packet).pending.length : Int) = size := by
    rw [hpending, length_be16s, length_answers_eq, hsize]
    omega
  have hwait := run_wait (s := { s with dev := { s.dev with usb := s.dev.usb.receive packet } }) hopen h.reads hlen
  rw [EStateM.run_bind, run_write hopen h]
  simp only
  rw [raiseIf_bind_neg (by simp), EStateM.run_bind, hwait]
  simp only [hpending]
  congr 1
  simp only [served, Line.receive, h.pending]

/-! ## The operations -/

/-- A packet that asks for nothing. -/
theorem run_send (hopen : s.dev.isOpen = true) (h : s.dev.usb.Idle)
    (hreads : commandParser.Reads boundary packet events) (hnone : (events.map Event.requested).sum = 0) :
    (Device.ftdiWriteData packet).run s = .ok (packet.length : Int) (served s packet) := by
  have hanswers : answers s.dev.usb.board.state events = [] := by
    rw [← List.length_eq_zero_iff, length_answers_eq, hnone]
  have hpending : (s.dev.usb.board.reaction packet).flatMap (fun x => x.2.flatMap be16) = [] := by
    rw [← List.flatMap_assoc, Board.reaction, h.parser, hreads]
    rw [answers] at hanswers
    rw [hanswers]
    rfl
  rw [run_write hopen h]
  simp only [served, Line.receive, hpending, List.append_nil]

/-- What a register operation of a request sends. -/
def Call.bytes (c : Call) : List UInt8 := (c.packets []).flatten

/-- The events this is read as. -/
def Call.effect (c : Call) : List Event := (c.events []).flatten

theorem reads_bytes (c : Call) : commandParser.Reads boundary c.bytes c.effect := Transducer.Reads.flatten (reads_packets [] c)

theorem run_writeReg (hopen : s.dev.isOpen = true) (h : s.dev.usb.Idle) (addr port : UInt8) (value : UInt16) :
    (Device.writeReg addr port value).run s = .ok () (served s (Call.writeReg addr port value).bytes) := by
  rw [Device.writeReg, EStateM.run_bind, run_send hopen h (reads_writeRegPacket addr port value) rfl]
  rfl

theorem requested_stores (r : Reg) (data : List UInt16) :
    ((data.map (Event.store r) ++ [Event.command (.writeRegN r data)]).map Event.requested).sum = 0 := by
  simp [Function.comp_def, Event.requested]

theorem run_writeRegN (addr port : UInt8) (data : List UInt16) {s : DeviceState (Line δ) ω} (hopen : s.dev.isOpen = true)
    (h : s.dev.usb.Idle) :
    (Device.writeRegN addr port data).run s = .ok () (served s (Call.writeRegN addr port data).bytes) := by
  by_cases hd : data = []
  · subst hd
    rw [Device.writeRegN, dif_pos rfl, Call.bytes, Call.packets, Base.chunksOf_nil, List.map_nil, List.flatten_nil, served_nil_eq]
    rfl
  · have hne : data.take Device.nPacketMax ≠ [] := by simpa [Device.nPacketMax] using hd
    have hlt : (data.take Device.nPacketMax).length < 65536 := by
      rw [List.length_take, Device.nPacketMax]
      omega
    have hreads := reads_writeRegNPacket addr port hne hlt
    have hpos : (writeRegNPacket addr port (data.take Device.nPacketMax)).length ≠ 0 := by
      rw [length_writeRegNPacket]
      omega
    have ih := run_writeRegN addr port (data.drop Device.nPacketMax) (s := served s _) hopen (h.served hreads)
    rw [Device.writeRegN, dif_neg hd, EStateM.run_bind, run_send hopen h hreads (requested_stores _ _)]
    simp only
    rw [raiseIf_bind_neg (by omega), raiseIf_bind_neg (by omega), ih, served_append, Call.bytes, Call.bytes, Call.packets,
      Call.packets, Base.chunksOf_ne_nil (by decide) hd, List.map_cons, List.flatten_cons]
termination_by data.length
decreasing_by
  have := List.length_pos_iff.2 hd
  simp only [List.length_drop, Device.nPacketMax]
  omega

theorem run_readRegN (addr port : UInt8) (left : Nat) {s : DeviceState (Line δ) ω} (hopen : s.dev.isOpen = true)
    (h : s.dev.usb.Idle) :
    (Device.readRegN addr port left).run s =
      .ok (answers s.dev.usb.board.state (Call.readRegN addr port left).effect)
        (served s (Call.readRegN addr port left).bytes) := by
  by_cases hl : left = 0
  · subst hl
    rw [Device.readRegN, dif_pos rfl, Call.bytes, Call.effect, Call.packets, Call.events, Base.countsOf_zero, List.map_nil,
      List.map_nil, List.flatten_nil, List.flatten_nil, served_nil_eq, answers_nil]
    rfl
  · have hlt : min left Device.nPacketMax < 65536 := by
      have : Device.nPacketMax = 65535 := rfl
      omega
    have hreads := reads_readRegNPacket addr port hlt
    have hsize : cInt (2 * min left Device.nPacketMax) = 2 * (([Event.command (.readRegN (Reg.of addr port)
        (min left Device.nPacketMax))].map Event.requested).sum : Nat) := by
      rw [cInt_of_lt (by omega)]
      rfl
    have ih := run_readRegN addr port (left - min left Device.nPacketMax) (s := served s _) hopen (h.served hreads)
    have hexchange := run_exchange hopen h hreads hsize "FTDI write error" (fun recv => do
      let more ← Device.readRegN addr port (left - min left Device.nPacketMax)
      return words recv ++ more)
    have hcounts := Base.countsOf_pos (m := Device.nPacketMax) (by decide) hl
    rw [Device.readRegN, dif_neg hl]
    refine hexchange.trans ?_
    rw [EStateM.run_bind, ih, words_be16s]
    simp only [EStateM.run_pure]
    rw [served_append, h.state hreads, ← answers_append]
    simp only [Call.bytes, Call.effect, Call.packets, Call.events, hcounts, List.map_cons, List.flatten_cons]
termination_by left
decreasing_by
  simp only [Device.nPacketMax]
  omega

theorem run_readReg (hopen : s.dev.isOpen = true) (h : s.dev.usb.Idle) (addr port : UInt8) :
    (Device.readReg addr port).run s = (do
      let value := (answers s.dev.usb.board.state (Call.readReg addr port).effect).headD 0
      Device.storeResult ⟨addr, port⟩ value
      return value).run (served s (Call.readReg addr port).bytes) := by
  have hsize : (2 : Int) = 2 * (([Event.command (.readReg (Reg.of addr port))].map Event.requested).sum : Nat) := rfl
  refine (run_exchange hopen h (reads_readRegPacket addr port) hsize "FTDI write error" (fun recv => do
      let value := (words recv).headD 0
      Device.storeResult ⟨addr, port⟩ value
      return value)).trans ?_
  rw [words_be16s]
  rfl

/-! ## Bulk commands as single ones -/

/-- A bulk write acts as single writes of its words, and a bulk read as single reads. -/
class Uniform (δ : Type) [Fabric δ] : Prop where
  writes : ∀ (s : δ) (r : Reg) (ws : List UInt16), ws ≠ [] →
    after s (ws.map (Event.store r) ++ [.command (.writeRegN r ws)]) =
      after s (ws.flatMap (fun w => [.store r w, .command (.writeReg r w)]))
  reads : ∀ (s : δ) (r : Reg) (k : Nat),
    after s [.command (.readRegN r k)] = after s (List.replicate k (.command (.readReg r))) ∧
      answers s [.command (.readRegN r k)] = answers s (List.replicate k (.command (.readReg r)))

/-- The events of a single write of each word. -/
def singleWrites (r : Reg) (ws : List UInt16) : List Event := ws.flatMap (fun w => [.store r w, .command (.writeReg r w)])

/-- The events of so many single reads. -/
def singleReads (r : Reg) (n : Nat) : List Event := List.replicate n (.command (.readReg r))

section Uniform
variable [Uniform δ]

theorem after_chunks (r : Reg) : ∀ (chunks : List (List UInt16)) (s : δ), (∀ c ∈ chunks, c ≠ []) →
    after s (chunks.map (fun c => c.map (Event.store r) ++ [.command (.writeRegN r c)])).flatten =
      after s (singleWrites r chunks.flatten)
  | [], s, _ => rfl
  | c :: chunks, s, h => by
    have ih := after_chunks r chunks (after s (singleWrites r c)) (fun d hd => h d (List.mem_cons_of_mem _ hd))
    have hfirst := Uniform.writes s r c (h c List.mem_cons_self)
    rw [List.map_cons, List.flatten_cons]
    refine (after_append s _ _).trans ?_
    rw [hfirst, List.flatten_cons, singleWrites, List.flatMap_append, after_append]
    exact ih

/-- **A bulk write is single writes**, across its packets. -/
theorem after_writeRegN (s : δ) (addr port : UInt8) (data : List UInt16) :
    after s (Call.writeRegN addr port data).effect = after s (singleWrites (Reg.of addr port) data) := by
  have h := after_chunks (Reg.of addr port) (chunksOf Device.nPacketMax data) s (fun c hc => (Base.mem_chunksOf hc).1)
  rwa [Base.flatten_chunksOf (by decide)] at h

theorem after_counts (r : Reg) : ∀ (counts : List Nat) (s : δ),
    after s (counts.map (fun k => [Event.command (.readRegN r k)])).flatten = after s (singleReads r counts.sum) ∧
      answers s (counts.map (fun k => [Event.command (.readRegN r k)])).flatten = answers s (singleReads r counts.sum)
  | [], s => ⟨rfl, rfl⟩
  | k :: counts, s => by
    obtain ⟨hafter, hanswers⟩ := Uniform.reads s r k
    obtain ⟨hafter', hanswers'⟩ := after_counts r counts (after s [.command (.readRegN r k)])
    rw [List.map_cons, List.flatten_cons, List.sum_cons, singleReads, List.replicate_add]
    rw [after_append, after_append, answers_append, answers_append, hafter', hanswers', hanswers, hafter]
    exact ⟨rfl, rfl⟩

/-- **A bulk read is single reads**, across its packets. -/
theorem readRegN_single (s : δ) (addr port : UInt8) (n : Nat) :
    after s (Call.readRegN addr port n).effect = after s (singleReads (Reg.of addr port) n) ∧
      answers s (Call.readRegN addr port n).effect = answers s (singleReads (Reg.of addr port) n) := by
  have h := after_counts (Reg.of addr port) (countsOf Device.nPacketMax n) s
  rwa [Base.sum_countsOf (by decide)] at h

end Uniform

/-! ## Register files -/

/-- What the events store. -/
def stores (events : List Event) : List (Reg × UInt16) := events.filterMap Event.store?

/-- A register file holds what was last stored. -/
theorem after_registerFile : ∀ (events : List Event) (s : RegisterFile),
    (after s events).value = Base.writes s.value (stores events)
  | [], s => rfl
  | e :: events, s => by
    rw [after_cons, after_registerFile events]
    cases e with
    | store r w =>
      have hset : (Fabric.react s (.store r w)).1.value = Function.update s.value r w := by
        funext q
        simp [Fabric.react, Function.update_apply]
      rw [hset]
      rfl
    | command c => cases c <;> rfl

theorem answers_reads (r : Reg) (n : Nat) (s : RegisterFile) : answers s (singleReads r n) = List.replicate n (s.value r) := by
  induction n with
  | zero => rfl
  | succ n ih =>
    rw [singleReads, List.replicate_succ, answers_cons, List.replicate_succ]
    exact congrArg (s.value r :: ·) ih

theorem stores_singleWrites (r : Reg) (ws : List UInt16) : stores (singleWrites r ws) = ws.map (fun w => (r, w)) := by
  induction ws with
  | nil => rfl
  | cons w ws ih => exact congrArg ((r, w) :: ·) ih

theorem stores_singleReads (r : Reg) (n : Nat) : stores (singleReads r n) = [] := by
  induction n with
  | zero => rfl
  | succ n ih => exact ih

theorem RegisterFile.ext_value {s t : RegisterFile} (h : s.value = t.value) : s = t := by
  cases s
  cases t
  cases h
  rfl

instance : Uniform RegisterFile where
  writes s r ws _ := by
    apply RegisterFile.ext_value
    have hbulk : stores (ws.map (Event.store r) ++ [.command (.writeRegN r ws)]) = ws.map (fun w => (r, w)) := by
      simp [stores, List.filterMap_map, Function.comp_def, Event.store?]
    rw [after_registerFile, after_registerFile, hbulk]
    exact (congrArg (Base.writes s.value) (stores_singleWrites r ws)).symm
  reads s r k := by
    constructor
    · apply RegisterFile.ext_value
      rw [after_registerFile, after_registerFile]
      exact (congrArg (Base.writes s.value) (stores_singleReads r k)).symm
    · exact (List.append_nil _).trans (answers_reads r k s).symm

end Fpga
