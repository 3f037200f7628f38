import FpgaServer.RegisterRequests
/-!
# SharedRegisters — a register file that several clients read and write

The server handles one request at a time, and its handler is not told whose it is: the requests of any number of clients are
one list.  The low six bits of address and port name a register, so a request for an address from 64 on is one for the
register of its low bits: registers hold the last word written under any of their names (`registers_shared`).
-/
namespace Fpga

open Base (final writes writtenTo)

namespace RegOp

/-- The words a request writes, with the register each is for. -/
def written : RegOp → List (Reg × UInt16)
  | .write addr port value => [(Reg.of addr port, value)]
  | .writeN addr port data => (words data).map (fun w => (Reg.of addr port, w))
  | .read _ _ | .readN _ _ _ => []

theorem reg_of_written {op : RegOp} {w : Reg × UInt16} (h : w ∈ op.written) : w.1 = op.reg := by
  cases op with
  | write addr port value =>
    rw [List.mem_singleton.1 h]
    rfl
  | writeN addr port data =>
    obtain ⟨v, -, rfl⟩ := List.mem_map.1 h
    rfl
  | read addr port => exact absurd h List.not_mem_nil
  | readN addr port nWords => exact absurd h List.not_mem_nil

/-- What an operation makes of a register file. -/
theorem after_effect (file : RegisterFile) (op : RegOp) : (after file op.call.effect).value = writes file.value op.written := by
  cases op with
  | write addr port value => exact after_registerFile _ _
  | read addr port => exact after_registerFile _ _
  | writeN addr port data =>
    rw [call, after_writeRegN, after_registerFile, stores_singleWrites]
    rfl
  | readN addr port nWords =>
    rw [call, (readRegN_single _ _ _ _).1, after_registerFile, stores_singleReads]
    rfl

/-- The result of an operation depends on the register it names. -/
theorem result_eq (file : RegisterFile) (op : RegOp) : op.result file = match op with
    | .write _ _ _ | .writeN _ _ _ => .int 0
    | .read _ _ => .int (file.value op.reg).toNat
    | .readN _ _ nWords => .binary ((List.replicate nWords.toNat (file.value op.reg)).flatMap be16) := by
  cases op with
  | write addr port value => rfl
  | read addr port => rfl
  | writeN addr port data => rfl
  | readN addr port nWords =>
    rw [result, call, (readRegN_single _ _ _ _).2, answers_reads]
    rfl

end RegOp

namespace RequestHandler

variable {C : Conversions} {serial : String}

/-- A request for a register of the device with this serial. -/
structure RegRequest (C : Conversions) (serial : String) where
  object : Obj
  cmd : String
  args : List Obj
  isRegRequest : IsRegRequest C serial cmd args object

namespace RegRequest

/-- The operation, if the server accepts the arguments. -/
def op (q : RegRequest C serial) : Option RegOp := regOp C q.cmd q.args

/-- The reply and the manager that a request leaves. -/
def handled (q : RegRequest C serial) (m : DeviceManager (Line RegisterFile)) : RequestState (Line RegisterFile) :=
  final ((handleRequest C q.object).run ⟨m, [], []⟩)

/-- The manager after requests of all clients in the order they are handled. -/
def afterAll (m : DeviceManager (Line RegisterFile)) : List (RegRequest C serial) → DeviceManager (Line RegisterFile)
  | [] => m
  | q :: qs => afterAll (q.handled m).manager qs

/-- The words that accepted requests have written. -/
def writtenBy (qs : List (RegRequest C serial)) : List (Reg × UInt16) := qs.flatMap (fun q => q.op.elim [] RegOp.written)

/-- The last word written to the register by accepted requests, or the one it held at first. -/
def lastWritten (file : RegisterFile) (qs : List (RegRequest C serial)) (reg : Reg) : UInt16 :=
  (writtenTo reg (writtenBy qs)).getLast?.getD (file.value reg)

variable {r : Nat} {file : RegisterFile} {m : DeviceManager (Line RegisterFile)}

/-- A request is answered, and then the device serves the register file it has written to. -/
theorem handled_spec (h : Serves serial r file m) (q : RegRequest C serial) :
    (handleRequest C q.object).run ⟨m, [], []⟩ = .ok () (q.handled m) ∧
      Serves serial r ⟨writes file.value (writtenBy [q])⟩ (q.handled m).manager ∧
      ∀ op, q.op = some op → (q.handled m).reply = [.array 2, .int rpcRcodeOk] ++ (op.result file).packed := by
  obtain ⟨t, hrun, hop⟩ := run_request C h q.isRegRequest
  have hhandled : q.handled m = t := by rw [handled, hrun, Base.final_ok]
  rw [hhandled]
  refine ⟨hrun, ?_⟩
  cases hq : regOp C q.cmd q.args with
  | none =>
    rw [hq] at hop
    have hwritten : writtenBy [q] = [] := by simp [writtenBy, op, hq]
    rw [hwritten]
    refine ⟨hop.1, fun o ho => ?_⟩
    cases hq.symm.trans ho
  | some o =>
    rw [hq] at hop
    have hwritten : writtenBy [q] = o.written := by simp [writtenBy, op, hq]
    have hfile : after file o.call.effect = ⟨writes file.value (writtenBy [q])⟩ :=
      RegisterFile.ext_value (by rw [hwritten]; exact o.after_effect file)
    refine ⟨hfile ▸ hop.1, fun o' ho => ?_⟩
    cases hq.symm.trans ho
    exact hop.2

/-- **Requests refine writes to a store**: after any of them, the device serves the register file they have written. -/
theorem serves_afterAll : ∀ (qs : List (RegRequest C serial)) {file : RegisterFile} {m : DeviceManager (Line RegisterFile)},
    Serves serial r file m → Serves serial r ⟨writes file.value (writtenBy qs)⟩ (afterAll m qs)
  | [], _, _, h => h
  | q :: qs, file, m, h => by
    have hwritten : writtenBy (q :: qs) = writtenBy [q] ++ writtenBy qs := by simp [writtenBy]
    rw [hwritten, Base.writes_append]
    exact serves_afterAll qs (handled_spec h q).2.1

theorem reply_after (h : Serves serial r file m) (before : List (RegRequest C serial)) (q : RegRequest C serial) {op : RegOp}
    (hop : q.op = some op) : (q.handled (afterAll m before)).reply =
      [.array 2, .int rpcRcodeOk] ++ (op.result (RegisterFile.mk (writes file.value (writtenBy before)))).packed :=
  (handled_spec (serves_afterAll before h) q).2.2 op hop

theorem lastWritten_eq (file : RegisterFile) (qs : List (RegRequest C serial)) (reg : Reg) :
    writes file.value (writtenBy qs) reg = lastWritten file qs reg := Base.writes_apply reg (writtenBy qs) file.value

/-- A request for another register does not count. -/
theorem lastWritten_skip (file : RegisterFile) (before between : List (RegRequest C serial)) {x : RegRequest C serial}
    {o : RegOp} {reg : Reg} (ho : x.op = some o) (hne : o.reg ≠ reg) :
    lastWritten file (before ++ x :: between) reg = lastWritten file (before ++ between) reg := by
  have hx : writtenTo reg (o.written) = [] := Base.writtenTo_of_ne (fun w hw => by rwa [RegOp.reg_of_written hw])
  have hsplit : writtenBy (before ++ x :: between) = writtenBy before ++ (o.written ++ writtenBy between) := by
    simp [writtenBy, ho]
  have hjoin : writtenBy (before ++ between) = writtenBy before ++ writtenBy between := by simp [writtenBy]
  rw [lastWritten, lastWritten, hsplit, hjoin, Base.writtenTo_append, Base.writtenTo_append, hx, List.nil_append,
    ← Base.writtenTo_append]

/-- **Shared registers**: an accepted `readreg` is answered with the last word written to its register by an accepted
request, and a request for another register changes nothing that is read.  Names are compared by their low six bits. -/
theorem registers_shared (h : Serves serial r file m) (before : List (RegRequest C serial)) (q : RegRequest C serial) :
    (∀ addr port, q.op = some (.read addr port) → ∃ t,
      (handleRequest C q.object).run ⟨afterAll m before, [], []⟩ = .ok () t ∧
        t.reply = valueTokens (.int (lastWritten file before (Reg.of addr port)).toNat)) ∧
    ∀ between x o op, q.op = some op → x.op = some o → o.reg ≠ op.reg →
      (q.handled (afterAll m (before ++ x :: between))).reply = (q.handled (afterAll m (before ++ between))).reply := by
  constructor
  · intro addr port hop
    refine ⟨_, (handled_spec (serves_afterAll before h) q).1, ?_⟩
    rw [reply_after h before q hop, RegOp.result_eq]
    simp only [lastWritten_eq]
    rfl
  · intro between x o op hop ho hne
    rw [reply_after h _ q hop, reply_after h _ q hop, RegOp.result_eq, RegOp.result_eq]
    simp only [lastWritten_eq, lastWritten_skip file before between ho hne]

/-! ## A device in service -/

/-- A manager with one open device, all of whose registers hold 0. -/
def zeroed : DeviceManager (Line RegisterFile) :=
  ((DeviceManager.initial [] DeviceManager.setNotifier).alloc
    { name := "FPGA0001", libusbDevice := 7, ftdi := some 0, trackedRegs := Base.OrdMap.empty, regChangedCb := some onRegChange,
      contexts := [], nextContext := 1,
      usb := ⟨⟨boundary, ⟨fun _ => 0⟩, [], []⟩, [], [], [], []⟩ }).entered 7 0 "FPGA0001"

theorem serves_zeroed : Serves "FPGA0001" 0 (⟨fun _ => 0⟩ : RegisterFile) zeroed where
  named := by decide +kernel
  object := ⟨_, rfl, rfl, ⟨rfl, rfl, rfl, rfl⟩, rfl, .inr rfl⟩
  callbacks := DeviceManager.quiet_setNotifier.2.2

/-- `["writereg", "FPGA0001", addr, 0, 5]`. -/
def writeFive (addr : Nat) : RegRequest byType "FPGA0001" where
  object := .array [.str "writereg", .str "FPGA0001", .int addr, .int 0, .int 5]
  cmd := "writereg"
  args := [.str "writereg", .str "FPGA0001", .int addr, .int 0, .int 5]
  isRegRequest := ⟨rfl, by decide, rfl⟩

/-- `["readreg", "FPGA0001", addr, 0]`. -/
def readBack (addr : Nat) : RegRequest byType "FPGA0001" where
  object := .array [.str "readreg", .str "FPGA0001", .int addr, .int 0]
  cmd := "readreg"
  args := [.str "readreg", .str "FPGA0001", .int addr, .int 0]
  isRegRequest := ⟨rfl, by decide, rfl⟩

/-- Both requests are accepted, and one that names (64, 0) changes what is read under the name (0, 0). -/
theorem high_bits_alias : Serves "FPGA0001" 0 (⟨fun _ => 0⟩ : RegisterFile) zeroed ∧
    (writeFive 64).op = some (.write 64 0 5) ∧ (readBack 0).op = some (.read 0 0) ∧
    ((readBack 0).handled zeroed).reply = valueTokens (.int 0) ∧
    ((readBack 0).handled (afterAll zeroed [writeFive 64])).reply = valueTokens (.int 5) := by
  refine ⟨serves_zeroed, rfl, rfl, ?_, ?_⟩
  · decide +kernel
  · decide +kernel

/-- Under the name (64, 0) the same word is read. -/
theorem registers_shared_alias : ∃ t, (handleRequest byType (readBack 64).object).run
    ⟨afterAll zeroed [writeFive 0, writeFive 1], [], []⟩ = .ok () t ∧ t.reply = valueTokens (.int 5) :=
  (registers_shared serves_zeroed [writeFive 0, writeFive 1] (readBack 64)).1 64 0 rfl

end RegRequest
end RequestHandler
end Fpga
