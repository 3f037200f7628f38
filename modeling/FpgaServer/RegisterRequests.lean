import FpgaServer.Idle
import FpgaServer.RequestDecode
/-!
# RegisterRequests — the four register requests on a device in service

A device in service is registered, open and idle.  A request that names it and is one of `writereg`, `readreg`, `writeregn`
and `readregn` is answered: with an error reply that changes nothing if an argument is not accepted (`regOp` is none), and
else as the device itself makes of the operation (`run_request`).
-/
namespace Fpga

open Base (Within final)

variable {δ : Type}

/-- The operation of an accepted request; the argument of a bulk write is a binary. -/
inductive RegOp where
  | write (addr port : UInt8) (value : UInt16)
  | read (addr port : UInt8)
  | writeN (addr port : UInt8) (data : List UInt8)
  | readN (addr port : UInt8) (nWords : UInt32)
  deriving DecidableEq, Repr

namespace RegOp

/-- The register it names on the wire. -/
def reg : RegOp → Reg
  | .write addr port _ | .read addr port | .writeN addr port _ | .readN addr port _ => Reg.of addr port

def call : RegOp → Call
  | .write addr port value => .writeReg addr port value
  | .read addr port => .readReg addr port
  | .writeN addr port data => .writeRegN addr port (words data)
  | .readN addr port nWords => .readRegN addr port nWords.toNat

/-- The call it is on the device of a manager. -/
def invocation (r : Nat) : RegOp → Invocation
  | .write addr port value => .writereg r addr port value
  | .read addr port => .readreg r addr port
  | .writeN addr port data => .writeregn r addr port data
  | .readN addr port nWords => .readregn r addr port nWords

variable [Fabric δ]

/-- The payload of its reply, from a device in state `s`. -/
def result (s : δ) (op : RegOp) : Payload :=
  match op with
  | .write _ _ _ | .writeN _ _ _ => .int 0
  | .read _ _ => .int ((answers s op.call.effect).headD 0).toNat
  | .readN _ _ _ => .binary ((answers s op.call.effect).flatMap be16)

end RegOp

/-! ## Devices in service -/

/-- The change callback of the server, if it is set, does not throw. -/
def Untroubled (n : Notifier) : Prop :=
  ∀ cb, n.regChangeCb = some cb → ∀ serial addr port value, cb serial addr port value = none

/-- The device is open and idle, with the machine behind it in state `s`. -/
structure InService (s : δ) (d : Device (Line δ) View) : Prop where
  isOpen : d.isOpen = true
  idle : d.usb.Idle
  state : d.usb.board.state = s
  wired : Wired d

/-- The manager has the device in service under this serial. -/
structure Serves (serial : String) (r : Nat) (s : δ) (m : DeviceManager (Line δ)) : Prop where
  named : m.getDevice serial = some r
  object : ∃ d, m.objects r = some d ∧ InService s d
  callbacks : Untroubled m.notifier

theorem run_notify_none (event : DeviceEvent) (v : View) : (notify event none).run v = .ok () (v.logged [⟨event, v.listed⟩]) :=
  rfl

/-- A report changes nothing but the log. -/
theorem run_regChanged (addr port : UInt8) (value : UInt16) {s : DeviceState (Line δ) View} (hw : Wired s.dev)
    (hn : Untroubled s.out.notifier) :
    ∃ new, (Device.regChanged addr port value).run s = .ok () { s with out := s.out.logged new } := by
  simp only [Device.regChanged, EStateM.run_bind, EStateM.run_get]
  rcases hw with hw | hw
  · rw [hw]
    exact ⟨[], by rw [View.logged_nil]; rfl⟩
  · rw [hw]
    simp only [Base.run_zoom, onRegChange, EStateM.run_bind, EStateM.run_get]
    cases hcb : s.out.notifier.regChangeCb with
    | none => exact ⟨[], by rw [View.logged_nil]; rfl⟩
    | some cb =>
      refine ⟨[⟨.regChanged s.dev.name addr port value, s.out.listed⟩], ?_⟩
      simp only [hn cb hcb, run_notify_none]

theorem run_storeResult (k : AddrPort) (value : UInt16) {s : DeviceState (Line δ) View} (hw : Wired s.dev)
    (hn : Untroubled s.out.notifier) : ∃ new, (Device.storeResult k value).run s = .ok ()
      ⟨{ s.dev with trackedRegs := s.dev.trackedRegs.set k value }, s.out.logged new⟩ := by
  simp only [Device.storeResult, EStateM.run_bind, EStateM.run_get]
  split
  · rename_i hk
    refine ⟨[], ?_⟩
    rw [Base.OrdMap.set_of_absent hk, View.logged_nil]
    rfl
  · simp only [EStateM.run_bind, Device.modifyDev, EStateM.run_modify]
    split
    · obtain ⟨new, hnew⟩ := run_regChanged k.addr k.port value
        (s := { s with dev := { s.dev with trackedRegs := s.dev.trackedRegs.set k value } }) hw hn
      exact ⟨new, hnew⟩
    · exact ⟨[], by rw [View.logged_nil]; rfl⟩

variable [Fabric δ]

theorem InService.served {s : δ} {st : DeviceState (Line δ) View} (h : InService s st.dev) (c : Call) :
    InService (after s c.effect) (served st c.bytes).dev :=
  ⟨h.isOpen, h.idle.served (reads_bytes c), by rw [h.idle.state (reads_bytes c), h.state], h.wired⟩

section Serves

open DeviceManager

variable {serial : String} {r : Nat} {s t : δ} {m : DeviceManager (Line δ)}

omit [Fabric δ] in
theorem Serves.putBack (h : Serves serial r s m) {st : DeviceState (Line δ) View} (hd : InService t st.dev)
    {new : List Notice} (ho : st.out = (⟨m.notifier, m.getDeviceList⟩ : View).logged new) :
    Serves serial r t (m.putBack r st) := by
  refine ⟨h.named, ⟨st.dev, putBack_self m r st, hd⟩, ?_⟩
  rw [DeviceManager.putBack, ho]
  exact h.callbacks

/-- An operation that returns from the device as it has served the call. -/
theorem Serves.operation {α : Type} (h : Serves serial r s m) {x : DeviceM (Line δ) View α} (c : Call) (result : δ → α)
    (hx : ∀ st : DeviceState (Line δ) View, InService s st.dev → st.out = ⟨m.notifier, m.getDeviceList⟩ →
      ∃ u new, x.run st = .ok (result s) u ∧ InService (after s c.effect) u.dev ∧ u.out = st.out.logged new) :
    ∃ m', (onDevice r x).run m = .ok (result s) m' ∧ Serves serial r (after s c.effect) m' := by
  obtain ⟨d, hd, hservice⟩ := h.object
  obtain ⟨u, new, hrun, hdev, hout⟩ := hx ⟨d, ⟨m.notifier, m.getDeviceList⟩⟩ hservice rfl
  refine ⟨m.putBack r u, ?_, h.putBack hdev hout⟩
  rw [run_onDevice_some hd, hrun]

theorem Serves.writeReg (h : Serves serial r s m) (addr port : UInt8) (value : UInt16) :
    ∃ m', (onDevice r (Device.writeReg addr port value)).run m = .ok () m' ∧
      Serves serial r (after s (Call.writeReg addr port value).effect) m' :=
  h.operation (.writeReg addr port value) (fun _ => ()) (fun _ hst _ =>
    ⟨_, [], run_writeReg hst.isOpen hst.idle addr port value, hst.served _, (View.logged_nil _).symm⟩)

theorem Serves.writeRegN (h : Serves serial r s m) (addr port : UInt8) (data : List UInt16) :
    ∃ m', (onDevice r (Device.writeRegN addr port data)).run m = .ok () m' ∧
      Serves serial r (after s (Call.writeRegN addr port data).effect) m' :=
  h.operation (.writeRegN addr port data) (fun _ => ()) (fun _ hst _ =>
    ⟨_, [], run_writeRegN addr port data hst.isOpen hst.idle, hst.served _, (View.logged_nil _).symm⟩)

theorem Serves.readRegN (h : Serves serial r s m) (addr port : UInt8) (n : Nat) :
    ∃ m', (onDevice r (Device.readRegN addr port n)).run m = .ok (answers s (Call.readRegN addr port n).effect) m' ∧
      Serves serial r (after s (Call.readRegN addr port n).effect) m' :=
  h.operation (.readRegN addr port n) (fun s => answers s (Call.readRegN addr port n).effect) (fun st hst _ => by
    refine ⟨_, [], ?_, hst.served _, (View.logged_nil _).symm⟩
    rw [run_readRegN addr port n hst.isOpen hst.idle, hst.state])

theorem Serves.readReg (h : Serves serial r s m) (addr port : UInt8) :
    ∃ m', (onDevice r (Device.readReg addr port)).run m = .ok ((answers s (Call.readReg addr port).effect).headD 0) m' ∧
      Serves serial r (after s (Call.readReg addr port).effect) m' :=
  h.operation (.readReg addr port) (fun s => (answers s (Call.readReg addr port).effect).headD 0) (fun st hst hout => by
    have hserved := hst.served (Call.readReg addr port)
    have hn : Untroubled (Fpga.served st (Call.readReg addr port).bytes).out.notifier := by
      show Untroubled st.out.notifier
      rw [hout]
      exact h.callbacks
    obtain ⟨new, hstore⟩ := run_storeResult ⟨addr, port⟩ ((answers s (Call.readReg addr port).effect).headD 0)
      hserved.wired hn
    have hrun := run_readReg hst.isOpen hst.idle addr port
    rw [hst.state] at hrun
    simp only at hrun
    rw [EStateM.run_bind, hstore] at hrun
    exact ⟨_, new, hrun, ⟨hserved.isOpen, hserved.idle, hserved.state, hserved.wired⟩, rfl⟩)

end Serves

/-! ## Requests -/

namespace RequestHandler

variable (C : Conversions)

/-- The operation of the four register commands; none if the server does not accept an argument. -/
def regOp (cmd : String) (args : List Obj) : Option RegOp := do
  let addr ← operand args 2 C.uint8
  let port ← operand args 3 C.uint8
  match cmd with
  | "writereg" => (operand args 4 C.uint16).map (.write addr port)
  | "readreg" => some (.read addr port)
  | "writeregn" =>
    match args[4]? with
    | some (Obj.bin data) => some (.writeN addr port data)
    | _ => none
  | "readregn" => (operand args 4 C.uint32).map (.readN addr port)
  | _ => none

/-- A register request for the device with this serial. -/
structure IsRegRequest (serial cmd : String) (args : List Obj) (request : Obj) : Prop where
  parsed : parse C request = some (cmd, args)
  register : cmd ∈ ["writereg", "readreg", "writeregn", "readregn"]
  names : operand args 1 C.string = some serial

theorem decodeCall_register {ε : Type} {m : DeviceManager ε} {serial cmd : String} {r : Nat} {args : List Obj}
    (hnames : operand args 1 C.string = some serial) (hr : m.getDevice serial = some r)
    (hcmd : cmd ∈ ["writereg", "readreg", "writeregn", "readregn"]) :
    decodeCall C m cmd args = (regOp C cmd args).map (RegOp.invocation r) := by
  have hnamed : named C m args = some r := by rw [named, hnames, Option.bind_some, hr]
  simp only [List.mem_cons, List.not_mem_nil, or_false] at hcmd
  cases haddr : operand args 2 C.uint8 with
  | none => rcases hcmd with rfl | rfl | rfl | rfl <;> simp [decodeCall, regOp, hnamed, haddr]
  | some addr =>
    cases hport : operand args 3 C.uint8 with
    | none => rcases hcmd with rfl | rfl | rfl | rfl <;> simp [decodeCall, regOp, hnamed, haddr, hport]
    | some port =>
      rcases hcmd with rfl | rfl | rfl | rfl
      all_goals simp only [decodeCall, regOp, hnamed, haddr, hport, Option.bind_eq_bind, Option.bind_some]
      · cases operand args 4 C.uint16 <;> rfl
      · rfl
      · rw [operand]
        cases args[4]? with
        | none => rfl
        | some data => cases data <;> rfl
      · cases operand args 4 C.uint32 <;> rfl

/-- **A call on a device in service** yields what the machine behind it makes of the operation. -/
theorem run_invocation {serial : String} {r : Nat} {s : δ} {m : DeviceManager (Line δ)} (h : Serves serial r s m)
    (op : RegOp) : ∃ m', (op.invocation r).run.run m = .ok (op.result s) m' ∧
      Serves serial r (after s op.call.effect) m' := by
  cases op with
  | write addr port value =>
    obtain ⟨m', hrun, hserves⟩ := h.writeReg addr port value
    refine ⟨m', ?_, hserves⟩
    rw [RegOp.invocation, Invocation.run, EStateM.run_bind, hrun]
    rfl
  | read addr port =>
    obtain ⟨m', hrun, hserves⟩ := h.readReg addr port
    refine ⟨m', ?_, hserves⟩
    rw [RegOp.invocation, Invocation.run, EStateM.run_bind, hrun]
    rfl
  | writeN addr port data =>
    obtain ⟨m', hrun, hserves⟩ := h.writeRegN addr port (words data)
    refine ⟨m', ?_, hserves⟩
    rw [RegOp.invocation, Invocation.run, EStateM.run_bind, hrun]
    rfl
  | readN addr port nWords =>
    obtain ⟨m', hrun, hserves⟩ := h.readRegN addr port nWords.toNat
    refine ⟨m', ?_, hserves⟩
    rw [RegOp.invocation, Invocation.run, EStateM.run_bind, hrun]
    rfl

/-- **A register request** is answered, and the device has done what the accepted ones ask for. -/
theorem run_request {serial cmd : String} {r : Nat} {s : δ} {m : DeviceManager (Line δ)} {args : List Obj} {request : Obj}
    (h : Serves serial r s m) (hr : IsRegRequest C serial cmd args request) :
    ∃ t, (handleRequest C request).run ⟨m, [], []⟩ = .ok () t ∧ match regOp C cmd args with
      | some op => Serves serial r (after s op.call.effect) t.manager ∧
          t.reply = [.array 2, .int rpcRcodeOk] ++ (op.result s).packed
      | none => Serves serial r s t.manager ∧ ∃ text, t.reply = errorTokens text := by
  have houtcome := outcome_decoded C m request
  rw [decode_eq, hr.parsed, Option.bind_some, decodeCall_register C hr.names h.named hr.register] at houtcome
  cases hop : regOp C cmd args with
  | some op =>
    rw [hop] at houtcome
    obtain ⟨m', hrun, hserves⟩ := run_invocation h op
    refine ⟨⟨m', [.array 2, .int rpcRcodeOk] ++ (op.result s).packed, []⟩, ?_, hserves, rfl⟩
    rw [show (handleRequest C request).run ⟨m, [], []⟩ = (op.invocation r).answered m from houtcome,
      Invocation.answered, hrun]
  | none =>
    rw [hop] at houtcome
    obtain ⟨text, hrun⟩ := houtcome
    exact ⟨⟨m, errorTokens text, []⟩, hrun, h, text, rfl⟩

end RequestHandler
end Fpga
