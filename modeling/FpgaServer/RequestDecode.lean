import FpgaServer.RequestReply
/-!
# RequestDecode — which call a request makes

A request is valid if it is an array that begins with a command, and every argument the command uses is there, converts and,
for the serial, names a registered device; `decode` reads it as the one call it asks for, with the decoded arguments.  With
an allocator that grants everything, a request makes this call or none at all (`handles_decoded`): every check of a handler
comes before its call.
-/
namespace Fpga

open DeviceManager (onDevice)

/-- The call of a valid request. -/
inductive Invocation where
  | devicelist
  | reprogram (device : Nat)
  | writereg (device : Nat) (addr port : UInt8) (value : UInt16)
  | readreg (device : Nat) (addr port : UInt8)
  | writeregn (device : Nat) (addr port : UInt8) (data : List UInt8)
  | readregn (device : Nat) (addr port : UInt8) (nWords : UInt32)
  | writeraw (device : Nat) (data : List UInt8)
  | readraw (device : Nat) (nBytes : UInt32)
  deriving DecidableEq, Repr

variable {ε α : Type}

namespace Invocation

/-- What has been packed when the call is made. -/
def begun : Invocation → List Token
  | .reprogram _ => [.array 2, .int rpcRcodeOk]
  | _ => []

/-- The elements of the list or vector that is allocated before the call. -/
def elements (m : DeviceManager ε) : Invocation → Nat
  | .devicelist => m.getDeviceList.length
  | .readregn _ _ _ nWords => nWords.toNat
  | .readraw _ nBytes => nBytes.toNat
  | _ => 0

variable [Ftdi ε] [Programmer ε]

/-- The one operation of the manager or of a device, and the payload made of its result. -/
def run : Invocation → ManagerM ε Payload
  | .devicelist => do
    let m ← get
    return .strings m.getDeviceList
  | .reprogram r => do
    let programmed ← DeviceManager.reprogramDevice (some r)
    return .bool programmed
  | .writereg r addr port value => do
    onDevice r (Device.writeReg addr port value)
    return .int 0
  | .readreg r addr port => do
    let value ← onDevice r (Device.readReg addr port)
    return .int value.toNat
  | .writeregn r addr port data => do
    onDevice r (Device.writeRegN addr port (words data))
    return .int 0
  | .readregn r addr port nWords => do
    let data ← onDevice r (Device.readRegN addr port nWords.toNat)
    return .binary (data.flatMap be16)
  | .writeraw r data => do
    onDevice r (Device.writeRaw data)
    return .int 0
  | .readraw r nBytes => do
    let data ← onDevice r (Device.readRaw nBytes.toNat)
    return .binary data

/-- The call, and the reply made of how it ends. -/
def answered (inv : Invocation) (m : DeviceManager ε) : EStateM.Result Fault (RequestState ε) Unit :=
  match inv.run.run m with
  | .ok p m' => .ok () ⟨m', [.array 2, .int rpcRcodeOk] ++ p.packed, []⟩
  | .error (.exception what) m' => .ok () ⟨m', inv.begun ++ RequestHandler.errorTokens what, []⟩
  | .error e m' => .error e ⟨m', inv.begun, []⟩

end Invocation

namespace RequestHandler

variable (C : Conversions)

/-- The argument, if it is there and converts. -/
def operand (args : List Obj) (i : Nat) (f : Obj → Except String α) : Option α := args[i]?.bind (fun a => (f a).toOption)

def binary : Obj → Except String (List UInt8)
  | .bin data => .ok data
  | _ => .error "Invalid argument"

/-- The device its serial names. -/
def named (m : DeviceManager ε) (args : List Obj) : Option Nat := (operand args 1 C.string).bind m.getDevice

/-- The call of a command with these arguments, its name the first of them. -/
def decodeCall (m : DeviceManager ε) (cmd : String) (args : List Obj) : Option Invocation := do
  match cmd with
  | "devicelist" => some .devicelist
  | "reprogram" => return .reprogram (← named C m args)
  | "writereg" =>
    return .writereg (← named C m args) (← operand args 2 C.uint8) (← operand args 3 C.uint8) (← operand args 4 C.uint16)
  | "readreg" => return .readreg (← named C m args) (← operand args 2 C.uint8) (← operand args 3 C.uint8)
  | "writeregn" =>
    return .writeregn (← named C m args) (← operand args 2 C.uint8) (← operand args 3 C.uint8) (← operand args 4 binary)
  | "readregn" =>
    return .readregn (← named C m args) (← operand args 2 C.uint8) (← operand args 3 C.uint8) (← operand args 4 C.uint32)
  | "writeraw" => return .writeraw (← named C m args) (← operand args 2 binary)
  | "readraw" => return .readraw (← named C m args) (← operand args 2 C.uint32)
  | _ => none

/-- The call of a request that is valid for the manager. -/
def decode (m : DeviceManager ε) (request : Obj) : Option Invocation := do
  let args ← (C.array request).toOption
  let cmd ← operand args 0 C.string
  decodeCall C m cmd args

theorem decode_eq (m : DeviceManager ε) (request : Obj) :
    decode C m request = (parse C request).bind (fun p => decodeCall C m p.1 p.2) := by
  simp only [decode, parse, operand, Option.bind_eq_bind]
  cases (C.array request).toOption with
  | none => rfl
  | some args =>
    cases hfirst : args[0]? with
    | none => simp [hfirst]
    | some first => cases hcmd : (C.string first).toOption <;> simp [hfirst, hcmd]

/-! ## Handlers -/

variable [Ftdi ε] [Programmer ε]

/-- A handler, from an empty buffer, gets what it allocates first, makes the call and hands its payload on; or it ends with
nothing done. -/
def Makes (m : DeviceManager ε) (memory : List Bool) (x : RequestM ε Answer) : Option Invocation → Prop
  | some inv =>
    (Granted (blocks (inv.elements m)) memory → x.run ⟨m, [], memory⟩ = match inv.run.run m with
      | .ok p m' => .ok (.value p) ⟨m', [], memory.drop (blocks (inv.elements m))⟩
      | .error e m' => .error e ⟨m', [], memory.drop (blocks (inv.elements m))⟩) ∧
    (¬ Granted (blocks (inv.elements m)) memory →
      x.run ⟨m, [], memory⟩ = .error (.exception badAlloc) ⟨m, [], memory.drop (blocks (inv.elements m))⟩)
  | none => (∃ text, x.run ⟨m, [], memory⟩ = .ok (.refusal text) ⟨m, [], memory⟩) ∨
      ∃ what, x.run ⟨m, [], memory⟩ = .error (.exception what) ⟨m, [], memory⟩

variable {C} {m : DeviceManager ε} {memory : List Bool} {args : List Obj} {i : Nat}

theorem Makes.congr {x y : RequestM ε Answer} (h : x.run ⟨m, [], memory⟩ = y.run ⟨m, [], memory⟩) {inv : Option Invocation}
    (hy : Makes m memory y inv) : Makes m memory x inv := by
  cases inv <;> simpa only [Makes, h] using hy

omit [Ftdi ε] [Programmer ε] in
theorem run_arg_none (h : args[i]? = none) (k : Obj → RequestM ε Answer) (st : RequestState ε) :
    (arg C args i >>= k).run st = .error (.exception (C.outOfRange i args.length)) st := by
  rw [arg, h]
  rfl

omit [Ftdi ε] [Programmer ε] in
theorem arg_some {a : Obj} (h : args[i]? = some a) : (arg C args i : RequestM ε Obj) = pure a := by
  rw [arg, h]

/-- An argument that is missing or does not convert ends the handler. -/
theorem Makes.operand {f : Obj → Except String α} {k : α → RequestM ε Answer} {g : α → Option Invocation}
    (h : ∀ a, Makes m memory (k a) (g a)) :
    Makes m memory (arg C args i >>= fun x => convert (f x) >>= k) ((operand args i f).bind g) := by
  rw [RequestHandler.operand]
  cases hx : args[i]? with
  | none => exact .inr ⟨_, run_arg_none hx _ _⟩
  | some x =>
    rw [arg_some hx, pure_bind, Option.bind_some]
    cases hf : f x with
    | error what => exact .inr ⟨what, rfl⟩
    | ok a => exact h a

/-- The argument of a bulk write has to be a binary. -/
theorem Makes.binary {k : List UInt8 → RequestM ε Answer} {g : List UInt8 → Option Invocation}
    (h : ∀ data, Makes m memory (k data) (g data)) :
    Makes m memory (do
      match ← arg C args i with
      | .bin data => k data
      | _ => return .refusal "Invalid argument") ((RequestHandler.operand args i binary).bind g) := by
  rw [RequestHandler.operand]
  cases hx : args[i]? with
  | none => exact .inr ⟨_, run_arg_none hx _ _⟩
  | some x =>
    rw [arg_some hx, pure_bind, Option.bind_some]
    cases x with
    | bin data => exact h data
    | _ => exact .inl ⟨_, rfl⟩

omit [Ftdi ε] [Programmer ε] in
/-- The lookup yields the device the serial names, if the serial converts. -/
theorem getDevice_named (args : List Obj) (st : RequestState ε) :
    (getDevice C args).run st = .ok (named C st.manager args) st ∨
      named C st.manager args = none ∧ ∃ what, (getDevice C args).run st = .error (.exception what) st := by
  rw [RequestHandler.named, RequestHandler.operand]
  cases hx : args[1]? with
  | none => exact .inr ⟨rfl, C.outOfRange 1 args.length, by simp only [getDevice, arg, hx]; rfl⟩
  | some x =>
    cases hs : C.string x with
    | error what =>
      refine .inr ⟨?_, what, by simp only [getDevice, arg_some hx, pure_bind, hs]; rfl⟩
      rw [Option.bind_some, hs]
      rfl
    | ok serial =>
      rw [Option.bind_some, hs]
      exact .inl (by simp only [getDevice, arg_some hx, pure_bind, hs]; rfl)

theorem Makes.named {f : Nat → RequestM ε Answer} {g : Nat → Option Invocation} (h : ∀ r, Makes m memory (f r) (g r)) :
    Makes m memory (onNamed C args f) ((named C m args).bind g) := by
  rcases getDevice_named args ⟨m, [], memory⟩ with hget | ⟨hnone, what, hget⟩
  · cases hr : RequestHandler.named C m args with
    | none => exact .inl ⟨"Unknown device", by rw [onNamed, EStateM.run_bind, hget, hr]; rfl⟩
    | some r => exact (h r).congr (by rw [onNamed, EStateM.run_bind, hget, hr])
  · rw [hnone]
    exact .inr ⟨what, by rw [onNamed, EStateM.run_bind, hget]⟩

/-- The call itself, behind what it allocates first. -/
theorem makes_call {x : ManagerM ε α} {p : α → Payload} {inv : Invocation} (h : inv.run = (do return p (← x))) {n : Nat}
    (hn : n = inv.elements m) : Makes m memory (do
      allocateElements n
      let a ← onManager x
      return .value (p a)) (some inv) := by
  subst hn
  constructor
  · intro hg
    rw [EStateM.run_bind, run_allocateElements hg]
    simp only [h, EStateM.run_bind, onManager, Base.run_zoom]
    cases x.run m <;> rfl
  · intro hg
    rw [EStateM.run_bind, run_allocateElements_refused hg]

/-- A call that allocates nothing first. -/
theorem makes_call_only {x : ManagerM ε α} {p : α → Payload} {inv : Invocation} (h : inv.run = (do return p (← x)))
    (hnone : inv.elements m = 0) : Makes m memory (do
      let a ← onManager x
      return .value (p a)) (some inv) :=
  (makes_call h hnone.symm).congr rfl

theorem makes_devicelist : Makes m memory devicelist (some .devicelist) := by
  constructor
  · intro hg
    have hlist : (allocateElements m.getDeviceList.length).run ⟨m, [], memory⟩ = _ := run_allocateElements hg
    simp only [devicelist, EStateM.run_bind, EStateM.run_get, hlist]
    rfl
  · intro hg
    have hlist : (allocateElements m.getDeviceList.length).run ⟨m, [], memory⟩ = _ := run_allocateElements_refused hg
    simp only [devicelist, EStateM.run_bind, EStateM.run_get, hlist]
    rfl

/-- **Each command** makes the call its arguments decode to, or nothing. -/
theorem makes_command {cmd : String} {args : List Obj} {x : RequestM ε Answer} (hx : command C cmd args = some x) :
    Makes m memory x (decodeCall C m cmd args) := by
  unfold command at hx
  split at hx <;> cases hx
  · exact makes_devicelist
  · exact .named (fun r => .operand (fun addr => .operand (fun port => .operand (fun value => makes_call_only rfl rfl))))
  · exact .named (fun r => .operand (fun addr => .operand (fun port => makes_call_only rfl rfl)))
  · exact .named (fun r => .operand (fun addr => .operand (fun port => .binary (fun data => makes_call_only rfl rfl))))
  · exact .named (fun r => .operand (fun addr => .operand (fun port => .operand (fun nWords =>
      makes_call rfl rfl))))
  · exact .named (fun r => .binary (fun data => makes_call_only rfl rfl))
  · exact .named (fun r => .operand (fun nBytes => makes_call rfl rfl))

theorem decodeCall_of_no_function {cmd : String} {args : List Obj} (h : function (ε := ε) C cmd args = none) :
    decodeCall C m cmd args = none := by
  unfold function at h
  split at h
  · cases h
  · rename_i hcmd
    have hnone := Option.map_eq_none_iff.1 h
    unfold command at hnone
    split at hnone
    all_goals cases hnone
    unfold decodeCall
    split
    all_goals first | contradiction | rfl

omit [Ftdi ε] [Programmer ε] in
theorem cmd_of_reprogram {cmd : String} {args : List Obj} {r : Nat} (h : decodeCall C m cmd args = some (.reprogram r)) :
    cmd = "reprogram" := by
  unfold decodeCall at h
  split at h
  all_goals first | rfl | simp [Option.bind_eq_some_iff] at h

/-! ## Requests -/

section
variable (m : DeviceManager ε)

omit [Ftdi ε] [Programmer ε] in
/-- Where everything is granted, a payload is packed whole. -/
theorem run_value_granted (p : Payload) :
    (reply (.value p)).run ⟨m, [], []⟩ = .ok (some p) ⟨m, [.array 2, .int rpcRcodeOk] ++ p.packed, []⟩ := by
  rw [reply, EStateM.run_bind, run_replyValue (granted_nil _), List.drop_nil]
  rfl

/-- What is done about a request that decodes to this. -/
def Outcome (m : DeviceManager ε) (x : RequestM ε Unit) : Option Invocation → Prop
  | some inv => x.run ⟨m, [], []⟩ = inv.answered m
  | none => ∃ text, x.run ⟨m, [], []⟩ = .ok () ⟨m, errorTokens text, []⟩

variable {m}

/-- A handler that hands its answer to the macro. -/
theorem Makes.outcome {x : RequestM ε Answer} {inv : Option Invocation} (h : Makes m [] x inv)
    (hbegun : ∀ r, inv ≠ some (.reprogram r)) :
    Outcome m (catchException (do let _ ← x >>= reply) (fun what => replyError what)) inv := by
  cases inv with
  | some inv =>
    have hempty : inv.begun = [] := by
      cases inv with
      | reprogram r => exact absurd rfl (hbegun r)
      | _ => rfl
    have hcall := h.1 (granted_nil _)
    simp only [Outcome, Invocation.answered, hempty, List.nil_append, List.drop_nil] at hcall ⊢
    rw [run_caught, EStateM.run_bind, hcall]
    cases inv.run.run m with
    | ok p m' => simp only [run_value_granted]
    | error e m' =>
      cases e with
      | exception what => exact run_replyError what _
      | crash => rfl
      | overrun => rfl
  | none =>
    rcases h with ⟨text, h⟩ | ⟨what, h⟩
    · exact ⟨text, by rw [run_caught, EStateM.run_bind, h]; simp only [run_refusal]⟩
    · exact ⟨what, by rw [run_caught, EStateM.run_bind, h]; exact run_replyError what _⟩

omit [Ftdi ε] [Programmer ε] in
/-- A lookup that finds no device ends the command, with nothing done. -/
theorem getDevice_none (hnone : named C m args = none) (memory : List Bool) :
    (getDevice C args).run ⟨m, [], memory⟩ = .ok none ⟨m, [], memory⟩ ∨
      ∃ what, (getDevice C args).run ⟨m, [], memory⟩ = .error (.exception what) ⟨m, [], memory⟩ := by
  rcases getDevice_named (C := C) args ⟨m, [], memory⟩ with hget | ⟨-, what, hget⟩
  · exact .inl (by rw [hget, hnone])
  · exact .inr ⟨what, hget⟩

/-- `reprogram` has packed the code when it calls the manager. -/
theorem run_reprogram {r : Nat} (hr : named C m args = some r) (memory : List Bool) :
    (reprogram C args).run ⟨m, [], memory⟩ = match (DeviceManager.reprogramDevice (some r)).run m with
      | .ok b m' => .ok (some (.bool b)) ⟨m', [.array 2, .int rpcRcodeOk, .bool b], memory⟩
      | .error e m' => .error e ⟨m', [.array 2, .int rpcRcodeOk], memory⟩ := by
  rcases getDevice_named (C := C) args ⟨m, [], memory⟩ with hget | ⟨hnone, -⟩
  · have hbool : ∀ b m', (write (.bool b)).run (⟨m', [.array 2, .int rpcRcodeOk], memory⟩ : RequestState ε) =
        .ok () ⟨m', [.array 2, .int rpcRcodeOk, .bool b], memory⟩ := fun b m' => run_write (granted_zero _)
    rw [reprogram, EStateM.run_bind, hget, hr]
    simp only [run_begin]
    simp only [EStateM.run_bind, onManager, Base.run_zoom]
    cases (DeviceManager.reprogramDevice (some r)).run m with
    | ok b m' => simp only [Payload.packed, Payload.tokens, writeAll, EStateM.run_bind, hbool, EStateM.run_pure]
    | error e m' => rfl
  · rw [hr] at hnone
    cases hnone

theorem reprogram_outcome (args : List Obj) :
    Outcome m (catchException (do let _ ← reprogram C args) (fun what => replyError what))
      (decodeCall C m "reprogram" args) := by
  rw [show decodeCall C m "reprogram" args = (named C m args).bind (fun r => some (.reprogram r)) from rfl]
  cases hr : named C m args with
  | none =>
    rcases getDevice_none hr [] with hget | ⟨what, hget⟩
    · exact ⟨"Unknown device", by rw [run_caught, reprogram, EStateM.run_bind, hget]; simp only [run_refusal]⟩
    · exact ⟨what, by rw [run_caught, reprogram, EStateM.run_bind, hget]; exact run_replyError what _⟩
  | some r =>
    simp only [Option.bind_some, Outcome, Invocation.answered, Invocation.run, EStateM.run_bind]
    rw [run_caught, run_reprogram hr]
    cases (DeviceManager.reprogramDevice (some r)).run m with
    | ok b m' => rfl
    | error e m' =>
      cases e with
      | exception what => exact run_replyError what _
      | crash => rfl
      | overrun => rfl

end

theorem outcome_decoded (C : Conversions) (m : DeviceManager ε) (request : Obj) :
    Outcome m (handleRequest C request) (decode C m request) := by
  rw [decode_eq, handleRequest]
  cases parse C request with
  | none => exact ⟨"Invalid message", run_replyError _ _⟩
  | some p =>
    obtain ⟨cmd, args⟩ := p
    simp only [Option.bind_some]
    cases hf : function (ε := ε) C cmd args with
    | none =>
      rw [decodeCall_of_no_function (ε := ε) hf]
      exact ⟨"Invalid command", run_replyError _ _⟩
    | some f =>
      by_cases hcmd : cmd = "reprogram"
      · subst hcmd
        have hreprogram : function C "reprogram" args = some (reprogram (ε := ε) C args) := if_pos rfl
        cases hreprogram.symm.trans hf
        exact reprogram_outcome args
      · unfold function at hf
        rw [if_neg hcmd] at hf
        obtain ⟨x, hx, rfl⟩ := Option.map_eq_some_iff.1 hf
        exact (makes_command (m := m) hx).outcome (fun r hr => hcmd (cmd_of_reprogram hr))

theorem handle_eq_answered {request : Obj} {inv : Invocation} (h : decode C m request = some inv) :
    (handleRequest C request).run ⟨m, [], []⟩ = inv.answered m := by
  have houtcome := outcome_decoded C m request
  rwa [h] at houtcome

theorem handle_refused {request : Obj} (h : decode C m request = none) :
    ∃ text, (handleRequest C request).run ⟨m, [], []⟩ = .ok () ⟨m, errorTokens text, []⟩ := by
  have houtcome := outcome_decoded C m request
  rwa [h] at houtcome

/-- **A request makes the one call it decodes to**, and is answered by how that ends; where it decodes to none, nothing is
done, and the reply is an error. -/
theorem handles_decoded (C : Conversions) (m : DeviceManager ε) (request : Obj) :
    Outcome m (handleRequest C request) (decode C m request) := by
  cases h : decode C m request with
  | none => exact handle_refused h
  | some inv => exact handle_eq_answered h

/-- The call of a register or raw command is an operation on its device. -/
theorem answered_onDevice {inv : Invocation} {r : Nat} {d : Device ε View} {x : DeviceM ε View α} {p : α → Payload}
    (hinv : inv.run = (do return p (← onDevice r x))) (hbegun : inv.begun = []) (hd : m.objects r = some d) :
    inv.answered m = match x.run ⟨d, ⟨m.notifier, m.getDeviceList⟩⟩ with
      | .ok a s => .ok () ⟨m.putBack r s, [.array 2, .int rpcRcodeOk] ++ (p a).packed, []⟩
      | .error (.exception what) s => .ok () ⟨m.putBack r s, errorTokens what, []⟩
      | .error e s => .error e ⟨m.putBack r s, [], []⟩ := by
  rw [Invocation.answered, hinv, hbegun, EStateM.run_bind, DeviceManager.run_onDevice_some hd]
  cases x.run ⟨d, ⟨m.notifier, m.getDeviceList⟩⟩ with
  | ok a s => rfl
  | error e s => cases e <;> rfl

end RequestHandler
end Fpga
