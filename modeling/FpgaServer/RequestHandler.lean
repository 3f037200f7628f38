import FpgaServer.DeviceManager
import FpgaServer.Msgpack
/-!
# RequestHandler — `DeviceRequestHandler.cpp`

A reply is packed piece by piece into a buffer.  The allocations whose size a request decides may be refused, which throws:
the list or vector of a command, and a larger buffer for a piece that does not fit.  The script `memory` says how the next
of them go, and one that has run out stands for allocations that are granted, as all others are.  What msgpack makes of an
object, and the text of the exception of `vector::at`, are the parameters `Conversions`.  A command ends with one of the
reply macros: it is given as the answer it hands to the macro, and `reply` is the macros.  `reprogram` calls the manager
inside the macro and keeps its own body.
-/
namespace Fpga

open Base (zoom)

/-- What one write of the packer appends to the buffer. -/
inductive Token where
  | array (n : Nat)
  | int (i : Int)
  | bool (b : Bool)
  | strHeader (n : Nat)
  | strBody (s : String)
  | binHeader (n : Nat)
  | binBody (data : List UInt8)
  deriving DecidableEq, Repr

/-- The bytes of it. -/
def Token.size : Token → Nat
  | .array n => if n < 16 then 1 else if n < 65536 then 3 else 5
  | .int i =>
    if -32 ≤ i ∧ i < 128 then 1
    else if -128 ≤ i ∧ i < 256 then 2
    else if -32768 ≤ i ∧ i < 65536 then 3
    else if -2147483648 ≤ i ∧ i < 4294967296 then 5
    else 9
  | .bool _ => 1
  | .strHeader n => if n < 32 then 1 else if n < 256 then 2 else if n < 65536 then 3 else 5
  | .strBody s => s.utf8ByteSize
  | .binHeader n => if n < 256 then 2 else if n < 65536 then 3 else 5
  | .binBody data => data.length

def byteSize (ts : List Token) : Nat := (ts.map Token.size).sum

/-- The bytes an `sbuffer` has allocated that holds so many: it begins with 8192 and doubles. -/
def capacity (used : Nat) : Nat := max 8192 (2 ^ ((used - 1).log2 + 1))

def strTokens (s : String) : List Token := [.strHeader s.utf8ByteSize, .strBody s]

/-- What a command replies with. -/
inductive Payload where
  | int (i : Int)
  | bool (b : Bool)
  | strings (l : List String)
  | binary (data : List UInt8)
  deriving DecidableEq, Repr

/-- The encoding of a payload. -/
def Payload.tokens : Payload → List Token
  | .int i => [.int i]
  | .bool b => [.bool b]
  | .strings l => .array l.length :: l.flatMap strTokens
  | .binary data => [.binHeader data.length, .binBody data]

/-- What is packed of it: the lengths of `pack_bin` and `pack_bin_body` have 32 bits. -/
def Payload.packed : Payload → List Token
  | .binary data => [.binHeader (data.length % 4294967296), .binBody (data.take (data.length % 4294967296))]
  | p => p.tokens

/-- A payload, or the text of an error the command replies with itself. -/
inductive Answer where
  | value (p : Payload)
  | refusal (text : String)
  deriving DecidableEq, Repr

/-- The conversions of msgpack objects, and what a failed one throws. -/
structure Conversions where
  array : Obj → Except String (List Obj)
  string : Obj → Except String String
  uint8 : Obj → Except String UInt8
  uint16 : Obj → Except String UInt16
  uint32 : Obj → Except String UInt32
  outOfRange : Nat → Nat → String

structure RequestState (ε : Type) where
  manager : DeviceManager ε
  reply : List Token
  memory : List Bool

abbrev RequestM (ε α : Type) := EStateM Fault (RequestState ε) α

namespace RequestHandler

variable {ε : Type}

/-! ## The reply buffer -/

def badAlloc : String := "std::bad_alloc"

/-- An allocation whose size the request decides. -/
def allocate : RequestM ε Unit := do
  let s ← get
  match s.memory with
  | [] => pure ()
  | granted :: memory => do
    set { s with memory := memory }
    raiseIf (granted = false) badAlloc

/-- The elements of a `std::list` or a `std::vector`, if it has any. -/
def allocateElements (n : Nat) : RequestM ε Unit := if n = 0 then pure () else allocate

def append (ts : List Token) : RequestM ε Unit := modify (fun s => { s with reply := s.reply ++ ts })

/-- A write of the packer: what does not fit has the buffer grow first. -/
def write (t : Token) : RequestM ε Unit := do
  let s ← get
  if capacity (byteSize s.reply) < byteSize s.reply + t.size then
    allocate
  append [t]

def writeAll : List Token → RequestM ε Unit
  | [] => pure ()
  | t :: ts => do
    write t
    writeAll ts

/-- `RPC_REPLY_VALUE` and `RPC_REPLY_BINARY` with a payload that is at hand. -/
def replyValue (p : Payload) : RequestM ε Unit := do
  write (.array 2)
  write (.int rpcRcodeOk)
  writeAll p.packed

/-- `RPC_REPLY_ERROR`.  The texts of errors are short, and the buffer has room for them from the beginning. -/
def replyError (text : String) : RequestM ε Unit := do
  append [.array 2]
  append [.int rpcRcodeError]
  append (strTokens text)

/-- The reply macros; the payload is that of a command that has run to completion. -/
def reply : Answer → RequestM ε (Option Payload)
  | .value p => do
    replyValue p
    return some p
  | .refusal text => do
    replyError text
    return none

/-! ## The commands -/

def convert {α : Type} : Except String α → RequestM ε α
  | .ok a => pure a
  | .error what => raise what

variable (C : Conversions)

/-- `args.at(i)`. -/
def arg (args : List Obj) (i : Nat) : RequestM ε Obj :=
  match args[i]? with
  | some a => pure a
  | none => raise (C.outOfRange i args.length)

def onManager {α : Type} (x : ManagerM ε α) : RequestM ε α := zoom (·.manager) (fun m s => { s with manager := m }) x

/-- `m_manager.getDevice(args.at(1).as<std::string>())`. -/
def getDevice (args : List Obj) : RequestM ε (Option Nat) := do
  let serial ← convert (C.string (← arg C args 1))
  let s ← get
  return s.manager.getDevice serial

/-- A command on the device the first argument names. -/
def onNamed (args : List Obj) (command : Nat → RequestM ε Answer) : RequestM ε Answer := do
  match ← getDevice C args with
  | some device => command device
  | none => return .refusal "Unknown device"

def devicelist : RequestM ε Answer := do
  let s ← get
  allocateElements s.manager.getDeviceList.length
  return .value (.strings s.manager.getDeviceList)

variable [Ftdi ε]

def writereg (args : List Obj) : RequestM ε Answer := onNamed C args (fun device => do
  let addr ← convert (C.uint8 (← arg C args 2))
  let port ← convert (C.uint8 (← arg C args 3))
  let value ← convert (C.uint16 (← arg C args 4))
  onManager (DeviceManager.onDevice device (Device.writeReg addr port value))
  return .value (.int 0))

def readreg (args : List Obj) : RequestM ε Answer := onNamed C args (fun device => do
  let addr ← convert (C.uint8 (← arg C args 2))
  let port ← convert (C.uint8 (← arg C args 3))
  let value ← onManager (DeviceManager.onDevice device (Device.readReg addr port))
  return .value (.int value.toNat))

def writeregn (args : List Obj) : RequestM ε Answer := onNamed C args (fun device => do
  let addr ← convert (C.uint8 (← arg C args 2))
  let port ← convert (C.uint8 (← arg C args 3))
  match ← arg C args 4 with
  | .bin data => do
    onManager (DeviceManager.onDevice device (Device.writeRegN addr port (words data)))
    return .value (.int 0)
  | _ => return .refusal "Invalid argument")

def readregn (args : List Obj) : RequestM ε Answer := onNamed C args (fun device => do
  let addr ← convert (C.uint8 (← arg C args 2))
  let port ← convert (C.uint8 (← arg C args 3))
  let nWords ← convert (C.uint32 (← arg C args 4))
  allocateElements nWords.toNat
  let data ← onManager (DeviceManager.onDevice device (Device.readRegN addr port nWords.toNat))
  return .value (.binary (data.flatMap be16)))

def writeraw (args : List Obj) : RequestM ε Answer := onNamed C args (fun device => do
  match ← arg C args 2 with
  | .bin data => do
    onManager (DeviceManager.onDevice device (Device.writeRaw data))
    return .value (.int 0)
  | _ => return .refusal "Invalid argument")

def readraw (args : List Obj) : RequestM ε Answer := onNamed C args (fun device => do
  let nBytes ← convert (C.uint32 (← arg C args 2))
  allocateElements nBytes.toNat
  let data ← onManager (DeviceManager.onDevice device (Device.readRaw nBytes.toNat))
  return .value (.binary data))

variable [Programmer ε]

/-- The macro has packed the code before it evaluates its argument. -/
def reprogram (args : List Obj) : RequestM ε (Option Payload) := do
  match ← getDevice C args with
  | some device => do
    write (.array 2)
    write (.int rpcRcodeOk)
    let programmed ← onManager (DeviceManager.reprogramDevice (some device))
    writeAll (Payload.bool programmed).packed
    return some (.bool programmed)
  | none => reply (.refusal "Unknown device")

/-- The commands but `reprogram`. -/
def command (cmd : String) (args : List Obj) : Option (RequestM ε Answer) :=
  match cmd with
  | "devicelist" => some devicelist
  | "writereg" => some (writereg C args)
  | "readreg" => some (readreg C args)
  | "writeregn" => some (writeregn C args)
  | "readregn" => some (readregn C args)
  | "writeraw" => some (writeraw C args)
  | "readraw" => some (readraw C args)
  | _ => none

/-- `m_functions`. -/
def function (cmd : String) (args : List Obj) : Option (RequestM ε (Option Payload)) :=
  if cmd = "reprogram" then some (reprogram C args) else (command C cmd args).map (fun x => x >>= reply)

/-- The arguments and the command string of a request. -/
def parse (request : Obj) : Option (String × List Obj) := do
  let args ← (C.array request).toOption
  let first ← args[0]?
  let cmd ← (C.string first).toOption
  return (cmd, args)

/-- `DeviceRequestHandler::handleRequest`. -/
def handleRequest (request : Obj) : RequestM ε Unit :=
  match parse C request with
  | none => replyError "Invalid message"
  | some (cmd, args) =>
    match function C cmd args with
    | none => replyError "Invalid command"
    | some f => catchException (do let _ ← f) (fun what => replyError what)

end RequestHandler
end Fpga
