import Mathlib.Data.Int.Notation
/-!
# Msgpack — the objects that travel between clients and server

Strings are what `str` objects hold, a float is kept as the bits of a double.  The packets of the server are arrays that
begin with a code: replies are `[code, payload]`, events `[code, serial, …]`.
-/
namespace Fpga

inductive Obj where
  | nil
  | bool (b : Bool)
  | int (i : Int)
  | float (bits : UInt64)
  | str (s : String)
  | bin (data : List UInt8)
  | array (items : List Obj)
  | map (entries : List (Obj × Obj))
  | ext (type : Int) (data : List UInt8)
  deriving Repr

/-- A packet of the server: its code and the rest of the array. -/
structure Packet where
  rcode : Int
  fields : List Obj

def rpcRcodeError : Int := -1
def rpcRcodeOk : Int := 0
def rpcRcodeAdded : Int := 1
def rpcRcodeRemoved : Int := 2
def rpcRcodeRegChanged : Int := 3

/-- `RPC_REPLY_VALUE`. -/
def rpcReplyValue (value : Obj) : Packet := ⟨rpcRcodeOk, [value]⟩

/-- `RPC_REPLY_ERROR`. -/
def rpcReplyError (text : String) : Packet := ⟨rpcRcodeError, [.str text]⟩

/-- `RPC_EVENT_ADDED`. -/
def rpcEventAdded (serial : String) : Packet := ⟨rpcRcodeAdded, [.str serial]⟩

/-- `RPC_EVENT_REMOVED`. -/
def rpcEventRemoved (serial : String) : Packet := ⟨rpcRcodeRemoved, [.str serial]⟩

/-- `RPC_EVENT_REG_CHANGED`. -/
def rpcEventRegChanged (serial : String) (addr port : UInt8) (value : UInt16) : Packet :=
  ⟨rpcRcodeRegChanged, [.str serial, .int addr.toNat, .int port.toNat, .int value.toNat]⟩

end Fpga
