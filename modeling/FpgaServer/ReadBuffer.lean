import FpgaServer.ReadSizes
import FpgaServer.SessionReads
/-!
# ReadBuffer — the buffer `readRegN` fills

The read operations of `Device.cpp` with the memory they write to: a read puts what it receives at the address it is given,
and every command and every read is recorded.  Whatever the device does, the buffer fills from the front without a gap, a
read asks for what is missing of the current packet and no more, and a command is sent when nothing is missing
(`readPackets_matches`); apart from the memory this is the operation on lists.
-/
namespace Fpga

open Base (Matches final zoom)

abbrev Memory := Nat → UInt8

/-- The bytes written one after the other, the first of them at the address. -/
def Memory.store (m : Memory) (start : Nat) (bytes : List UInt8) : Memory := fun a =>
  if start ≤ a then bytes.getD (a - start) (m a) else m a

theorem Memory.store_nil (m : Memory) (start : Nat) : m.store start [] = m := by
  funext a
  simp [Memory.store]

theorem Memory.store_append (m : Memory) (start : Nat) (bytes more : List UInt8) :
    (m.store start bytes).store (start + bytes.length) more = m.store start (bytes ++ more) := by
  funext a
  simp only [Memory.store, List.getD_eq_getElem?_getD, List.getElem?_append]
  by_cases hstart : start ≤ a
  · by_cases hbytes : a - start < bytes.length
    · rw [if_neg (by omega), if_pos hstart, if_pos hstart, if_pos hbytes]
    · have hnone : bytes[a - start]? = none := List.getElem?_eq_none (Nat.not_lt.1 hbytes)
      rw [if_pos (by omega), if_pos hstart, if_pos hstart, if_neg hbytes, hnone, Option.getD_none, Nat.sub_sub]
  · rw [if_neg (by omega), if_neg hstart, if_neg hstart]

theorem Memory.store_outside {m : Memory} {start : Nat} {bytes : List UInt8} {a : Nat}
    (h : a < start ∨ start + bytes.length ≤ a) : m.store start bytes a = m a := by
  unfold Memory.store
  split
  · rw [List.getD_eq_default _ _ (by omega)]
  · rfl

/-- A call of the channel: a command with its result, or a read into the memory from an address on. -/
inductive Transfer where
  | command (packet : List UInt8) (result : Int)
  | read (buf : Nat) (size : Int) (result : Except Int (List UInt8))

/-- The bytes the commands ask for. -/
def requestedBytes (ts : List Transfer) : Nat :=
  (ts.map (fun
    | .command packet _ => 2 * ((commandParser.run boundary packet).2.map Event.requested).sum
    | .read _ _ _ => 0)).sum

/-- The bytes the reads receive. -/
def receivedBytes (ts : List Transfer) : Nat :=
  (ts.map (fun
    | .command _ _ => 0
    | .read _ _ result => (delivered result).length)).sum

/-- A command is sent when all responses have been read; a read asks for no more than is missing of the current one, and
for what follows in the buffer. -/
structure Orderly (dataBe n : Nat) (ts : List Transfer) : Prop where
  command : ∀ pre packet result post, ts = pre ++ .command packet result :: post → receivedBytes pre = requestedBytes pre
  read : ∀ pre buf (size : Int) result post, ts = pre ++ .read buf size result :: post → 0 ≤ size ∧
    receivedBytes pre + size ≤ requestedBytes pre ∧ buf = dataBe + receivedBytes pre ∧
    receivedBytes pre + size ≤ (2 * n : Nat)

structure BufferState (ε ω : Type) where
  device : DeviceState ε ω
  memory : Memory
  transfers : List Transfer

abbrev BufferM (ε ω α : Type) := EStateM Fault (BufferState ε ω) α

namespace ReadBuffer

variable {ε ω α : Type}

def onDevice (x : DeviceM ε ω α) : BufferM ε ω α := zoom (·.device) (fun d s => { s with device := d }) x

variable [Ftdi ε]

/-- `ftdi_write_data`. -/
def ftdiWriteData (packet : List UInt8) : BufferM ε ω Int := do
  let n ← onDevice (Device.ftdiWriteData packet)
  modify (fun s => { s with transfers := s.transfers ++ [.command packet n] })
  return n

/-- `ftdi_read_data`: the number of bytes it has put into the buffer, or an error. -/
def ftdiReadData (buf : Nat) (size : Int) : BufferM ε ω (Except Int Nat) := do
  let r ← onDevice (Device.ftdiReadData size)
  modify (fun s =>
    { s with memory := s.memory.store buf (delivered r), transfers := s.transfers ++ [.read buf size r] })
  return r.map List.length

/-- The loop of `ftdi_read_data_wait`, with the attempts left and `sz_recv`. -/
def readLoop (buf : Nat) (size : Int) : Nat → Nat → BufferM ε ω Nat
  | 0, recv => pure recv
  | i + 1, recv => do
    match ← ftdiReadData (buf + recv) (size - recv) with
    | .error _ => raise "FTDI read error"
    | .ok n =>
      if ((recv + n : Nat) : Int) ≠ size then
        readLoop buf size i (recv + n)
      else
        pure (recv + n)

def ftdiReadDataWait (buf : Nat) (size : Int) : BufferM ε ω Unit := do
  let recv ← readLoop buf size 100 0
  raiseIf ((recv : Int) ≠ size) "FTDI read timeout"

/-- The loop of `Device::readRegN`; a word of the buffer has two bytes. -/
def readPackets (addr port : UInt8) (dataBe n nRead : Nat) (hle : nRead ≤ n) : BufferM ε ω Unit :=
  if _h : nRead = n then
    pure ()
  else do
    let nPacket := min (n - nRead) Device.nPacketMax
    let r ← ftdiWriteData (readRegNPacket addr port nPacket)
    raiseIf (r ≠ 4) "FTDI write error"
    ftdiReadDataWait (dataBe + 2 * nRead) (cInt (2 * nPacket))
    readPackets addr port dataBe n (nRead + nPacket) (by omega)
termination_by n - nRead
decreasing_by
  simp only [Device.nPacketMax]
  omega

/-- `Device::readRegN`. -/
def readRegN (addr port : UInt8) (dataBe n : Nat) : BufferM ε ω Unit := readPackets addr port dataBe n 0 (Nat.zero_le n)

/-! ## One transfer -/

/-- A read is given at most what it asks for. -/
theorem length_delivered {size : Nat} {d d' : DeviceState ε ω} {r : Except Int (List UInt8)}
    (h : (Device.ftdiReadData size).run d = .ok r d') : (delivered r).length ≤ size := by
  obtain ⟨hr, -, -⟩ := ftdiReadData_ok h
  cases r with
  | ok bytes => exact Ftdi.readData_le size d.dev.usb bytes (Int.natCast_nonneg size) hr
  | error code => exact Nat.zero_le _

/-- The bytes that have arrived stand at the front of the buffer, and so many of the current packet are missing. -/
structure Filled (dataBe n : Nat) (memory : Memory) (got : List UInt8) (missing : Nat) (s : BufferState ε ω) : Prop where
  memory : s.memory = memory.store dataBe got
  received : receivedBytes s.transfers = got.length
  requested : requestedBytes s.transfers = got.length + missing
  inside : got.length + missing ≤ 2 * n
  orderly : Orderly dataBe n s.transfers

/-- What has arrived stands at the front of the buffer. -/
def Kept (dataBe n : Nat) (memory : Memory) (s : BufferState ε ω) : Prop :=
  ∃ got missing, Filled dataBe n memory got missing s

theorem orderly_command {dataBe n : Nat} {ts : List Transfer} (h : Orderly dataBe n ts)
    (hall : receivedBytes ts = requestedBytes ts) (packet : List UInt8) (r : Int) :
    Orderly dataBe n (ts ++ [.command packet r]) where
  command pre packet' result post heq := by
    rcases Base.split_append heq with ⟨mid, hpre, -⟩ | ⟨mid, rfl, hmid⟩
    · exact h.command pre packet' result mid hpre
    · cases mid with
      | nil => rwa [List.append_nil]
      | cons x mid => simp at hmid
  read pre buf size result post heq := by
    rcases Base.split_append heq with ⟨mid, hpre, -⟩ | ⟨mid, rfl, hmid⟩
    · exact h.read pre buf size result mid hpre
    · cases mid <;> simp at hmid

theorem orderly_read {dataBe n : Nat} {ts : List Transfer} (h : Orderly dataBe n ts) {size : Nat}
    (hsize : receivedBytes ts + size ≤ requestedBytes ts) (hinside : requestedBytes ts ≤ 2 * n)
    (r : Except Int (List UInt8)) : Orderly dataBe n (ts ++ [.read (dataBe + receivedBytes ts) size r]) where
  command pre packet result post heq := by
    rcases Base.split_append heq with ⟨mid, hpre, -⟩ | ⟨mid, rfl, hmid⟩
    · exact h.command pre packet result mid hpre
    · cases mid <;> simp at hmid
  read pre buf size' result post heq := by
    rcases Base.split_append heq with ⟨mid, hpre, -⟩ | ⟨mid, rfl, hmid⟩
    · exact h.read pre buf size' result mid hpre
    · cases mid with
      | nil =>
        obtain ⟨⟨rfl, rfl, rfl⟩, -⟩ : (dataBe + receivedBytes ts = buf ∧ (size : Int) = size' ∧ r = result) ∧ [] = post := by
          simpa using hmid
        rw [List.append_nil]
        exact ⟨by omega, by omega, rfl, by omega⟩
      | cons x mid => simp at hmid

variable {dataBe n : Nat} {memory : Memory} {got : List UInt8} {missing : Nat} {s : BufferState ε ω}

theorem requestedBytes_append (ts more : List Transfer) : requestedBytes (ts ++ more) = requestedBytes ts + requestedBytes more := by
  simp [requestedBytes]

theorem receivedBytes_append (ts more : List Transfer) : receivedBytes (ts ++ more) = receivedBytes ts + receivedBytes more := by
  simp [receivedBytes]

theorem requestedBytes_packet (addr port : UInt8) {k : Nat} (hk : k < 65536) (r : Int) :
    requestedBytes [.command (readRegNPacket addr port k) r] = 2 * k := by
  have hreads := reads_readRegNPacket addr port hk
  simp only [requestedBytes, List.map_cons, List.map_nil, List.sum_cons, List.sum_nil, Nat.add_zero]
  rw [hreads]
  simp [Event.requested]

omit [Ftdi ε] in
theorem Filled.device (h : Filled dataBe n memory got missing s) (d : DeviceState ε ω) :
    Filled dataBe n memory got missing { s with device := d } := ⟨h.memory, h.received, h.requested, h.inside, h.orderly⟩

/-- **A command is sent** when nothing is missing, and then the words of its packet are. -/
theorem ftdiWriteData_matches (h : Filled dataBe n memory got 0 s) (addr port : UInt8) {k : Nat} (hk : k < 65536)
    (hinside : got.length + 2 * k ≤ 2 * n) :
    Matches (·.device) (fun r r' t => r = r' ∧ Filled dataBe n memory got (2 * k) t) (Kept dataBe n memory)
      ((Device.ftdiWriteData (readRegNPacket addr port k)).run s.device)
      ((ftdiWriteData (readRegNPacket addr port k)).run s) := by
  have hwrite := Matches.zoom (g := fun t : BufferState ε ω => t.device) (p := fun d t => { t with device := d })
    (E := Kept dataBe n memory) (Q := fun r r' t => r = r' ∧ Filled dataBe n memory got 0 t) (fun _ _ => rfl)
    (Device.ftdiWriteData (readRegNPacket addr port k)) s (fun _ d _ => ⟨rfl, h.device d⟩) (fun d => ⟨_, _, h.device d⟩)
  refine hwrite.goes_on (fun r r' t ht => ?_)
  obtain ⟨rfl, ht⟩ := ht
  refine ⟨r, { t with transfers := t.transfers ++ [.command (readRegNPacket addr port k) r] }, rfl, rfl, rfl, ht.memory, ?_, ?_,
    hinside, orderly_command ht.orderly (ht.received.trans ht.requested.symm) _ r⟩
  · rw [receivedBytes_append, ht.received]
    rfl
  · rw [requestedBytes_append, ht.requested, requestedBytes_packet addr port hk, Nat.add_zero]

/-- **A read asks for what is missing**, and what it receives goes on where the buffer is filled to. -/
theorem ftdiReadData_matches (h : Filled dataBe n memory got missing s) :
    Matches (·.device) (fun r r' t => r' = r.map List.length ∧ (delivered r).length ≤ missing ∧
        Filled dataBe n memory (got ++ delivered r) (missing - (delivered r).length) t) (Kept dataBe n memory)
      ((Device.ftdiReadData missing).run s.device)
      ((ftdiReadData (dataBe + got.length) missing).run s) := by
  have hread := Matches.zoom (g := fun t : BufferState ε ω => t.device) (p := fun d t => { t with device := d })
    (E := Kept dataBe n memory)
    (Q := fun r r' t => r = r' ∧ (delivered r).length ≤ missing ∧ Filled dataBe n memory got missing t) (fun _ _ => rfl)
    (Device.ftdiReadData missing) s (fun r d hr => ⟨rfl, length_delivered hr, h.device d⟩) (fun d => ⟨_, _, h.device d⟩)
  refine hread.goes_on (fun r r' t ht => ?_)
  obtain ⟨rfl, hle, ht⟩ := ht
  have hbuf : dataBe + got.length = dataBe + receivedBytes t.transfers := by rw [ht.received]
  have hinside := ht.inside
  refine ⟨r.map List.length, ⟨t.device, t.memory.store (dataBe + got.length) (delivered r),
    t.transfers ++ [.read (dataBe + got.length) missing r]⟩, rfl, rfl, rfl, hle, ?_, ?_, ?_, ?_, ?_⟩
  · rw [ht.memory, Memory.store_append]
  · rw [receivedBytes_append, ht.received, List.length_append]
    simp [receivedBytes]
  · rw [requestedBytes_append, ht.requested, List.length_append]
    simp [requestedBytes]
    omega
  · rw [List.length_append]
    omega
  · rw [hbuf]
    exact orderly_read ht.orderly (by rw [ht.received, ht.requested]) (by rw [ht.requested]; exact ht.inside) r

/-! ## A packet and the whole -/

theorem readLoop_matches (size buf : Nat) : ∀ (i : Nat) (recv : List UInt8) {got : List UInt8} {missing : Nat}
    {s : BufferState ε ω}, Filled dataBe n memory got missing s → buf + recv.length = dataBe + got.length →
    size = recv.length + missing →
    Matches (·.device) (fun bytes k t => k = bytes.length ∧ ∃ more, bytes = recv ++ more ∧ more.length ≤ missing ∧
        Filled dataBe n memory (got ++ more) (missing - more.length) t) (Kept dataBe n memory)
      ((Device.readLoop size i recv).run s.device) ((readLoop buf size i recv.length).run s)
  | 0, recv, got, missing, s, h, _, _ =>
    .returned ⟨rfl, [], (List.append_nil _).symm, Nat.zero_le _, by rwa [List.append_nil]⟩
  | i + 1, recv, got, missing, s, h, hbuf, hsize => by
    have hmissing : (size : Int) - recv.length = missing := by omega
    rw [Device.readLoop, readLoop, hmissing, hbuf]
    refine (ftdiReadData_matches h).bind (fun r r' t ht => ?_)
    obtain ⟨rfl, hle, ht⟩ := ht
    cases r with
    | error code => exact .thrown ⟨_, _, ht⟩
    | ok bytes =>
      have hlength : recv.length + bytes.length = (recv ++ bytes).length := List.length_append.symm
      have hbytes : bytes.length ≤ missing := hle
      simp only [Except.map, hlength]
      split
      · rename_i hne
        have hrest := readLoop_matches size buf i (recv ++ bytes) ht
          (by simp only [delivered, List.length_append] at *; omega) (by simp only [delivered, List.length_append]; omega)
        refine hrest.imp (fun got' k u hu => ?_)
        obtain ⟨rfl, more, rfl, hmore, hu⟩ := hu
        have hboth : (bytes ++ more).length = bytes.length + more.length := List.length_append
        refine ⟨rfl, bytes ++ more, List.append_assoc _ _ _, ?_, ?_⟩
        · simp only [delivered] at hmore
          omega
        · rw [hboth, ← List.append_assoc, Nat.sub_add_eq]
          exact hu
      · exact .returned ⟨rfl, bytes, rfl, hle, ht⟩

theorem ftdiReadDataWait_matches {buf : Nat} (h : Filled dataBe n memory got missing s) (hbuf : buf = dataBe + got.length) :
    Matches (·.device) (fun bytes _ t => bytes.length = missing ∧ Filled dataBe n memory (got ++ bytes) 0 t)
      (Kept dataBe n memory) ((Device.ftdiReadDataWait missing).run s.device) ((ftdiReadDataWait buf missing).run s) := by
  have hloop := readLoop_matches missing buf 100 [] h hbuf (by simp)
  refine hloop.bind (fun bytes k t ht => ?_)
  obtain ⟨rfl, more, rfl, hle, ht⟩ := ht
  by_cases hfull : ((bytes.length : Nat) : Int) ≠ missing
  · rw [raiseIf_bind_pos hfull, raiseIf, if_pos hfull]
    exact .thrown ⟨_, _, ht⟩
  · have hbytes : bytes.length = missing := by omega
    rw [raiseIf_bind_neg hfull, raiseIf, if_neg hfull]
    refine .returned ⟨hbytes, ?_⟩
    rwa [hbytes, Nat.sub_self] at ht

/-- **Reading registers into a buffer** is reading them into a list, and the buffer holds their bytes. -/
theorem readPackets_matches (addr port : UInt8) (nRead : Nat) (hle : nRead ≤ n) {got : List UInt8} {s : BufferState ε ω}
    (h : Filled dataBe n memory got 0 s) (hgot : got.length = 2 * nRead) :
    Matches (·.device) (fun ws _ t => ws.length = n - nRead ∧ Filled dataBe n memory (got ++ ws.flatMap be16) 0 t)
      (Kept dataBe n memory) ((Device.readRegN addr port (n - nRead)).run s.device)
      ((readPackets addr port dataBe n nRead hle).run s) := by
  rw [Device.readRegN, readPackets]
  by_cases hend : nRead = n
  · rw [dif_pos (by omega), dif_pos hend]
    exact .returned ⟨by rw [List.length_nil]; omega, by simpa using h⟩
  · rw [dif_neg (by omega), dif_neg hend]
    have hmax : min (n - nRead) Device.nPacketMax < 65536 := by
      simp only [Device.nPacketMax]
      omega
    have hsize : cInt (2 * min (n - nRead) Device.nPacketMax) = ((2 * min (n - nRead) Device.nPacketMax : Nat) : Int) :=
      cInt_of_lt (by omega)
    simp only [hsize]
    refine (ftdiWriteData_matches h addr port hmax (by omega)).bind (fun r r' t ht => ?_)
    obtain ⟨rfl, ht⟩ := ht
    by_cases hr : r ≠ 4
    · rw [raiseIf_bind_pos hr, raiseIf_bind_pos hr]
      exact .thrown ⟨_, _, ht⟩
    · rw [raiseIf_bind_neg hr, raiseIf_bind_neg hr]
      refine (ftdiReadDataWait_matches ht (by rw [hgot])).bind (fun bytes _ u hu => ?_)
      obtain ⟨hbytes, hu⟩ := hu
      have hrest := readPackets_matches addr port (nRead + min (n - nRead) Device.nPacketMax) (by omega) hu
        (by rw [List.length_append]; omega)
      rw [Nat.sub_add_eq] at hrest
      rw [← bind_pure (readPackets _ _ _ _ _ _)]
      refine hrest.bind (fun ws _ v hv => ?_)
      obtain ⟨hws, hv⟩ := hv
      refine .returned ⟨?_, ?_⟩
      · rw [List.length_append, length_words hbytes, hws]
        omega
      · rwa [List.flatMap_append, be16s_words hbytes, ← List.append_assoc]
termination_by n - nRead
decreasing_by
  simp only [Device.nPacketMax]
  omega

end ReadBuffer
end Fpga
