import FpgaServer.RequestHandler
import FpgaServer.ManagerOpen
/-!
# RequestReply — what is left in the reply buffer

Nothing takes back what has been packed.  The reply macros pack the encoding of a payload if its length has 32 bits and the
buffer gets the room it asks for; a buffer that is refused the room keeps what it has been given, and the error reply comes
behind it.
-/
namespace Fpga

open Base (Within final)

/-- The length of a binary has 32 bits. -/
def Payload.Fits : Payload → Prop
  | .binary data => data.length < 4294967296
  | _ => True

namespace RequestHandler

variable {ε α : Type} {s t : RequestState ε}

/-! ## Packing -/

/-- The next allocations are granted. -/
def Granted (n : Nat) (memory : List Bool) : Prop := ∀ granted ∈ memory.take n, granted = true

instance (n : Nat) (memory : List Bool) : Decidable (Granted n memory) := inferInstanceAs (Decidable (∀ _ ∈ _, _))

theorem granted_zero (memory : List Bool) : Granted 0 memory := fun _ h => by simp at h

theorem granted_nil (n : Nat) : Granted n [] := fun _ h => by simp at h

theorem granted_add (n k : Nat) (memory : List Bool) :
    Granted (n + k) memory ↔ Granted n memory ∧ Granted k (memory.drop n) := by
  simp only [Granted, List.take_add, List.mem_append, or_imp, forall_and]

/-- The encoding of `[0, payload]`. -/
def valueTokens (p : Payload) : List Token := [.array 2, .int rpcRcodeOk] ++ p.tokens

/-- The encoding of `[-1, text]`. -/
def errorTokens (text : String) : List Token := [.array 2, .int rpcRcodeError] ++ strTokens text

theorem run_allocate (hg : Granted 1 s.memory) : (allocate : RequestM ε Unit).run s = .ok () { s with memory := s.memory.drop 1 } := by
  obtain ⟨manager, reply, memory⟩ := s
  cases memory with
  | nil => rfl
  | cons granted memory =>
    obtain rfl : granted = true := hg granted (by simp)
    rfl

theorem run_allocate_refused (hg : ¬ Granted 1 s.memory) :
    (allocate : RequestM ε Unit).run s = .error (.exception badAlloc) { s with memory := s.memory.drop 1 } := by
  obtain ⟨manager, reply, memory⟩ := s
  cases memory with
  | nil => exact absurd (granted_nil 1) hg
  | cons granted memory =>
    cases granted with
    | true => exact absurd (by simp [Granted]) hg
    | false => rfl

/-- What is allocated for so many elements. -/
def blocks (n : Nat) : Nat := if n = 0 then 0 else 1

theorem run_allocateElements {n : Nat} (hg : Granted (blocks n) s.memory) :
    (allocateElements n : RequestM ε Unit).run s = .ok () { s with memory := s.memory.drop (blocks n) } := by
  unfold allocateElements blocks at *
  split at hg
  · rw [if_pos ‹_›, if_pos ‹_›]
    rfl
  · rw [if_neg ‹_›, if_neg ‹_›]
    exact run_allocate hg

theorem run_allocateElements_refused {n : Nat} (hg : ¬ Granted (blocks n) s.memory) :
    (allocateElements n : RequestM ε Unit).run s = .error (.exception badAlloc) { s with memory := s.memory.drop (blocks n) } := by
  unfold allocateElements blocks at *
  split at hg
  · exact absurd (granted_zero _) hg
  · rw [if_neg ‹_›, if_neg ‹_›]
    exact run_allocate_refused hg

/-- How often a buffer with so many bytes grows while these are packed. -/
def growths (used : Nat) : List Token → Nat
  | [] => 0
  | t :: ts => (if capacity used < used + t.size then 1 else 0) + growths (used + t.size) ts

theorem le_capacity (used : Nat) : 8192 ≤ capacity used := Nat.le_max_left _ _

/-- What is small does not ask for more than the buffer has from the beginning. -/
theorem growths_small : ∀ (ts : List Token) {used : Nat}, used + byteSize ts ≤ 8192 → growths used ts = 0
  | [], _, _ => rfl
  | t :: ts, used, h => by
    have hle := le_capacity used
    rw [byteSize, List.map_cons, List.sum_cons, ← byteSize] at h
    rw [growths, if_neg (by omega), growths_small ts (by omega)]

theorem run_write {t : Token} (hg : Granted (growths (byteSize s.reply) [t]) s.memory) : (write t).run s =
    .ok () { s with reply := s.reply ++ [t], memory := s.memory.drop (growths (byteSize s.reply) [t]) } := by
  simp only [growths, Nat.add_zero] at hg ⊢
  by_cases hfull : capacity (byteSize s.reply) < byteSize s.reply + t.size
  · simp only [if_pos hfull] at hg ⊢
    simp only [write, EStateM.run_bind, EStateM.run_get, if_pos hfull, run_allocate hg]
    rfl
  · simp only [if_neg hfull]
    simp only [write, EStateM.run_bind, EStateM.run_get, if_neg hfull]
    rfl

theorem run_write_refused {t : Token} (hg : ¬ Granted (growths (byteSize s.reply) [t]) s.memory) :
    (write t).run s = .error (.exception badAlloc) { s with memory := s.memory.drop 1 } := by
  simp only [growths, Nat.add_zero] at hg
  by_cases hfull : capacity (byteSize s.reply) < byteSize s.reply + t.size
  · simp only [if_pos hfull] at hg
    simp only [write, EStateM.run_bind, EStateM.run_get, if_pos hfull, run_allocate_refused hg]
  · simp only [if_neg hfull] at hg
    exact absurd (granted_zero _) hg

theorem growths_cons (used : Nat) (t : Token) (ts : List Token) :
    growths used (t :: ts) = growths used [t] + growths (used + t.size) ts := rfl

theorem run_writeAll : ∀ (ts : List Token) {s : RequestState ε}, Granted (growths (byteSize s.reply) ts) s.memory →
    (writeAll ts).run s =
      .ok () { s with reply := s.reply ++ ts, memory := s.memory.drop (growths (byteSize s.reply) ts) }
  | [], s, _ => by simp [writeAll, growths]
  | t :: ts, s, hg => by
    rw [growths_cons, granted_add] at hg
    have hsize : byteSize (s.reply ++ [t]) = byteSize s.reply + t.size := by simp [byteSize]
    rw [writeAll, EStateM.run_bind, run_write hg.1]
    simp only
    rw [run_writeAll ts (by rw [hsize]; exact hg.2), hsize, growths_cons, List.drop_drop, List.append_assoc]
    rfl

/-- A refusal leaves what has been packed before it. -/
theorem run_writeAll_refused : ∀ (ts : List Token) {s : RequestState ε}, ¬ Granted (growths (byteSize s.reply) ts) s.memory →
    ∃ t, (writeAll ts).run s = .error (.exception badAlloc) t ∧ s.reply <+: t.reply
  | [], s, hg => absurd (granted_zero _) hg
  | t :: ts, s, hg => by
    rw [growths_cons, granted_add, not_and] at hg
    rw [writeAll, EStateM.run_bind]
    by_cases hfirst : Granted (growths (byteSize s.reply) [t]) s.memory
    · have hsize : byteSize (s.reply ++ [t]) = byteSize s.reply + t.size := by simp [byteSize]
      rw [run_write hfirst]
      simp only
      obtain ⟨u, hrun, hu⟩ := run_writeAll_refused ts (s := { s with
        reply := s.reply ++ [t], memory := s.memory.drop (growths (byteSize s.reply) [t]) }) (by rw [hsize]; exact hg hfirst)
      exact ⟨u, hrun, (List.prefix_append _ _).trans hu⟩
    · rw [run_write_refused hfirst]
      exact ⟨_, rfl, List.prefix_refl _⟩

theorem run_replyError (text : String) (s : RequestState ε) :
    (replyError text).run s = .ok () { s with reply := s.reply ++ errorTokens text } := by
  have hrun : (replyError text).run s =
      .ok () { s with reply := s.reply ++ [.array 2] ++ [.int rpcRcodeError] ++ strTokens text } := rfl
  rw [hrun]
  simp only [errorTokens, List.append_assoc, List.cons_append, List.nil_append]

/-- How often the buffer grows for a payload, behind the array header and the code. -/
def payloadGrowths (p : Payload) : Nat := growths 2 p.packed

/-- The code 0 fits. -/
theorem run_begin {m : DeviceManager ε} {memory : List Bool} (f : RequestM ε α) : (do
    write (.array 2)
    write (.int rpcRcodeOk)
    f).run ⟨m, [], memory⟩ = f.run ⟨m, [.array 2, .int rpcRcodeOk], memory⟩ := by
  have hfirst : (write (.array 2)).run (⟨m, [], memory⟩ : RequestState ε) = .ok () ⟨m, [.array 2], memory⟩ :=
    run_write (granted_zero _)
  have hsecond : (write (.int rpcRcodeOk)).run (⟨m, [.array 2], memory⟩ : RequestState ε) =
      .ok () ⟨m, [.array 2, .int rpcRcodeOk], memory⟩ := run_write (granted_zero _)
  simp only [EStateM.run_bind, hfirst, hsecond]

/-! ## When the buffer holds one reply -/

/-- What a command function returns if it runs to completion. -/
def resultOf (f : RequestM ε (Option Payload)) (s : RequestState ε) : Option Payload :=
  match f.run s with
  | .ok p _ => p
  | .error _ _ => none

/-- The program returns, and the buffer holds the reply with the result, or with an error if there is none. -/
def Leaves (x : RequestM ε Unit) (result : Option Payload) (s : RequestState ε) : Prop :=
  ∃ t, x.run s = .ok () t ∧ match result with
    | some p => t.reply = valueTokens p
    | none => ∃ text, t.reply = errorTokens text

/-- An error reply is one reply just where nothing has been packed before it. -/
theorem leaves_replyError_iff (text : String) (s : RequestState ε) : Leaves (replyError text) none s ↔ s.reply = [] := by
  rw [Leaves, run_replyError]
  constructor
  · rintro ⟨t, ht, text', hr⟩
    cases ht
    have hlen := congrArg List.length hr
    simp only [strTokens, errorTokens, List.length_append, List.length_cons, List.length_nil] at hlen
    simpa using hlen
  · intro hs
    exact ⟨_, rfl, text, by rw [hs]; rfl⟩

theorem run_caught (f : RequestM ε (Option Payload)) (s : RequestState ε) :
    (catchException (do let _ ← f) (fun what => replyError what)).run s = match f.run s with
      | .ok _ t => .ok () t
      | .error (.exception what) t => (replyError what).run t
      | .error e t => .error e t := by
  rw [catchException, Base.run_handle, EStateM.run_bind]
  cases f.run s with
  | ok p t => rfl
  | error e t => cases e <;> rfl

/-- The catch block answers an exception, and nothing else. -/
theorem leaves_caught_iff (f : RequestM ε (Option Payload)) (s : RequestState ε) :
    Leaves (catchException (do let _ ← f) (fun what => replyError what)) (resultOf f s) s ↔
      match f.run s with
      | .ok (some p) t => t.reply = valueTokens p
      | .ok none t => ∃ text, t.reply = errorTokens text
      | .error (.exception _) t => t.reply = []
      | .error _ _ => False := by
  rw [Leaves, run_caught, resultOf]
  cases f.run s with
  | ok p t => cases p <;> simp
  | error e t =>
    cases e with
    | exception what => exact leaves_replyError_iff what t
    | crash => simp
    | overrun => simp

theorem packed_eq_tokens_iff (p : Payload) : p.packed = p.tokens ↔ p.Fits := by
  cases p with
  | binary data =>
    simp only [Payload.packed, Payload.tokens, Payload.Fits]
    constructor
    · intro h
      simp only [List.cons.injEq, Token.binHeader.injEq] at h
      omega
    · intro h
      rw [Nat.mod_eq_of_lt h, List.take_length]
  | int i => simp [Payload.packed, Payload.Fits]
  | bool b => simp [Payload.packed, Payload.Fits]
  | strings l => simp [Payload.packed, Payload.Fits]

theorem run_replyValue {p : Payload} {m : DeviceManager ε} {memory : List Bool} (hg : Granted (payloadGrowths p) memory) :
    (replyValue p).run ⟨m, [], memory⟩ =
      .ok () ⟨m, [.array 2, .int rpcRcodeOk] ++ p.packed, memory.drop (payloadGrowths p)⟩ := by
  rw [replyValue, run_begin]
  exact run_writeAll p.packed hg

/-- The buffer that is refused the room for a payload holds the code 0. -/
theorem run_replyValue_refused {p : Payload} {m : DeviceManager ε} {memory : List Bool} (hg : ¬ Granted (payloadGrowths p) memory) :
    ∃ t, (replyValue p).run ⟨m, [], memory⟩ = .error (.exception badAlloc) t ∧ t.reply ≠ [] := by
  rw [replyValue, run_begin]
  obtain ⟨t, hrun, ht⟩ := run_writeAll_refused p.packed (s := ⟨m, [.array 2, .int rpcRcodeOk], memory⟩) hg
  exact ⟨t, hrun, fun h => by rw [h] at ht; simp at ht⟩

/-- The macro after a command that has left the buffer empty: the payload is packed whole, into a buffer that gets the room. -/
theorem leaves_value_iff (p : Payload) (m : DeviceManager ε) (memory : List Bool) :
    (match (reply (.value p)).run ⟨m, [], memory⟩ with
      | .ok (some p) t => t.reply = valueTokens p
      | .ok none t => ∃ text, t.reply = errorTokens text
      | .error (.exception _) t => t.reply = []
      | .error _ _ => False) ↔ p.Fits ∧ Granted (payloadGrowths p) memory := by
  rw [reply, EStateM.run_bind]
  by_cases hg : Granted (payloadGrowths p) memory
  · rw [run_replyValue hg, ← packed_eq_tokens_iff]
    simp [valueTokens, hg]
  · obtain ⟨t, hrun, ht⟩ := run_replyValue_refused (m := m) hg
    rw [hrun]
    simp [ht, hg]

theorem run_refusal (text : String) (m : DeviceManager ε) (memory : List Bool) :
    (reply (.refusal text)).run ⟨m, [], memory⟩ = .ok none ⟨m, errorTokens text, memory⟩ := by
  rw [reply, EStateM.run_bind, run_replyError]
  rfl

/-! ## Requests -/

section
variable (C : Conversions) [Ftdi ε] [Programmer ε]

/-- What the command function of a request returns, if there is one and it runs to completion. -/
def completed (request : Obj) (s : RequestState ε) : Option Payload :=
  match parse C request with
  | none => none
  | some (cmd, args) => (function C cmd args).bind (fun f => resultOf f s)

/-- **The request handler throws nothing**: it answers its own exceptions. -/
theorem handleRequest_throws_nothing (request : Obj) (s t : RequestState ε) (what : String) :
    (handleRequest C request).run s ≠ .error (.exception what) t := by
  unfold handleRequest
  split
  · rw [run_replyError]
    nofun
  · split
    · rw [run_replyError]
      nofun
    · rename_i f hf
      rw [run_caught]
      cases f.run s with
      | ok p u => nofun
      | error e u =>
        cases e with
        | exception what' =>
          simp only [run_replyError]
          nofun
        | crash => nofun
        | overrun => nofun

/-- If there is a bitfile for the device, it is programmed and opened again without an exception. -/
def Reprogrammable (m : DeviceManager ε) (r : Nat) : Prop :=
  ∀ d desc, m.objects r = some d → findDescription d.name m.descriptions = some desc → desc.fnameBitfile ≠ "" →
    d.Reprograms desc.fnameBitfile

/-- Reprogramming a registered device returns or throws. -/
theorem run_reprogramDevice {m : DeviceManager ε} (hm : m.Ready False) {serial : String} {r : Nat}
    (hr : m.getDevice serial = some r) :
    (∃ b m', (DeviceManager.reprogramDevice (some r)).run m = .ok b m') ∧ Reprogrammable m r ∨
      (∃ what m', (DeviceManager.reprogramDevice (some r)).run m = .error (.exception what) m') ∧ ¬ Reprogrammable m r := by
  obtain ⟨d, hd⟩ := hm.known serial r hr
  rcases DeviceManager.bitfile_cases m d with ⟨desc, hdesc, hfile⟩ | hskips
  · have hiff : Reprogrammable m r ↔ d.Reprograms desc.fnameBitfile :=
      DeviceManager.bitfile_iff hd hdesc hfile (fun d desc => d.Reprograms desc.fnameBitfile)
    rw [hiff]
    obtain ⟨d', -, -, -, ⟨hrun, h⟩ | ⟨what, hrun, h⟩⟩ :=
      DeviceManager.reprogramDevice_result hd (hm.tidy r d hd).fresh hdesc hfile
    · exact .inl ⟨⟨_, _, hrun⟩, h⟩
    · exact .inr ⟨⟨_, _, hrun⟩, h⟩
  · refine .inl ⟨⟨_, _, DeviceManager.reprogramDevice_skips hd hskips⟩, fun d0 desc hd0 hdesc hfile => ?_⟩
    exact absurd (DeviceManager.no_bitfile hd hskips hd0 hdesc) hfile

end

/-- Conversions that know the types of the objects and no more. -/
def byType : Conversions where
  array | .array items => .ok items | _ => .error "std::bad_cast"
  string | .str s => .ok s | _ => .error "std::bad_cast"
  uint8 | .int i => .ok (UInt8.ofNat i.toNat) | _ => .error "std::bad_cast"
  uint16 | .int i => .ok (UInt16.ofNat i.toNat) | _ => .error "std::bad_cast"
  uint32 | .int i => .ok (UInt32.ofNat i.toNat) | _ => .error "std::bad_cast"
  outOfRange _ _ := "vector::_M_range_check"

/-- A board on which every call succeeds, except that it can be programmed only so often. -/
structure Wearing where
  cycles : Nat

instance : Ftdi Wearing where
  ftdiNew e := (true, e)
  usbOpenDev _ _ e := (none, e)
  usbPurgeBuffers e := (none, e)
  usbReset e := (none, e)
  setBitmode _ _ e := (none, e)
  setLatencyTimer _ e := (none, e)
  writeData bytes e := (bytes.length, e)
  readData size e := (.ok (List.replicate size.toNat 0), e)
  writeData_le _ _ := Int.le_refl _
  readData_le _ _ bytes _ h := by
    cases h
    simp

instance : Programmer Wearing where
  construct e := (none, e)
  program _ e := (if e.cycles = 0 then some "Programming failed" else none, ⟨e.cycles - 1⟩)

/-- A device that is brought up, and programmed for the last time. -/
def worn : Option (DeviceManager Wearing) :=
  (DeviceManager.initial [⟨"FPGA", "fpga.bit", []⟩] DeviceManager.setNotifier).step
    (.usbDeviceAdded 7 (.ok "FPGA0001") ⟨1⟩)

/-- A request that reprograms it. -/
def reprogramRequest : Obj := .array [.str "reprogram", .str "FPGA0001"]

theorem worn_reachable {m : DeviceManager Wearing} (h : worn = some m) :
    DeviceManager.Reachable [⟨"FPGA", "fpga.bit", []⟩] DeviceManager.setNotifier m := .step _ .initial h

end RequestHandler
end Fpga
