import FpgaServer.RequestDecode
/-!
# RequestAnswer — which requests are answered by one reply

The commands that hand their payload to the macro leave the buffer empty until they are done, so an exception of theirs is
answered by an error reply alone.  `reprogram` has packed the code 0 when it calls the manager, and an exception of the
manager adds an error reply to that.  `replies_iff` says exactly when one reply with the right code is left, in terms of the
request, of the device before the call, and of what the allocator grants.
-/
namespace Fpga

open Base (final)
open DeviceManager (onDevice)

variable {ε ω α : Type}

/-! ## What a device brings -/

section
variable [Ftdi ε]

/-- The environment after the reads that bring the missing bytes, if so many reads do. -/
def bytesBrought : Nat → Nat → ε → Option ε
  | 0, _, _ => none
  | calls + 1, missing, e =>
    match Ftdi.readData missing e with
    | (.error _, _) => none
    | (.ok bytes, e) => if bytes.length = missing then some e else bytesBrought calls (missing - bytes.length) e

/-- The environment after the exchanges that bring so many words of a register, if all of them do. -/
def wordsBrought (addr port : UInt8) (left : Nat) (e : ε) : Option ε :=
  if _h : left = 0 then
    some e
  else
    match Ftdi.writeData (readRegNPacket addr port (min left Device.nPacketMax)) e with
    | (n, e) =>
      if n = 4 then
        (bytesBrought 100 (2 * min left Device.nPacketMax) e).bind
          (wordsBrought addr port (left - min left Device.nPacketMax))
      else
        none
termination_by left
decreasing_by
  simp only [Device.nPacketMax]
  omega

/-- The program returns such a value where the environment brings what it waits for, and throws where it does not. -/
def Brings (s : DeviceState ε ω) (P : α → Prop) : Option ε → EStateM.Result Fault (DeviceState ε ω) α → Prop
  | some e, .ok a t => P a ∧ t = { s with dev := { s.dev with usb := e } }
  | none, .error e _ => ∃ what, e = .exception what
  | _, _ => False

omit [Ftdi ε] in
theorem Brings.of_usb {s : DeviceState ε ω} {P : α → Prop} {e : ε} {brought : Option ε}
    {r : EStateM.Result Fault (DeviceState ε ω) α} (h : Brings { s with dev := { s.dev with usb := e } } P brought r) :
    Brings s P brought r := by
  cases brought <;> cases r <;> exact h

omit [Ftdi ε] in
theorem Brings.bind {β : Type} {s : DeviceState ε ω} {P : α → Prop} {Q : β → Prop} {brought : Option ε} {next : ε → Option ε}
    {x : DeviceM ε ω α} {f : α → DeviceM ε ω β} (hx : Brings s P brought (x.run s))
    (hf : ∀ a e, P a → Brings { s with dev := { s.dev with usb := e } } Q (next e)
      ((f a).run { s with dev := { s.dev with usb := e } })) : Brings s Q (brought.bind next) ((x >>= f).run s) := by
  rw [EStateM.run_bind]
  cases hrun : x.run s with
  | ok a t =>
    rw [hrun] at hx
    cases brought with
    | none => exact hx.elim
    | some e =>
      obtain ⟨ha, rfl⟩ := hx
      exact (hf a e ha).of_usb
  | error e t =>
    rw [hrun] at hx
    cases brought with
    | none => exact hx
    | some e => exact hx.elim

/-- A run that returns such a value, or throws. -/
def Ends {σ : Type} (good : α → Prop) : EStateM.Result Fault σ α → Prop
  | .ok a _ => good a
  | .error (.exception _) _ => True
  | .error _ _ => False

omit [Ftdi ε] in
/-- What is asked of the value, and nothing of an exception, is asked where the environment brings it. -/
theorem Brings.iff {s : DeviceState ε ω} {P good : α → Prop} {c : Prop} {brought : Option ε}
    {r : EStateM.Result Fault (DeviceState ε ω) α} (h : Brings s P brought r) (hgood : ∀ a, P a → (good a ↔ c)) :
    Ends good r ↔ (brought.isSome = true → c) := by
  cases brought with
  | none =>
    refine iff_of_true ?_ (fun hnone => by cases hnone)
    cases r with
    | ok a t => exact h.elim
    | error e t =>
      obtain ⟨what, rfl⟩ := h
      trivial
  | some e =>
    cases r with
    | ok a t =>
      simp only [Option.isSome_some, true_imp_iff]
      exact hgood a h.1
    | error e t => exact h.elim

/-- A loop with something left to wait for: it gets all, fails, or runs out of attempts. -/
theorem readLoop_brings (size : Int) : ∀ (calls missing : Nat) (recv : List UInt8) {s : DeviceState ε ω},
    s.dev.isOpen = true → (recv.length : Int) + missing = size → 0 < missing →
    match bytesBrought calls missing s.dev.usb, (Device.readLoop size calls recv).run s with
    | some e, .ok got t => (got.length : Int) = size ∧ t = { s with dev := { s.dev with usb := e } }
    | none, .ok got _ => (got.length : Int) ≠ size
    | none, .error e _ => ∃ what, e = .exception what
    | some _, .error _ _ => False
  | 0, missing, recv, s, _, hsum, hpos => by
    show (recv.length : Int) ≠ size
    omega
  | calls + 1, missing, recv, s, hopen, hsum, hpos => by
    have hsize : size - (recv.length : Int) = missing := by omega
    rw [Device.readLoop, EStateM.run_bind, hsize, run_readData hopen (Int.natCast_nonneg missing), bytesBrought]
    have hle := Ftdi.readData_le (missing : Int) s.dev.usb
    cases hr : Ftdi.readData (missing : Int) s.dev.usb with
    | mk answer e =>
      rw [hr] at hle
      cases answer with
      | error code => exact ⟨_, rfl⟩
      | ok bytes =>
        have hbytes := hle bytes (Int.natCast_nonneg missing) rfl
        simp only
        by_cases hall : bytes.length = missing
        · have hfull : ¬ (((recv ++ bytes).length : Nat) : Int) ≠ size := by
            rw [List.length_append]
            omega
          rw [if_pos hall, if_neg hfull]
          exact ⟨not_not.1 hfull, rfl⟩
        · have hpart : (((recv ++ bytes).length : Nat) : Int) ≠ size := by
            rw [List.length_append]
            omega
          rw [if_neg hall, if_pos hpart]
          exact readLoop_brings size calls (missing - bytes.length) (recv ++ bytes)
            (s := { s with dev := { s.dev with usb := e } }) hopen (by rw [List.length_append]; omega) (by omega)

theorem ftdiReadDataWait_brings {n : Nat} (hpos : 0 < n) {s : DeviceState ε ω} (hopen : s.dev.isOpen = true) :
    Brings s (fun got => got.length = n) (bytesBrought 100 n s.dev.usb) ((Device.ftdiReadDataWait n).run s) := by
  have hloop := readLoop_brings (n : Int) 100 n [] hopen (by simp) hpos
  rw [Device.ftdiReadDataWait, EStateM.run_bind]
  cases hb : bytesBrought 100 n s.dev.usb with
  | some e =>
    cases hr : (Device.readLoop (n : Int) 100 []).run s with
    | ok got t =>
      rw [hb, hr] at hloop
      obtain ⟨hlen, rfl⟩ := hloop
      simp only
      rw [raiseIf_bind_neg (not_not.2 hlen)]
      exact ⟨by omega, rfl⟩
    | error e t =>
      rw [hb, hr] at hloop
      exact hloop.elim
  | none =>
    cases hr : (Device.readLoop (n : Int) 100 []).run s with
    | ok got t =>
      rw [hb, hr] at hloop
      simp only
      rw [raiseIf_bind_pos hloop]
      exact ⟨_, rfl⟩
    | error e t =>
      rw [hb, hr] at hloop
      exact hloop

theorem readRegN_brings (addr port : UInt8) (left : Nat) {s : DeviceState ε ω} (hopen : s.dev.isOpen = true) :
    Brings s (fun ws => ws.length = left) (wordsBrought addr port left s.dev.usb)
      ((Device.readRegN addr port left).run s) := by
  by_cases hleft : left = 0
  · rw [Device.readRegN, dif_pos hleft, wordsBrought, dif_pos hleft]
    exact ⟨hleft.symm, rfl⟩
  · have hpacket : 0 < 2 * min left Device.nPacketMax := by
      simp only [Device.nPacketMax]
      omega
    have hsize : cInt (2 * min left Device.nPacketMax) = ((2 * min left Device.nPacketMax : Nat) : Int) :=
      cInt_of_lt (by simp only [Device.nPacketMax]; omega)
    rw [Device.readRegN, dif_neg hleft, wordsBrought, dif_neg hleft]
    simp only [EStateM.run_bind, run_writeData hopen]
    cases hw : Ftdi.writeData (readRegNPacket addr port (min left Device.nPacketMax)) s.dev.usb with
    | mk n e =>
      simp only
      by_cases hn : n = 4
      · rw [if_pos hn, raiseIf, if_neg (not_not.2 hn), hsize]
        simp only [EStateM.run_pure]
        have hwait := ftdiReadDataWait_brings hpacket (s := { s with dev := { s.dev with usb := e } }) hopen
        refine hwait.bind (fun got e' hlen => ?_)
        have hrest := readRegN_brings addr port (left - min left Device.nPacketMax)
          (s := { s with dev := { s.dev with usb := e' } }) hopen
        have hmore : ∀ (more : List UInt16) (e'' : ε), more.length = left - min left Device.nPacketMax →
            Brings { s with dev := { s.dev with usb := e'' } } (fun ws => ws.length = left) (some e'')
              ((pure (words got ++ more) : DeviceM ε ω (List UInt16)).run { s with dev := { s.dev with usb := e'' } }) := by
          intro more e'' hmore
          refine ⟨?_, rfl⟩
          show (words got ++ more).length = left
          rw [List.length_append, length_words hlen, hmore]
          omega
        have hall := hrest.bind hmore
        rwa [Option.bind_fun_some] at hall
      · rw [if_neg hn, raiseIf, if_pos hn]
        exact ⟨_, rfl⟩
termination_by left
decreasing_by
  simp only [Device.nPacketMax]
  omega

/-- A wait of a device that is not open is handed a null context. -/
theorem wait_closed (size : Int) {s : DeviceState ε ω} (hclosed : ¬ s.dev.isOpen = true) :
    (Device.ftdiReadDataWait size).run s = .error .crash s := by
  have hnone : s.dev.ftdi = none := by simpa [Device.isOpen] using hclosed
  have hread : ∀ size : Int, (Device.ftdiReadData size).run s = .error .crash s := by
    intro size
    simp only [Device.ftdiReadData, EStateM.run_bind, EStateM.run_get, hnone]
    rfl
  rw [Device.ftdiReadDataWait, EStateM.run_bind, Device.readLoop, EStateM.run_bind, hread]

/-- A wait for a negative size: its one read fails, or copies too much. -/
theorem wait_negative {size : Int} (hsize : size < 0) {s : DeviceState ε ω} (hopen : s.dev.isOpen = true) :
    ∃ t, (Device.ftdiReadDataWait size).run s = .error (match (Ftdi.readData size s.dev.usb).1 with
      | .error _ => .exception "FTDI read error"
      | .ok _ => .overrun) t := by
  have hstart : size - ([] : List UInt8).length = size := by simp
  rw [Device.ftdiReadDataWait, EStateM.run_bind, Device.readLoop, EStateM.run_bind, hstart, run_readData_cases hopen]
  cases (Ftdi.readData size s.dev.usb).1 with
  | error code => exact ⟨_, rfl⟩
  | ok bytes =>
    simp only [if_pos hsize]
    exact ⟨_, rfl⟩

/-! ## The calls that write -/

/-- A command that checks what it writes throws on a device that is not open. -/
theorem closed_throws {s t : DeviceState ε ω} {e : Fault} (hclosed : ¬ s.dev.isOpen = true) {packet : List UInt8}
    {f : Int → DeviceM ε ω α} (hf : ∃ what, f (-666) = raise what)
    (h : (Device.ftdiWriteData packet >>= f).run s = .error e t) : ∃ what, e = .exception what := by
  obtain ⟨what, hwhat⟩ := hf
  rw [EStateM.run_bind, run_writeData_closed (by simpa using hclosed)] at h
  simp only [hwhat] at h
  cases h
  exact ⟨what, rfl⟩

/-- **What writes fails by an exception only**, on a device that is open or not. -/
theorem writeReg_throws (addr port : UInt8) (value : UInt16) {s t : DeviceState ε View} {e : Fault} (hw : Wired s.dev)
    (h : (Device.writeReg addr port value).run s = .error e t) : ∃ what, e = .exception what := by
  by_cases hopen : s.dev.isOpen = true
  · exact (graceful_rules.writeReg addr port value).throws s e t hopen hw h
  · exact closed_throws hopen ⟨_, if_pos (by decide)⟩ h

theorem readReg_throws (addr port : UInt8) {s t : DeviceState ε View} {e : Fault} (hw : Wired s.dev)
    (h : (Device.readReg addr port).run s = .error e t) : ∃ what, e = .exception what := by
  by_cases hopen : s.dev.isOpen = true
  · exact (graceful_rules.readReg addr port).throws s e t hopen hw h
  · exact closed_throws hopen ⟨_, raiseIf_bind_pos (by decide) _ _⟩ h

theorem writeRegN_throws (addr port : UInt8) (rest : List UInt16) {s t : DeviceState ε View} {e : Fault} (hw : Wired s.dev)
    (h : (Device.writeRegN addr port rest).run s = .error e t) : ∃ what, e = .exception what := by
  by_cases hopen : s.dev.isOpen = true
  · exact (graceful_rules.writeRegN addr port rest).throws s e t hopen hw h
  · rw [Device.writeRegN] at h
    split at h
    · cases h
    · exact closed_throws hopen ⟨_, raiseIf_bind_pos (by decide) _ _⟩ h

theorem writeRaw_throws (rest : List UInt8) {s t : DeviceState ε View} {e : Fault} (hw : Wired s.dev)
    (h : (Device.writeRaw rest).run s = .error e t) : ∃ what, e = .exception what := by
  by_cases hopen : s.dev.isOpen = true
  · exact (graceful_rules.writeRaw rest).throws s e t hopen hw h
  · rw [Device.writeRaw] at h
    split at h
    · cases h
    · exact closed_throws hopen ⟨_, dif_pos (by decide)⟩ h

end

namespace Invocation

/-- The device of the call. -/
def device : Invocation → Option Nat
  | .devicelist => none
  | .reprogram r | .writereg r _ _ _ | .readreg r _ _ | .writeregn r _ _ _ | .readregn r _ _ _ | .writeraw r _ | .readraw r _ =>
    some r

end Invocation

namespace RequestHandler

variable {C : Conversions} {m : DeviceManager ε} {memory : List Bool}

/-- How often the buffer grows for a binary of so many bytes. -/
def binaryGrowths (n : Nat) : Nat := if 8192 < 2 + (Token.binHeader n).size + n then 1 else 0

theorem capacity_small {used : Nat} (h : used ≤ 8192) : capacity used = 8192 := by
  refine Nat.max_eq_left ?_
  by_cases hzero : used - 1 = 0
  · rw [hzero]
    decide
  · have hlog : (used - 1).log2 < 13 := (Nat.log2_lt hzero).2 (by omega)
    calc 2 ^ ((used - 1).log2 + 1) ≤ 2 ^ 13 := Nat.pow_le_pow_right (by decide) hlog
      _ = 8192 := rfl

theorem payloadGrowths_binary {data : List UInt8} (h : data.length < 4294967296) :
    payloadGrowths (.binary data) = binaryGrowths data.length := by
  have hheader : (Token.binHeader data.length).size ≤ 5 := by
    rw [Token.size]
    split_ifs <;> omega
  rw [payloadGrowths, (packed_eq_tokens_iff (.binary data)).2 h, Payload.tokens, growths, growths, growths,
    capacity_small (by decide), capacity_small (by omega), if_neg (by omega), Nat.zero_add, Nat.add_zero, binaryGrowths]
  rfl

theorem payloadGrowths_int (i : Int) : payloadGrowths (.int i) = 0 := by
  refine growths_small [.int i] ?_
  have hsize : (Token.int i).size ≤ 9 := by
    rw [Token.size]
    split_ifs <;> omega
  simp only [byteSize, List.map_cons, List.map_nil, List.sum_cons, List.sum_nil]
  omega

/-! ## The calls -/

/-- A call whose payload is packed whole, or which throws. -/
def Packable {σ : Type} (memory : List Bool) : EStateM.Result Fault σ Payload → Prop :=
  Ends (fun p => p.Fits ∧ Granted (payloadGrowths p) memory)

variable [Ftdi ε] [Programmer ε]

/-- What the call of a request needs, for its reply to be the only one: that it is programmed and opened again, that bytes
it is brought fit a reply that gets the room, that the device is open for a read of raw bytes and fails one of a negative
size. -/
def Single (m : DeviceManager ε) (memory : List Bool) : Invocation → Prop
  | .devicelist => Granted (payloadGrowths (.strings m.getDeviceList)) memory
  | .reprogram r => Reprogrammable m r
  | .readregn r addr port nWords => ∀ d, m.objects r = some d → d.isOpen = true →
    (wordsBrought addr port nWords.toNat d.usb).isSome = true →
      nWords.toNat < 2147483648 ∧ Granted (binaryGrowths (2 * nWords.toNat)) memory
  | .readraw r nBytes => nBytes.toNat = 0 ∨ ∀ d, m.objects r = some d → d.isOpen = true ∧
    if nBytes.toNat < 2147483648 then
      (bytesBrought 100 nBytes.toNat d.usb).isSome = true → Granted (binaryGrowths nBytes.toNat) memory
    else
      ∃ code, (Ftdi.readData ((nBytes.toNat : Int) - 4294967296) d.usb).1 = .error code
  | _ => True

/-- The call of a command on a device is an operation on it. -/
theorem packable_onDevice {inv : Invocation} {r : Nat} {d : Device ε View} {x : DeviceM ε View α} {p : α → Payload}
    (hinv : inv.run = (do return p (← onDevice r x))) (hd : m.objects r = some d) :
    Packable memory (inv.run.run m) ↔
      Ends (fun a => (p a).Fits ∧ Granted (payloadGrowths (p a)) memory) (x.run ⟨d, ⟨m.notifier, m.getDeviceList⟩⟩) := by
  rw [hinv, EStateM.run_bind, DeviceManager.run_onDevice_some hd]
  cases x.run ⟨d, ⟨m.notifier, m.getDeviceList⟩⟩ with
  | ok a s => exact Iff.rfl
  | error e s => cases e <;> exact Iff.rfl

/-- A call that fails by an exception only, and replies with a number. -/
theorem packable_int {inv : Invocation} {r : Nat} {d : Device ε View} {x : DeviceM ε View α} {f : α → Int}
    (hinv : inv.run = (do return .int (f (← onDevice r x)))) (hd : m.objects r = some d)
    (hthrows : ∀ e t, x.run ⟨d, ⟨m.notifier, m.getDeviceList⟩⟩ = .error e t → ∃ what, e = .exception what) :
    Packable memory (inv.run.run m) := by
  rw [packable_onDevice (p := fun a => .int (f a)) hinv hd]
  cases hx : x.run ⟨d, ⟨m.notifier, m.getDeviceList⟩⟩ with
  | ok a s =>
    refine ⟨trivial, ?_⟩
    rw [payloadGrowths_int]
    exact granted_zero _
  | error e s =>
    obtain ⟨what, rfl⟩ := hthrows e s hx
    trivial

theorem packable_readregn {r : Nat} {addr port : UInt8} {nWords : UInt32} {d : Device ε View} (hd : m.objects r = some d) :
    Packable memory ((Invocation.readregn r addr port nWords).run.run m) ↔ Single m memory (.readregn r addr port nWords) := by
  have hrun : (Invocation.readregn r addr port nWords).run = (do
      return .binary ((← onDevice r (Device.readRegN addr port nWords.toNat)).flatMap be16) : ManagerM ε Payload) := rfl
  rw [packable_onDevice (p := fun ws : List UInt16 => .binary (ws.flatMap be16)) hrun hd]
  have hsingle : Single m memory (.readregn r addr port nWords) ↔ (d.isOpen = true →
      (wordsBrought addr port nWords.toNat d.usb).isSome = true →
        nWords.toNat < 2147483648 ∧ Granted (binaryGrowths (2 * nWords.toNat)) memory) := by
    refine ⟨fun h => h d hd, fun h d' hd' => ?_⟩
    cases hd.symm.trans hd'
    exact h
  rw [hsingle]
  have hpacked : ∀ ws : List UInt16, ws.length = nWords.toNat →
      ((Payload.binary (ws.flatMap be16)).Fits ∧ Granted (payloadGrowths (.binary (ws.flatMap be16))) memory ↔
        nWords.toNat < 2147483648 ∧ Granted (binaryGrowths (2 * nWords.toNat)) memory) := by
    intro ws hws
    have hlen : (ws.flatMap be16).length = 2 * nWords.toNat := by rw [length_be16s, hws]
    have hfits : (Payload.binary (ws.flatMap be16)).Fits ↔ nWords.toNat < 2147483648 := by
      show (ws.flatMap be16).length < 4294967296 ↔ _
      omega
    rw [hfits]
    refine and_congr_right (fun hn => ?_)
    rw [payloadGrowths_binary (by omega), hlen]
  by_cases hopen : d.isOpen = true
  · have hbrings := readRegN_brings addr port nWords.toNat (s := ⟨d, ⟨m.notifier, m.getDeviceList⟩⟩) hopen
    simp only [hopen, true_imp_iff]
    exact hbrings.iff hpacked
  · refine iff_of_true ?_ (fun h => absurd h hopen)
    -- of a device that is not open only no words at all are read
    by_cases hzero : nWords.toNat = 0
    · have hnone := hpacked [] (by rw [hzero]; rfl)
      rw [hzero] at hnone ⊢
      rw [Device.readRegN, dif_pos rfl]
      exact hnone.2 ⟨by decide, granted_zero _⟩
    · have hthrows : ∃ what t, (Device.readRegN addr port nWords.toNat).run ⟨d, ⟨m.notifier, m.getDeviceList⟩⟩ =
          .error (.exception what) t := by
        rw [Device.readRegN, dif_neg hzero, EStateM.run_bind, run_writeData_closed (by simpa using hopen)]
        simp only
        rw [raiseIf_bind_pos (by decide)]
        exact ⟨_, _, rfl⟩
      obtain ⟨what, t, hrun⟩ := hthrows
      rw [hrun]
      trivial

theorem packable_readraw {r : Nat} {nBytes : UInt32} {d : Device ε View} (hd : m.objects r = some d) :
    Packable memory ((Invocation.readraw r nBytes).run.run m) ↔ Single m memory (.readraw r nBytes) := by
  have hrun : (Invocation.readraw r nBytes).run = (do
      return .binary (← onDevice r (Device.readRaw nBytes.toNat)) : ManagerM ε Payload) := rfl
  rw [packable_onDevice (p := .binary) hrun hd]
  by_cases hzero : nBytes.toNat = 0
  · rw [Device.readRaw, if_pos hzero]
    exact iff_of_true ⟨Nat.zero_lt_succ _, granted_zero _⟩ (.inl hzero)
  have hsingle : Single m memory (.readraw r nBytes) ↔ d.isOpen = true ∧
      if nBytes.toNat < 2147483648 then
        (bytesBrought 100 nBytes.toNat d.usb).isSome = true → Granted (binaryGrowths nBytes.toNat) memory
      else
        ∃ code, (Ftdi.readData ((nBytes.toNat : Int) - 4294967296) d.usb).1 = .error code := by
    refine (or_iff_right hzero).trans ⟨fun h => h d hd, fun h d' hd' => ?_⟩
    cases hd.symm.trans hd'
    exact h
  rw [hsingle, Device.readRaw, if_neg hzero]
  by_cases hopen : d.isOpen = true
  · rw [and_iff_right hopen]
    by_cases hn : nBytes.toNat < 2147483648
    · have hbrings := ftdiReadDataWait_brings (Nat.pos_of_ne_zero hzero)
        (s := (⟨d, ⟨m.notifier, m.getDeviceList⟩⟩ : DeviceState ε View)) hopen
      rw [if_pos hn, cInt_of_lt hn]
      refine hbrings.iff (fun bytes hlen => ?_)
      have hfits : (Payload.binary bytes).Fits := by
        show bytes.length < 4294967296
        omega
      rw [and_iff_right hfits, payloadGrowths_binary hfits, hlen]
    · have hlt := nBytes.toNat_lt
      have hcInt : cInt nBytes.toNat = (nBytes.toNat : Int) - 4294967296 := by
        unfold cInt
        rw [Int.bmod_def]
        omega
      have hnegative : (nBytes.toNat : Int) - 4294967296 < 0 := by omega
      obtain ⟨t, hwait⟩ := wait_negative hnegative
        (s := (⟨d, ⟨m.notifier, m.getDeviceList⟩⟩ : DeviceState ε View)) hopen
      rw [if_neg hn, hcInt, hwait]
      cases hr : (Ftdi.readData ((nBytes.toNat : Int) - 4294967296) d.usb).1 with
      | error code => exact iff_of_true trivial ⟨code, rfl⟩
      | ok bytes => exact iff_of_false not_false (fun ⟨_, h⟩ => by cases h)
  · rw [wait_closed _ (by exact hopen)]
    exact iff_of_false not_false (fun h => hopen h.1)

omit [Ftdi ε] [Programmer ε] in
/-- The device of a valid request is registered. -/
theorem decode_registered {request : Obj} {inv : Invocation} {r : Nat} (hdec : decode C m request = some inv)
    (hr : inv.device = some r) : ∃ serial, m.getDevice serial = some r := by
  rw [decode_eq] at hdec
  obtain ⟨⟨cmd, args⟩, -, hcall⟩ := Option.bind_eq_some_iff.1 hdec
  suffices hnamed : named C m args = some r by
    obtain ⟨serial, -, hserial⟩ := Option.bind_eq_some_iff.1 hnamed
    exact ⟨serial, hserial⟩
  have hof : ∀ (f : Nat → Option Invocation), (∀ q, ∀ i ∈ f q, i.device = some q) →
      (named C m args).bind f = some inv → named C m args = some r := by
    intro f hf h
    obtain ⟨q, hq, hinv⟩ := Option.bind_eq_some_iff.1 h
    rw [hq, ← hf q inv hinv, hr]
  unfold decodeCall at hcall
  split at hcall
  · cases hcall
    cases hr
  case h_9 => cases hcall
  all_goals
    refine hof _ (fun q i hi => ?_) hcall
    simp only [Option.bind_eq_bind, Option.mem_def, Option.bind_eq_some_iff, Option.pure_def, Option.some.injEq] at hi
    repeat' obtain ⟨_, _, hi⟩ := hi
    rfl

/-- **Each call**, on a registered device: its payload is packed whole, or it throws, just where `Single` says. -/
theorem packable_iff {inv : Invocation} (hm : m.Ready False) (hregistered : ∀ r, inv.device = some r → ∃ d, m.objects r = some d)
    (hbegun : ∀ r, inv ≠ .reprogram r) : Packable memory (inv.run.run m) ↔ Single m memory inv := by
  cases inv with
  | devicelist => exact and_iff_right trivial
  | reprogram r => exact absurd rfl (hbegun r)
  | writereg r addr port value =>
    obtain ⟨d, hd⟩ := hregistered r rfl
    exact iff_of_true (packable_int (f := fun _ => 0) rfl hd (fun e t h => writeReg_throws addr port value (hm.tidy r d hd).wired h))
      trivial
  | readreg r addr port =>
    obtain ⟨d, hd⟩ := hregistered r rfl
    exact iff_of_true (packable_int (f := fun value : UInt16 => value.toNat) rfl hd
      (fun e t h => readReg_throws addr port (hm.tidy r d hd).wired h)) trivial
  | writeregn r addr port data =>
    obtain ⟨d, hd⟩ := hregistered r rfl
    exact iff_of_true (packable_int (f := fun _ => 0) rfl hd
      (fun e t h => writeRegN_throws addr port (words data) (hm.tidy r d hd).wired h)) trivial
  | readregn r addr port nWords =>
    obtain ⟨d, hd⟩ := hregistered r rfl
    exact packable_readregn hd
  | writeraw r data =>
    obtain ⟨d, hd⟩ := hregistered r rfl
    exact iff_of_true (packable_int (f := fun _ => 0) rfl hd
      (fun e t h => writeRaw_throws data (hm.tidy r d hd).wired h)) trivial
  | readraw r nBytes =>
    obtain ⟨d, hd⟩ := hregistered r rfl
    exact packable_readraw hd

/-! ## Requests -/

/-- A handler that hands its answer to the macro. -/
theorem Makes.leaves_iff {x : RequestM ε Answer} {inv : Option Invocation} (h : Makes m memory x inv) :
    Leaves (catchException (do let _ ← x >>= reply) (fun what => replyError what)) (resultOf (x >>= reply) ⟨m, [], memory⟩)
        ⟨m, [], memory⟩ ↔
      ∀ i, inv = some i → Granted (blocks (i.elements m)) memory →
        Packable (memory.drop (blocks (i.elements m))) (i.run.run m) := by
  rw [leaves_caught_iff, EStateM.run_bind]
  cases inv with
  | none =>
    refine iff_of_true ?_ (fun i hi => by cases hi)
    rcases h with ⟨text, h⟩ | ⟨what, h⟩
    · rw [h]
      simp only [run_refusal]
      exact ⟨text, rfl⟩
    · rw [h]
  | some inv =>
    simp only [Option.some.injEq, forall_eq']
    by_cases hg : Granted (blocks (inv.elements m)) memory
    · rw [h.1 hg, imp_iff_right hg]
      cases inv.run.run m with
      | ok p m' => exact leaves_value_iff p m' _
      | error e m' => cases e <;> simp [Packable, Ends]
    · rw [h.2 hg]
      exact iff_of_true rfl (fun h => absurd h hg)

/-- The manager's call comes between the second piece and the third. -/
theorem leaves_reprogram_iff (hm : m.Ready False) (args : List Obj) :
    Leaves (catchException (do let _ ← reprogram C args) (fun what => replyError what))
        (resultOf (reprogram C args) ⟨m, [], memory⟩) ⟨m, [], memory⟩ ↔
      ∀ r, named C m args = some r → Reprogrammable m r := by
  rw [leaves_caught_iff]
  cases hr : named C m args with
  | none =>
    refine iff_of_true ?_ (fun r h => by cases h)
    rcases getDevice_none hr memory with hget | ⟨what, hget⟩
    · rw [reprogram, EStateM.run_bind, hget]
      simp only [run_refusal]
      exact ⟨_, rfl⟩
    · rw [reprogram, EStateM.run_bind, hget]
  | some r =>
    obtain ⟨serial, -, hserial⟩ := Option.bind_eq_some_iff.1 hr
    simp only [run_reprogram hr, Option.some.injEq, forall_eq']
    rcases run_reprogramDevice hm hserial with ⟨⟨b, m', hp⟩, hreprograms⟩ | ⟨⟨what, m', hp⟩, hreprograms⟩
    · rw [hp]
      exact iff_of_true rfl hreprograms
    · rw [hp]
      exact iff_of_false (by simp) hreprograms

variable (C) in
/-- When a request is answered by one reply: it makes no call, is refused what it allocates first, or its call is as
`Single` says. -/
def RequestAnswered (m : DeviceManager ε) (memory : List Bool) (request : Obj) : Prop :=
  ∀ inv, decode C m request = some inv → Granted (blocks (inv.elements m)) memory →
    Single m (memory.drop (blocks (inv.elements m))) inv

end RequestHandler
end Fpga
