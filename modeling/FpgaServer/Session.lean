import FpgaServer.Chunks
import FpgaServer.Line
import FpgaServer.Transport
/-!
# Session — register calls on one open device, and the bytes they put on the wire

A session is any sequence of the five register operations; the RPC layer keeps the device in service whatever a call ends
with.  `Transmits x packets sure` says what a program puts on the wire: from any open state a prefix of the packets in
order, all of them where it returns, and where no write is cut a whole number of them, at least the first `sure`.  It
composes along the program, so each operation's packets are read off its code once (`transmits_call`).
-/
namespace Fpga

open Base (OrdMap Within final chunksOf countsOf)

inductive Call where
  | writeReg (addr port : UInt8) (value : UInt16)
  | readReg (addr port : UInt8)
  | writeRegN (addr port : UInt8) (data : List UInt16)
  | readRegN (addr port : UInt8) (n : Nat)
  | updateTrackedRegs
  deriving DecidableEq, Repr

section
variable {ε ω : Type} [Ftdi ε]

/-- A call with the words it delivers: a poll delivers into the cache, in key order. -/
def Call.run : Call → DeviceM ε ω (List UInt16)
  | .writeReg addr port value => do
    Device.writeReg addr port value
    return []
  | .readReg addr port => do
    let value ← Device.readReg addr port
    return [value]
  | .writeRegN addr port data => do
    Device.writeRegN addr port data
    return []
  | .readRegN addr port n => Device.readRegN addr port n
  | .updateTrackedRegs => do
    Device.updateTrackedRegs
    let s ← get
    return s.dev.trackedRegs.entries.map Prod.snd

/-- The session after a sequence of calls, whatever each of them ends with. -/
def session (s : DeviceState ε ω) (calls : List Call) : DeviceState ε ω :=
  calls.foldl (fun s c => final (c.run.run s)) s

/-- The calls of the session, each with the state it starts in. -/
def starts (s : DeviceState ε ω) : List Call → List (Call × DeviceState ε ω)
  | [] => []
  | c :: calls => (c, s) :: starts (final (c.run.run s)) calls

end

/-! ## The packets of a call -/

/-- One packet for each `ftdi_write_data` of the call, with the keys of the tracked registers. -/
def Call.packets (keys : List AddrPort) : Call → List (List UInt8)
  | .writeReg addr port value => [writeRegPacket addr port value]
  | .readReg addr port => [readRegPacket addr port]
  | .writeRegN addr port data => (chunksOf Device.nPacketMax data).map (writeRegNPacket addr port)
  | .readRegN addr port n => (countsOf Device.nPacketMax n).map (readRegNPacket addr port)
  | .updateTrackedRegs => if keys = [] then [] else [Device.readRegPackets keys]

/-- The commands of the call, in the order of the packets. -/
def Call.commands (keys : List AddrPort) : Call → List Command
  | .writeReg addr port value => [.writeReg (Reg.of addr port) value]
  | .readReg addr port => [.readReg (Reg.of addr port)]
  | .writeRegN addr port data => (chunksOf Device.nPacketMax data).map (Command.writeRegN (Reg.of addr port))
  | .readRegN addr port n => (countsOf Device.nPacketMax n).map (Command.readRegN (Reg.of addr port))
  | .updateTrackedRegs => keys.map (fun k => Command.readReg k.reg)

/-- The words the call supplies, with the register each is for. -/
def Call.supplied : Call → List (Reg × UInt16)
  | .writeReg addr port value => [(Reg.of addr port, value)]
  | .writeRegN addr port data => data.map (fun v => (Reg.of addr port, v))
  | _ => []

variable {δ ω : Type} [Fabric δ] {α β : Type}

/-! ## What a program transmits -/

/-- From `s` to `s'` the device received exactly `bytes`; the object keeps its context and its tracked keys. -/
structure Sends (s s' : DeviceState (Line δ) ω) (bytes : List UInt8) : Prop where
  board : s'.dev.usb.board = s.dev.usb.board.receive bytes
  ftdi : s'.dev.ftdi = s.dev.ftdi
  keys : s'.dev.trackedRegs.keys = s.dev.trackedRegs.keys
  writes : s.dev.usb.WritesSucceed → s'.dev.usb.WritesSucceed

theorem Sends.refl (s : DeviceState (Line δ) ω) : Sends s s [] :=
  ⟨(Board.receive_nil _).symm, rfl, rfl, id⟩

theorem Sends.trans {s t u : DeviceState (Line δ) ω} {v w : List UInt8} (h : Sends s t v) (h' : Sends t u w) :
    Sends s u (v ++ w) :=
  ⟨by rw [h'.board, h.board, Board.receive_append], h'.ftdi.trans h.ftdi, h'.keys.trans h.keys, h'.writes ∘ h.writes⟩

/-- Nothing is sent. -/
def Quiet (s s' : DeviceState (Line δ) ω) : Prop := Sends s s' []

instance : IsPreorder (DeviceState (Line δ) ω) Quiet where
  refl := Sends.refl
  trans _ _ _ h h' := Sends.trans h h'

/-- The device is open and tracks exactly these keys. -/
structure Ready (keys : List AddrPort) (s : DeviceState (Line δ) ω) : Prop where
  isOpen : s.dev.isOpen = true
  keys : s.dev.trackedRegs.keys = keys

theorem Ready.sends {keys : List AddrPort} {s s' : DeviceState (Line δ) ω} {bytes : List UInt8} (h : Ready keys s)
    (hs : Sends s s' bytes) : Ready keys s' :=
  ⟨by rw [Device.isOpen, hs.ftdi]; exact h.isOpen, hs.keys.trans h.keys⟩

/-- What one run put on the wire of the packets of its program. -/
structure Sent (s : DeviceState (Line δ) ω) (r : EStateM.Result Fault (DeviceState (Line δ) ω) α)
    (packets : List (List UInt8)) (sure : Nat) (bytes : List UInt8) : Prop where
  sends : Sends s (final r) bytes
  isPrefix : bytes <+: packets.flatten
  returned : ∀ a t, r = .ok a t → bytes = packets.flatten
  whole : s.dev.usb.WritesSucceed → ∃ j, sure ≤ j ∧ j ≤ packets.length ∧ bytes = (packets.take j).flatten

def Transmits (keys : List AddrPort) (x : DeviceM (Line δ) ω α) (packets : List (List UInt8)) (sure : Nat) : Prop :=
  ∀ s, Ready keys s → ∃ bytes, Sent s (x.run s) packets sure bytes

variable {keys : List AddrPort} {x : DeviceM (Line δ) ω α} {packets more : List (List UInt8)} {sure : Nat}

theorem Transmits.quiet (h : Within Quiet x) : Transmits keys x [] 0 := fun s _ =>
  ⟨[], h s, List.nil_prefix, fun _ _ _ => rfl, fun _ => ⟨0, Nat.le_refl 0, Nat.le_refl 0, rfl⟩⟩

/-- What the second program is sure to send does not count: the first may throw. -/
theorem Transmits.bind {f : α → DeviceM (Line δ) ω β} {n : Nat} (hx : Transmits keys x packets sure)
    (hf : ∀ a, Transmits keys (f a) more n) : Transmits keys (x >>= f) (packets ++ more) sure := by
  intro s hs
  obtain ⟨v, hv⟩ := hx s hs
  rw [EStateM.run_bind]
  cases hr : x.run s with
  | ok a t =>
    rw [hr] at hv
    obtain ⟨w, hw⟩ := hf a t (hs.sends hv.sends)
    have hvp : v = packets.flatten := hv.returned a t rfl
    refine ⟨v ++ w, hv.sends.trans hw.sends, ?_, fun b u hb => ?_, fun hall => ?_⟩
    · rw [List.flatten_append, hvp]
      exact (List.prefix_append_right_inj _).2 hw.isPrefix
    · rw [List.flatten_append, hvp, hw.returned b u hb]
    · obtain ⟨i, hi, hile, -⟩ := hv.whole hall
      obtain ⟨j, -, hjle, hj⟩ := hw.whole (hv.sends.writes hall)
      refine ⟨packets.length + j, by omega, by rw [List.length_append]; omega, ?_⟩
      rw [List.take_length_add_append, List.flatten_append, hvp, hj]
  | error e t =>
    rw [hr] at hv
    refine ⟨v, hv.sends, ?_, fun b u hb => (by cases hb), fun hall => ?_⟩
    · rw [List.flatten_append]
      exact hv.isPrefix.trans (List.prefix_append _ _)
    · obtain ⟨j, hsure, hle, hj⟩ := hv.whole hall
      exact ⟨j, hsure, by rw [List.length_append]; omega, by rw [hj, List.take_append_of_le_length hle]⟩

theorem run_ftdiWriteData {s : DeviceState (Line δ) ω} (h : s.dev.isOpen = true) (packet : List UInt8) :
    (Device.ftdiWriteData packet).run s = .ok (s.dev.usb.writeData packet).1
      { s with dev := { s.dev with usb := (s.dev.usb.writeData packet).2 } } := run_writeData h packet

/-- A checked write: any result short of the packet's length leads to an exception. -/
theorem Transmits.write {packet : List UInt8} {f : Int → DeviceM (Line δ) ω α}
    (hbad : ∀ n : Int, n < packet.length → ∃ what, f n = raise what)
    (hok : Transmits keys (f packet.length) more sure) :
    Transmits keys (Device.ftdiWriteData packet >>= f) (packet :: more) (sure + 1) := by
  intro s hs
  obtain ⟨reached, hpre, hboard, -, hfull⟩ := s.dev.usb.writeData_spec packet
  have hsend : Sends s { s with dev := { s.dev with usb := (s.dev.usb.writeData packet).2 } } reached :=
    ⟨hboard, rfl, rfl, fun h => (Line.writeData_of_succeed h packet).2⟩
  rw [EStateM.run_bind, run_ftdiWriteData hs.isOpen]
  by_cases hn : (s.dev.usb.writeData packet).1 = packet.length
  · obtain ⟨w, hw⟩ := hok _ (hs.sends hsend)
    rw [hfull hn] at hsend
    simp only [hn]
    refine ⟨packet ++ w, hsend.trans hw.sends, ?_, fun b u hb => ?_, fun hall => ?_⟩
    · exact (List.prefix_append_right_inj _).2 hw.isPrefix
    · rw [List.flatten_cons, hw.returned b u hb]
    · obtain ⟨j, hsure, hle, hj⟩ := hw.whole (hsend.writes hall)
      exact ⟨j + 1, by omega, by rw [List.length_cons]; omega, by rw [hj, List.take_succ_cons, List.flatten_cons]⟩
  · have hle : (s.dev.usb.writeData packet).1 ≤ packet.length := Ftdi.writeData_le packet s.dev.usb
    obtain ⟨what, hwhat⟩ := hbad (s.dev.usb.writeData packet).1 (by omega)
    simp only [hwhat]
    refine ⟨reached, hsend, hpre.trans (List.prefix_append _ _), fun b u hb => (by cases hb), fun hall => ?_⟩
    exact absurd (Line.writeData_of_succeed hall packet).1 hn

theorem Transmits.get {f : DeviceState (Line δ) ω → DeviceM (Line δ) ω α}
    (h : ∀ s, Ready keys s → Transmits keys (f s) packets sure) : Transmits keys (get >>= f) packets sure :=
  fun s hs => h s hs s hs

/-! ## The parts that send nothing -/

/-- Only the waiting bytes and the read script move. -/
def Waits (s t : DeviceState (Line δ) ω) : Prop := ∃ pending reads,
  t = { s with dev := { s.dev with usb := { s.dev.usb with pending := pending, reads := reads } } }

instance : IsPreorder (DeviceState (Line δ) ω) Waits where
  refl s := ⟨s.dev.usb.pending, s.dev.usb.reads, rfl⟩
  trans := by
    rintro s _ _ ⟨p, r, rfl⟩ ⟨p', r', rfl⟩
    exact ⟨p', r', rfl⟩

theorem Waits.quiet {s t : DeviceState (Line δ) ω} (h : Waits s t) : Quiet s t := by
  obtain ⟨p, r, rfl⟩ := h
  exact ⟨(Board.receive_nil _).symm, rfl, rfl, id⟩

theorem waits_ftdiReadData (size : Int) :
    Within Waits (Device.ftdiReadData size : DeviceM (Line δ) ω (Except Int (List UInt8))) := by
  refine within_ftdiReadData (fun s => ?_)
  obtain ⟨pending, reads, hline, -⟩ := s.dev.usb.readData_spec size
  refine ⟨pending, reads, ?_⟩
  rw [← hline]
  rfl

theorem waits_readLoop (size : Int) : ∀ (i : Nat) (recv : List UInt8),
    Within Waits (Device.readLoop size i recv : DeviceM (Line δ) ω (List UInt8))
  | 0, recv => Within.pure recv
  | i + 1, recv => by
    refine (waits_ftdiReadData _).bind (fun r => ?_)
    cases r with
    | error code => exact Within.throw _
    | ok bytes =>
      simp only
      split
      · exact waits_readLoop size i _
      · exact Within.pure _

theorem waits_ftdiReadDataWait (size : Int) :
    Within Waits (Device.ftdiReadDataWait size : DeviceM (Line δ) ω (List UInt8)) :=
  (waits_readLoop size 100 []).bind (fun _ => (within_raiseIf _ _).bind (fun _ => Within.pure _))

theorem quiet_ftdiReadDataWait (size : Int) :
    Within Quiet (Device.ftdiReadDataWait size : DeviceM (Line δ) ω (List UInt8)) :=
  (waits_ftdiReadDataWait size).imp (fun _ _ => Waits.quiet)

theorem quiet_modifyDev {f : Device (Line δ) ω → Device (Line δ) ω} (husb : ∀ d, (f d).usb = d.usb)
    (hftdi : ∀ d, (f d).ftdi = d.ftdi) (hkeys : ∀ d, (f d).trackedRegs.keys = d.trackedRegs.keys) :
    Within Quiet (Device.modifyDev f) := fun s =>
  ⟨(congrArg Line.board (husb s.dev)).trans (Board.receive_nil _).symm, hftdi s.dev, hkeys s.dev, fun h => by
    show (f s.dev).usb.WritesSucceed
    rwa [husb]⟩

theorem quiet_regChanged (addr port : UInt8) (value : UInt16) :
    Within Quiet (Device.regChanged addr port value : DeviceM (Line δ) ω Unit) := by
  refine Within.get.bind (fun s => ?_)
  split
  · exact Within.pure _
  · exact Within.zoom (Q := fun _ _ => True) (fun _ => trivial) (fun s t _ =>
      ⟨(Board.receive_nil _).symm, rfl, rfl, id⟩)

theorem quiet_storeResult (k : AddrPort) (value : UInt16) :
    Within Quiet (Device.storeResult k value : DeviceM (Line δ) ω Unit) := by
  refine Within.get.bind (fun s => ?_)
  split
  · exact Within.pure _
  · refine (quiet_modifyDev (f := fun d => { d with trackedRegs := d.trackedRegs.set k value }) (fun _ => rfl)
      (fun _ => rfl) (fun d => d.trackedRegs.keys_set k value)).bind (fun _ => ?_)
    split
    · exact quiet_regChanged _ _ _
    · exact Within.pure _

theorem quiet_storeResults : ∀ (kvs : List (AddrPort × UInt16)),
    Within Quiet (Device.storeResults kvs : DeviceM (Line δ) ω Unit)
  | [] => Within.pure _
  | kv :: kvs => (quiet_storeResult kv.1 kv.2).bind (fun _ => quiet_storeResults kvs)

/-! ## The operations -/

theorem transmits_writeReg (addr port : UInt8) (value : UInt16) :
    Transmits keys (Device.writeReg addr port value : DeviceM (Line δ) ω Unit) [writeRegPacket addr port value] 1 :=
  Transmits.write (fun _ hn => ⟨_, if_pos (Int.ne_of_lt hn)⟩) (Transmits.quiet (within_raiseIf _ _))

theorem transmits_readReg (addr port : UInt8) :
    Transmits keys (Device.readReg addr port : DeviceM (Line δ) ω UInt16) [readRegPacket addr port] 1 :=
  Transmits.write (fun _ hn => ⟨_, raiseIf_bind_pos (Int.ne_of_lt hn) _ _⟩)
    (Transmits.quiet ((within_raiseIf _ _).bind (fun _ => (quiet_ftdiReadDataWait 2).bind (fun _ =>
      (quiet_storeResult _ _).bind (fun _ => Within.pure _)))))

theorem length_writeRegNPacket (addr port : UInt8) (data : List UInt16) :
    (writeRegNPacket addr port data).length = 4 + 2 * data.length := by
  simp only [writeRegNPacket, List.length_append, length_be16s]
  rfl

theorem transmits_writeRegN (addr port : UInt8) (rest : List UInt16) :
    Transmits keys (Device.writeRegN addr port rest : DeviceM (Line δ) ω Unit)
      ((chunksOf Device.nPacketMax rest).map (writeRegNPacket addr port)) (chunksOf Device.nPacketMax rest).length := by
  by_cases h : rest = []
  · subst h
    rw [Device.writeRegN, dif_pos rfl, Base.chunksOf_nil]
    exact Transmits.quiet (Within.pure _)
  · rw [Device.writeRegN, dif_neg h, Base.chunksOf_ne_nil (by decide) h, List.map_cons, List.length_cons]
    have hpos : 0 < ((writeRegNPacket addr port (rest.take Device.nPacketMax)).length : Int) := by
      rw [length_writeRegNPacket]
      omega
    refine Transmits.write (fun n hn => ?_) ?_
    · by_cases hle : n ≤ 0
      · exact ⟨_, raiseIf_bind_pos hle _ _⟩
      · exact ⟨_, (raiseIf_bind_neg hle _ _).trans (raiseIf_bind_pos hn _ _)⟩
    · rw [raiseIf_bind_neg (by omega), raiseIf_bind_neg (Int.lt_irrefl _)]
      exact transmits_writeRegN addr port (rest.drop Device.nPacketMax)
termination_by rest.length
decreasing_by
  have := List.length_pos_iff.2 h
  simp only [List.length_drop, Device.nPacketMax]
  omega

theorem transmits_readRegN (addr port : UInt8) (left : Nat) :
    Transmits keys (Device.readRegN addr port left : DeviceM (Line δ) ω (List UInt16))
      ((countsOf Device.nPacketMax left).map (readRegNPacket addr port)) (min 1 left) := by
  by_cases h : left = 0
  · subst h
    rw [Device.readRegN, dif_pos rfl, Base.countsOf_zero]
    exact Transmits.quiet (Within.pure _)
  · have hone : min 1 left = 1 := by omega
    rw [Device.readRegN, dif_neg h, Base.countsOf_pos (by decide) h, List.map_cons, hone]
    refine Transmits.write (fun _ hn => ⟨_, raiseIf_bind_pos (Int.ne_of_lt hn) _ _⟩) ?_
    have hwait : Transmits keys (Device.ftdiReadDataWait (cInt (2 * min left Device.nPacketMax)) :
        DeviceM (Line δ) ω (List UInt8)) [] 0 := Transmits.quiet (quiet_ftdiReadDataWait _)
    have hrest := hwait.bind (fun recv => (transmits_readRegN addr port (left - min left Device.nPacketMax)).bind
      (fun more => Transmits.quiet (Within.pure (words recv ++ more))))
    rw [raiseIf_bind_neg (fun hc => hc rfl)]
    simpa using hrest
termination_by left
decreasing_by
  simp only [Device.nPacketMax]
  omega

theorem length_readRegPackets : ∀ (keys : List AddrPort), (Device.readRegPackets keys).length = 2 * keys.length
  | [] => rfl
  | k :: keys => by
    have hcons : Device.readRegPackets (k :: keys) = readRegPacket k.addr k.port ++ Device.readRegPackets keys := rfl
    have hk : (readRegPacket k.addr k.port).length = 2 := rfl
    rw [hcons, List.length_append, length_readRegPackets keys, hk, List.length_cons]
    omega

theorem transmits_updateTrackedRegs (hkeys : keys.length ≤ 65536) :
    Transmits keys (Device.updateTrackedRegs : DeviceM (Line δ) ω Unit) (Call.updateTrackedRegs.packets keys)
      (Call.updateTrackedRegs.packets keys).length := by
  refine Transmits.get (fun s hs => ?_)
  rw [hs.keys, Call.packets]
  dsimp only
  split
  · exact Transmits.quiet (Within.pure _)
  · have hlen : cInt (2 * keys.length) = (Device.readRegPackets keys).length := by
      rw [length_readRegPackets, cInt_of_lt (by omega)]
    rw [hlen]
    exact Transmits.write (fun _ hn => ⟨_, raiseIf_bind_pos (Int.ne_of_lt hn) _ _⟩)
      (Transmits.quiet ((within_raiseIf _ _).bind (fun _ => (quiet_ftdiReadDataWait _).bind (fun _ =>
        quiet_storeResults _))))

/-- How many packets of a call are sent whatever the reads of the call do: a bulk read waits for each answer before it
sends its next packet. -/
def Call.atLeast (keys : List AddrPort) : Call → Nat
  | .readRegN _ _ n => min 1 n
  | c => (c.packets keys).length

/-- **Every call transmits its packets.** -/
theorem transmits_call (hkeys : keys.length ≤ 65536) (c : Call) :
    Transmits keys (c.run : DeviceM (Line δ) ω (List UInt16)) (c.packets keys) (c.atLeast keys) := by
  have hret : ∀ (x : DeviceM (Line δ) ω (List UInt16)) ps n, Transmits keys x (ps ++ []) n → Transmits keys x ps n :=
    fun x ps n h => by rwa [List.append_nil] at h
  cases c with
  | writeReg addr port value =>
    exact hret _ _ _ ((transmits_writeReg addr port value).bind (fun _ => Transmits.quiet (Within.pure _)))
  | readReg addr port =>
    exact hret _ _ _ ((transmits_readReg addr port).bind (fun _ => Transmits.quiet (Within.pure _)))
  | writeRegN addr port data =>
    rw [Call.atLeast, Call.packets, List.length_map]
    · exact hret _ _ _ ((transmits_writeRegN addr port data).bind (fun _ => Transmits.quiet (Within.pure _)))
    · exact fun _ _ _ h => by cases h
  | readRegN addr port n => exact transmits_readRegN addr port n
  | updateTrackedRegs =>
    exact hret _ _ _ ((transmits_updateTrackedRegs hkeys).bind (fun _ =>
      Transmits.quiet (Within.get.bind (fun _ => Within.pure _))))

/-- A device opened on a register file, at a command boundary and with nothing waiting. -/
def onRegisterFile (value : Reg → UInt16) (trackedRegs : OrdMap AddrPort UInt16) (writes : List WriteStep)
    (reads : List ReadStep) : DeviceState (Line RegisterFile) Unit where
  dev :=
    { name := "FPGA0001", libusbDevice := 1, ftdi := some 0, trackedRegs := trackedRegs, regChangedCb := none,
      contexts := [⟨0, .A, true⟩], nextContext := 2,
      usb := ⟨⟨boundary, ⟨value⟩, [], []⟩, [], writes, reads, []⟩ }
  out := ()

end Fpga
