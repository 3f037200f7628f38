import FpgaServer.ChannelLog
import FpgaServer.Jtag
import FpgaServer.Retraces
/-!
# Buffers — the fixed arrays of the cable are never overrun

`usbuf` has 4096 bytes, `tms_buf` 1024 bits, and no array a read goes into is shorter than 4096 bytes.  Nothing checks an index
where they are filled: that a command fits is up to the code that puts it together, and that what was there is gone is up to the
call before.  `Roomy` is kept by every call on a cable, returning or throwing, whatever libftdi does (`roomy_call`), and so by every
run of calls of `Jtag`, which keeps whatever its `IOBase` keeps (`Steady`).
-/
namespace Base

variable {ε σ α β : Type} {P : σ → Prop}

/-- What holds goes on to hold. -/
def Preserves (P : σ → Prop) (s t : σ) : Prop := P s → P t

instance (P : σ → Prop) : IsPreorder σ (Preserves P) where
  refl _ := id
  trans _ _ _ h h' := h' ∘ h

/-- What comes next may rely on what is known of the result. -/
theorem Within.bind_of {R : σ → σ → Prop} [IsPreorder σ R] {Q : α → Prop} {x : EStateM ε σ α} {f : α → EStateM ε σ β}
    (hx : Within R x) (hQ : ∀ s a t, x.run s = .ok a t → Q a) (hf : ∀ a, Q a → Within R (f a)) : Within R (x >>= f) := by
  intro s
  rw [EStateM.run_bind]
  cases h : x.run s with
  | ok a t => exact IsTrans.trans _ _ _ (hx.ok h) (hf a (hQ s a t h) t)
  | error e t => exact hx.error h

theorem Within.get_bind {R : σ → σ → Prop} {f : σ → EStateM ε σ β} (h : ∀ s, Within R (f s)) :
    Within R (MonadState.get >>= f) := fun s => h s s

theorem Within.if_then {R : σ → σ → Prop} [IsPreorder σ R] {c : Prop} [Decidable c] {x : EStateM ε σ PUnit} (hx : Within R x) :
    Within R (if c then x else Pure.pure ()) := by
  split
  · exact hx
  · exact Within.pure _

theorem Within.of_if {R : σ → σ → Prop} [IsPreorder σ R] {c : Prop} [Decidable c] {x : EStateM ε σ PUnit} {k : EStateM ε σ β}
    (hx : c → Within R x) (hk : Within R k) : Within R (if c then x >>= fun _ => k else k) := by
  split
  · rename_i hc
    exact (hx hc).bind (fun _ => hk)
  · exact hk

end Base

namespace Fpga
namespace Xc3s

open Base

instance {ε : Type} [Host ε] : Host (Logged ε) where
  ftdiGetErrorString l := Host.ftdiGetErrorString l.usb
  errno l := Host.errno l.usb
  strerror := Host.strerror ε
  stack l := Host.stack l.usb

variable {ε : Type}

/-- Nothing is over its array, and nothing written or asked for is over one. -/
structure Roomy (io : IoFtdi (Logged ε)) : Prop where
  usbuf : io.usbuf.length + 2 ≤ txBuf
  tmsBuf : io.tmsBuf.length ≤ chunkBits
  writes : ∀ w ∈ io.usb.writes, w.1.length + 2 ≤ txBuf
  reads : ∀ r ∈ io.usb.reads, r.1 + 3 ≤ txBuf

namespace IoFtdi

variable [Ftdi ε] [Host ε]

/-- A program that leaves room. -/
abbrev LeavesRoom {α : Type} (x : IoM (Logged ε) α) : Prop := Within (Preserves Roomy) x

theorem roomy_mpsseSend : LeavesRoom (mpsseSend : IoM (Logged ε) Unit) := by
  intro io h
  have hwrites : ∀ w ∈ (Ftdi.writeData io.usbuf io.usb).2.writes, w.1.length + 2 ≤ txBuf := by
    intro w hw
    rcases List.mem_append.1 hw with hw | hw
    · exact h.writes w hw
    · rw [List.mem_singleton.1 hw]
      exact h.usbuf
  rw [run_mpsseSend]
  split
  · exact h
  · split
    · exact ⟨Nat.le_of_ble_eq_true rfl, h.tmsBuf, hwrites, h.reads⟩
    · exact ⟨h.usbuf, h.tmsBuf, hwrites, h.reads⟩

/-- A buffer that was sent is empty. -/
theorem usbuf_mpsseSend {io io' : IoFtdi ε} {u : Unit} (h : mpsseSend.run io = .ok u io') : io'.usbuf = [] := by
  rw [run_mpsseSend] at h
  split at h
  · rename_i hnil
    cases h
    exact hnil
  · split at h
    · cases h
      rfl
    · cases h

/-- **A command of up to 4093 bytes fits**: into what is left, or into the whole array. -/
theorem roomy_mpsseAddCmd {cmd : List UInt8} (hcmd : cmd.length + 3 ≤ txBuf) :
    LeavesRoom (mpsseAddCmd cmd : IoM (Logged ε) Unit) := by
  intro io h
  rw [run_mpsseAddCmd]
  split
  · refine final_bind (roomy_mpsseSend io h) (fun u io' hrun h' => ?_)
    refine ⟨?_, h'.tmsBuf, h'.writes, h'.reads⟩
    have hempty := usbuf_mpsseSend hrun
    have hfill : (io'.usbuf ++ cmd).length + 2 ≤ txBuf := by
      rw [hempty, List.nil_append]
      omega
    exact hfill
  · rename_i hfree
    refine ⟨?_, h.tmsBuf, h.writes, h.reads⟩
    have hfill : (io.usbuf ++ cmd).length + 2 ≤ txBuf := by
      rw [List.length_append]
      omega
    exact hfill

theorem roomy_one (a : UInt8) : LeavesRoom (mpsseAddCmd [a] : IoM (Logged ε) Unit) := roomy_mpsseAddCmd (Nat.le_of_ble_eq_true rfl)

theorem roomy_two (a b : UInt8) : LeavesRoom (mpsseAddCmd [a, b] : IoM (Logged ε) Unit) :=
  roomy_mpsseAddCmd (Nat.le_of_ble_eq_true rfl)

theorem roomy_three (a b c : UInt8) : LeavesRoom (mpsseAddCmd [a, b, c] : IoM (Logged ε) Unit) :=
  roomy_mpsseAddCmd (Nat.le_of_ble_eq_true rfl)

omit [Host ε] in
theorem roomy_readData {len : Nat} (hlen : len + 3 ≤ txBuf) : LeavesRoom (readData len : IoM (Logged ε) _) := by
  have huse : LeavesRoom (onUsb (Ftdi.readData len) : IoM (Logged ε) _) := by
    intro io h
    refine ⟨h.usbuf, h.tmsBuf, h.writes, ?_⟩
    intro r hr
    rcases List.mem_append.1 hr with hr | hr
    · exact h.reads r hr
    · rw [List.mem_singleton.1 hr]
      exact Int.ofNat_le.2 hlen
  refine huse.bind (fun r => ?_)
  cases r with
  | ok bytes => exact Within.pure _
  | error code => exact Within.pure _

theorem roomy_retry {len : Nat} (hlen : len + 3 ≤ txBuf) : ∀ (left : Nat) (r : Reading),
    LeavesRoom (retry len left r : IoM (Logged ε) _)
  | 0, _ => Within.pure _
  | left + 1, r => by
    unfold retry
    split
    · have hshort : len - r.read.length + 3 ≤ txBuf := by omega
      exact (roomy_readData hshort).bind (fun _ => Within.get_bind (fun _ => roomy_retry hlen left _))
    · exact Within.pure _

theorem roomy_readusb {len : Nat} (hlen : len + 3 ≤ txBuf) : LeavesRoom (readusb len : IoM (Logged ε) _) := by
  unfold readusb
  apply (roomy_one _).bind
  intro _
  apply roomy_mpsseSend.bind
  intro _
  apply (roomy_readData hlen).bind
  intro _
  apply (roomy_retry hlen 1000 _).bind
  intro _
  exact Within.of_if (fun _ => Within.throw _) (Within.of_if (fun _ => Within.throw _) (Within.pure _))

/-! ## TMS -/

theorem roomy_txTms (pat : List Bool) (force : Bool) : LeavesRoom (txTms pat force : IoM (Logged ε) Unit) := by
  have hcmds : ∀ l : List (List Bool), LeavesRoom (l.forM (fun levels => mpsseAddCmd [0x4b, UInt8.ofNat (levels.length - 1),
      tmsByte levels]) : IoM (Logged ε) PUnit) := by
    intro l
    induction l with
    | nil => exact Within.pure _
    | cons levels l ih =>
      exact (roomy_three _ _ _).bind (fun _ => ih)
  unfold txTms
  split
  · exact Within.pure _
  · apply (hcmds _).bind
    intro _
    exact Within.if_then roomy_mpsseSend

omit [Ftdi ε] [Host ε] in
theorem roomy_clear : LeavesRoom (modify (fun io => { io with tmsBuf := [] }) : IoM (Logged ε) PUnit) :=
  fun _ h => ⟨h.usbuf, Nat.zero_le _, h.writes, h.reads⟩

theorem roomy_flushTms (force : Bool) : LeavesRoom (flushTms force : IoM (Logged ε) Unit) := by
  unfold flushTms
  apply Within.get_bind
  intro io
  apply Within.of_if
  · exact fun _ => roomy_txTms _ force
  · exact roomy_clear

/-- A flush that returns leaves no levels. -/
theorem tmsBuf_flushTms {force : Bool} {io io' : IoFtdi (Logged ε)} {u : Unit} (h : (flushTms force).run io = .ok u io') :
    io'.tmsBuf = [] := by
  unfold flushTms at h
  obtain ⟨_, _, hget, h⟩ := bind_ok_iff.1 h
  cases hget
  obtain ⟨io1, -, hmodify⟩ := ok_of_if h
  cases hmodify
  rfl

theorem roomy_setTms (val : Bool) : LeavesRoom (setTms val : IoM (Logged ε) Unit) := by
  have hpush : ∀ io : IoFtdi (Logged ε), Roomy io → io.tmsBuf.length + 1 ≤ chunkBits →
      Roomy { io with tmsBuf := io.tmsBuf ++ [val] } := by
    intro io h hfree
    refine ⟨h.usbuf, ?_, h.writes, h.reads⟩
    rw [List.length_append]
    exact hfree
  intro io h
  unfold setTms
  rw [EStateM.run_bind, EStateM.run_get]
  simp only
  split
  · refine final_bind (roomy_flushTms false io h) (fun u io' hrun h' => ?_)
    refine hpush io' h' ?_
    rw [tmsBuf_flushTms hrun]
    decide
  · rename_i hfree
    exact hpush io h (Nat.le_of_not_lt hfree)

/-! ## Data -/

theorem roomy_txBytes (tdi : Option (List UInt8)) (tdo : Bool) {buflen : Nat} (hlen : buflen + 3 ≤ txBuf) :
    LeavesRoom (txBytes tdi tdo buflen : IoM (Logged ε) Unit) := by
  unfold txBytes
  apply (roomy_three _ _ _).bind
  intro _
  cases tdi with
  | none => exact Within.pure _
  | some bytes =>
    have hdata : (bytes.take buflen).length + 3 ≤ txBuf := by
      have htake := List.length_take_le buflen bytes
      omega
    exact roomy_mpsseAddCmd hdata

theorem roomy_readTdo (tdo : Option (List UInt8)) (pos : Nat) {buflen : Nat} (hlen : buflen + 3 ≤ txBuf) :
    LeavesRoom (readTdo tdo pos buflen : IoM (Logged ε) _) := by
  unfold readTdo
  cases tdo with
  | none => exact Within.pure _
  | some buf => exact (roomy_readusb hlen).bind (fun _ => Within.pure _)

theorem roomy_txrxChunks (tdi tdo : Option (List UInt8)) (pos rem : Nat) :
    LeavesRoom (txrxChunks tdi tdo pos rem : IoM (Logged ε) _) := by
  have hlen : txBuf - 3 + 3 ≤ txBuf := by decide
  fun_induction txrxChunks with
  | case1 tdi tdo pos rem hmore ih =>
    exact (roomy_txBytes tdi _ hlen).bind (fun _ => (roomy_readTdo tdo pos hlen).bind (fun tdo => ih tdo))
  | case2 => exact Within.pure _

/-- What is left after the loop fits into one command. -/
theorem rem_txrxChunks (tdi tdo : Option (List UInt8)) (pos rem : Nat) : ∀ (io io' : IoFtdi (Logged ε)) x,
    (txrxChunks tdi tdo pos rem).run io = .ok x io' → x.2.2.2 / 8 + 3 ≤ txBuf := by
  fun_induction txrxChunks with
  | case1 tdi tdo pos rem hmore ih =>
    intro io io' x h
    obtain ⟨_, io1, -, h⟩ := bind_ok_iff.1 h
    obtain ⟨tdo', io2, -, h⟩ := bind_ok_iff.1 h
    exact ih tdo' io2 io' x h
  | case2 tdi tdo pos rem hdone =>
    intro io io' x h
    cases h
    have hsize : txBuf = 4096 := rfl
    simp only
    omega

theorem roomy_txBits (tdi : Option (List UInt8)) (tdo : Bool) (rembits : Nat) :
    LeavesRoom (txBits tdi tdo rembits : IoM (Logged ε) Unit) := by
  unfold txBits
  apply (roomy_two _ _).bind
  intro _
  cases tdi with
  | none => exact Within.pure _
  | some bytes =>
    have hdata : (bytes.take 1).length + 3 ≤ txBuf := by
      have htake := List.length_take_le 1 bytes
      have hsize : txBuf = 4096 := rfl
      omega
    exact roomy_mpsseAddCmd hdata

theorem roomy_txLast (tdi : Option (List UInt8)) (tdo : Bool) (rembits : Nat) :
    LeavesRoom (txLast tdi tdo rembits : IoM (Logged ε) Unit) := by
  unfold txLast
  exact roomy_three _ _ _

/-- The last bytes are read together with those before them, or after them. -/
theorem roomy_txrxTail (tdi tdo : Option (List UInt8)) (pos : Nat) {unread : Nat} (hunread : unread + 5 ≤ txBuf) (rembits : Nat)
    (last : Bool) : LeavesRoom (txrxTail tdi tdo pos unread rembits last : IoM (Logged ε) _) := by
  unfold txrxTail
  apply Within.of_if (fun _ => roomy_txBits _ _ _)
  apply Within.of_if (fun _ => roomy_txLast _ _ _)
  cases tdo with
  | none => exact Within.pure _
  | some buf =>
    have hlen : unread + (if rembits ≠ 0 then 1 else 0) + (if last = true then 1 else 0) + 3 ≤ txBuf := by
      split <;> split <;> omega
    apply (roomy_readusb hlen).bind
    intro bytes
    split
    · exact Within.get_bind (fun _ => Within.pure _)
    · exact Within.pure _

theorem roomy_txrxRest (tdi tdo : Option (List UInt8)) (pos : Nat) {rem : Nat} (hrem : rem / 8 + 3 ≤ txBuf) (last : Bool) :
    LeavesRoom (txrxRest tdi tdo pos rem last : IoM (Logged ε) _) := by
  have hsize : txBuf = 4096 := rfl
  unfold txrxRest
  apply Within.of_if (fun _ => roomy_txBytes _ _ hrem)
  split
  · exact (roomy_readTdo tdo pos hrem).bind (fun _ => roomy_txrxTail _ _ _ (by decide) _ _)
  · exact roomy_txrxTail _ _ _ (by omega) _ _

theorem roomy_txrxBlock (tdi tdo : Option (List UInt8)) (length : Nat) (last : Bool) :
    LeavesRoom (txrxBlock tdi tdo length last : IoM (Logged ε) _) := by
  unfold txrxBlock
  apply (roomy_txrxChunks _ _ _ _).bind_of (fun io x io' => rem_txrxChunks _ _ _ _ io io' x)
  intro x hrem
  exact roomy_txrxRest _ _ _ hrem _

theorem roomy_shiftTDITDO (tdi tdo : Option (List UInt8)) (length : Nat) (last : Bool) :
    LeavesRoom (shiftTDITDO tdi tdo length last : IoM (Logged ε) _) := by
  unfold shiftTDITDO
  split
  · exact Within.pure _
  · exact (roomy_flushTms false).bind (fun _ => roomy_txrxBlock _ _ _ _)

theorem roomy_shift (tdi : Bool) (length : Nat) (last : Bool) : LeavesRoom (shift tdi length last : IoM (Logged ε) Unit) := by
  have hblocks : ∀ len, LeavesRoom (shiftBlocks tdi len last : IoM (Logged ε) Unit) := by
    intro len
    fun_induction shiftBlocks with
    | case1 len hmore ih => exact (roomy_txrxBlock _ _ _ _).bind (fun _ => ih)
    | case2 => exact (roomy_shiftTDITDO _ _ _ _).bind (fun _ => Within.pure _)
  unfold shift
  exact (roomy_flushTms false).bind (fun _ => hblocks length)

theorem roomy_slowTicks (n : Nat) : LeavesRoom (slowTicks n : IoM (Logged ε) Unit) := by
  fun_induction slowTicks with
  | case1 n hmore ih => exact (roomy_one _).bind (fun _ => ih)
  | case2 n hdone hne => exact roomy_one _
  | case3 => exact Within.pure _

theorem roomy_usleep (usec : Nat) : LeavesRoom (usleep usec : IoM (Logged ε) Unit) := by
  unfold usleep
  apply (roomy_flushTms false).bind
  intro _
  split
  · apply Within.get_bind
    intro io
    unfold toggleTck
    split
    · apply Within.of_if (fun _ => roomy_three _ _ _)
      exact Within.if_then (roomy_two _ _)
    · apply Within.of_if (fun _ => roomy_three _ _ _)
      exact roomy_slowTicks _
  · exact roomy_mpsseSend

end IoFtdi

/-! ## Runs -/

/-- Every call of an `IOBase` keeps this. -/
structure Steady {ι : Type} [IoBase ι] (P : ι → Prop) : Prop where
  setTms : ∀ val, Within (Preserves P) (IoBase.setTms val)
  flushTms : ∀ force, Within (Preserves P) (IoBase.flushTms force)
  shiftTDITDO : ∀ tdi tdo length last, Within (Preserves P) (IoBase.shiftTDITDO tdi tdo length last)
  shift : ∀ tdi length last, Within (Preserves P) (IoBase.shift tdi length last)
  usleep : ∀ usec, Within (Preserves P) (IoBase.usleep usec)

theorem steady_roomy [Ftdi ε] [Host ε] : Steady (Roomy : IoFtdi (Logged ε) → Prop) where
  setTms := IoFtdi.roomy_setTms
  flushTms := IoFtdi.roomy_flushTms
  shiftTDITDO := IoFtdi.roomy_shiftTDITDO
  shift := IoFtdi.roomy_shift
  usleep := IoFtdi.roomy_usleep

namespace Jtag

variable {ι : Type} [IoBase ι] {P : ι → Prop}

/-- A program on a `Jtag` that keeps this of its `IOBase`. -/
abbrev KeepsIo (P : ι → Prop) {α : Type} (x : PortM ι α) : Prop := Within (Preserves (fun j => P j.io)) x

omit [IoBase ι] in
theorem steady_onIo {α : Type} {x : EStateM String ι α} (h : Within (Preserves P) x) : KeepsIo P (onIo x) :=
  h.zoom (fun _ _ hkeep => hkeep)

omit [IoBase ι] in
theorem steady_modify {f : Jtag ι → Jtag ι} (h : ∀ j, (f j).io = j.io) : KeepsIo P (modify f : PortM ι PUnit) := by
  intro j hj
  have hio : (final ((modify f : PortM ι PUnit).run j)).io = j.io := h j
  rw [hio]
  exact hj

variable (h : Steady P)
include h

theorem steady_forM_setTms (vals : List Bool) : KeepsIo P (vals.forM setTms : PortM ι PUnit) := by
  induction vals with
  | nil => exact Within.pure _
  | cons val vals ih => exact (steady_onIo (h.setTms val)).bind (fun _ => ih)

theorem steady_tapTestLogicReset : KeepsIo P (tapTestLogicReset : PortM ι Unit) := by
  apply (steady_forM_setTms h _).bind
  intro _
  refine Within.bind (steady_modify ?_) (fun _ => steady_onIo (h.flushTms true))
  exact fun _ => rfl

theorem steady_walk (state : Tap) : ∀ left : Nat, KeepsIo P (walk state left : PortM ι Unit)
  | 0 => Within.pure _
  | left + 1 => by
    unfold walk
    apply Within.get_bind
    intro j
    cases j.currentState with
    | none =>
      apply (steady_tapTestLogicReset h).bind
      intro _
      exact (steady_onIo (h.setTms true)).bind (fun _ => steady_walk state left)
    | some current =>
      simp only
      split
      · exact Within.pure _
      · refine Within.bind (steady_modify ?_) (fun _ => ?_)
        · exact fun _ => rfl
        · exact (steady_onIo (h.setTms _)).bind (fun _ => steady_walk state left)

theorem steady_setTapState (state : Tap) (pre : Nat) : KeepsIo P (setTapState state pre : PortM ι Unit) :=
  (steady_walk h state 16).bind (fun _ => steady_forM_setTms h _)

theorem steady_nextTapState (tms : Bool) : KeepsIo P (nextTapState tms : PortM ι Unit) := by
  have hmove : ∀ t : Tap, KeepsIo P (if tms = true then modify (fun j => { j with currentState := some t }) else pure () :
      PortM ι PUnit) := fun t => Within.if_then (steady_modify (fun _ => rfl))
  unfold nextTapState
  apply Within.get_bind
  intro j
  split
  · exact hmove _
  · exact hmove _
  · exact steady_tapTestLogicReset h

theorem steady_transfer (tdi tdo : Option (List UInt8)) (length : Nat) (last : Bool) :
    KeepsIo P (transfer tdi tdo length last : PortM ι _) := by
  unfold transfer
  split
  · exact steady_onIo (h.shiftTDITDO _ _ _ _)
  · exact (steady_onIo (h.shift _ _ _)).bind (fun _ => Within.pure _)

theorem steady_shiftDR (tdi tdo : Option (List UInt8)) (length align : Nat) (exit : Bool) :
    KeepsIo P (shiftDR tdi tdo length align exit : PortM ι _) := by
  have hmark : ∀ (b : Bool) (r : Option (List UInt8)), KeepsIo P (do
      modify (fun j => { j with shiftDRincomplete := b })
      return r : PortM ι _) := by
    intro b r
    exact (steady_modify (fun _ => rfl)).bind (fun _ => Within.pure r)
  unfold shiftDR
  apply Within.get_bind
  intro j
  cases j.deviceIndex with
  | none => exact Within.pure _
  | some post =>
    simp only
    apply Within.of_if (fun _ => steady_setTapState h _ _)
    apply (steady_transfer h _ _ _ _).bind
    intro r
    apply (steady_nextTapState h _).bind
    intro _
    split
    · apply (steady_onIo (h.shift false post true)).bind
      intro _
      apply Within.of_if (fun _ => steady_nextTapState h true)
      exact (steady_setTapState h _ _).bind (fun _ => hmark false r)
    · exact hmark true r

theorem steady_shiftIR (tdi : List UInt8) (tdo : Option (List UInt8)) : KeepsIo P (shiftIR tdi tdo : PortM ι _) := by
  unfold shiftIR
  apply Within.get_bind
  intro j
  cases j.deviceIndex with
  | none => exact Within.pure _
  | some index =>
    apply (steady_setTapState h _ _).bind
    intro _
    apply (steady_onIo (h.shift true _ false)).bind
    intro _
    apply (steady_onIo (h.shiftTDITDO _ _ _ _)).bind
    intro _
    apply (steady_onIo (h.shift true _ true)).bind
    intro _
    apply (steady_nextTapState h true).bind
    intro _
    exact (steady_setTapState h _ _).bind (fun _ => Within.pure _)

theorem steady_readIdcodes : ∀ (left : Nat) (idx : List UInt8), KeepsIo P (readIdcodes left idx : PortM ι Unit)
  | 0, _ => Within.pure _
  | left + 1, idx => by
    unfold readIdcodes
    apply (steady_onIo (h.shiftTDITDO _ _ _ _)).bind
    intro out
    simp only
    split
    · refine Within.bind (steady_modify ?_) (fun _ => steady_readIdcodes left _)
      exact fun _ => rfl
    · exact Within.pure _

theorem steady_getChain (detect : Bool) (idx : List UInt8) : KeepsIo P (getChain detect idx : PortM ι Nat) := by
  have hend : KeepsIo P (do return (← get).numDevices.getD 0 : PortM ι Nat) := Within.get_bind (fun _ => Within.pure _)
  unfold getChain
  apply Within.get_bind
  intro j
  split
  · apply (steady_tapTestLogicReset h).bind
    intro _
    apply (steady_setTapState h _ _).bind
    intro _
    refine Within.bind (steady_modify ?_) (fun _ => ?_)
    · exact fun _ => rfl
    · apply (steady_readIdcodes h 1000 idx).bind
      intro _
      exact (steady_setTapState h _ _).bind (fun _ => hend)
  · exact hend

/-- **What every call of its `IOBase` keeps, every call of a `Jtag` keeps.** -/
theorem steady_call (c : Call) : KeepsIo P (c.run : PortM ι Unit) := by
  cases c with
  | tapTestLogicReset => exact steady_tapTestLogicReset h
  | setTapState state pre => exact steady_setTapState h state pre
  | shiftDR tdi tdo length align exit => exact (steady_shiftDR h tdi tdo length align exit).bind (fun _ => Within.pure _)
  | shiftIR tdi tdo => exact (steady_shiftIR h tdi tdo).bind (fun _ => Within.pure _)
  | cycleTCK n tdi => exact steady_onIo (h.shift tdi n false)
  | usleep usec => exact steady_onIo (h.usleep usec)
  | getChain detect idx => exact (steady_getChain h detect idx).bind (fun _ => Within.pure _)
  | selectDevice dev => exact steady_modify (fun _ => rfl)
  | setDeviceIRLength dev len =>
    apply steady_modify
    intro j
    split <;> rfl

theorem steady_calls : ∀ calls : List Call, KeepsIo P (calls.forM Call.run : PortM ι PUnit)
  | [] => Within.pure _
  | c :: calls => (steady_call h c).bind (fun _ => steady_calls calls)

omit h
omit [IoBase ι]

/-- **No call overruns an array**, in any run of calls on a cable, whether it returns or throws, and whatever libftdi does: `usbuf`
holds at most 4094 bytes and `tms_buf` 1024 levels, no more is ever written at once, and no read asks for more than 4093 bytes. -/
theorem arrays_hold [Ftdi ε] [Host ε] (e : ε) (hasFastClock : Bool) (tckFreq : Nat) (calls : List Call) :
    Roomy (final ((calls.forM Call.run : PortM (IoFtdi (Logged ε)) PUnit).run
      (Jtag.new ⟨⟨e, [], []⟩, [], [], hasFastClock, tckFreq⟩))).io := by
  apply steady_calls steady_roomy calls
  refine ⟨Nat.le_of_ble_eq_true rfl, Nat.zero_le _, ?_, ?_⟩
  · intro w hw
    cases hw
  · intro r hr
    cases hr

end Jtag
end Xc3s
end Fpga
