import FpgaServer.Transfers
/-!
# Delivery — a working cable is the lines

`wires` is what the target is, once everything an `IoFtdi` has collected is out: the commands of `usbuf`, and after them the TMS
levels of `tms_buf`.  Every call of `IOBase` retraces its namesake on `Wires` under this view (`Base.Retraces`), so that whatever is
built from these calls does too: when it is sent, in how many pieces, and how the reads come in, makes no difference to the target.
-/
namespace Fpga
namespace Xc3s

open Base

variable {σ : Type} [Target σ] {fast : Bool} {freq : Nat}

/-- The engine will be expecting a command, and the clock is the one found by `Init`. -/
structure Ready (fast : Bool) (freq : Nat) (io : IoFtdi (Chip σ)) : Prop where
  expect : io.link.engine.expect = .command
  hasFastClock : io.hasFastClock = fast
  tckFreq : io.tckFreq = freq

/-- All that was answered has been read. -/
def Settled (io : IoFtdi (Chip σ)) : Prop := io.link.owed = []

/-- The lines once everything collected is out. -/
def wires (io : IoFtdi (Chip σ)) : Wires σ :=
  ⟨io.link.engine.pins.clocked (tmsClocks true io.tmsBuf), io.hasFastClock, io.tckFreq⟩

theorem wires_flushed {io : IoFtdi (Chip σ)} (h : io.tmsBuf = []) :
    wires io = ⟨io.link.engine.pins, io.hasFastClock, io.tckFreq⟩ := by
  rw [wires, h]
  rfl

variable [Host (Chip σ)]

namespace IoFtdi

variable {io io' : IoFtdi (Chip σ)}

/-- `flush_tms` leaves the lines as they are seen, and nothing in `tms_buf`. -/
structure Flushed (io io' : IoFtdi (Chip σ)) : Prop where
  expect : io'.link.engine.expect = .command
  wires : wires io' = wires io
  owed : io'.link.owed = io.link.owed
  tmsBuf : io'.tmsBuf = []

theorem flushTms_ok {force : Bool} {u : Unit} (hready : io.link.engine.expect = .command)
    (h : (flushTms force).run io = .ok u io') : Flushed io io' := by
  unfold flushTms at h
  obtain ⟨_, _, hget, h⟩ := bind_ok_iff.1 h
  cases hget
  obtain ⟨io1, htx, h⟩ := ok_of_if h
  cases h
  have hmoved : Moved ((chunksOf 6 io.tmsBuf).flatMap tmsCommand) io io1 := by
    by_cases h0 : io.tmsBuf.length ≠ 0
    · rw [if_pos h0] at htx
      exact emits_txTms io.tmsBuf force io () io1 htx
    · rw [if_neg h0] at htx
      have hnil := List.length_eq_zero_iff.1 (Decidable.not_not.1 h0)
      cases htx
      rw [hnil, chunksOf_nil]
      exact Moved.refl io
  have hfed := fed_tmsCommands (chunksOf 6 io.tmsBuf) hready (fun g hg => mem_chunksOf hg)
  rw [flatten_chunksOf (by decide)] at hfed
  have ht := Transfer.of_moved hmoved hfed
  refine ⟨ht.expect hready, ?_, ?_, rfl⟩
  · have hpins : (io1.link.engine.pins.clocked [] : Pins σ) = io.link.engine.pins.clocked (tmsClocks true io.tmsBuf) := ht.pins
    simp only [Xc3s.wires]
    rw [← hpins, ← ht.hasFastClock, ← ht.tckFreq]
    rfl
  · exact ht.owed.trans (List.append_nil _)

end IoFtdi

theorem retraces_flushTms (force : Bool) :
    Retraces (Ready fast freq) Settled (wires (σ := σ)) (IoFtdi.flushTms force) (pure ()) := by
  intro io u io' hr h
  have hf := IoFtdi.flushTms_ok hr.expect h
  refine ⟨⟨hf.expect, ?_, ?_⟩, fun hend => ⟨hf.owed.symm.trans hend, by rw [hf.wires]; rfl⟩⟩
  · exact (congrArg Wires.hasFastClock hf.wires).trans hr.hasFastClock
  · exact (congrArg Wires.tckFreq hf.wires).trans hr.tckFreq

omit [Host (Chip σ)] in
/-- One more level in `tms_buf` is one more clock. -/
theorem retraces_push (val : Bool) : Retraces (Ready fast freq) Settled (wires (σ := σ))
    (modify (fun io => { io with tmsBuf := io.tmsBuf ++ [val] }) : EStateM String _ PUnit) (Wires.setTms val) := by
  apply Retraces.modify
  · exact fun io hr => ⟨hr.expect, hr.hasFastClock, hr.tckFreq⟩
  · exact fun io hs => hs
  · intro io
    simp only [wires, Wires.clocked, tmsClocks_append, Pins.clocked_append]
    rfl

/-- `set_tms`, whether or not it has to make room first. -/
theorem retraces_setTms (val : Bool) :
    Retraces (Ready fast freq) Settled (wires (σ := σ)) (IoFtdi.setTms val) (Wires.setTms val) := by
  intro io u io' hr h
  unfold IoFtdi.setTms at h
  obtain ⟨_, _, hget, h⟩ := bind_ok_iff.1 h
  cases hget
  obtain ⟨io1, hflush, h⟩ := ok_of_if h
  have hmid : Retraces (Ready fast freq) Settled (wires (σ := σ))
      (if io.tmsBuf.length + 1 > chunkBits then IoFtdi.flushTms false else pure ()) (pure ()) := by
    split
    · exact retraces_flushTms false
    · exact Retraces.pure ()
  have hall := hmid.bind (fun _ => retraces_push val)
  exact hall io u io' hr (bind_ok_iff.2 ⟨(), io1, hflush, h⟩)

omit [Host (Chip σ)] in
/-- A shift from an empty `tms_buf` on. -/
theorem Shifted.delivered {cs : List Clock} {tdo r : Option (List UInt8)} {pos : Nat} {io io' : IoFtdi (Chip σ)}
    (h : Shifted cs tdo pos r io io') (hbuf : io.tmsBuf = []) : wires io' = (wires io).clocked cs := by
  rw [wires_flushed hbuf, wires_flushed (h.tmsBuf.trans hbuf), h.pins, h.hasFastClock, h.tckFreq]
  rfl

omit [Host (Chip σ)] in
theorem Shifted.stays {cs : List Clock} {tdo r : Option (List UInt8)} {pos : Nat} {io io' : IoFtdi (Chip σ)}
    (h : Shifted cs tdo pos r io io') (hr : Ready fast freq io) : Ready fast freq io' :=
  ⟨h.ready, h.hasFastClock.trans hr.hasFastClock, h.tckFreq.trans hr.tckFreq⟩

theorem store_nil (buf : List UInt8) : store buf 0 [] = buf := rfl

theorem shiftable_of_flushed {tdi tdo : Option (List UInt8)} {length : Nat} {io io1 : IoFtdi (Chip σ)} {force : Bool} {u : Unit}
    (hr : Ready fast freq io) (hflush : (IoFtdi.flushTms force).run io = .ok u io1)
    (hany : tdi.isSome = true ∨ tdo.isSome = true) (hdata : ∀ bytes ∈ tdi, length ≤ 8 * bytes.length)
    (hroom : ∀ buf ∈ tdo, length ≤ 8 * buf.length) : Shiftable io1.link.engine.pins.tdi tdi tdo 0 length io1 where
  ready := (IoFtdi.flushTms_ok hr.expect hflush).expect
  any := hany
  holds _ := rfl
  data := hdata
  room := by
    intro buf hbuf
    have := hroom buf hbuf
    omega

/-- **`shiftTDITDO` on a working cable**, for data and a buffer of as many bits. -/
theorem retraces_shiftTDITDO {tdi tdo : Option (List UInt8)} {length : Nat} (last : Bool)
    (hany : tdi.isSome = true ∨ tdo.isSome = true) (hdata : ∀ bytes ∈ tdi, length ≤ 8 * bytes.length)
    (hroom : ∀ buf ∈ tdo, length ≤ 8 * buf.length) :
    Retraces (Ready fast freq) Settled (wires (σ := σ)) (IoFtdi.shiftTDITDO tdi tdo length last)
      (Wires.shiftTDITDO tdi tdo length last) := by
  intro io r io' hr h
  unfold IoFtdi.shiftTDITDO at h
  by_cases hzero : length = 0
  · subst hzero
    rw [if_pos rfl] at h
    cases h
    refine ⟨hr, fun hend => ⟨hend, ?_⟩⟩
    have hnone : (wires io).shiftClocks tdi 0 last = [] := by
      have hlen := length_scan (wires io).pins.tms last (tdiBits (wires io).pins.tdi tdi 0 last)
      rw [length_tdiBits (fun _ _ => Nat.zero_le _)] at hlen
      exact List.length_eq_zero_iff.1 hlen
    rw [Wires.shiftTDITDO, EStateM.run_modifyGet, hnone, Pins.shown_nil, packBits_nil]
    cases tdo <;> rfl
  · rw [if_neg hzero] at h
    obtain ⟨_, io1, hflush, h⟩ := bind_ok_iff.1 h
    have hf := IoFtdi.flushTms_ok hr.expect hflush
    obtain ⟨hr1, -⟩ := retraces_flushTms false io () io1 hr hflush
    have hs := shiftable_of_flushed hr hflush hany hdata hroom
    have hshift := IoFtdi.txrxBlock_ok hs (Nat.pos_of_ne_zero hzero) h
    refine ⟨hshift.stays hr1, fun hend => ?_⟩
    obtain ⟨howed, hresult⟩ := hshift.settled hend
    refine ⟨hf.owed.symm.trans howed, ?_⟩
    have hpins : (wires io).pins = io1.link.engine.pins := by
      rw [← hf.wires, wires_flushed hf.tmsBuf]
    rw [Wires.shiftTDITDO, EStateM.run_modifyGet, hshift.delivered hf.tmsBuf, hf.wires, hresult, Wires.shiftClocks, hpins]

/-- The buffer for TDO stays as long as it is, however much has been read into it. -/
theorem lengths_shiftTDITDO {tdi tdo r : Option (List UInt8)} {length : Nat} {last : Bool} {io io' : IoFtdi (Chip σ)}
    (hr : Ready fast freq io) (hany : tdi.isSome = true ∨ tdo.isSome = true)
    (hdata : ∀ bytes ∈ tdi, length ≤ 8 * bytes.length) (hroom : ∀ buf ∈ tdo, length ≤ 8 * buf.length)
    (h : (IoFtdi.shiftTDITDO tdi tdo length last).run io = .ok r io') : r.map List.length = tdo.map List.length := by
  unfold IoFtdi.shiftTDITDO at h
  by_cases hzero : length = 0
  · rw [if_pos hzero] at h
    cases h
    rfl
  · rw [if_neg hzero] at h
    obtain ⟨_, io1, hflush, h⟩ := bind_ok_iff.1 h
    have hs := shiftable_of_flushed hr hflush hany hdata hroom
    exact (IoFtdi.txrxBlock_ok hs (Nat.pos_of_ne_zero hzero) h).lengths

/-! ## `shift` -/

theorem bytesBits_replicate {b : UInt8} {v : Bool} (h : byteBits b = List.replicate 8 v) (n : Nat) :
    bytesBits (List.replicate n b) = List.replicate (8 * n) v := by
  induction n with
  | zero => rfl
  | succ n ih =>
    rw [List.replicate_succ, bytesBits_cons, ih, h, ← List.replicate_add]
    congr 1
    omega

theorem length_block (tdi : Bool) : (IoFtdi.block tdi).length = 128 := List.length_replicate

/-- A block has the same bit throughout. -/
theorem tdiBits_block (held tdi last : Bool) {n : Nat} (hn : n ≤ 1024) :
    tdiBits held (some (IoFtdi.block tdi)) n last = List.replicate n tdi := by
  have hbits : bytesBits (IoFtdi.block tdi) = List.replicate (8 * 128) tdi := by
    cases tdi
    · exact bytesBits_replicate rfl 128
    · exact bytesBits_replicate rfl 128
  rw [tdiBits, hbits, List.take_replicate, Nat.min_eq_left hn]

omit [Host (Chip σ)] in
theorem Wires.clocked_clocked (w : Wires σ) (cs ds : List Clock) : (w.clocked cs).clocked ds = w.clocked (cs ++ ds) := by
  simp only [Wires.clocked, Pins.clocked_append]

/-- The blocks of `shift`, one after the other, are one shift. -/
theorem shiftBlocks_ok (tdi last : Bool) (len : Nat) : ∀ {io io' : IoFtdi (Chip σ)} {u : Unit}, Ready fast freq io →
    io.tmsBuf = [] → (IoFtdi.shiftBlocks tdi len last).run io = .ok u io' →
      Ready fast freq io' ∧ (Settled io' → Settled io ∧
        wires io' = (wires io).clocked (scan (wires io).pins.tms last (List.replicate len tdi))) := by
  induction len using Nat.strongRecOn with
  | ind len ih =>
    intro io io' u hr hbuf h
    rw [IoFtdi.shiftBlocks] at h
    split at h
    · rename_i hlong
      simp only [chunkBits] at hlong h
      obtain ⟨r, io1, hblock, h⟩ := bind_ok_iff.1 h
      have hdata : ∀ bytes ∈ some (IoFtdi.block tdi), 1024 ≤ 8 * bytes.length := by
        intro bytes hbytes
        rw [← Option.some.inj hbytes, length_block]
      have hs : Shiftable io.link.engine.pins.tdi (some (IoFtdi.block tdi)) none 0 1024 io :=
        ⟨hr.expect, .inl rfl, fun _ => rfl, hdata, fun _ hbuf => by cases hbuf⟩
      have hshift := IoFtdi.txrxBlock_ok hs (by decide) hblock
      rw [tdiBits_block _ _ _ (Nat.le_refl _), scan_false] at hshift
      have hwires : wires io1 = (wires io).clocked (dataClocks (wires io).pins.tms (List.replicate 1024 tdi)) := by
        rw [hshift.delivered hbuf, wires_flushed hbuf]
      have htms : (wires io1).pins.tms = (wires io).pins.tms := by
        rw [hwires]
        exact tms_holding _ _
      have hrest : List.replicate len tdi = List.replicate 1024 tdi ++ List.replicate (len - 1024) tdi := by
        rw [← List.replicate_add, Nat.add_sub_cancel' (Nat.le_of_lt hlong)]
      have hne : last = true → List.replicate (len - 1024) tdi ≠ [] := by
        intro _ hnil
        have := congrArg List.length hnil
        rw [List.length_replicate, List.length_nil] at this
        omega
      obtain ⟨hr', hgood⟩ := ih (len - 1024) (by omega) (hshift.stays hr) (hshift.tmsBuf.trans hbuf) h
      refine ⟨hr', fun hend => ?_⟩
      obtain ⟨hmid, hw⟩ := hgood hend
      refine ⟨(hshift.settled hmid).1, ?_⟩
      rw [hw, htms, hwires, Wires.clocked_clocked, hrest, scan_append _ hne]
    · rename_i hshort
      obtain ⟨r, io1, hrun, h⟩ := bind_ok_iff.1 h
      cases h
      simp only [chunkBits] at hshort
      have hdata : ∀ bytes ∈ some (IoFtdi.block tdi), len ≤ 8 * bytes.length := by
        intro bytes hbytes
        cases hbytes
        rw [length_block]
        exact Nat.le_of_not_lt hshort
      obtain ⟨hr', hgood⟩ := retraces_shiftTDITDO last (.inl rfl) hdata (fun _ hbuf => by cases hbuf) io r io' hr hrun
      refine ⟨hr', fun hend => ?_⟩
      obtain ⟨hstart, hw⟩ := hgood hend
      refine ⟨hstart, ?_⟩
      rw [Wires.shiftTDITDO, EStateM.run_modifyGet, Wires.shiftClocks, tdiBits_block _ _ _ (Nat.le_of_not_lt hshort)] at hw
      exact (EStateM.Result.ok.inj hw).2.symm

theorem retraces_shift (tdi : Bool) (length : Nat) (last : Bool) :
    Retraces (Ready fast freq) Settled (wires (σ := σ)) (IoFtdi.shift tdi length last) (Wires.shift tdi length last) := by
  intro io u io' hr h
  unfold IoFtdi.shift at h
  obtain ⟨_, io1, hflush, h⟩ := bind_ok_iff.1 h
  have hf := IoFtdi.flushTms_ok hr.expect hflush
  obtain ⟨hr1, -⟩ := retraces_flushTms false io () io1 hr hflush
  obtain ⟨hr', hgood⟩ := shiftBlocks_ok tdi last length hr1 hf.tmsBuf h
  refine ⟨hr', fun hend => ?_⟩
  obtain ⟨hmid, hw⟩ := hgood hend
  refine ⟨hf.owed.symm.trans hmid, ?_⟩
  rw [hw, hf.wires]
  rfl

/-! ## `Usleep` -/

/-- `Usleep` sends whole commands: the count fits its two bytes, and a slow clock, for which the operands of the last command are
missing, has bits left over for it. -/
def Paced (fast : Bool) (freq usec : Nat) : Prop :=
  usec < 20000 → IoFtdi.ticks freq usec / 8 < 65536 ∧
    (fast = false → 8 < IoFtdi.ticks freq usec ∧ IoFtdi.ticks freq usec % 8 ≠ 0)

/-- The commands `Usleep` adds for so many clocks. -/
def waitCommands (fast : Bool) (n : Nat) : List UInt8 :=
  if fast then
    (if n > 8 then [0x8f, UInt8.ofNat (n / 8), UInt8.ofNat (n / 8 / 256)] else []) ++
      (if (if n > 8 then n % 8 else n) ≠ 0 then [0x8e, UInt8.ofNat ((if n > 8 then n % 8 else n) - 1)] else [])
  else
    [0x19, UInt8.ofNat (n / 8), UInt8.ofNat (n / 8 / 256)] ++ (List.replicate ((n - 1) / 8) 0 ++ [0x1b])

theorem emits_slowTicks (n : Nat) (hn : 0 < n) :
    IoFtdi.Emits (List.replicate ((n - 1) / 8) 0 ++ [0x1b]) (IoFtdi.slowTicks n : IoFtdi.IoM (Chip σ) Unit) := by
  induction n using Nat.strongRecOn with
  | ind n ih =>
    rw [IoFtdi.slowTicks]
    split
    · rename_i hmore
      have hcount : (n - 1) / 8 = (n - 8 - 1) / 8 + 1 := by omega
      rw [hcount, List.replicate_succ]
      exact (IoFtdi.emits_mpsseAddCmd [0]).bind (fun _ => ih (n - 8) (by omega) (by omega))
    · rename_i hfew
      have hcount : (n - 1) / 8 = 0 := by omega
      rw [hcount, if_pos (Nat.ne_of_gt hn)]
      exact IoFtdi.emits_mpsseAddCmd [0x1b]

omit [Host (Chip σ)] in
theorem fed_clockBits {l : Link σ} (hl : l.engine.expect = .command) {n : Nat} (hn : n ≤ 8) :
    l.fed (if n ≠ 0 then [0x8e, UInt8.ofNat (n - 1)] else []) =
      l.cycled (l.engine.pins.holding (List.replicate n l.engine.pins.tdi)) [] := by
  by_cases h0 : n = 0
  · subst h0
    exact (Link.fed_nil l).trans (Link.cycled_nil l).symm
  · have hrun := Engine.run_clockBits hl (UInt8.ofNat (n - 1))
    rw [IoFtdi.toNat_operand (Nat.pos_of_ne_zero h0) hn] at hrun
    rw [if_pos h0, Link.fed, hrun]
    rfl

omit [Host (Chip σ)] in
/-- Seen from the engine, waiting is so many clocks and nothing to answer. -/
theorem fed_waitCommands {l : Link σ} (hl : l.engine.expect = .command) {n : Nat} (hn : n / 8 < 65536)
    (hslow : fast = false → 8 < n ∧ n % 8 ≠ 0) :
    l.fed (waitCommands fast n) = l.cycled (l.engine.pins.holding (idleBits fast l.engine.pins.tdi n)) [] := by
  have hoperands : (UInt8.ofNat (n / 8)).toNat + 256 * (UInt8.ofNat (n / 8 / 256)).toNat = n / 8 := by
    simp only [UInt8.toNat_ofNat']
    omega
  cases fast with
  | true =>
    rw [waitCommands, if_pos rfl, idleBits, if_pos rfl, Link.fed_append]
    by_cases h8 : n > 8
    · have hbytes := Engine.run_clockBytes hl (UInt8.ofNat (n / 8)) (UInt8.ofNat (n / 8 / 256))
      rw [hoperands] at hbytes
      have hfirst : l.fed [0x8f, UInt8.ofNat (n / 8), UInt8.ofNat (n / 8 / 256)] =
          l.cycled (l.engine.pins.holding (List.replicate (8 * (n / 8 + 1)) l.engine.pins.tdi)) [] := by
        rw [Link.fed, hbytes]
        rfl
      have hheld : (l.engine.pins.clocked (l.engine.pins.holding (List.replicate (8 * (n / 8 + 1)) l.engine.pins.tdi))).tdi =
          l.engine.pins.tdi := tdi_holding_replicate _ _
      have hsecond := fed_clockBits (l := l.cycled (l.engine.pins.holding (List.replicate (8 * (n / 8 + 1)) l.engine.pins.tdi)) [])
        hl (Nat.le_of_lt (Nat.mod_lt n (by decide)))
      rw [if_pos h8, if_pos h8, if_pos h8, hfirst, hsecond]
      simp only [Link.cycled, Engine.pins_cycle, hheld, holding_holding, ← Engine.cycle_append, List.append_nil,
        ← holding_append, ← List.replicate_add]
    · rw [if_neg h8, if_neg h8, if_neg h8, Link.fed_nil]
      exact fed_clockBits hl (by omega)
  | false =>
    obtain ⟨h8, hrest⟩ := hslow rfl
    have hcount : (n - 1) / 8 = n / 8 := by omega
    have hdata : (List.replicate (n / 8) (0 : UInt8) ++ [0x1b]).length =
        (UInt8.ofNat (n / 8)).toNat + 256 * (UInt8.ofNat (n / 8 / 256)).toNat + 1 := by
      rw [hoperands, List.length_append, List.length_replicate, List.length_singleton]
    have hdecode : Mpsse.decode 0x19 = some (.bytes true false) := rfl
    have hrun := Engine.run_bytes hl hdecode hdata
    rw [waitCommands, if_neg Bool.false_ne_true, hcount, Link.fed, hrun]
    rfl

omit [Host (Chip σ)] in
theorem emits_if {c : Prop} [Decidable c] {bytes : List UInt8} {x : IoFtdi.IoM (Chip σ) Unit} (h : IoFtdi.Emits bytes x) :
    IoFtdi.Emits (if c then bytes else []) (if c then x else pure ()) := by
  split
  · exact h
  · exact IoFtdi.Emits.pure ()

theorem emits_toggleTck {n : Nat} (hslow : fast = false → 8 < n) :
    IoFtdi.Emits (waitCommands fast n) (IoFtdi.toggleTck fast n : IoFtdi.IoM (Chip σ) Unit) := by
  intro io u io' h
  unfold IoFtdi.toggleTck at h
  cases fast with
  | true =>
    obtain ⟨io1, hbytes, h⟩ := ok_of_if h
    have hfirst := emits_if (IoFtdi.emits_mpsseAddCmd _) io () io1 hbytes
    have hsecond := emits_if (IoFtdi.emits_mpsseAddCmd _) io1 u io' h
    exact hfirst.trans hsecond
  | false =>
    have h8 := hslow rfl
    rw [if_neg Bool.false_ne_true] at h
    obtain ⟨io1, hbytes, h⟩ := ok_of_if h
    rw [if_pos h8] at hbytes
    exact (IoFtdi.emits_mpsseAddCmd _ io () io1 hbytes).trans (emits_slowTicks n (by omega) io1 u io' h)

/-- **`Usleep` on a working cable** clocks the target without touching TMS. -/
theorem retraces_usleep {usec : Nat} (hpaced : Paced fast freq usec) :
    Retraces (Ready fast freq) Settled (wires (σ := σ)) (IoFtdi.usleep usec) (Wires.usleep usec) := by
  intro io u io' hr h
  unfold IoFtdi.usleep at h
  obtain ⟨_, io1, hflush, h⟩ := bind_ok_iff.1 h
  have hf := IoFtdi.flushTms_ok hr.expect hflush
  obtain ⟨hr1, -⟩ := retraces_flushTms false io () io1 hr hflush
  have hw1 := wires_flushed hf.tmsBuf
  by_cases hshort : usec < 20000
  · rw [if_pos hshort] at h
    obtain ⟨_, _, hget, h⟩ := bind_ok_iff.1 h
    cases hget
    obtain ⟨hcount, hslow⟩ := hpaced hshort
    rw [hr1.hasFastClock, hr1.tckFreq] at h
    have hmoved := emits_toggleTck (fun hfast => (hslow hfast).1) io1 u io' h
    have ht := Transfer.of_moved hmoved (fed_waitCommands hr1.expect hcount hslow)
    refine ⟨⟨ht.expect hr1.expect, ht.hasFastClock.trans hr1.hasFastClock, ht.tckFreq.trans hr1.tckFreq⟩, fun hend => ?_⟩
    refine ⟨hf.owed.symm.trans (ht.settled hend).1, ?_⟩
    have hw : wires io = ⟨io1.link.engine.pins, fast, freq⟩ := by
      rw [← hf.wires, hw1, hr1.hasFastClock, hr1.tckFreq]
    rw [Wires.usleep, EStateM.run_modify, if_pos hshort, hw, wires_flushed (ht.tmsBuf.trans hf.tmsBuf), ht.pins,
      ht.hasFastClock, ht.tckFreq, hr1.hasFastClock, hr1.tckFreq]
    rfl
  · rw [if_neg hshort] at h
    have hmoved := IoFtdi.emits_mpsseSend io1 u io' h
    have ht := Transfer.of_moved hmoved ((Link.fed_nil _).trans (Link.cycled_nil _).symm)
    refine ⟨⟨ht.expect hr1.expect, ht.hasFastClock.trans hr1.hasFastClock, ht.tckFreq.trans hr1.tckFreq⟩, fun hend => ?_⟩
    refine ⟨hf.owed.symm.trans (ht.settled hend).1, ?_⟩
    have hpins : io'.link.engine.pins = io1.link.engine.pins := ht.pins
    rw [Wires.usleep, EStateM.run_modify, if_neg hshort, ← hf.wires, hw1, wires_flushed (ht.tmsBuf.trans hf.tmsBuf), hpins,
      ht.hasFastClock, ht.tckFreq]

end Xc3s
end Fpga
