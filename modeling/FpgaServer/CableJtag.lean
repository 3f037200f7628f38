import FpgaServer.Delivery
import FpgaServer.TapTracking
/-!
# CableJtag — `Jtag` on a working cable

`Carries` says that the calls of one kind of `IOBase` retrace those of another, and then every call of `Jtag` on the one retraces
the same call on the other, and so does every run.  A working cable carries the lines of its target, so what is said of `Jtag` on
the lines holds of the device at the end of the cable.
-/
namespace Fpga
namespace Xc3s

open Base

/-- The calls of an `IOBase` retrace those of another, for data and buffers that have the bits, and for the pauses given. -/
structure Carries {ι τ : Type} [IoBase ι] [IoBase τ] (I G : ι → Prop) (view : ι → τ) (paced : Nat → Prop) : Prop where
  setTms : ∀ val, Retraces I G view (IoBase.setTms val) (IoBase.setTms val)
  flushTms : ∀ force, Retraces I G view (IoBase.flushTms force) (IoBase.flushTms force)
  shiftTDITDO : ∀ (tdi tdo : Option (List UInt8)) (length : Nat) (last : Bool), tdi.isSome = true ∨ tdo.isSome = true →
    (∀ bytes ∈ tdi, length ≤ 8 * bytes.length) → (∀ buf ∈ tdo, length ≤ 8 * buf.length) →
      Retraces I G view (IoBase.shiftTDITDO tdi tdo length last) (IoBase.shiftTDITDO tdi tdo length last)
  lengths : ∀ (tdi tdo : Option (List UInt8)) (length : Nat) (last : Bool), tdi.isSome = true ∨ tdo.isSome = true →
    (∀ bytes ∈ tdi, length ≤ 8 * bytes.length) → (∀ buf ∈ tdo, length ≤ 8 * buf.length) →
      ∀ s r s', I s → (IoBase.shiftTDITDO tdi tdo length last).run s = .ok r s' → r.map List.length = tdo.map List.length
  shift : ∀ tdi length last, Retraces I G view (IoBase.shift tdi length last) (IoBase.shift tdi length last)
  usleep : ∀ usec, paced usec → Retraces I G view (IoBase.usleep usec) (IoBase.usleep usec)

/-- **A working cable carries the lines of its target.** -/
theorem carries_wires {σ : Type} [Target σ] [Host (Chip σ)] (fast : Bool) (freq : Nat) :
    Carries (Ready fast freq) Settled (wires (σ := σ)) (Paced fast freq) where
  setTms := retraces_setTms
  flushTms := retraces_flushTms
  shiftTDITDO _ _ _ last hany hdata hroom := retraces_shiftTDITDO last hany hdata hroom
  lengths _ _ _ _ hany hdata hroom _ _ _ hr h := lengths_shiftTDITDO hr hany hdata hroom h
  shift := retraces_shift
  usleep _ hpaced := retraces_usleep hpaced

namespace Jtag

variable {ι τ α : Type} {I G : ι → Prop} {view : ι → τ}

/-- The same `Jtag` on another `IOBase`. -/
def through (view : ι → τ) (j : Jtag ι) : Jtag τ :=
  ⟨view j.io, j.currentState, j.devices, j.numDevices, j.postDRState, j.postIRState, j.deviceIndex, j.shiftDRincomplete⟩

/-- What holds of its `IOBase`, and of the devices it has found. -/
def Keeps (I : ι → Prop) (P : List ChainParam → Prop) (j : Jtag ι) : Prop := I j.io ∧ P j.devices

/-- What retraces on the `IOBase` retraces on the `Jtag`. -/
abbrev RetracesOn (I : ι → Prop) (P : List ChainParam → Prop) (G : ι → Prop) (view : ι → τ) (x : PortM ι α)
    (y : PortM τ α) : Prop :=
  Retraces (Keeps I P) (fun j => G j.io) (through view) x y

variable {P : List ChainParam → Prop}

theorem retraces_onIo {x : EStateM String ι α} {y : EStateM String τ α} (h : Retraces I G view x y) :
    RetracesOn I P G view (onIo x) (onIo y) := by
  intro j a j' hI hrun
  obtain ⟨io, hio, rfl⟩ := zoom_ok_iff.1 hrun
  obtain ⟨hI', hgood⟩ := h j.io a io hI.1 hio
  refine ⟨⟨hI', hI.2⟩, fun hG => ?_⟩
  obtain ⟨hstart, hy⟩ := hgood hG
  exact ⟨hstart, zoom_ok_iff.2 ⟨view io, hy, rfl⟩⟩

/-- A change of the fields beside the `IOBase`. -/
theorem retraces_modify {f : Jtag ι → Jtag ι} {g : Jtag τ → Jtag τ} (hio : ∀ j, (f j).io = j.io)
    (hdevices : ∀ j, P j.devices → P (f j).devices)
    (hthrough : ∀ j, (f j).through view = g (j.through view)) :
    RetracesOn I P G view (modify f : PortM ι PUnit) (modify g) := by
  apply Retraces.modify
  · exact fun j hj => ⟨by rw [hio]; exact hj.1, hdevices j hj.2⟩
  · intro j hG
    rw [hio] at hG
    exact hG
  · exact hthrough

theorem retraces_state (f : Jtag ι → Option Tap) (g : Jtag τ → Option Tap) (hsame : ∀ j, f j = g (j.through view)) :
    RetracesOn I P G view (modify (fun j => { j with currentState := f j }) : PortM ι PUnit)
      (modify (fun j => { j with currentState := g j })) := by
  apply retraces_modify
  · exact fun _ => rfl
  · exact fun _ hd => hd
  · intro j
    rw [hsame]
    rfl

theorem retraces_incomplete (b : Bool) : RetracesOn I P G view (modify (fun j => { j with shiftDRincomplete := b }) : PortM ι PUnit)
    (modify (fun j => { j with shiftDRincomplete := b })) := by
  apply retraces_modify
  · exact fun _ => rfl
  · exact fun _ hd => hd
  · exact fun _ => rfl

theorem retraces_numDevices (x : Option Nat) : RetracesOn I P G view (modify (fun j => { j with numDevices := x }) : PortM ι PUnit)
    (modify (fun j => { j with numDevices := x })) := by
  apply retraces_modify
  · exact fun _ => rfl
  · exact fun _ hd => hd
  · exact fun _ => rfl

theorem retraces_selectDevice (dev : Nat) : RetracesOn I P G view (selectDevice dev) (selectDevice dev) := by
  apply retraces_modify
  · exact fun _ => rfl
  · exact fun _ hd => hd
  · exact fun _ => rfl

theorem retraces_setDeviceIRLength (dev len : Nat)
    (hP : ∀ devices : List ChainParam, P devices → P (devices.modify dev (fun d => { d with irlen := some len }))) :
    RetracesOn I P G view (setDeviceIRLength dev len) (setDeviceIRLength dev len) := by
  apply retraces_modify
  · intro j
    split <;> rfl
  · intro j hj
    split
    · exact hj
    · exact hP j.devices hj
  · intro j
    have hnum : (j.through view).numDevices = j.numDevices := rfl
    rw [hnum]
    split <;> rfl

/-! ## Lengths of a byte -/

/-- Instruction lengths of a byte at most. -/
def Short (devices : List ChainParam) : Prop := ∀ d ∈ devices, d.irlen.getD 0 ≤ 8

theorem short_nil : Short [] := fun _ hd => by cases hd

theorem Short.cons (id : UInt32) {devices : List ChainParam} (hshort : Short devices) : Short (⟨id, none⟩ :: devices) := by
  intro d hd
  rcases List.mem_cons.1 hd with rfl | hd
  · exact Nat.zero_le 8
  · exact hshort d hd

theorem Short.modify (dev : Nat) {len : Nat} (hlen : len ≤ 8) {devices : List ChainParam} (hshort : Short devices) :
    Short (devices.modify dev (fun d => { d with irlen := some len })) := by
  intro d hd
  obtain ⟨i, hi⟩ := List.mem_iff_getElem?.1 hd
  rw [List.getElem?_modify] at hi
  cases hold : devices[i]? with
  | none =>
    rw [hold] at hi
    cases hi
  | some old =>
    rw [hold, Option.map_eq_map, Option.map_some] at hi
    have hi := Option.some.inj hi
    subst hi
    split
    · exact hlen
    · exact hshort old (List.mem_of_getElem? hold)

theorem Short.selectedIrlen_le {j : Jtag ι} (hshort : Short j.devices) (index : Nat) : j.selectedIrlen index ≤ 8 := by
  unfold selectedIrlen
  cases hd : j.devices[index]? with
  | none => exact Nat.zero_le 8
  | some d => exact hshort d (List.mem_of_getElem? hd)

/-! ## Calls -/

variable [IoBase ι] [IoBase τ] {paced : Nat → Prop} (h : Carries I G view paced)
include h

theorem retraces_setTms (val : Bool) : RetracesOn I P G view (setTms val) (setTms val) := retraces_onIo (h.setTms val)

theorem retraces_forM_setTms : ∀ vals : List Bool,
    RetracesOn I P G view (vals.forM setTms : PortM ι PUnit) (vals.forM setTms : PortM τ PUnit)
  | [] => Retraces.pure ()
  | val :: vals => (retraces_setTms h val).bind (fun _ => retraces_forM_setTms vals)

theorem retraces_tapTestLogicReset : RetracesOn I P G view tapTestLogicReset tapTestLogicReset := by
  apply (retraces_forM_setTms h _).bind
  intro _
  refine Retraces.bind (retraces_modify ?_ ?_ ?_) (fun _ => retraces_onIo (h.flushTms true))
  · exact fun _ => rfl
  · exact fun _ hd => hd
  · exact fun _ => rfl

theorem retraces_walk (state : Tap) : ∀ left : Nat, RetracesOn I P G view (walk state left) (walk state left)
  | 0 => Retraces.pure ()
  | left + 1 => by
    unfold walk
    apply Retraces.get_bind
    intro j _
    have hsame : (j.through view).currentState = j.currentState := rfl
    rw [hsame]
    cases j.currentState with
    | none =>
      apply (retraces_tapTestLogicReset h).bind
      intro _
      exact (retraces_setTms h true).bind (fun _ => retraces_walk state left)
    | some current =>
      apply Retraces.ite
      · exact fun _ => Retraces.pure ()
      · intro _
        refine Retraces.bind (retraces_state _ _ (fun _ => rfl)) (fun _ => ?_)
        exact (retraces_setTms h _).bind (fun _ => retraces_walk state left)

theorem retraces_setTapState (state : Tap) (pre : Nat) :
    RetracesOn I P G view (setTapState state pre) (setTapState state pre) :=
  (retraces_walk h state 16).bind (fun _ => retraces_forM_setTms h _)

theorem retraces_nextTapState (tms : Bool) : RetracesOn I P G view (nextTapState tms) (nextTapState tms) := by
  unfold nextTapState
  apply Retraces.get_bind
  intro j _
  have hsame : (j.through view).currentState = j.currentState := rfl
  rw [hsame]
  split
  · exact Retraces.ite (fun _ => retraces_state _ _ (fun _ => rfl)) (fun _ => Retraces.pure ())
  · exact Retraces.ite (fun _ => retraces_state _ _ (fun _ => rfl)) (fun _ => Retraces.pure ())
  · exact retraces_tapTestLogicReset h

theorem retraces_transfer {tdi tdo : Option (List UInt8)} {length : Nat} (last : Bool)
    (hdata : ∀ bytes ∈ tdi, length ≤ 8 * bytes.length) (hroom : ∀ buf ∈ tdo, length ≤ 8 * buf.length) :
    RetracesOn I P G view (transfer tdi tdo length last) (transfer tdi tdo length last) := by
  unfold transfer
  apply Retraces.ite
  · exact fun hany => retraces_onIo (h.shiftTDITDO tdi tdo length last hany hdata hroom)
  · exact fun _ => (retraces_onIo (h.shift false length last)).bind (fun _ => Retraces.pure none)

theorem retraces_shiftDR {tdi tdo : Option (List UInt8)} {length : Nat} (align : Nat) (exit : Bool)
    (hdata : ∀ bytes ∈ tdi, length ≤ 8 * bytes.length) (hroom : ∀ buf ∈ tdo, length ≤ 8 * buf.length) :
    RetracesOn I P G view (shiftDR tdi tdo length align exit) (shiftDR tdi tdo length align exit) := by
  unfold shiftDR
  apply Retraces.get_bind
  intro j _
  have hindex : (j.through view).deviceIndex = j.deviceIndex := rfl
  have hincomplete : (j.through view).shiftDRincomplete = j.shiftDRincomplete := rfl
  simp only [hindex, hincomplete]
  cases j.deviceIndex with
  | none => exact Retraces.pure tdo
  | some post =>
    apply Retraces.of_if
    · exact fun _ => retraces_setTapState h _ _
    · apply (retraces_transfer h _ hdata hroom).bind
      intro out
      apply (retraces_nextTapState h _).bind
      intro _
      apply Retraces.ite
      · intro _
        apply (retraces_onIo (h.shift false post true)).bind
        intro _
        apply Retraces.of_if
        · exact fun _ => retraces_nextTapState h true
        · apply (retraces_setTapState h _ _).bind
          intro _
          exact (retraces_incomplete false).bind (fun _ => Retraces.pure out)
      · exact fun _ => (retraces_incomplete true).bind (fun _ => Retraces.pure out)

/-- An instruction for arrays that have the bits of the device selected where it begins. -/
theorem retraces_shiftIR_from {j : Jtag ι} {tdi : List UInt8} {tdo : Option (List UInt8)}
    (hfits : ∀ index, j.deviceIndex = some index →
      j.selectedIrlen index ≤ 8 * tdi.length ∧ ∀ buf ∈ tdo, j.selectedIrlen index ≤ 8 * buf.length) :
    RetracesFrom j (Keeps I P) (fun j => G j.io) (through view) (shiftIR tdi tdo) (shiftIR tdi tdo) := by
  unfold shiftIR
  apply RetracesFrom.get_bind
  have hindex : (j.through view).deviceIndex = j.deviceIndex := rfl
  have hdevices : (j.through view).devices = j.devices := rfl
  have hnum : (j.through view).numDevices = j.numDevices := rfl
  have hirlen : ∀ index, (j.through view).selectedIrlen index = j.selectedIrlen index := fun _ => rfl
  simp only [hindex, hdevices, hnum, hirlen]
  cases hselected : j.deviceIndex with
  | none => exact Retraces.pure tdo j
  | some index =>
    obtain ⟨hdata, hroom⟩ := hfits index hselected
    have hbytes : ∀ bytes ∈ some tdi, j.selectedIrlen index ≤ 8 * bytes.length := by
      intro bytes hb
      rw [← Option.some.inj hb]
      exact hdata
    refine Retraces.bind (retraces_setTapState h _ _) (fun _ => ?_) j
    apply (retraces_onIo (h.shift true _ false)).bind
    intro _
    apply (retraces_onIo (h.shiftTDITDO (some tdi) tdo _ _ (.inl rfl) hbytes hroom)).bind
    intro out
    apply (retraces_onIo (h.shift true _ true)).bind
    intro _
    apply (retraces_nextTapState h true).bind
    intro _
    exact (retraces_setTapState h _ _).bind (fun _ => Retraces.pure out)

theorem retraces_readIdcodes (hP : ∀ id devices, P devices → P (⟨id, none⟩ :: devices)) :
    ∀ (left : Nat) (idx : List UInt8), 4 ≤ idx.length → RetracesOn I P G view (readIdcodes left idx) (readIdcodes left idx)
  | 0, idx, _ => Retraces.pure ()
  | left + 1, idx, hidx => by
    unfold readIdcodes
    have hdata : ∀ bytes ∈ some [(0 : UInt8), 0, 0, 0], 32 ≤ 8 * bytes.length := by
      intro bytes hb
      rw [← Option.some.inj hb]
      decide
    have hroom : ∀ buf ∈ some idx, 32 ≤ 8 * buf.length := by
      intro buf hb
      rw [← Option.some.inj hb]
      omega
    apply (retraces_onIo (h.shiftTDITDO (some [0, 0, 0, 0]) (some idx) 32 false (.inl rfl) hdata hroom)).bind_of
      (Q := fun out => out.map List.length = some idx.length)
    · intro j out j' hj hrun
      obtain ⟨io, hio, -⟩ := zoom_ok_iff.1 hrun
      exact h.lengths _ _ _ _ (.inl rfl) hdata hroom j.io out io hj.1 hio
    · intro out hout
      have hlen : 4 ≤ (out.getD idx).length := by
        cases out with
        | none => cases hout
        | some buf => exact Option.some.inj hout ▸ hidx
      apply Retraces.ite
      · intro _
        refine Retraces.bind (retraces_modify ?_ ?_ ?_) (fun _ => retraces_readIdcodes hP left _ hlen)
        · exact fun _ => rfl
        · exact fun j hj => hP _ j.devices hj
        · exact fun _ => rfl
      · exact fun _ => Retraces.pure ()

theorem retraces_getChain (hP : ∀ id devices, P devices → P (⟨id, none⟩ :: devices)) (detect : Bool) {idx : List UInt8}
    (hidx : 4 ≤ idx.length) :
    RetracesOn I P G view (getChain detect idx) (getChain detect idx) := by
  have hend : RetracesOn I P G view (do return (← get).numDevices.getD 0 : PortM ι Nat)
      (do return (← get).numDevices.getD 0 : PortM τ Nat) :=
    Retraces.get_bind (fun j _ => Retraces.pure (j.numDevices.getD 0))
  unfold getChain
  apply Retraces.get_bind
  intro j _
  have hnum : (j.through view).numDevices = j.numDevices := rfl
  simp only [hnum]
  apply Retraces.ite
  · intro _
    apply (retraces_tapTestLogicReset h).bind
    intro _
    apply (retraces_setTapState h _ _).bind
    intro _
    apply (retraces_numDevices _).bind
    intro _
    apply (retraces_readIdcodes h hP 1000 idx hidx).bind
    intro _
    exact (retraces_setTapState h _ _).bind (fun _ => hend)
  · exact fun _ => hend

/-! ## Runs -/

omit h in
omit [IoBase ι] [IoBase τ] in
/-- What a call has to bring with it: data and buffers of as many bits as it shifts in the state it is made in, and a pause that
is one. -/
def Call.Fits (paced : Nat → Prop) (j : Jtag ι) : Call → Prop
  | .shiftDR tdi tdo length _ _ => (∀ bytes ∈ tdi, length ≤ 8 * bytes.length) ∧ ∀ buf ∈ tdo, length ≤ 8 * buf.length
  | .shiftIR tdi tdo => ∀ index, j.deviceIndex = some index →
    j.LengthsSet index ∧ j.selectedIrlen index ≤ 8 * tdi.length ∧ ∀ buf ∈ tdo, j.selectedIrlen index ≤ 8 * buf.length
  | .usleep usec => paced usec
  | .getChain _ idx => 4 ≤ idx.length
  | _ => True

omit h in
/-- Every call of a run brings it. -/
def FitsRun (paced : Nat → Prop) : List Call → Jtag ι → Prop
  | [], _ => True
  | c :: calls, j => c.Fits paced j ∧ FitsRun paced calls (final (c.run.run j))

/-- A call retraces the same call. -/
theorem retraces_call {c : Call} {j : Jtag ι} (hc : c.Fits paced j) :
    RetracesFrom j (Keeps I (fun _ => True)) (fun j => G j.io) (through view) (c.run : PortM ι Unit) c.run := by
  cases c with
  | tapTestLogicReset => exact retraces_tapTestLogicReset h j
  | setTapState state pre => exact retraces_setTapState h state pre j
  | shiftDR tdi tdo length align exit => exact (retraces_shiftDR h align exit hc.1 hc.2).bind (fun _ => Retraces.pure ()) j
  | shiftIR tdi tdo => exact (retraces_shiftIR_from h (fun index hi => (hc index hi).2)).bind (fun _ t _ _ => Retraces.pure () t)
  | cycleTCK n tdi => exact retraces_onIo (h.shift tdi n false) j
  | usleep usec => exact retraces_onIo (h.usleep usec hc) j
  | getChain detect idx => exact (retraces_getChain h (fun _ _ _ => trivial) detect hc).bind (fun _ => Retraces.pure ()) j
  | selectDevice dev => exact retraces_selectDevice dev j
  | setDeviceIRLength dev len => exact retraces_setDeviceIRLength dev len (fun _ _ => trivial) j

theorem retraces_calls : ∀ {calls : List Call} {j : Jtag ι}, FitsRun paced calls j →
    RetracesFrom j (Keeps I (fun _ => True)) (fun j => G j.io) (through view) (calls.forM Call.run : PortM ι PUnit) (calls.forM Call.run)
  | [], j, _ => Retraces.pure () j
  | c :: calls, j, ⟨hc, hrest⟩ => by
    apply (retraces_call h hc).bind
    intro u t _ hrun
    rw [hrun] at hrest
    exact retraces_calls hrest

/-- With lengths of a byte at most, a byte is enough for an instruction. -/
theorem retraces_shiftIR {tdi : List UInt8} {tdo : Option (List UInt8)} (hdata : 1 ≤ tdi.length)
    (hroom : ∀ buf ∈ tdo, 1 ≤ buf.length) : RetracesOn I Short G view (shiftIR tdi tdo) (shiftIR tdi tdo) := by
  intro j a j' hj hrun
  refine retraces_shiftIR_from h (fun index _ => ?_) a j' hj hrun
  have hirlen := hj.2.selectedIrlen_le index
  refine ⟨by omega, fun buf hbuf => ?_⟩
  have hbuf := hroom buf hbuf
  omega

omit h
omit [IoBase ι] [IoBase τ]

/-! ## A `Jtag` with a cable -/

section

variable {σ : Type} [Target σ] [Host (Chip σ)] {fast : Bool} {freq : Nat}

end

/-- The system under a chip that is nothing but its port. -/
instance : Host (Chip Tap) where
  ftdiGetErrorString _ := "all fine"
  errno _ := 0
  strerror _ := "Success"
  stack _ _ := 0

/-- A cable found while the port was shifting, with reads that bring a byte, nothing, two bytes, and then all there is. -/
def someCable : IoFtdi (Chip Tap) :=
  ⟨⟨⟨⟨false, false, .shiftIR⟩, 0, .command⟩, [], [], [.deliver 1, .deliver 0, .deliver 2]⟩, [], [], true, 30000000⟩

/-- Rest, a look at the chain, a pause, and the way to `SHIFT_DR` with three clocks in it. -/
def someCalls : List Call :=
  [.setTapState .runTestIdle 0, .getChain true [1, 2, 3, 4], .setTapState .runTestIdle 0, .usleep 1, .setTapState .shiftDR 3]

theorem ready_someCable : Ready true 30000000 someCable := ⟨rfl, rfl, rfl⟩

theorem fits_someCalls : FitsRun (Paced true 30000000) someCalls (Jtag.new someCable) :=
  ⟨trivial, Nat.le_refl 4, trivial, fun _ => ⟨by decide, fun hslow => by cases hslow⟩, trivial, trivial⟩

theorem run_someCalls : ∃ j, (someCalls.forM Call.run : PortM (IoFtdi (Chip Tap)) PUnit).run (Jtag.new someCable) = .ok () j ∧
    Settled j.io := by
  have hreturns : returns (fun _ j => decide (j.io.link.owed = []))
      ((someCalls.forM Call.run : PortM (IoFtdi (Chip Tap)) PUnit).run (Jtag.new someCable)) = true := by
    decide +kernel
  obtain ⟨u, j, hrun, hread⟩ := ok_of_returns hreturns
  have howed : j.io.link.owed = [] := of_decide_eq_true hread
  exact ⟨j, hrun, howed⟩

theorem sound_someCalls : SoundRun someCalls (Jtag.new (wires someCable)) := by
  refine ⟨.inr rfl, trivial, .inr rfl, ?_, .inl rfl, trivial⟩
  intro t ht
  have hstate : some t = some Tap.runTestIdle := by
    rw [← ht]
    decide +kernel
  cases hstate
  rfl

end Jtag
end Xc3s
end Fpga
