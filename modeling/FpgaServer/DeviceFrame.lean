import FpgaServer.DeviceManager
import FpgaServer.Transport
/-!
# DeviceFrame — what an operation on a device leaves alone

No operation changes the name, the handle, the callback or the tracked keys of its device, however it ends.  The transport
and the opening and closing of the device are silent: nothing is reported.  The others report nothing but changes of
registers of this device, through the callback the manager installed.
-/
namespace Fpga

open Base (OrdMap Within)

variable {ε α : Type}

/-- What identifies a device and fixes what it tracks and whom it tells. -/
structure DeviceFrame (d d' : Device ε View) : Prop where
  name : d'.name = d.name
  libusbDevice : d'.libusbDevice = d.libusbDevice
  regChangedCb : d'.regChangedCb = d.regChangedCb
  keys : d'.trackedRegs.keys = d.trackedRegs.keys

theorem DeviceFrame.refl (d : Device ε View) : DeviceFrame d d := ⟨rfl, rfl, rfl, rfl⟩

theorem DeviceFrame.trans {d d' d'' : Device ε View} (h : DeviceFrame d d') (h' : DeviceFrame d' d'') :
    DeviceFrame d d'' :=
  ⟨h'.name.trans h.name, h'.libusbDevice.trans h.libusbDevice, h'.regChangedCb.trans h.regChangedCb, h'.keys.trans h.keys⟩

structure Silent (s t : DeviceState ε View) : Prop where
  device : DeviceFrame s.dev t.dev
  out : t.out = s.out

instance : IsPreorder (DeviceState ε View) Silent where
  refl s := ⟨.refl s.dev, rfl⟩
  trans _ _ _ h h' := ⟨h.device.trans h'.device, h'.out.trans h.out⟩

/-- The device reports to the manager, or to nobody yet. -/
def Wired (d : Device ε View) : Prop := d.regChangedCb = none ∨ d.regChangedCb = some onRegChange

theorem DeviceFrame.wired {d d' : Device ε View} (h : DeviceFrame d d') (hw : Wired d) : Wired d' := by
  unfold Wired at *
  rwa [h.regChangedCb]

/-- A report about a register of the device. -/
def IsReport (d : Device ε View) (listed : List String) (n : Notice) : Prop :=
  d.regChangedCb ≠ none ∧ ∃ addr port value, n = ⟨.regChanged d.name addr port value, listed⟩

def View.logged (v : View) (new : List Notice) : View :=
  { v with notifier := { v.notifier with log := v.notifier.log ++ new } }

structure Operates (s t : DeviceState ε View) : Prop where
  device : DeviceFrame s.dev t.dev
  reports : Wired s.dev → ∃ new, t.out = s.out.logged new ∧ ∀ n ∈ new, IsReport s.dev s.out.listed n

theorem View.logged_nil (v : View) : v.logged [] = v := by simp [View.logged]

theorem View.logged_append (v : View) (new more : List Notice) : (v.logged new).logged more = v.logged (new ++ more) := by
  simp [View.logged]

theorem Silent.operates {s t : DeviceState ε View} (h : Silent s t) : Operates s t :=
  ⟨h.device, fun _ => ⟨[], h.out.trans (View.logged_nil _).symm, fun _ hn => absurd hn List.not_mem_nil⟩⟩

instance : IsPreorder (DeviceState ε View) Operates where
  refl s := Silent.operates (refl s)
  trans s t u h h' := by
    refine ⟨h.device.trans h'.device, fun hw => ?_⟩
    obtain ⟨new, hnew, hreports⟩ := h.reports hw
    obtain ⟨more, hmore, hreports'⟩ := h'.reports (h.device.wired hw)
    refine ⟨new ++ more, by rw [hmore, hnew, View.logged_append], fun n hn => ?_⟩
    rcases List.mem_append.1 hn with hn | hn
    · exact hreports n hn
    · have := hreports' n hn
      rw [IsReport, h.device.regChangedCb, h.device.name, hnew] at this
      exact this

/-! ## Operations in general -/

/-- `J` passes through sequencing. -/
structure SequenceRules (J : (α : Type) → DeviceM ε View α → Prop) : Prop where
  pure : ∀ {α} (a : α), J α (pure a)
  raise : ∀ {α} what, J α (raise what)
  get : J _ get
  bind : ∀ {α β} {x : DeviceM ε View α} {f : α → DeviceM ε View β}, J α x → (∀ a, J β (f a)) → J β (x >>= f)

theorem SequenceRules.raiseIf {J : (α : Type) → DeviceM ε View α → Prop} (h : SequenceRules J) (c : Prop) [Decidable c]
    (what : String) : J _ (raiseIf c what) := by
  unfold Fpga.raiseIf
  split
  · exact h.raise what
  · exact h.pure _

/-- What the operations are made of meets `J`, where they wait for sizes from zero on. -/
structure TransferRules [Ftdi ε] (J : (α : Type) → DeviceM ε View α → Prop) : Prop extends SequenceRules J where
  ftdiWriteData : ∀ bytes, J _ (Device.ftdiWriteData bytes)
  ftdiReadDataWait : ∀ size : Nat, J _ (Device.ftdiReadDataWait size)
  storeResult : ∀ k value, J _ (Device.storeResult k value)

/-- What the operations are made of meets `J`, whatever size is read. -/
structure OperationRules [Ftdi ε] (J : (α : Type) → DeviceM ε View α → Prop) : Prop extends SequenceRules J where
  ftdiWriteData : ∀ bytes, J _ (Device.ftdiWriteData bytes)
  ftdiReadData : ∀ size, J _ (Device.ftdiReadData size)
  storeResult : ∀ k value, J _ (Device.storeResult k value)

section
variable [Ftdi ε] {J : (α : Type) → DeviceM ε View α → Prop}

namespace TransferRules

theorem wait (h : TransferRules J) {n : Nat} (hn : n < 2147483648) : J _ (Device.ftdiReadDataWait (cInt n)) := by
  rw [cInt_of_lt hn]
  exact h.ftdiReadDataWait n

theorem writeRaw (h : TransferRules J) (rest : List UInt8) : J _ (Device.writeRaw rest) := by
  by_cases hrest : rest = []
  · rw [Device.writeRaw, dif_pos hrest]
    exact h.pure _
  · rw [Device.writeRaw, dif_neg hrest]
    refine h.bind (h.ftdiWriteData _) (fun r => ?_)
    by_cases hr : r ≤ 0
    · rw [dif_pos hr]
      exact h.raise _
    · rw [dif_neg hr]
      exact h.writeRaw (rest.drop r.toNat)
termination_by rest.length
decreasing_by
  have := List.length_pos_iff.2 hrest
  simp only [List.length_drop]
  omega

theorem readRaw (h : TransferRules J) {n : Nat} (hn : n < 2147483648) : J _ (Device.readRaw n) := by
  unfold Device.readRaw
  split
  · exact h.pure _
  · exact h.wait hn

theorem writeReg (h : TransferRules J) (addr port : UInt8) (value : UInt16) : J _ (Device.writeReg addr port value) :=
  h.bind (h.ftdiWriteData _) (fun _ => h.raiseIf _ _)

theorem readReg (h : TransferRules J) (addr port : UInt8) : J _ (Device.readReg addr port) := by
  refine h.bind (h.ftdiWriteData _) (fun _ => h.bind (h.raiseIf _ _) (fun _ => ?_))
  exact h.bind (h.ftdiReadDataWait 2) (fun _ => h.bind (h.storeResult _ _) (fun _ => h.pure _))

theorem writeRegN (h : TransferRules J) (addr port : UInt8) (rest : List UInt16) :
    J _ (Device.writeRegN addr port rest) := by
  by_cases hrest : rest = []
  · rw [Device.writeRegN, dif_pos hrest]
    exact h.pure _
  · rw [Device.writeRegN, dif_neg hrest]
    refine h.bind (h.ftdiWriteData _) (fun _ => h.bind (h.raiseIf _ _) (fun _ => h.bind (h.raiseIf _ _) (fun _ => ?_)))
    exact h.writeRegN addr port (rest.drop Device.nPacketMax)
termination_by rest.length
decreasing_by
  have := List.length_pos_iff.2 hrest
  simp only [List.length_drop, Device.nPacketMax]
  omega

theorem readRegN (h : TransferRules J) (addr port : UInt8) (left : Nat) : J _ (Device.readRegN addr port left) := by
  by_cases hleft : left = 0
  · rw [Device.readRegN, dif_pos hleft]
    exact h.pure _
  · rw [Device.readRegN, dif_neg hleft]
    have hsize : 2 * min left Device.nPacketMax < 2147483648 := by
      simp only [Device.nPacketMax]
      omega
    refine h.bind (h.ftdiWriteData _) (fun _ => h.bind (h.raiseIf _ _) (fun _ => h.bind (h.wait hsize) (fun _ => ?_)))
    exact h.bind (h.readRegN addr port (left - min left Device.nPacketMax)) (fun _ => h.pure _)
termination_by left
decreasing_by
  simp only [Device.nPacketMax]
  omega

theorem storeResults (h : TransferRules J) : ∀ (kvs : List (AddrPort × UInt16)), J _ (Device.storeResults kvs)
  | [] => h.pure _
  | kv :: kvs => h.bind (h.storeResult kv.1 kv.2) (fun _ => h.storeResults kvs)

/-- A poll waits for two bytes for each key, and there are no more keys than addresses and ports. -/
theorem updateTrackedRegs (h : TransferRules J) : J _ Device.updateTrackedRegs := by
  refine h.bind h.get (fun s => ?_)
  simp only
  split
  · exact h.pure _
  · have hlen := length_keys_le s.dev.trackedRegs
    refine h.bind (h.ftdiWriteData _) (fun _ => h.bind (h.raiseIf _ _) (fun _ => ?_))
    exact h.bind (h.wait (by omega)) (fun _ => h.storeResults _)

end TransferRules

namespace OperationRules

theorem readLoop (h : OperationRules J) (size : Int) : ∀ (i : Nat) (recv : List UInt8), J _ (Device.readLoop size i recv)
  | 0, recv => h.pure recv
  | i + 1, recv => by
    refine h.bind (h.ftdiReadData _) (fun r => ?_)
    cases r with
    | error code => exact h.raise _
    | ok bytes =>
      simp only
      split
      · exact h.readLoop size i _
      · exact h.pure _

theorem ftdiReadDataWait (h : OperationRules J) (size : Int) : J _ (Device.ftdiReadDataWait size) :=
  h.bind (h.readLoop size 100 []) (fun _ => h.bind (h.raiseIf _ _) (fun _ => h.pure _))

theorem transfers (h : OperationRules J) : TransferRules J where
  toSequenceRules := h.toSequenceRules
  ftdiWriteData := h.ftdiWriteData
  ftdiReadDataWait size := h.ftdiReadDataWait size
  storeResult := h.storeResult

theorem readRaw (h : OperationRules J) (n : Nat) : J _ (Device.readRaw n) := by
  unfold Device.readRaw
  split
  · exact h.pure _
  · exact h.ftdiReadDataWait _

theorem deviceOp (h : OperationRules J) (op : DeviceManager.DeviceOp) : J _ op.run := by
  cases op with
  | writeReg addr port value => exact h.transfers.writeReg addr port value
  | readReg addr port => exact h.bind (h.transfers.readReg addr port) (fun _ => h.pure _)
  | writeRegN addr port data => exact h.transfers.writeRegN addr port data
  | readRegN addr port n => exact h.bind (h.transfers.readRegN addr port n) (fun _ => h.pure _)
  | writeRaw data => exact h.transfers.writeRaw data
  | readRaw n => exact h.bind (h.readRaw n) (fun _ => h.pure _)

end OperationRules
end

/-- A relation that allows a call into the environment, storing a value of a tracked register and reporting it, allows
every operation. -/
theorem rules_within [Ftdi ε] {R : DeviceState ε View → DeviceState ε View → Prop} [IsPreorder (DeviceState ε View) R]
    (hcall : ∀ {α : Type} (f : ε → α × ε), Within R (Device.usbCall f : DeviceM ε View α))
    (hset : ∀ k value, Within R (Device.modifyDev (fun d => { d with trackedRegs := d.trackedRegs.set k value })))
    (hreport : ∀ addr port value, Within R (Device.regChanged addr port value)) :
    OperationRules (fun α (x : DeviceM ε View α) => Within R x) where
  pure := Within.pure
  raise what := Within.throw _
  get := Within.get
  bind := Within.bind
  ftdiWriteData bytes := by
    refine Within.get.bind (fun s => ?_)
    split
    · exact Within.pure _
    · exact hcall _
  ftdiReadData size := within_ftdiReadData (hcall _)
  storeResult k value := by
    refine Within.get.bind (fun s => ?_)
    split
    · exact Within.pure _
    · refine (hset k value).bind (fun _ => ?_)
      split
      · exact hreport _ _ _
      · exact Within.pure _

/-! ## Opening and closing in general -/

/-- What opening and closing a device are made of moves along `R`: the calls, and the bookkeeping of the contexts. -/
structure OpeningRules {ω : Type} [Ftdi ε] (R : DeviceState ε ω → DeviceState ε ω → Prop) : Prop where
  ftdiNew : Within R (Device.usbCall Ftdi.ftdiNew)
  usbOpenDev : ∀ i claimed, Within R (Device.usbCall (Ftdi.usbOpenDev i claimed))
  usbPurgeBuffers : Within R (Device.usbCall Ftdi.usbPurgeBuffers)
  usbReset : Within R (Device.usbCall Ftdi.usbReset)
  setBitmode : ∀ mask mode, Within R (Device.usbCall (Ftdi.setBitmode mask mode))
  setLatencyTimer : ∀ t, Within R (Device.usbCall (Ftdi.setLatencyTimer t))
  keeps : ∀ s contexts nextContext ftdi,
    R s { s with dev := { s.dev with contexts := contexts, nextContext := nextContext, ftdi := ftdi } }

namespace OpeningRules

variable {ω : Type} [Ftdi ε] {R : DeviceState ε ω → DeviceState ε ω → Prop} [IsPreorder (DeviceState ε ω) R]

omit [IsPreorder (DeviceState ε ω) R] in
theorem updateContext (h : OpeningRules R) (id : Nat) (f : Context → Context) : Within R (Device.updateContext id f) :=
  fun s => h.keeps s _ _ _

omit [IsPreorder (DeviceState ε ω) R] in
theorem ftdiFree (h : OpeningRules R) (id : Nat) : Within R (Device.ftdiFree id) := fun s => h.keeps s _ _ _

theorem closeAndFree (h : OpeningRules R) (id : Nat) : Within R (do Device.ftdiUsbClose id; Device.ftdiFree id) :=
  (h.updateContext id _).bind (fun _ => h.ftdiFree id)

theorem newContext (h : OpeningRules R) : Within R Device.ftdiNew := by
  refine h.ftdiNew.bind (fun ok => ?_)
  cases ok
  · exact Within.throw _
  · exact Within.get.bind (fun s => Within.bind (fun t => h.keeps t _ _ _) (fun _ => Within.pure _))

theorem ftdiUsbOpenDev (h : OpeningRules R) (id : Nat) (i : Interface) : Within R (Device.ftdiUsbOpenDev id i) := by
  refine Within.get.bind (fun s => (h.usbOpenDev _ _).bind (fun r => ?_))
  by_cases hr : r = none
  · simp only [if_pos hr]
    exact (h.updateContext id _).bind (fun _ => Within.pure _)
  · simp only [if_neg hr]
    exact (Within.pure _).bind (fun _ => Within.pure _)

omit [Ftdi ε] in
theorem within_exitOn (r : Option String) {cleanUp : DeviceM ε ω Unit} (h : Within R cleanUp) :
    Within R (Device.exitOn r cleanUp) := by
  cases r with
  | none => exact Within.pure _
  | some errorstr => exact h.bind (fun _ => Within.throw _)

/-- **Opening a device**, however it ends. -/
theorem openDevice (h : OpeningRules R) : Within R Device.openDevice := by
  refine Within.get.bind (fun s => ?_)
  split
  · exact Within.pure _
  · refine h.newContext.bind (fun a => (h.updateContext a _).bind (fun _ => (h.ftdiUsbOpenDev a .A).bind
      (fun r => (within_exitOn r (h.ftdiFree a)).bind (fun _ => ?_))))
    refine h.newContext.bind (fun b => (h.updateContext b _).bind (fun _ => (h.ftdiUsbOpenDev b .B).bind
      (fun r => (within_exitOn r (h.ftdiFree b)).bind (fun _ => ?_))))
    refine h.usbPurgeBuffers.bind (fun r => (within_exitOn r (h.closeAndFree b)).bind (fun _ =>
      (h.updateContext b _).bind (fun _ => (h.ftdiFree b).bind (fun _ => ?_))))
    refine h.usbReset.bind (fun r => (within_exitOn r (h.closeAndFree a)).bind (fun _ => ?_))
    refine (h.setBitmode _ _).bind (fun r => (within_exitOn r (h.closeAndFree a)).bind (fun _ => ?_))
    refine (h.setLatencyTimer _).bind (fun r => (within_exitOn r (h.closeAndFree a)).bind (fun _ => ?_))
    exact fun t => h.keeps t _ _ _

theorem close (h : OpeningRules R) : Within R Device.close := by
  refine Within.get.bind (fun s => ?_)
  split
  · exact Within.pure _
  · exact (h.setBitmode _ _).bind (fun _ => (h.updateContext _ _).bind (fun _ => (h.ftdiFree _).bind (fun _ =>
      fun t => h.keeps t _ _ _)))

end OpeningRules

/-! ## The silent part -/

theorem silent_usbCall (f : ε → α × ε) : Within Silent (Device.usbCall f : DeviceM ε View α) :=
  fun _ => ⟨⟨rfl, rfl, rfl, rfl⟩, rfl⟩

theorem silent_modifyDev {f : Device ε View → Device ε View} (h : ∀ d, DeviceFrame d (f d)) :
    Within Silent (Device.modifyDev f) := fun s => ⟨h s.dev, rfl⟩

variable [Ftdi ε]

theorem silent_opening : OpeningRules (Silent : DeviceState ε View → DeviceState ε View → Prop) where
  ftdiNew := silent_usbCall _
  usbOpenDev _ _ := silent_usbCall _
  usbPurgeBuffers := silent_usbCall _
  usbReset := silent_usbCall _
  setBitmode _ _ := silent_usbCall _
  setLatencyTimer _ := silent_usbCall _
  keeps _ _ _ _ := ⟨⟨rfl, rfl, rfl, rfl⟩, rfl⟩

theorem silent_openDevice : Within Silent (Device.openDevice : DeviceM ε View Unit) := silent_opening.openDevice

theorem silent_close : Within Silent (Device.close : DeviceM ε View Unit) := silent_opening.close

omit [Ftdi ε] in
theorem silent_programmerCall (f : ε → Option String × ε) : Within Silent (DeviceManager.programmerCall f) := by
  refine (silent_usbCall f).bind (fun r => ?_)
  cases r with
  | none => exact Within.pure _
  | some what => exact Within.throw _

/-! ## The part that reports -/

omit [Ftdi ε] in
/-- The manager's callback logs one report, or nothing where no callback is set. -/
theorem onRegChange_logs (serial : String) (addr port : UInt8) (value : UInt16) (v : View) :
    ∃ new, Base.final ((onRegChange serial addr port value).run v) = v.logged new ∧
      ∀ n ∈ new, n = ⟨.regChanged serial addr port value, v.listed⟩ := by
  simp only [onRegChange, EStateM.run_bind, EStateM.run_get]
  split
  · exact ⟨[], (View.logged_nil v).symm, fun n h => absurd h List.not_mem_nil⟩
  · refine ⟨[_], ?_, fun n h => List.mem_singleton.1 h⟩
    simp only [notify, EStateM.run_bind, EStateM.run_modify]
    split <;> rfl

omit [Ftdi ε] in
theorem operates_regChanged (addr port : UInt8) (value : UInt16) :
    Within Operates (Device.regChanged addr port value : DeviceM ε View Unit) := by
  intro s
  simp only [Device.regChanged, EStateM.run_bind, EStateM.run_get]
  split
  · exact refl s
  · rename_i cb hcb
    have hfinal : Base.final ((Base.zoom DeviceState.out (fun w s => { s with out := w }) (cb s.dev.name addr port value)).run s) =
        { s with out := Base.final ((cb s.dev.name addr port value).run s.out) } := by
      rw [Base.run_zoom]
      cases (cb s.dev.name addr port value).run s.out <;> rfl
    rw [hfinal]
    refine ⟨.refl s.dev, fun hw => ?_⟩
    rcases hw with hw | hw
    · rw [hcb] at hw
      cases hw
    · rw [hcb] at hw
      cases hw
      obtain ⟨new, hnew, hreport⟩ := onRegChange_logs s.dev.name addr port value s.out
      refine ⟨new, hnew, fun n hn => ⟨?_, addr, port, value, hreport n hn⟩⟩
      rw [hcb]
      exact Option.some_ne_none _

theorem operates_rules : OperationRules (fun α (x : DeviceM ε View α) => Within Operates x) := by
  refine rules_within (fun f => (silent_usbCall f).imp (fun _ _ => Silent.operates)) (fun k value => ?_) operates_regChanged
  have hset : Within Silent (Device.modifyDev (fun d : Device ε View => { d with trackedRegs := d.trackedRegs.set k value })) :=
    silent_modifyDev (fun d => ⟨rfl, rfl, rfl, d.trackedRegs.keys_set k value⟩)
  exact hset.imp (fun _ _ => Silent.operates)

theorem operates_updateTrackedRegs : Within Operates (Device.updateTrackedRegs : DeviceM ε View Unit) :=
  operates_rules.transfers.updateTrackedRegs

/-- **Every request operates within the frame.** -/
theorem operates_deviceOp (op : DeviceManager.DeviceOp) : Within Operates (op.run : DeviceM ε View Unit) :=
  operates_rules.deviceOp op

end Fpga
