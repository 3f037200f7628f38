import FpgaServer.DeviceContexts
import FpgaServer.ManagerMaps
/-!
# ManagerReady — what every handler keeps, whatever the callbacks do

`Ready` ties each entry of the device map to an object with an entry in the serial map, and bounds and types the objects;
if it is asked to, it also says that every registered device is open.  Every handler keeps it, a reprogram request with the
second part only if the device can be opened again.  No assumption is made about the callbacks.
-/
namespace Fpga

open Base (OrdMap Within final)

variable {ε : Type}

/-! ## Operations and the context of the device -/

/-- The context of the device, and everything it holds, stay. -/
structure Attached (s t : DeviceState ε View) : Prop where
  ftdi : t.dev.ftdi = s.dev.ftdi
  contexts : t.dev.contexts = s.dev.contexts
  nextContext : t.dev.nextContext = s.dev.nextContext

instance : IsPreorder (DeviceState ε View) Attached where
  refl _ := ⟨rfl, rfl, rfl⟩
  trans _ _ _ h h' := ⟨h'.ftdi.trans h.ftdi, h'.contexts.trans h.contexts, h'.nextContext.trans h.nextContext⟩

theorem attached_usbCall {α : Type} (f : ε → α × ε) : Within Attached (Device.usbCall f : DeviceM ε View α) :=
  fun _ => ⟨rfl, rfl, rfl⟩

theorem attached_regChanged (addr port : UInt8) (value : UInt16) :
    Within Attached (Device.regChanged addr port value : DeviceM ε View Unit) := by
  refine Within.get.bind (fun s => ?_)
  split
  · exact Within.pure _
  · rename_i cb hcb
    intro t
    rw [Base.run_zoom]
    cases (cb s.dev.name addr port value).run t.out <;> exact ⟨rfl, rfl, rfl⟩

/-- The operation reports within the frame, keeps the context of the device and does not crash on an open one. -/
structure Survives {α : Type} (x : DeviceM ε View α) : Prop where
  attached : Within Attached x
  operates : Within Operates x
  runs : ∀ s t, s.dev.isOpen = true → Wired s.dev → x.run s ≠ .error .crash t

theorem Attached.isOpen {s t : DeviceState ε View} (h : Attached s t) : t.dev.isOpen = s.dev.isOpen := by
  rw [Device.isOpen, Device.isOpen, h.ftdi]

theorem Survives.bind {α β : Type} {x : DeviceM ε View α} {f : α → DeviceM ε View β} (hx : Survives x)
    (hf : ∀ a, Survives (f a)) : Survives (x >>= f) where
  attached := hx.attached.bind (fun a => (hf a).attached)
  operates := hx.operates.bind (fun a => (hf a).operates)
  runs s t hs hw h := by
    rcases Base.bind_error_iff.1 h with h | ⟨a, u, hxa, h⟩
    · exact hx.runs s t hs hw h
    · refine (hf a).runs u t ?_ ((hx.operates.ok hxa).device.wired hw) h
      rw [(hx.attached.ok hxa).isOpen]
      exact hs

/-- A program on a device of the manager that is open fails by an exception only. -/
structure Graceful {α : Type} (x : DeviceM ε View α) : Prop where
  attached : Within Attached x
  operates : Within Operates x
  throws : ∀ s e t, s.dev.isOpen = true → Wired s.dev → x.run s = .error e t → ∃ what, e = .exception what

theorem Graceful.bind {α β : Type} {x : DeviceM ε View α} {f : α → DeviceM ε View β} (hx : Graceful x)
    (hf : ∀ a, Graceful (f a)) : Graceful (x >>= f) where
  attached := hx.attached.bind (fun a => (hf a).attached)
  operates := hx.operates.bind (fun a => (hf a).operates)
  throws s e t hs hw h := by
    rcases Base.bind_error_iff.1 h with h | ⟨a, u, hxa, h⟩
    · exact hx.throws s e t hs hw h
    · refine (hf a).throws u e t ?_ ((hx.operates.ok hxa).device.wired hw) h
      rw [(hx.attached.ok hxa).isOpen]
      exact hs

theorem onRegChange_throws {serial : String} {addr port : UInt8} {value : UInt16} {v w : View} {e : Fault}
    (h : (onRegChange serial addr port value).run v = .error e w) : ∃ what, e = .exception what := by
  simp only [onRegChange, EStateM.run_bind, EStateM.run_get] at h
  split at h
  · cases h
  · rename_i cb hcb
    simp only [notify, EStateM.run_bind, EStateM.run_modify] at h
    cases hthrown : cb serial addr port value with
    | none =>
      rw [hthrown] at h
      cases h
    | some what =>
      rw [hthrown] at h
      cases h
      exact ⟨what, rfl⟩

theorem regChanged_throws {addr port : UInt8} {value : UInt16} {s t : DeviceState ε View} {e : Fault} (hw : Wired s.dev)
    (h : (Device.regChanged addr port value).run s = .error e t) : ∃ what, e = .exception what := by
  simp only [Device.regChanged, EStateM.run_bind, EStateM.run_get] at h
  rcases hw with hw | hw
  · rw [hw] at h
    cases h
  · rw [hw] at h
    simp only [Base.run_zoom] at h
    split at h
    · cases h
    · rename_i e u hrun
      cases h
      exact onRegChange_throws hrun

namespace DeviceManager

open Device (Fresh)

variable {α : Type} {o : Prop} {m m' : DeviceManager ε} {r : Nat} {s : String} {d : Device ε View}

/-! ## The invariant -/

/-- **Every registered device is open.** -/
def AllOpen (m : DeviceManager ε) : Prop :=
  ∀ serial r, m.getDevice serial = some r → ∃ d, m.objects r = some d ∧ d.isOpen = true

/-- What an object keeps whatever happens to it. -/
structure Tidy (d : Device ε View) : Prop where
  fresh : Fresh d
  wired : Wired d

/-- What a step keeps of a device that the maps and the manager's callback rely on. -/
structure Same (d d' : Device ε View) : Prop where
  name : d'.name = d.name
  libusbDevice : d'.libusbDevice = d.libusbDevice
  wired : Wired d → Wired d'

theorem same_of_frame {d d' : Device ε View} (h : DeviceFrame d d') : Same d d' := ⟨h.name, h.libusbDevice, h.wired⟩

/-- The invariant; `o` says whether registered devices have to be open. -/
structure Ready (o : Prop) (m : DeviceManager ε) : Prop where
  bounded : ∀ r d, m.objects r = some d → r < m.nextRef
  tidy : ∀ r d, m.objects r = some d → Tidy d
  known : ∀ s r, m.serialMap.find? s = some r → ∃ d, m.objects r = some d
  linked : ∀ p r, m.deviceMap.find? p = some r →
    ∃ d, m.objects r = some d ∧ d.libusbDevice = p ∧ m.serialMap.find? d.name = some r
  allOpen : o → m.AllOpen

theorem Ready.congr (h : Ready o m) (hobj : m'.objects = m.objects) (hnext : m'.nextRef = m.nextRef)
    (hser : m'.serialMap = m.serialMap) (hdev : m'.deviceMap = m.deviceMap) : Ready o m' := by
  refine ⟨?_, ?_, ?_, ?_, fun ho s r hr => ?_⟩
  · rw [hobj, hnext]
    exact h.bounded
  · rw [hobj]
    exact h.tidy
  · rw [hobj, hser]
    exact h.known
  · rw [hobj, hser, hdev]
    exact h.linked
  · rw [getDevice, hser] at hr
    rw [hobj]
    exact h.allOpen ho s r hr

/-- An object is replaced by one that is open if it has to be. -/
theorem Ready.put (h : Ready o m) {d d' : Device ε View} (hd : m.objects r = some d) (ht : Tidy d') (hf : Same d d')
    (ho : o → (∃ s, m.getDevice s = some r) → d'.isOpen = true) : Ready o (m.withObject r (some d')) := by
  have hother : ∀ q, q ≠ r → (m.withObject r (some d')).objects q = m.objects q := fun q hq => Function.update_of_ne hq _ _
  have hself : (m.withObject r (some d')).objects r = some d' := withObject_self _ _ _
  refine ⟨fun q e hq => ?_, fun q e hq => ?_, fun s q hq => ?_, fun p q hq => ?_, fun hopen s q hq => ?_⟩
  · by_cases hqr : q = r
    · subst hqr
      exact h.bounded q d hd
    · rw [hother q hqr] at hq
      exact h.bounded q e hq
  · by_cases hqr : q = r
    · subst hqr
      rw [hself] at hq
      cases hq
      exact ht
    · rw [hother q hqr] at hq
      exact h.tidy q e hq
  · by_cases hqr : q = r
    · subst hqr
      exact ⟨d', hself⟩
    · rw [hother q hqr]
      exact h.known s q hq
  · obtain ⟨e, he, hp, hs⟩ := h.linked p q hq
    by_cases hqr : q = r
    · subst hqr
      rw [hd] at he
      cases he
      refine ⟨d', hself, hf.libusbDevice.trans hp, ?_⟩
      rw [hf.name]
      exact hs
    · exact ⟨e, (hother q hqr).trans he, hp, hs⟩
  · by_cases hqr : q = r
    · subst hqr
      exact ⟨d', hself, ho hopen ⟨s, hq⟩⟩
    · rw [hother q hqr]
      exact h.allOpen hopen s q hq

/-- An object nobody owns is dropped. -/
theorem Ready.drop (h : Ready o m) (hr : ¬ m.Owned r) : Ready o (m.withObject r none) := by
  have hser : ∀ s q, m.serialMap.find? s = some q → q ≠ r := by
    rintro s q hs rfl
    exact hr (.inr (mem_values_iff.2 ⟨s, hs⟩))
  have hdev : ∀ p q, m.deviceMap.find? p = some q → q ≠ r := by
    rintro p q hp rfl
    exact hr (.inl (mem_values_iff.2 ⟨p, hp⟩))
  have hother : ∀ q, q ≠ r → (m.withObject r none).objects q = m.objects q := fun q hq => Function.update_of_ne hq _ _
  have hsub : ∀ q e, (m.withObject r none).objects q = some e → m.objects q = some e := by
    intro q e hq
    by_cases hqr : q = r
    · subst hqr
      rw [withObject_self] at hq
      cases hq
    · rwa [hother q hqr] at hq
  refine ⟨fun q e hq => h.bounded q e (hsub q e hq), fun q e hq => h.tidy q e (hsub q e hq), fun s q hq => ?_,
    fun p q hq => ?_, fun ho s q hq => ?_⟩
  · rw [hother q (hser s q hq)]
    exact h.known s q hq
  · rw [hother q (hdev p q hq)]
    exact h.linked p q hq
  · rw [hother q (hser s q hq)]
    exact h.allOpen ho s q hq

theorem Ready.not_owned_next (h : Ready o m) : ¬ m.Owned m.nextRef := by
  rintro (hr | hr)
  · obtain ⟨p, hp⟩ := mem_values_iff.1 hr
    obtain ⟨d, hd, -, -⟩ := h.linked p _ hp
    exact Nat.lt_irrefl _ (h.bounded _ d hd)
  · obtain ⟨s, hs⟩ := mem_values_iff.1 hr
    obtain ⟨d, hd⟩ := h.known s _ hs
    exact Nat.lt_irrefl _ (h.bounded _ d hd)

theorem Ready.alloc (h : Ready o m) {d : Device ε View} (hd : Tidy d) : Ready o (m.alloc d) := by
  have hother : ∀ q, q ≠ m.nextRef → (m.alloc d).objects q = m.objects q := fun q hq => Function.update_of_ne hq _ _
  have hself : (m.alloc d).objects m.nextRef = some d := Function.update_self _ _ _
  have hser : ∀ s q, m.serialMap.find? s = some q → q ≠ m.nextRef := by
    rintro s q hs rfl
    exact h.not_owned_next (.inr (mem_values_iff.2 ⟨s, hs⟩))
  have hdev : ∀ p q, m.deviceMap.find? p = some q → q ≠ m.nextRef := by
    rintro p q hp rfl
    exact h.not_owned_next (.inl (mem_values_iff.2 ⟨p, hp⟩))
  refine ⟨fun q e hq => ?_, fun q e hq => ?_, fun s q hq => ?_, fun p q hq => ?_, fun ho s q hq => ?_⟩
  · have hnext : (m.alloc d).nextRef = m.nextRef + 1 := rfl
    rw [hnext]
    by_cases hqr : q = m.nextRef
    · omega
    · rw [hother q hqr] at hq
      exact Nat.lt_succ_of_lt (h.bounded q e hq)
  · by_cases hqr : q = m.nextRef
    · rw [hqr, hself] at hq
      cases hq
      exact hd
    · rw [hother q hqr] at hq
      exact h.tidy q e hq
  · rw [hother q (hser s q hq)]
    exact h.known s q hq
  · rw [hother q (hdev p q hq)]
    exact h.linked p q hq
  · rw [hother q (hser s q hq)]
    exact h.allOpen ho s q hq

/-- Both entries of a device are erased. -/
theorem Ready.erase (h : Ready o m) (hs : m.serialMap.find? s = some r) (hd : m.objects r = some d) :
    Ready o { m with serialMap := m.serialMap.erase s, deviceMap := m.deviceMap.erase d.libusbDevice } := by
  have hser : ∀ s' q, (m.serialMap.erase s).find? s' = some q → m.serialMap.find? s' = some q := by
    intro s' q hq
    rw [OrdMap.find?_erase] at hq
    split at hq
    · cases hq
    · exact hq
  refine ⟨h.bounded, h.tidy, fun s' q hq => h.known s' q (hser s' q hq), fun p q hq => ?_,
    fun ho s' q hq => h.allOpen ho s' q (hser s' q hq)⟩
  rw [OrdMap.find?_erase] at hq
  split at hq
  · cases hq
  · rename_i hp
    obtain ⟨e, he, rfl, hse⟩ := h.linked p q hq
    refine ⟨e, he, rfl, ?_⟩
    rw [OrdMap.find?_erase, if_neg]
    · exact hse
    · -- the entry of this serial is the device that goes
      intro hname
      rw [hname, hs] at hse
      cases hse
      rw [hd] at he
      cases he
      exact hp rfl

/-- Both entries of a device are made. -/
theorem Ready.enter (h : Ready o m) (hd : m.objects r = some d) (ho : o → d.isOpen = true)
    (hdev : m.deviceMap.find? d.libusbDevice = none) (hser : m.serialMap.find? d.name = none) :
    Ready o (m.entered d.libusbDevice r d.name) := by
  have hs : ∀ s, (m.entered d.libusbDevice r d.name).serialMap.find? s =
      if s = d.name then some r else m.serialMap.find? s := fun s => OrdMap.find?_insert_of_fresh hser s r
  have hp : ∀ p, (m.entered d.libusbDevice r d.name).deviceMap.find? p =
      if p = d.libusbDevice then some r else m.deviceMap.find? p := fun p => OrdMap.find?_insert_of_fresh hdev p r
  refine ⟨h.bounded, h.tidy, fun s q hq => ?_, fun p q hq => ?_, fun hopen s q hq => ?_⟩
  · rw [hs] at hq
    split at hq
    · cases hq
      exact ⟨d, hd⟩
    · exact h.known s q hq
  · rw [hp] at hq
    split at hq
    · cases hq
      rename_i hpd
      exact ⟨d, hd, hpd.symm, by rw [hs, if_pos rfl]⟩
    · obtain ⟨e, he, hpe, hse⟩ := h.linked p q hq
      refine ⟨e, he, hpe, ?_⟩
      rw [hs, if_neg]
      · exact hse
      · intro hname
        rw [hname, hser] at hse
        cases hse
  · rw [getDevice, hs] at hq
    split at hq
    · cases hq
      exact ⟨d, hd, ho hopen⟩
    · exact h.allOpen hopen s q hq

/-- A program on a device that leaves its context alone. -/
theorem ready_onDevice {x : DeviceM ε View α} (hx : Within Attached x) (hf : ∀ s, Same s.dev (final (x.run s)).dev)
    (r : Nat) : Within (Keeps (Ready o)) (onDevice r x) := by
  intro m hm
  cases h : m.objects r with
  | none =>
    rw [run_onDevice_none h]
    exact hm
  | some d =>
    have hat := hx ⟨d, ⟨m.notifier, m.getDeviceList⟩⟩
    have hsame := hf ⟨d, ⟨m.notifier, m.getDeviceList⟩⟩
    rw [final_onDevice h]
    have htidy : Tidy (final (x.run ⟨d, ⟨m.notifier, m.getDeviceList⟩⟩)).dev := by
      refine ⟨?_, hsame.wired (hm.tidy r d h).wired⟩
      unfold Fresh
      rw [hat.contexts, hat.nextContext]
      exact (hm.tidy r d h).fresh
    have hput := hm.put h htidy hsame (fun ho ⟨s, hs⟩ => by
      obtain ⟨e, he, hopen⟩ := hm.allOpen ho s r hs
      rw [h] at he
      cases he
      exact hat.isOpen.trans hopen)
    exact hput.congr rfl rfl rfl rfl

theorem ready_trackAll (r : Nat) : ∀ (watchlist : List AddrPort), Within (Keeps (Ready o)) (trackAll r watchlist : ManagerM ε Unit)
  | [] => Within.pure _
  | k :: watchlist => (ready_onDevice (x := Device.trackReg k.addr k.port) (fun _ => ⟨rfl, rfl, rfl⟩)
      (fun _ => ⟨rfl, rfl, fun h => h⟩) r).bind
      (fun _ => ready_trackAll r watchlist)

end DeviceManager

variable [Ftdi ε]

omit [Ftdi ε] in
theorem storeResult_throws {k : AddrPort} {value : UInt16} {s t : DeviceState ε View} {e : Fault} (hw : Wired s.dev)
    (h : (Device.storeResult k value).run s = .error e t) : ∃ what, e = .exception what := by
  simp only [Device.storeResult, EStateM.run_bind, EStateM.run_get] at h
  split at h
  · cases h
  · simp only [EStateM.run_bind, Device.modifyDev, EStateM.run_modify] at h
    split at h
    · exact regChanged_throws (by exact hw) h
    · cases h

theorem attached_rules : OperationRules (fun α (x : DeviceM ε View α) => Within Attached x) :=
  rules_within attached_usbCall (fun _ _ _ => ⟨rfl, rfl, rfl⟩) attached_regChanged

theorem survives_rules : OperationRules (fun α (x : DeviceM ε View α) => Survives x) where
  pure a := ⟨attached_rules.pure a, operates_rules.pure a, fun s t _ _ h => by cases h⟩
  raise what := ⟨attached_rules.raise what, operates_rules.raise what, fun s t _ _ h => by cases h⟩
  get := ⟨attached_rules.get, operates_rules.get, fun s t _ _ h => by cases h⟩
  bind := Survives.bind
  ftdiWriteData bytes := by
    refine ⟨attached_rules.ftdiWriteData bytes, operates_rules.ftdiWriteData bytes, fun s t _ _ h => ?_⟩
    simp only [Device.ftdiWriteData, EStateM.run_bind, EStateM.run_get] at h
    split at h <;> cases h
  ftdiReadData size := by
    refine ⟨attached_rules.ftdiReadData size, operates_rules.ftdiReadData size, fun s t hs _ h => ?_⟩
    rw [run_readData_cases hs] at h
    split at h
    · cases h
    · split at h <;> cases h
  storeResult k value := by
    refine ⟨attached_rules.storeResult k value, operates_rules.storeResult k value, fun s t _ hw h => ?_⟩
    obtain ⟨what, hwhat⟩ := storeResult_throws hw h
    cases hwhat

theorem graceful_rules : TransferRules (fun α (x : DeviceM ε View α) => Graceful x) where
  pure a := ⟨attached_rules.pure a, operates_rules.pure a, fun s e t _ _ h => by cases h⟩
  raise what := ⟨attached_rules.raise what, operates_rules.raise what, fun s e t _ _ h => by cases h; exact ⟨what, rfl⟩⟩
  get := ⟨attached_rules.get, operates_rules.get, fun s e t _ _ h => by cases h⟩
  bind := Graceful.bind
  ftdiWriteData bytes := by
    refine ⟨attached_rules.ftdiWriteData bytes, operates_rules.ftdiWriteData bytes, fun s e t hs _ h => ?_⟩
    rw [run_writeData hs] at h
    cases h
  ftdiReadDataWait size := by
    refine ⟨attached_rules.ftdiReadDataWait size, operates_rules.ftdiReadDataWait size, fun s e t hs hw h => ?_⟩
    cases e with
    | exception what => exact ⟨what, rfl⟩
    | crash => exact absurd h ((survives_rules.ftdiReadDataWait size).runs s t hs hw)
    | overrun => exact absurd h (ftdiReadDataWait_no_overrun size)
  storeResult k value :=
    ⟨attached_rules.storeResult k value, operates_rules.storeResult k value, fun s e t _ hw h => storeResult_throws hw h⟩

/-! ## Reprogramming -/

namespace Device

variable [Programmer ε]

/-- What `DeviceProgrammer` answers, and leaves of the environment. -/
def programmed (fnameBitfile : String) (usb : ε) : Option String × ε :=
  match Programmer.construct usb with
  | (none, usb) => Programmer.program fnameBitfile usb
  | (some what, usb) => (some what, usb)

/-- The device as `reprogramDevice` opens it again: closed, and programmed or not. -/
def reprogrammed (d : Device ε View) (fnameBitfile : String) : Device ε View :=
  { d.closed with usb := (programmed fnameBitfile d.closed.usb).2 }

/-- Nothing goes wrong between closing the device and having it open again. -/
def Reprograms (d : Device ε View) (fnameBitfile : String) : Prop :=
  (programmed fnameBitfile d.closed.usb).1 = none ∧ OpenSucceeds (d.reprogrammed fnameBitfile)

omit [Ftdi ε] in
theorem run_programming (fnameBitfile : String) (s : DeviceState ε View) :
    (do
      DeviceManager.programmerCall Programmer.construct
      DeviceManager.programmerCall (Programmer.program fnameBitfile) : DeviceM ε View Unit).run s =
    match (programmed fnameBitfile s.dev.usb).1 with
    | none => .ok () { s with dev := { s.dev with usb := (programmed fnameBitfile s.dev.usb).2 } }
    | some what => .error (.exception what) { s with dev := { s.dev with usb := (programmed fnameBitfile s.dev.usb).2 } } := by
  simp only [DeviceManager.programmerCall, EStateM.run_bind, run_usbCall, programmed]
  rcases Programmer.construct s.dev.usb with ⟨_ | what, e⟩
  · simp only [holding_usb, EStateM.run_pure]
    rcases Programmer.program fnameBitfile e with ⟨_ | what, e'⟩ <;> rfl
  · rfl

end Device

namespace DeviceManager

open Device (Fresh OpenSucceeds OpenResult)

variable {α : Type} {o : Prop} {m m' : DeviceManager ε} {r : Nat} {s : String} {d : Device ε View}

omit [Ftdi ε] in
/-- A silent program on a device moves the object and nothing else. -/
theorem run_onDevice_silent {x : DeviceM ε View α} (hx : Within Silent x) (hd : m.objects r = some d) :
    (onDevice r x).run m = match x.run ⟨d, ⟨m.notifier, m.getDeviceList⟩⟩ with
      | .ok a s => .ok a (m.withObject r (some s.dev))
      | .error e s => .error e (m.withObject r (some s.dev)) := by
  rw [run_onDevice_some hd]
  have hput : ∀ s : DeviceState ε View, s.out = ⟨m.notifier, m.getDeviceList⟩ →
      m.putBack r s = m.withObject r (some s.dev) := by
    intro s hs
    rw [putBack, hs]
    rfl
  cases h : x.run ⟨d, ⟨m.notifier, m.getDeviceList⟩⟩ with
  | ok a s => simp only [hput s (hx.ok h).out]
  | error e s => simp only [hput s (hx.error h).out]

/-- Opening a device again: it ends open and returns, or closed and throws. -/
theorem run_open {d : Device ε View} (hd : m.objects r = some d) (hclosed : d.isOpen = false) (hf : Fresh d) :
    ∃ d', Fresh d' ∧ DeviceFrame d d' ∧ ((onDevice r Device.openDevice).run m = .ok () (m.withObject r (some d')) ∧
        d'.isOpen = true ∧ OpenSucceeds d ∨
      ∃ what, (onDevice r Device.openDevice).run m = .error (.exception what) (m.withObject r (some d')) ∧
        d'.isOpen = false ∧ ¬ OpenSucceeds d) := by
  have hr : OpenResult (⟨d, ⟨m.notifier, m.getDeviceList⟩⟩ : DeviceState ε View) _ := Device.openDevice_result hclosed hf
  have hfresh := Device.Slot.fresh_of_openResult hr hf
  refine ⟨_, hfresh, (silent_openDevice (⟨d, ⟨m.notifier, m.getDeviceList⟩⟩ : DeviceState ε View)).device, ?_⟩
  rw [run_onDevice_silent silent_openDevice hd]
  generalize Device.openDevice.run (⟨d, ⟨m.notifier, m.getDeviceList⟩⟩ : DeviceState ε View) = res at hr ⊢
  cases hr with
  | opened n e hn ho => exact .inl ⟨rfl, rfl, ho⟩
  | released what n e hn hb ho => exact .inr ⟨what, rfl, hclosed, ho⟩
  | leaked what n e hn hb => exact .inr ⟨what, rfl, hclosed, fun ho => hb ho.interfaceB⟩

/-! ## The handlers -/

omit [Ftdi ε] in
theorem run_deref (hd : m.objects r = some d) : (deref r).run m = .ok d m := by
  simp only [deref, EStateM.run_bind, EStateM.run_get, hd]
  rfl

/-- Removing a device that is known by its serial: both entries go, and then the object unless something still owns it. -/
theorem run_removeDevice_known (hs : m.serialMap.find? s = some r) (hd : m.objects r = some d) :
    (removeDevice s).run m = (release r).run { m with
      serialMap := m.serialMap.erase s, deviceMap := m.deviceMap.erase d.libusbDevice, notifier := m.afterRemoved s } := by
  have hderef : (deref r).run { m with notifier := m.afterRemoved s } = .ok d { m with notifier := m.afterRemoved s } :=
    run_deref (m := { m with notifier := m.afterRemoved s }) hd
  simp only [removeDevice, EStateM.run_bind, EStateM.run_get, hs, run_notifyRemoved, hderef, EStateM.run_modify]

theorem ready_release (r : Nat) : Within (Keeps (Ready o)) (release r : ManagerM ε Unit) := by
  intro m hm
  by_cases ho : m.Owned r
  · have hrun : (release r).run m = .ok () m := by
      simp only [release, EStateM.run_bind, EStateM.run_get, if_pos ho]
      rfl
    rw [hrun]
    exact hm
  · cases hd : m.objects r with
    | none =>
      have hrun : (release r).run m = .error .crash m := by
        simp only [release, EStateM.run_bind, EStateM.run_get, if_neg ho, run_onDevice_none hd]
      rw [hrun]
      exact hm
    | some d =>
      rw [run_release ho hd]
      exact hm.drop ho

theorem ready_removeDevice (serial : String) : Within (Keeps (Ready o)) (removeDevice serial : ManagerM ε Unit) := by
  intro m hm
  cases hs : m.serialMap.find? serial with
  | none =>
    have hrun : (removeDevice serial).run m = .ok () m := by
      simp only [removeDevice, EStateM.run_bind, EStateM.run_get, hs]
      rfl
    rw [hrun]
    exact hm
  | some r =>
    obtain ⟨d, hd⟩ := hm.known serial r hs
    rw [run_removeDevice_known hs hd]
    exact ready_release r _ ((hm.erase hs hd).congr rfl rfl rfl rfl)

omit [Ftdi ε] in
theorem same_of_operates {x : DeviceM ε View α} (hx : Within Operates x) (s : DeviceState ε View) :
    Same s.dev (final (x.run s)).dev := same_of_frame (hx s).device

theorem ready_rules : HandlerRules (Keeps (Ready o) : DeviceManager ε → DeviceManager ε → Prop) where
  poll := ready_onDevice attached_rules.transfers.updateTrackedRegs (same_of_operates operates_updateTrackedRegs)
  request r op := ready_onDevice (attached_rules.deviceOp op) (same_of_operates (operates_deviceOp op)) r
  removes := ready_removeDevice
  armed _ hm := hm.congr rfl rfl rfl rfl

variable [Programmer ε]

/-- The programmer on the closed device. -/
theorem run_programmer (m : DeviceManager ε) (r : Nat) (d : Device ε View) (fnameBitfile : String) :
    (onDevice r (do
      programmerCall Programmer.construct
      programmerCall (Programmer.program fnameBitfile))).run (m.withObject r (some d.closed)) =
    match (Device.programmed fnameBitfile d.closed.usb).1 with
    | none => .ok () (m.withObject r (some (d.reprogrammed fnameBitfile)))
    | some what => .error (.exception what) (m.withObject r (some (d.reprogrammed fnameBitfile))) := by
  have hsilent : Within Silent (do
      programmerCall Programmer.construct
      programmerCall (Programmer.program fnameBitfile) : DeviceM ε View Unit) :=
    (silent_programmerCall _).bind (fun _ => silent_programmerCall _)
  rw [run_onDevice_silent hsilent (withObject_self m r (some d.closed)), Device.run_programming]
  cases (Device.programmed fnameBitfile d.closed.usb).1 <;> simp only [withObject_withObject] <;> rfl

/-- With something to program, `reprogramDevice` closes the device, and goes on to program it and to open it again. -/
theorem run_reprogramDevice (hd : m.objects r = some d) {desc : Description}
    (hdesc : findDescription d.name m.descriptions = some desc) (hfile : desc.fnameBitfile ≠ "") :
    (reprogramDevice (some r)).run m = (do
      catchException
        (onDevice r (do
          programmerCall Programmer.construct
          programmerCall (Programmer.program desc.fnameBitfile)))
        (fun what => do
          onDevice r Device.openDevice
          raise what)
      onDevice r Device.openDevice
      return true : ManagerM ε Bool).run (m.withObject r (some d.closed)) := by
  have hclose : (onDevice r Device.close).run m = .ok () (m.withObject r (some d.closed)) := by
    rw [run_onDevice_silent silent_close hd, Device.run_close]
  simp only [reprogramDevice, EStateM.run_bind, EStateM.run_get, deref, hd, EStateM.run_pure, hdesc, if_neg hfile, hclose]

/-- **Reprogramming a device** with a bitfile leaves it open if and only if it can be opened again, and returns only then;
nothing else changes. -/
theorem reprogramDevice_result (hd : m.objects r = some d) (hf : Fresh d) {desc : Description}
    (hdesc : findDescription d.name m.descriptions = some desc) (hfile : desc.fnameBitfile ≠ "") :
    ∃ d', Fresh d' ∧ DeviceFrame d d' ∧ (d'.isOpen = true ↔ OpenSucceeds (d.reprogrammed desc.fnameBitfile)) ∧
      ((reprogramDevice (some r)).run m = .ok true (m.withObject r (some d')) ∧ d.Reprograms desc.fnameBitfile ∨
        ∃ what, (reprogramDevice (some r)).run m = .error (.exception what) (m.withObject r (some d')) ∧
          ¬ d.Reprograms desc.fnameBitfile) := by
  let d1 := d.reprogrammed desc.fnameBitfile
  have hf1 : Fresh d1 := hf.closed
  have hclosed1 : d1.isOpen = false := by simp [d1, Device.reprogrammed, Device.isOpen]
  have hframe1 : DeviceFrame d d1 := by
    have := (silent_close (⟨d, ⟨m.notifier, []⟩⟩ : DeviceState ε View)).device
    rw [Device.run_close] at this
    exact ⟨this.name, this.libusbDevice, this.regChangedCb, this.keys⟩
  obtain ⟨d', hf', hframe, hopen⟩ := run_open (m := m.withObject r (some d1)) (withObject_self _ _ _) hclosed1 hf1
  simp only [withObject_withObject] at hopen
  refine ⟨d', hf', hframe1.trans hframe, ?_, ?_⟩
  · rcases hopen with ⟨-, h, ho⟩ | ⟨what, -, h, ho⟩
    · exact iff_of_true h ho
    · exact iff_of_false (by simp [h]) ho
  · rw [run_reprogramDevice hd hdesc hfile, EStateM.run_bind, catchException, Base.run_handle, run_programmer]
    -- the device is closed; programmed or not, it is opened again next
    cases hp : (Device.programmed desc.fnameBitfile d.closed.usb).1 with
    | none =>
      simp only
      rcases hopen with ⟨h, -, ho⟩ | ⟨what, h, -, ho⟩
      · exact .inl ⟨by rw [EStateM.run_bind, h]; rfl, hp, ho⟩
      · exact .inr ⟨what, by rw [EStateM.run_bind, h], fun hr => ho hr.2⟩
    | some what =>
      have hnot : ¬ d.Reprograms desc.fnameBitfile := fun hr => by cases hp.symm.trans hr.1
      simp only
      rcases hopen with ⟨h, -, -⟩ | ⟨what', h, -, -⟩
      · exact .inr ⟨what, by rw [EStateM.run_bind, h]; rfl, hnot⟩
      · exact .inr ⟨what', by rw [EStateM.run_bind, h], hnot⟩

/-! ## Bringing a device up -/

omit [Ftdi ε] [Programmer ε] in
theorem tidy_blank (dev : Nat) (serial : String) (usb : ε) : Tidy (blank dev serial usb) :=
  ⟨fun _ hc => absurd hc List.not_mem_nil, .inl rfl⟩

omit [Ftdi ε] [Programmer ε] in
theorem Tidy.step {d d' : Device ε View} (h : Tidy d) (hf : Fresh d') (hd : DeviceFrame d d') : Tidy d' :=
  ⟨hf, hd.wired h.wired⟩

omit [Ftdi ε] [Programmer ε] in
/-- A device whose channel has been closed and opened again is put in the place of its object. -/
theorem Ready.put_frame (h : Ready o m) {d d' : Device ε View} (hd : m.objects r = some d) (hf : Fresh d')
    (hframe : DeviceFrame d d') (ho : o → (∃ s, m.getDevice s = some r) → d'.isOpen = true) :
    Ready o (m.withObject r (some d')) :=
  h.put hd ((h.tidy r d hd).step hf hframe) (same_of_frame hframe) ho

omit [Programmer ε] in
/-- A constructor builds an open device, or destroys what it has begun and throws. -/
theorem makeDevice_result (dev : Nat) (serial : String) (usb : ε) (m : DeviceManager ε) :
    ∃ d, Fresh d ∧ DeviceFrame (blank dev serial usb) d ∧ ((makeDevice dev serial usb).run m = .ok m.nextRef (m.alloc d) ∧
        d.isOpen = true ∧ OpenSucceeds (blank dev serial usb : Device ε View) ∨
      ∃ what, (makeDevice dev serial usb).run m = .error (.exception what) ((m.alloc d).withObject m.nextRef none) ∧
        ¬ OpenSucceeds (blank dev serial usb : Device ε View)) := by
  have hrun : (makeDevice dev serial usb).run m = (catchException (onDevice m.nextRef Device.openDevice : ManagerM ε Unit)
      (fun what => do
        freeObject m.nextRef
        raise what) >>= fun _ => pure m.nextRef).run (m.alloc (blank dev serial usb)) := rfl
  have hself : (m.alloc (blank dev serial usb)).objects m.nextRef = some (blank dev serial usb) := Function.update_self _ _ _
  have halloc : ∀ d, (m.alloc (blank dev serial usb)).withObject m.nextRef (some d) = m.alloc d := by
    intro d
    simp only [alloc, withObject, Function.update_idem]
  obtain ⟨d, hf, hd, hopen⟩ := run_open hself rfl (tidy_blank dev serial usb).fresh
  refine ⟨d, hf, hd, ?_⟩
  rcases hopen with ⟨h, ho, hs⟩ | ⟨what, h, -, hs⟩
  · refine .inl ⟨?_, ho, hs⟩
    rw [hrun, EStateM.run_bind, catchException, Base.run_handle, h, halloc]
    rfl
  · refine .inr ⟨what, ?_, hs⟩
    rw [hrun, EStateM.run_bind, catchException, Base.run_handle, h, halloc]
    rfl

omit [Programmer ε] in
/-- A constructor that returns leaves an open device. -/
theorem ready_makeDevice (hm : Ready o m) (dev : Nat) (serial : String) (usb : ε) :
    Ready o (final ((makeDevice dev serial usb).run m)) ∧ ∀ q m', (makeDevice dev serial usb).run m = .ok q m' →
      q = m.nextRef ∧ ∃ d, m' = m.alloc d ∧ d.isOpen = true ∧ d.name = serial := by
  obtain ⟨d, hf, hd, ⟨h, ho, -⟩ | ⟨what, h, -⟩⟩ := makeDevice_result dev serial usb m
  · rw [h]
    refine ⟨hm.alloc ((tidy_blank dev serial usb).step hf hd), fun q m' hq => ?_⟩
    cases hq
    exact ⟨rfl, d, rfl, ho, hd.name⟩
  · rw [h]
    exact ⟨(hm.alloc ((tidy_blank dev serial usb).step hf hd)).drop hm.not_owned_next, fun q m' hq => by cases hq⟩

omit [Ftdi ε] [Programmer ε] in
/-- A bitfile is configured for the device, or none is. -/
theorem bitfile_cases (m : DeviceManager ε) (d : Device ε View) :
    (∃ desc, findDescription d.name m.descriptions = some desc ∧ desc.fnameBitfile ≠ "") ∨
      ∀ desc, findDescription d.name m.descriptions = some desc → desc.fnameBitfile = "" := by
  by_cases h : ∃ desc, findDescription d.name m.descriptions = some desc ∧ desc.fnameBitfile ≠ ""
  · exact .inl h
  · exact .inr (fun desc hdesc => by_contra (fun hfile => h ⟨desc, hdesc, hfile⟩))

omit [Ftdi ε] [Programmer ε] in
/-- What is asked of every device with a bitfile is asked of this one. -/
theorem bitfile_iff (hd : m.objects r = some d) {desc : Description}
    (hdesc : findDescription d.name m.descriptions = some desc) (hfile : desc.fnameBitfile ≠ "")
    (P : Device ε View → Description → Prop) :
    (∀ d' desc', m.objects r = some d' → findDescription d'.name m.descriptions = some desc' → desc'.fnameBitfile ≠ "" →
      P d' desc') ↔ P d desc := by
  constructor
  · exact fun h => h d desc hd hdesc hfile
  · intro h d' desc' hd' hdesc' _
    cases hd.symm.trans hd'
    cases hdesc.symm.trans hdesc'
    exact h

omit [Ftdi ε] [Programmer ε] in
theorem no_bitfile (hd : m.objects r = some d)
    (hnone : ∀ desc, findDescription d.name m.descriptions = some desc → desc.fnameBitfile = "") {d' : Device ε View}
    {desc' : Description} (hd' : m.objects r = some d') (hdesc' : findDescription d'.name m.descriptions = some desc') :
    desc'.fnameBitfile = "" := by
  cases hd.symm.trans hd'
  exact hnone desc' hdesc'

theorem reprogramDevice_dangling (h : m.objects r = none) : (reprogramDevice (some r)).run m = .error .crash m := by
  simp only [reprogramDevice, EStateM.run_bind, EStateM.run_get, deref, h]
  rfl

theorem reprogramDevice_skips (hd : m.objects r = some d)
    (h : ∀ desc, findDescription d.name m.descriptions = some desc → desc.fnameBitfile = "") :
    (reprogramDevice (some r)).run m = .ok false m := by
  simp only [reprogramDevice, EStateM.run_bind, EStateM.run_get, deref, hd, EStateM.run_pure]
  split
  · rfl
  · rename_i desc hdesc
    rw [if_pos (h desc hdesc)]
    rfl

/-- Reprogramming a device nobody has registered. -/
theorem ready_reprogramDevice (hm : Ready o m) (hd : m.objects r = some d) (hr : ¬ m.Owned r)
    (ho : d.isOpen = true) :
    Ready o (final ((reprogramDevice (some r)).run m)) ∧ ∀ b m', (reprogramDevice (some r)).run m = .ok b m' →
      ∃ d', m'.objects r = some d' ∧ d'.isOpen = true := by
  have hnot : ∀ {p : Prop}, (∃ s, m.getDevice s = some r) → p := fun ⟨s, hs⟩ =>
    absurd (.inr (mem_values_iff.2 ⟨s, hs⟩)) hr
  rcases bitfile_cases m d with ⟨desc, hdesc, hfile⟩ | hnone
  · obtain ⟨d', hf', hframe, ho', ⟨hrun, hr'⟩ | ⟨what, hrun, -⟩⟩ := reprogramDevice_result hd (hm.tidy r d hd).fresh hdesc hfile
    · rw [hrun]
      refine ⟨hm.put_frame hd hf' hframe (fun _ => hnot), fun b m' hq => ?_⟩
      cases hq
      exact ⟨d', withObject_self _ _ _, ho'.2 hr'.2⟩
    · rw [hrun]
      exact ⟨hm.put_frame hd hf' hframe (fun _ => hnot), fun b m' hq => by cases hq⟩
  · rw [reprogramDevice_skips hd hnone]
    refine ⟨hm, fun b m' hq => ?_⟩
    cases hq
    exact ⟨d, hd, ho⟩

theorem ready_reprogram (r : Nat) : Within (Keeps (Ready False)) (reprogramDevice (some r) : ManagerM ε Bool) := by
  intro m hm
  cases hd : m.objects r with
  | none => rwa [reprogramDevice_dangling hd]
  | some d =>
    rcases bitfile_cases m d with ⟨desc, hdesc, hfile⟩ | hnone
    · obtain ⟨d', hf', hframe, -, ⟨hrun, -⟩ | ⟨what, hrun, -⟩⟩ := reprogramDevice_result hd (hm.tidy r d hd).fresh hdesc hfile
      · rw [hrun]
        exact hm.put_frame hd hf' hframe (fun ho => ho.elim)
      · rw [hrun]
        exact hm.put_frame hd hf' hframe (fun ho => ho.elim)
    · rwa [reprogramDevice_skips hd hnone]

theorem ready_bringUp (hm : Ready o m) (dev : Nat) (strings : Except String String) (usb : ε) :
    Ready o (final ((bringUp dev strings usb).run m)) ∧ ∀ q desc m', (bringUp dev strings usb).run m = .ok (some (q, desc)) m' →
      ∃ d, m'.objects q = some d ∧ d.isOpen = true := by
  cases strings with
  | error what => exact ⟨hm, fun q desc m' h => by cases h⟩
  | ok serial =>
    rw [run_bringUp]
    split
    · exact ⟨hm, fun q desc m' h => by cases h⟩
    · split
      · exact ⟨hm, fun q desc m' h => by cases h⟩
      · rename_i desc hdesc
        obtain ⟨hmake, hmade⟩ := ready_makeDevice hm dev serial usb
        refine ⟨Base.final_bind hmake (fun q u hr hu => ?_), fun q desc' m' h => ?_⟩
        · obtain ⟨rfl, d, rfl, ho, -⟩ := hmade q u hr
          have hreprogram := (ready_reprogramDevice hu (Function.update_self _ _ _) hm.not_owned_next ho).1
          refine Base.final_bind (final_catchException (Base.final_bind hreprogram (fun _ _ _ ht => ht))
            (fun what t ht => ?_)) (fun _ _ _ ht => ht)
          exact Base.final_bind (ready_release m.nextRef t ht) (fun _ _ _ hv => hv)
        · obtain ⟨q', u, hr, h⟩ := Base.bind_ok_iff.1 h
          obtain ⟨rfl, d, rfl, ho, -⟩ := hmade q' u hr
          rw [hr] at hmake
          obtain ⟨_, v, hcatch, hpure⟩ := Base.bind_ok_iff.1 h
          cases hpure
          obtain ⟨b, w, hp, hpure⟩ := Base.bind_ok_iff.1 (ok_of_rethrow hcatch)
          cases hpure
          exact (ready_reprogramDevice hmake (Function.update_self _ _ _) hm.not_owned_next ho).2 b _ hp

omit [Ftdi ε] [Programmer ε] in
theorem ready_register (hm : Ready o m) (hd : m.objects r = some d) (ho : o → d.isOpen = true)
    (hdev : m.deviceMap.find? d.libusbDevice = none) (hser : m.serialMap.find? d.name = none) (desc : Description) :
    Ready o (final ((register d.libusbDevice r desc).run m)) := by
  have hentered := hm.enter hd ho hdev hser
  have hsetup : Within (Keeps (Ready o)) (do
      trackAll r desc.watchlist
      onDevice r (Device.setRegChangedCallback onRegChange) : ManagerM ε Unit) :=
    (ready_trackAll r desc.watchlist).bind (fun _ => ready_onDevice (x := Device.setRegChangedCallback onRegChange)
      (fun _ => ⟨rfl, rfl, rfl⟩) (fun _ => ⟨rfl, rfl, fun _ => .inr rfl⟩) r)
  rw [register, EStateM.run_bind, run_deref hd]
  simp only [EStateM.run_bind, EStateM.run_modify, EStateM.run_get]
  split
  · exact hsetup _ hentered
  · exact Base.final_bind (within_withView (R := Keeps (Ready o)) (fun _ _ hm => hm.congr rfl rfl rfl rfl) _ _ hentered)
      (fun _ t _ ht => hsetup t ht)

theorem ready_usbDeviceAdded (dev : Nat) (strings : Except String String) (usb : ε) :
    Within (Keeps (Ready o)) (usbDeviceAdded dev strings usb) := by
  intro m hm
  obtain ⟨hup, hopen⟩ := ready_bringUp hm dev strings usb
  refine final_usbDeviceAdded hm hup (fun d desc u hdev hb hbrought hu => ?_)
  obtain ⟨d', hd, ho⟩ := hopen _ desc u hb
  cases hbrought.object.symm.trans hd
  exact ready_register hu hbrought.object (fun _ => ho) (hbrought.handle_free hdev) hbrought.serial_free desc

/-! ## Handlers -/

/-- A device the request has reprogrammed can be opened again. -/
def Reopens (m : DeviceManager ε) : Action ε → Prop
  | .reprogram serial => ∀ r d desc, m.getDevice serial = some r → m.objects r = some d →
      findDescription d.name m.descriptions = some desc → desc.fnameBitfile ≠ "" →
      OpenSucceeds (d.reprogrammed desc.fnameBitfile)
  | _ => True

/-- A reprogram request returns, and leaves the device open if and only if it can be opened again. -/
theorem reprogram_result (hm : Ready o m) (serial : String) : ∃ m', m.step (.reprogram serial) = some m' ∧
    ((o → m.Reopens (.reprogram serial)) → Ready o m') ∧ (¬ m.Reopens (.reprogram serial) → ¬ m'.AllOpen) := by
  have hstep : ∀ {b : Bool} {m' : DeviceManager ε} {w : String},
      (reprogramDevice (m.getDevice serial)).run m = .ok b m' ∨
        (reprogramDevice (m.getDevice serial)).run m = .error (.exception w) m' →
      m.step (.reprogram serial) = some m' := by
    intro b m' what h
    simp only [step, Action.run, EStateM.run_bind, EStateM.run_get, catchException, Base.run_handle]
    rcases h with h | h <;> rw [h] <;> rfl
  cases hr : m.getDevice serial with
  | none =>
    rw [hr] at hstep
    refine ⟨m, hstep (b := false) (w := "") (.inl rfl), fun _ => hm, fun h => absurd (fun r d desc hq => ?_) h⟩
    rw [hr] at hq
    cases hq
  | some r =>
    rw [hr] at hstep
    obtain ⟨d, hd⟩ := hm.known serial r hr
    rcases bitfile_cases m d with ⟨desc, hdesc, hfile⟩ | hnone
    · obtain ⟨d', hf', hframe, hiff, hrun⟩ := reprogramDevice_result hd (hm.tidy r d hd).fresh hdesc hfile
      have hreopens : m.Reopens (.reprogram serial) ↔ d'.isOpen = true := by
        rw [hiff, ← bitfile_iff hd hdesc hfile (fun d desc => OpenSucceeds (d.reprogrammed desc.fnameBitfile))]
        constructor
        · exact fun h d' desc' => h r d' desc' hr
        · intro h r' d' desc' hr'
          cases hr.symm.trans hr'
          exact h d' desc'
      refine ⟨m.withObject r (some d'), ?_, fun h => ?_, fun h hopen => ?_⟩
      · rcases hrun with ⟨hrun, -⟩ | ⟨what, hrun, -⟩
        · exact hstep (w := "") (.inl hrun)
        · exact hstep (b := false) (.inr hrun)
      · exact hm.put_frame hd hf' hframe (fun ho _ => hreopens.1 (h ho))
      · obtain ⟨e, he, hoe⟩ := hopen serial r hr
        rw [withObject_self] at he
        cases he
        exact h (hreopens.2 hoe)
    · refine ⟨m, hstep (b := false) (w := "") (.inl (reprogramDevice_skips hd hnone)), fun _ => hm,
        fun h => absurd (fun r' d0 desc' hr' hd' hdesc' hfile' => ?_) h⟩
      cases hr.symm.trans hr'
      exact absurd (no_bitfile hd hnone hd' hdesc') hfile'

/-- **Every handler keeps the invariant**, a reprogram request the second part of it if the device can be opened again,
and only then. -/
theorem ready_step (hm : Ready o m) {a : Action ε} (hs : m.step a = some m') :
    ((o → m.Reopens a) → Ready o m') ∧ (m'.AllOpen → m.Reopens a) := by
  have hkeeps : Within (Keeps (Ready o)) a.run → Ready o m' := fun h => within_step h hs hm
  cases a with
  | usbDeviceAdded dev strings usb => exact ⟨fun _ => hkeeps (ready_usbDeviceAdded dev strings usb), fun _ => trivial⟩
  | usbDeviceRemoved dev => exact ⟨fun _ => hkeeps (ready_rules.usbDeviceRemoved dev), fun _ => trivial⟩
  | periodicRegisterUpdates => exact ⟨fun _ => hkeeps ready_rules.periodicRegisterUpdates, fun _ => trivial⟩
  | reprogram serial =>
    obtain ⟨u, hu, hready, hnot⟩ := reprogram_result hm serial
    rw [hs] at hu
    cases hu
    exact ⟨hready, fun h => by_contra (fun hr => hnot hr h)⟩
  | device serial op => exact ⟨fun _ => hkeeps (ready_rules.deviceRequest serial op), fun _ => trivial⟩

omit [Ftdi ε] [Programmer ε] in
theorem ready_initial (descriptions : List Description) (notifier : Notifier) :
    Ready o (initial descriptions notifier : DeviceManager ε) := by
  refine ⟨fun r d h => ?_, fun r d h => ?_, fun s r h => ?_, fun p r h => ?_, fun _ s r h => ?_⟩ <;> cases h

theorem ready_of_reachable {descriptions : List Description} {notifier : Notifier}
    (h : Reachable descriptions notifier m) : Ready False m := by
  induction h with
  | initial => exact ready_initial descriptions notifier
  | step a _ hs ih => exact (ready_step ih hs).1 (fun h => h.elim)

end DeviceManager

end Fpga
