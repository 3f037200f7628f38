import FpgaServer.Posted
import FpgaServer.ManagerReady
/-!
# Hotplug — departed devices are not registered

The hotplug callback of the manager posts a handler for each report of libusb; the event loop runs the posted handlers in
order, between register passes and requests.  libusb reports the arrival and the departure of a handle in turn.  The loop is
a registry that follows posted reports (`Step.registry`), so a registered handle is attached or its removal is queued
(`departed_unregistered`).  A report made while a handler runs has the effect of one made right before it.
-/
namespace Fpga

open Base (OrdMap Within Report Registry)

namespace DeviceManager

variable {ε α : Type} {S : Nat → Prop} {m m' : DeviceManager ε}

/-! ## Which handles a handler enters -/

/-- No handle is entered but those of `S`. -/
def Gains (S : Nat → Prop) (m m' : DeviceManager ε) : Prop :=
  ∀ p, m'.hasDevice p = true → S p ∨ m.hasDevice p = true

instance : IsPreorder (DeviceManager ε) (Gains S) where
  refl _ _ h := .inr h
  trans _ _ _ h h' p hp := (h' p hp).elim .inl (h p)

theorem gains_of_deviceMap (h : m'.deviceMap = m.deviceMap) : Gains S m m' := by
  intro p hp
  rw [hasDevice, h] at hp
  exact .inr hp

theorem gains_onDevice (x : DeviceM ε View α) (r : Nat) : Within (Gains S) (onDevice r x) := by
  intro m
  cases h : m.objects r with
  | none =>
    rw [run_onDevice_none h]
    exact refl m
  | some d =>
    rw [final_onDevice h]
    exact gains_of_deviceMap rfl

theorem gains_trackAll (r : Nat) : ∀ (watchlist : List AddrPort), Within (Gains S) (trackAll r watchlist : ManagerM ε Unit)
  | [] => Within.pure _
  | _ :: watchlist => (gains_onDevice _ r).bind (fun _ => gains_trackAll r watchlist)

theorem hasDevice_erase {p q : Nat} (h : ({ m with deviceMap := m.deviceMap.erase q } : DeviceManager ε).hasDevice p = true) :
    p ≠ q ∧ m.hasDevice p = true := by
  rw [hasDevice, OrdMap.find?_erase] at h
  split at h
  · cases h
  · exact ⟨by assumption, h⟩

theorem gains_register {dev : Nat} (hdev : S dev) (r : Nat) (desc : Description) :
    Within (Gains S) (register dev r desc : ManagerM ε Unit) := by
  refine (within_deref r).bind (fun d => Within.bind (Within.modify ?_) (fun _ => Within.bind (Within.modify ?_)
    (fun _ => Within.get.bind (fun m => ?_))))
  · intro m p hp
    rw [hasDevice, OrdMap.find?_insert] at hp
    split at hp
    · rename_i hpd
      rw [hpd]
      exact .inl hdev
    · exact .inr hp
  · exact fun m => gains_of_deviceMap rfl
  · have hsetup : Within (Gains S) (do
        trackAll r desc.watchlist
        onDevice r (Device.setRegChangedCallback onRegChange) : ManagerM ε Unit) :=
      (gains_trackAll r desc.watchlist).bind (fun _ => gains_onDevice _ r)
    split
    · exact hsetup
    · exact (within_withView (R := Gains S) (fun _ _ => gains_of_deviceMap rfl) _).bind (fun _ => hsetup)

variable [Ftdi ε]

theorem gains_release (r : Nat) : Within (Gains S) (release r : ManagerM ε Unit) := by
  refine Within.get.bind (fun m => ?_)
  split
  · exact Within.pure _
  · exact (gains_onDevice _ r).bind (fun _ => Within.modify (fun m => gains_of_deviceMap rfl))

theorem gains_removeDevice (serial : String) : Within (Gains S) (removeDevice serial : ManagerM ε Unit) := by
  refine Within.get.bind (fun m => ?_)
  split
  · exact Within.pure _
  · rename_i r hr
    refine (within_catchException (within_notifyRemoved (R := Gains S) (fun _ _ => gains_of_deviceMap rfl) serial)
      (fun _ => Within.pure _)).bind (fun _ =>
      (within_deref r).bind (fun d => Within.bind (Within.modify ?_) (fun _ => Within.bind (Within.modify ?_)
        (fun _ => gains_release r))))
    · exact fun m => gains_of_deviceMap rfl
    · exact fun m p hp => .inr (hasDevice_erase hp).2

theorem gains_rules : HandlerRules (Gains S : DeviceManager ε → DeviceManager ε → Prop) where
  poll := gains_onDevice _
  request r _ := gains_onDevice _ r
  removes := gains_removeDevice
  armed _ := gains_of_deviceMap rfl

variable [Programmer ε]

theorem gains_reprogramDevice (r : Nat) : Within (Gains S) (reprogramDevice (some r) : ManagerM ε Bool) :=
  handles_reprogramDevice.imp (fun _ _ h => gains_of_deviceMap (by rw [h.rest]; rfl))

theorem gains_usbDeviceAdded {dev : Nat} (hdev : S dev) (strings : Except String String) (usb : ε) :
    Within (Gains S) (usbDeviceAdded dev strings usb) := by
  refine Within.get.bind (fun m => ?_)
  split
  · exact Within.pure _
  · refine within_catchException (Within.bind (fun m => ?_) (fun x => ?_)) (fun _ => Within.pure _)
    · rcases (bringUp_spec dev strings usb m).1 with hsame | ⟨serial, hbuilds⟩
      · rw [hsame]
        exact refl m
      · exact gains_of_deviceMap (by rw [eq_alloc hbuilds]; rfl)
    · split
      · exact Within.pure _
      · exact gains_register hdev _ _

/-- The removal handler takes its handle out. -/
theorem usbDeviceRemoved_out {o : Prop} (hm : Ready o m) {dev : Nat} (hs : m.step (.usbDeviceRemoved dev) = some m') {p : Nat}
    (hp : m'.hasDevice p = true) : p ≠ dev ∧ m.hasDevice p = true := by
  rw [step] at hs
  split at hs
  · rename_i u hrun
    cases hs
    have hget : Action.run (.usbDeviceRemoved dev : Action ε) = usbDeviceRemoved dev := rfl
    rw [hget] at hrun
    simp only [usbDeviceRemoved, EStateM.run_bind, EStateM.run_get] at hrun
    cases hdev : m.deviceMap.find? dev with
    | none =>
      rw [hdev] at hrun
      cases hrun
      refine ⟨?_, hp⟩
      rintro rfl
      rw [hasDevice, hdev] at hp
      cases hp
    | some r =>
      obtain ⟨d, hd, rfl, hser⟩ := hm.linked dev r hdev
      rw [hdev] at hrun
      simp only [EStateM.run_bind, run_deref hd, run_removeDevice_known hser hd] at hrun
      rcases (gains_release (S := fun _ => False) r).ok hrun p hp with h | h
      · exact h.elim
      · exact hasDevice_erase (m := m) h
  · cases hs

end DeviceManager

open DeviceManager (Action Gains Ready ready_step ready_initial)

/-! ## The loop -/

/-- What the event loop runs besides the posted handlers. -/
inductive Pass where
  | periodicRegisterUpdates
  | reprogram (serial : String)
  | device (serial : String) (op : DeviceManager.DeviceOp)

def Pass.action {ε : Type} : Pass → Action ε
  | .periodicRegisterUpdates => .periodicRegisterUpdates
  | .reprogram serial => .reprogram serial
  | .device serial op => .device serial op

/-- The manager, the handles libusb has reported as arrived and not as left since, and the posted handlers. -/
structure HotplugLoop (ε : Type) where
  manager : DeviceManager ε
  attached : Nat → Bool
  queue : List (Report Nat)

/-- libusb reports, the first posted handler runs, or something else does. -/
inductive HotplugEvent (ε : Type) where
  | arrives (dev : Nat)
  | leaves (dev : Nat)
  | handler (strings : Except String String) (usb : ε)
  | pass (p : Pass)

namespace HotplugLoop

variable {ε : Type} [Ftdi ε] [Programmer ε] {s s' : HotplugLoop ε}

def initial (descriptions : List Description) (notifier : Notifier) : HotplugLoop ε where
  manager := DeviceManager.initial descriptions notifier
  attached _ := false
  queue := []

/-- The posted handler, with what it reads from the bus. -/
def posted (strings : Except String String) (usb : ε) : Report Nat → Action ε
  | .arrived dev => .usbDeviceAdded dev strings usb
  | .left dev => .usbDeviceRemoved dev

/-- The loop after an event; none if libusb does not make the report, no handler is posted, or the handler ends the loop. -/
def step (s : HotplugLoop ε) : HotplugEvent ε → Option (HotplugLoop ε)
  | .arrives dev =>
    if s.attached dev then none
    else some { s with attached := Function.update s.attached dev true, queue := s.queue ++ [.arrived dev] }
  | .leaves dev =>
    if s.attached dev then
      some { s with attached := Function.update s.attached dev false, queue := s.queue ++ [.left dev] }
    else none
  | .handler strings usb =>
    match s.queue with
    | [] => none
    | report :: queue =>
      (s.manager.step (posted strings usb report)).map (fun m => { s with manager := m, queue := queue })
  | .pass p => (s.manager.step p.action).map (fun m => { s with manager := m })

inductive Reachable (descriptions : List Description) (notifier : Notifier) : HotplugLoop ε → Prop where
  | initial : Reachable descriptions notifier (initial descriptions notifier)
  | step {s s' : HotplugLoop ε} (e : HotplugEvent ε) (h : Reachable descriptions notifier s) (hs : s.step e = some s') :
    Reachable descriptions notifier s'

theorem reachable_run {descriptions : List Description} {notifier : Notifier} : ∀ (events : List (HotplugEvent ε))
    {s s' : HotplugLoop ε}, Reachable descriptions notifier s → events.foldlM step s = some s' →
    Reachable descriptions notifier s'
  | [], s, s', h, hs => by
    cases hs
    exact h
  | e :: events, s, s', h, hs => by
    rw [List.foldlM_cons] at hs
    obtain ⟨t, ht, hs⟩ := Option.bind_eq_some_iff.1 hs
    exact reachable_run events (.step e h ht) hs

/-- The loop as a registry of handles. -/
def registry (s : HotplugLoop ε) : Registry Nat where
  attached dev := s.attached dev = true
  queue := s.queue
  registered dev := s.manager.hasDevice dev = true

theorem step_manager {e : HotplugEvent ε} (hs : s.step e = some s') :
    s'.manager = s.manager ∨ ∃ a, s.manager.step a = some s'.manager := by
  cases e with
  | arrives dev =>
    rw [step] at hs
    split at hs
    · cases hs
    · cases hs
      exact .inl rfl
  | leaves dev =>
    rw [step] at hs
    split at hs
    · cases hs
      exact .inl rfl
    · cases hs
  | handler strings usb =>
    rw [step] at hs
    split at hs
    · cases hs
    · obtain ⟨m, hm, rfl⟩ := Option.map_eq_some_iff.1 hs
      exact .inr ⟨_, hm⟩
  | pass p =>
    obtain ⟨m, hm, rfl⟩ := Option.map_eq_some_iff.1 hs
    exact .inr ⟨_, hm⟩

theorem Reachable.ready {descriptions : List Description} {notifier : Notifier} (h : Reachable descriptions notifier s) :
    Ready False s.manager := by
  induction h with
  | initial => exact ready_initial descriptions notifier
  | step e _ hs ih =>
    rcases step_manager hs with heq | ⟨a, ha⟩
    · rwa [heq]
    · exact (ready_step ih ha).1 False.elim

theorem pass_gains (p : Pass) : Within (Gains (fun _ => False)) (p.action : Action ε).run := by
  have hrules : DeviceManager.HandlerRules (Gains (fun _ => False) : DeviceManager ε → DeviceManager ε → Prop) :=
    DeviceManager.gains_rules
  cases p with
  | periodicRegisterUpdates => exact hrules.periodicRegisterUpdates
  | reprogram serial => exact DeviceManager.HandlerRules.reprogramRequest DeviceManager.gains_reprogramDevice serial
  | device serial op => exact hrules.deviceRequest serial op

/-- **The loop follows the posted reports.** -/
theorem Step.registry {e : HotplugEvent ε} (hm : Ready False s.manager) (hs : s.step e = some s') :
    Registry.Step s.registry s'.registry := by
  cases e with
  | arrives dev =>
    rw [step] at hs
    split at hs
    · cases hs
    · cases hs
      have hattached : (fun q => Function.update s.attached dev true q = true) = fun q => q = dev ∨ s.attached q = true := by
        funext q
        by_cases hq : q = dev <;> simp [hq]
      have hstep := Registry.Step.arrives (s := s.registry) dev
      simp only [registry, hattached] at hstep ⊢
      exact hstep
  | leaves dev =>
    rw [step] at hs
    split at hs
    · cases hs
      have hattached : (fun q => Function.update s.attached dev false q = true) = fun q => q ≠ dev ∧ s.attached q = true := by
        funext q
        by_cases hq : q = dev <;> simp [hq]
      have hstep := Registry.Step.leaves (s := s.registry) dev
      simp only [registry, hattached] at hstep ⊢
      exact hstep
    · cases hs
  | handler strings usb =>
    rw [step] at hs
    split at hs
    · cases hs
    · rename_i report queue hqueue
      obtain ⟨m, hstep, rfl⟩ := Option.map_eq_some_iff.1 hs
      cases report with
      | arrived dev =>
        refine .handlesArrival (s := s.registry) dev queue (fun q => m.hasDevice q = true) hqueue ?_
        have hadded : Within (Gains (fun q => q = dev)) (DeviceManager.usbDeviceAdded dev strings usb) :=
          DeviceManager.gains_usbDeviceAdded (S := fun q => q = dev) rfl strings usb
        exact DeviceManager.within_step (a := .usbDeviceAdded dev strings usb) hadded hstep
      | left dev =>
        refine .handlesDeparture (s := s.registry) dev queue (fun q => m.hasDevice q = true) hqueue (fun q hq => ?_)
        exact DeviceManager.usbDeviceRemoved_out hm hstep hq
  | pass p =>
    obtain ⟨m, hstep, rfl⟩ := Option.map_eq_some_iff.1 hs
    refine .other (s := s.registry) (fun q => m.hasDevice q = true) (fun q hq => ?_)
    exact (DeviceManager.within_step (pass_gains p) hstep q hq).resolve_left id

/-- **A registered handle is attached or its removal is queued**, in every run; so with no handler queued no departed device
is registered. -/
theorem departed_unregistered {descriptions : List Description} {notifier : Notifier}
    (h : Reachable descriptions notifier s) :
    (∀ dev, s.manager.hasDevice dev = true → s.attached dev = true ∨ Report.left dev ∈ s.queue) ∧
      (s.queue = [] → ∀ dev, s.manager.hasDevice dev = true → s.attached dev = true) := by
  have hcurrent : s.registry.Current := by
    induction h with
    | initial =>
      constructor
      · intro dev hdev
        cases hdev
      · intro before dev after hqueue
        simp [registry, initial] at hqueue
    | step e hr hs ih => exact (Step.registry hr.ready hs).current ih
  exact ⟨hcurrent.covered, fun hqueue dev hdev => hcurrent.attached_of_registered hqueue hdev⟩

/-- A device arrives, is entered and leaves again. -/
def arrivedAndLeft : Option (HotplugLoop (Line RegisterFile)) :=
  [.arrives 7, .handler (.ok "FPGA0001") ⟨⟨boundary, ⟨fun _ => 5⟩, [], []⟩, [], [], [], []⟩, .leaves 7].foldlM step
    (initial DeviceManager.oneDescription DeviceManager.setNotifier)

theorem departed_unregistered_one : ∃ s, arrivedAndLeft = some s ∧ s.manager.hasDevice 7 = true ∧ s.attached 7 = false ∧
    (s.attached 7 = true ∨ Report.left 7 ∈ s.queue) := by
  have hdevice : arrivedAndLeft.map (fun s => s.manager.hasDevice 7) = some true := by decide +kernel
  have hattached : arrivedAndLeft.map (fun s => s.attached 7) = some false := by decide +kernel
  obtain ⟨s, hs, hdev⟩ := Option.map_eq_some_iff.1 hdevice
  rw [hs] at hattached
  exact ⟨s, hs, hdev, Option.some.inj hattached, (departed_unregistered (reachable_run _ .initial hs)).1 7 hdev⟩

end HotplugLoop
end Fpga
