import FpgaServer.ManagerReady
/-!
# Pairing — the entries of the two maps come in pairs, whatever the callbacks do

`_usbDeviceAdded` makes both entries of a device before its callback can throw, and `_removeDevice` erases both after its
callback has thrown, so every handler keeps the maps paired.
-/
namespace Fpga

open Base (OrdMap Within final)

namespace DeviceManager

variable {ε α : Type} {m m' : DeviceManager ε} {r : Nat} {d : Device ε View}

/-! ## Parts of a handler -/

theorem paired_put (h : Paired m) {d' : Device ε View} (hd : m.objects r = some d) (hname : d'.name = d.name)
    (hhandle : d'.libusbDevice = d.libusbDevice) : Paired (m.withObject r (some d')) := by
  refine h.transfer rfl rfl (fun q e _ he => ?_) (fun q e he => ?_)
  · by_cases hq : q = r
    · subst hq
      cases hd.symm.trans he
      exact ⟨d', withObject_self _ _ _, hname, hhandle⟩
    · exact ⟨e, (Function.update_of_ne hq _ _).trans he, rfl, rfl⟩
  · by_cases hq : q = r
    · rw [hq]
      exact h.fresh r d hd
    · exact h.fresh q e ((Function.update_of_ne hq _ _).symm.trans he)

theorem paired_onDevice {x : DeviceM ε View α} (hf : ∀ s, Same s.dev (final (x.run s)).dev) (r : Nat) :
    Within (Keeps Paired) (onDevice r x) := by
  intro m hm
  cases h : m.objects r with
  | none =>
    rw [run_onDevice_none h]
    exact hm
  | some d =>
    have hsame := hf ⟨d, ⟨m.notifier, m.getDeviceList⟩⟩
    rw [final_onDevice h]
    exact (paired_put hm h hsame.name hsame.libusbDevice).congr rfl rfl rfl rfl

theorem paired_trackAll (r : Nat) : ∀ (watchlist : List AddrPort), Within (Keeps Paired) (trackAll r watchlist : ManagerM ε Unit)
  | [] => Within.pure _
  | k :: watchlist => (paired_onDevice (x := Device.trackReg k.addr k.port) (fun _ => ⟨rfl, rfl, fun h => h⟩) r).bind
      (fun _ => paired_trackAll r watchlist)

theorem paired_register (hm : Paired m) (hd : m.objects r = some d) (hdev : m.deviceMap.find? d.libusbDevice = none)
    (hser : m.serialMap.find? d.name = none) (desc : Description) :
    Paired (final ((register d.libusbDevice r desc).run m)) := by
  have hentered := paired_entered hm hd hdev hser
  have hsetup : Within (Keeps Paired) (do
      trackAll r desc.watchlist
      onDevice r (Device.setRegChangedCallback onRegChange) : ManagerM ε Unit) :=
    (paired_trackAll r desc.watchlist).bind (fun _ => paired_onDevice (x := Device.setRegChangedCallback onRegChange)
      (fun _ => ⟨rfl, rfl, fun _ => .inr rfl⟩) r)
  rw [register, EStateM.run_bind, run_deref hd]
  simp only [EStateM.run_bind, EStateM.run_modify, EStateM.run_get]
  split
  · exact hsetup _ hentered
  · exact Base.final_bind (within_withView (R := Keeps Paired) (fun _ _ hm => hm.congr rfl rfl rfl rfl) _ _ hentered)
      (fun _ t _ ht => hsetup t ht)

variable [Ftdi ε]

theorem paired_removeDevice (serial : String) : Within (Keeps Paired) (removeDevice serial : ManagerM ε Unit) := by
  intro m hm
  cases hs : m.serialMap.find? serial with
  | none =>
    have hrun : (removeDevice serial).run m = .ok () m := by
      simp only [removeDevice, EStateM.run_bind, EStateM.run_get, hs]
      rfl
    rw [hrun]
    exact hm
  | some r =>
    obtain ⟨d, hd, rfl, -⟩ := hm.serial serial r hs
    rw [run_removeDevice hm hs hd]
    exact paired_unregistered hm hs hd

theorem paired_rules : HandlerRules (Keeps Paired : DeviceManager ε → DeviceManager ε → Prop) where
  poll := paired_onDevice (same_of_operates operates_updateTrackedRegs)
  request r op := paired_onDevice (same_of_operates (operates_deviceOp op)) r
  removes := paired_removeDevice
  armed _ hm := hm.congr rfl rfl rfl rfl

variable [Programmer ε]

/-! ## Handlers -/

theorem paired_usbDeviceAdded (dev : Nat) (strings : Except String String) (usb : ε) :
    Within (Keeps Paired) (usbDeviceAdded dev strings usb) := by
  intro m hm
  have hup : Paired (final ((bringUp dev strings usb).run m)) := by
    rcases (bringUp_spec dev strings usb m).1 with hsame | ⟨serial, hbuilds⟩
    · rw [hsame]
      exact hm
    · exact paired_builds hm hbuilds
  exact final_usbDeviceAdded hm hup (fun d desc u hdev _ hbrought hu =>
    paired_register hu hbrought.object (hbrought.handle_free hdev) hbrought.serial_free desc)

theorem paired_reprogramDevice (r : Nat) : Within (Keeps Paired) (reprogramDevice (some r) : ManagerM ε Bool) := by
  refine handles_reprogramDevice.imp (fun m m' hh hm => ?_)
  have hrest := hh.rest
  refine hm.transfer (by rw [hrest]; rfl) (by rw [hrest]; rfl) (fun q d _ hd => ?_) (fun q d' hd' => ?_)
  · obtain ⟨d', hd', hf⟩ := hh.works.object hd
    exact ⟨d', hd', hf.name, hf.libusbDevice⟩
  · obtain ⟨d, hd, -⟩ := hh.works.object_of hd'
    rw [hrest]
    exact hm.fresh q d hd

/-- **Every handler keeps the maps paired.** -/
theorem paired_step (hm : Paired m) {a : Action ε} (hs : m.step a = some m') : Paired m' :=
  within_step (paired_rules.action paired_usbDeviceAdded paired_reprogramDevice a) hs hm

omit [Ftdi ε] [Programmer ε] in
theorem paired_initial (descriptions : List Description) (notifier : Notifier) :
    Paired (initial descriptions notifier : DeviceManager ε) := by
  refine ⟨fun p r h => ?_, fun s r h => ?_, fun r d h => ?_⟩ <;> cases h

theorem paired_of_reachable {descriptions : List Description} {notifier : Notifier}
    (h : Reachable descriptions notifier m) : Paired m := by
  induction h with
  | initial => exact paired_initial descriptions notifier
  | step a _ hs ih => exact paired_step ih hs

end DeviceManager
end Fpga
