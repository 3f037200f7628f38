import FpgaServer.RegisterPass
/-!
# Removal — who hears of a removed device

`_removeDevice` is reached from an unplugged device and from a failed poll.  Before it takes the device out it calls the
removed callback, but only if the *added* one is set; an empty removed callback throws there, and the exception is caught.
So a removal is announced as it should be if and only if a set removed callback comes with a set added one
(`removals_announced`), whatever the callbacks do and whenever they are changed.
-/
namespace Fpga

open Base (OrdMap)

namespace DeviceManager

variable {ε : Type} {m m' : DeviceManager ε}

def setAddedCallback (m : DeviceManager ε) (cb : Option (String → Option String)) : DeviceManager ε :=
  { m with notifier := { m.notifier with addedCb := cb } }

def setRemovedCallback (m : DeviceManager ε) (cb : Option (String → Option String)) : DeviceManager ε :=
  { m with notifier := { m.notifier with removedCb := cb } }

def setRegChangedCallback (m : DeviceManager ε) (cb : Option (String → UInt8 → UInt8 → UInt16 → Option String)) :
    DeviceManager ε :=
  { m with notifier := { m.notifier with regChangeCb := cb } }

/-- A handler runs, or a callback is set or emptied between two handlers. -/
inductive Happening (ε : Type) where
  | handler (a : Action ε)
  | setAddedCallback (cb : Option (String → Option String))
  | setRemovedCallback (cb : Option (String → Option String))
  | setRegChangedCallback (cb : Option (String → UInt8 → UInt8 → UInt16 → Option String))

variable [Ftdi ε] [Programmer ε]

/-- None if an exception escapes the handler, or it crashes. -/
def happens (m : DeviceManager ε) : Happening ε → Option (DeviceManager ε)
  | .handler a => m.step a
  | .setAddedCallback cb => some (m.setAddedCallback cb)
  | .setRemovedCallback cb => some (m.setRemovedCallback cb)
  | .setRegChangedCallback cb => some (m.setRegChangedCallback cb)

/-- The registered devices the handler is to remove: the unplugged one, or those whose polls fail. -/
def removes (m : DeviceManager ε) : Action ε → List String
  | .usbDeviceRemoved dev => (((m.deviceMap.find? dev).bind m.objects).map (·.name)).toList
  | .periodicRegisterUpdates => (m.serialMap.entries.filter (fun e => m.failsPoll e.2)).map Prod.fst
  | _ => []

/-- The serial and the handle are entries no more. -/
def TakenOut (m m' : DeviceManager ε) (serial : String) : Prop :=
  m'.serialMap.find? serial = none ∧
    ∀ r d, m.serialMap.find? serial = some r → m.objects r = some d → m'.deviceMap.find? d.libusbDevice = none

/-- The removed notices among these. -/
def removedSerials (notices : List Notice) : List String := (notices.map Notice.event).filterMap DeviceEvent.removedSerial

/-- The handler returns; each device it removes is out of both maps, and the removed callback has been called once for it,
if one is set. -/
def RemovesCleanly (m : DeviceManager ε) (a : Action ε) : Prop :=
  ∃ m', a.run.run m = .ok () m' ∧ (∀ serial ∈ m.removes a, TakenOut m m' serial) ∧
    ∃ new, m'.notifier.log = m.notifier.log ++ new ∧
      removedSerials new = if m.notifier.removedCb.isSome then m.removes a else []

/-- Where a removed callback is set, an added one is. -/
def Guarded (n : Notifier) : Prop := n.removedCb.isSome → n.addedCb.isSome

/-! ## One removal -/

theorem run_unplugged (hp : Paired m) {dev r : Nat} (hdev : m.deviceMap.find? dev = some r) : ∃ d, m.objects r = some d ∧
    m.removes (.usbDeviceRemoved dev) = [d.name] ∧ m.serialMap.find? d.name = some r ∧
      (Action.usbDeviceRemoved dev : Action ε).run.run m = .ok () (m.unregistered r d) := by
  obtain ⟨d, hd, rfl, hs⟩ := hp.device dev r hdev
  refine ⟨d, hd, ?_, hs, ?_⟩
  · simp [removes, hdev, hd]
  · have hget : (Action.usbDeviceRemoved d.libusbDevice : Action ε).run = usbDeviceRemoved d.libusbDevice := rfl
    rw [hget]
    simp only [usbDeviceRemoved, EStateM.run_bind, EStateM.run_get, hdev, run_deref hd]
    exact run_removeDevice hp hs hd

/-- **What a removing handler does**, whatever the callbacks do: the notices wait on both callbacks. -/
theorem run_removing (hp : Paired m) (hw : m.AllWired) {a : Action ε} (ha : m.removes a ≠ []) :
    ∃ m', a.run.run m = .ok () m' ∧ (∀ serial ∈ m.removes a, TakenOut m m' serial) ∧
      ∃ new, m'.notifier.log = m.notifier.log ++ new ∧
        removedSerials new =
          if m.notifier.addedCb.isSome ∧ m.notifier.removedCb.isSome then m.removes a else [] := by
  cases a with
  | usbDeviceRemoved dev =>
    cases hdev : m.deviceMap.find? dev with
    | none =>
      refine absurd ?_ ha
      simp [removes, hdev]
    | some r =>
      obtain ⟨d, hd, hremoves, hs, hrun⟩ := run_unplugged hp hdev
      obtain ⟨new, hnew, hevents⟩ := afterRemoved_logs m d.name
      rw [hremoves]
      refine ⟨_, hrun, fun serial hserial => ?_, new, ?_, ?_⟩
      · cases List.mem_singleton.1 hserial
        refine ⟨by rw [find?_unregistered_serial, if_pos rfl], fun q e hq he => ?_⟩
        cases hs.symm.trans hq
        cases hd.symm.trans he
        rw [find?_unregistered_device, if_pos rfl]
      · show (m.afterRemoved d.name).log = _
        rw [hnew]
      · rw [removedSerials, hevents]
        split <;> rfl
  | periodicRegisterUpdates =>
    obtain ⟨u, hrun, hu⟩ := run_periodicRegisterUpdates hp hw
    obtain ⟨new, hnew, hevents⟩ := hu.notifier
    refine ⟨_, hrun, fun serial hserial => ?_, new, by rw [hnew], ?_⟩
    · obtain ⟨e, he, rfl⟩ := List.mem_map.1 hserial
      obtain ⟨he, hfails⟩ := List.mem_filter.1 he
      have hs : m.serialMap.find? e.1 = some e.2 := OrdMap.mem_entries_iff.1 he
      have hgone : ∀ q, ¬ (q = e.2 ∧ m.failsPoll q = false) := by
        rintro q ⟨rfl, hq⟩
        cases hq.symm.trans hfails
      refine ⟨Option.eq_none_iff_forall_not_mem.2 (fun q hq => ?_), fun q d hq hd => ?_⟩
      · obtain ⟨hq, hok⟩ := (hu.serial_iff e.1 q).1 hq
        cases hs.symm.trans hq
        exact hgone _ ⟨rfl, hok⟩
      · cases hs.symm.trans hq
        refine Option.eq_none_iff_forall_not_mem.2 (fun q hq => ?_)
        obtain ⟨hq, hok⟩ := (hu.device_iff hp d.libusbDevice q).1 hq
        have hname : e.1 = d.name := hp.serial_unique hd hs
        rw [hname] at hs
        cases (hp.handle hs hd).symm.trans hq
        exact hgone _ ⟨rfl, hok⟩
    · rw [removedSerials, hevents, removedSerial_visits hw]
      rfl
  | usbDeviceAdded dev strings usb => exact absurd rfl ha
  | reprogram serial => exact absurd rfl ha
  | device serial op => exact absurd rfl ha

theorem removesCleanly_iff (hp : Paired m) (hw : m.AllWired) {a : Action ε} (ha : m.removes a ≠ []) :
    m.RemovesCleanly a ↔ Guarded m.notifier := by
  obtain ⟨m', hrun, hout, new, hnew, hremoved⟩ := run_removing hp hw ha
  constructor
  · rintro ⟨u, hrun', -, new', hnew', hremoved'⟩ hset
    cases hrun.symm.trans hrun'
    cases List.append_cancel_left (hnew.symm.trans hnew')
    by_contra hadded
    rw [if_pos hset, hremoved, if_neg (fun h => hadded h.1)] at hremoved'
    exact ha hremoved'.symm
  · intro hguard
    refine ⟨m', hrun, hout, new, hnew, ?_⟩
    rw [hremoved]
    by_cases hset : m.notifier.removedCb.isSome
    · rw [if_pos hset, if_pos ⟨hguard hset, hset⟩]
    · rw [if_neg hset, if_neg (fun h => hset h.2)]

/-! ## Runs -/

def happenings (descriptions : List Description) (n : Notifier) (events : List (Happening ε)) : Option (DeviceManager ε) :=
  events.foldlM happens (initial descriptions n)

/-- What holds after every run: the maps are paired, and the objects report to the manager. -/
structure Steady (m : DeviceManager ε) : Prop where
  paired : Paired m
  ready : Ready False m

theorem Steady.happens {e : Happening ε} (h : Steady m) (hs : m.happens e = some m') : Steady m' := by
  cases e with
  | handler a => exact ⟨paired_step h.paired hs, (ready_step h.ready hs).1 False.elim⟩
  | setAddedCallback cb =>
    cases hs
    exact ⟨h.paired.congr rfl rfl rfl rfl, h.ready.congr rfl rfl rfl rfl⟩
  | setRemovedCallback cb =>
    cases hs
    exact ⟨h.paired.congr rfl rfl rfl rfl, h.ready.congr rfl rfl rfl rfl⟩
  | setRegChangedCallback cb =>
    cases hs
    exact ⟨h.paired.congr rfl rfl rfl rfl, h.ready.congr rfl rfl rfl rfl⟩

omit [Ftdi ε] [Programmer ε] in
theorem Steady.wired (h : Steady m) : m.AllWired := fun r d hd => (h.ready.tidy r d hd).wired

theorem steady_happenings : ∀ (events : List (Happening ε)) {m m' : DeviceManager ε}, Steady m →
    events.foldlM happens m = some m' → Steady m'
  | [], m, m', h, hs => by
    cases hs
    exact h
  | e :: events, m, m', h, hs => by
    rw [List.foldlM_cons] at hs
    obtain ⟨u, hu, hs⟩ := Option.bind_eq_some_iff.1 hs
    exact steady_happenings events (h.happens hu) hs

/-- **Every removal of a run is clean if and only if at each of them a set removed callback comes with a set added one.** -/
theorem removals_announced (descriptions : List Description) (n : Notifier) (events : List (Happening ε)) :
    (∀ made a m, made ++ [.handler a] <+: events → happenings descriptions n made = some m → m.removes a ≠ [] →
      m.RemovesCleanly a) ↔
    ∀ made a m, made ++ [.handler a] <+: events → happenings descriptions n made = some m → m.removes a ≠ [] →
      Guarded m.notifier := by
  have hinit : Steady (initial descriptions n : DeviceManager ε) := ⟨paired_initial _ _, ready_initial _ _⟩
  refine forall_congr' (fun made => forall_congr' (fun a => forall_congr' (fun m => ?_)))
  refine forall_congr' (fun _ => forall_congr' (fun hm => forall_congr' (fun ha => ?_)))
  have hsteady := steady_happenings made hinit hm
  exact removesCleanly_iff hsteady.paired hsteady.wired ha

/-- One device, brought up and unplugged with no added callback. -/
def unheard : List (Happening (Line RegisterFile)) :=
  [.setRemovedCallback (some (fun _ => none)), .handler bringUpOne]

/-- **A removed callback is not called while the added one is empty.** -/
theorem removed_unheard : ¬ ∀ (descriptions : List Description) (n : Notifier)
    (events made : List (Happening (Line RegisterFile))) (a : Action (Line RegisterFile))
    (m : DeviceManager (Line RegisterFile)), made ++ [.handler a] <+: events →
    happenings descriptions n made = some m → m.removes a ≠ [] → m.RemovesCleanly a := by
  intro h
  have hstate : (happenings oneDescription ⟨none, none, none, []⟩ unheard).map (fun m =>
      (m.removes (.usbDeviceRemoved 7), [m.notifier.removedCb.isSome, m.notifier.addedCb.isSome])) =
      some (["FPGA0001"], [true, false]) := by decide +kernel
  obtain ⟨m, hm, hstate⟩ := Option.map_eq_some_iff.1 hstate
  simp only [Prod.mk.injEq, List.cons.injEq, and_true] at hstate
  obtain ⟨hremoves, hremoved, hadded⟩ := hstate
  have hne : m.removes (.usbDeviceRemoved 7) ≠ [] := by
    rw [hremoves]
    exact List.cons_ne_nil _ _
  have hinit : Steady (initial oneDescription ⟨none, none, none, []⟩ : DeviceManager (Line RegisterFile)) :=
    ⟨paired_initial _ _, ready_initial _ _⟩
  have hsteady := steady_happenings unheard hinit hm
  have hguard := (removesCleanly_iff hsteady.paired hsteady.wired hne).1
    (h oneDescription _ _ unheard _ m (List.prefix_refl _) hm hne) hremoved
  rw [hadded] at hguard
  cases hguard

end DeviceManager
end Fpga
