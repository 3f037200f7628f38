import FpgaServer.DeviceFrame
/-!
# ManagerStep — what each part of a handler does to the manager

Programs on one device move its object and may add its reports (`Works`), or do not even that (`Handles`); building a
device touches one fresh object (`Builds`); entering and removing a device are given as the state they end in
(`registered`, `unregistered`).
-/
namespace Fpga

open Base (OrdMap Within final)

namespace DeviceManager

variable {ε α : Type} {r : Nat}

/-! ## Programs on one device -/

theorem run_onDevice_none {m : DeviceManager ε} (h : m.objects r = none) (x : DeviceM ε View α) :
    (onDevice r x).run m = .error .crash m := by
  simp only [onDevice, EStateM.run_bind, EStateM.run_get, h]
  rfl

/-- The state with another object, or none, behind the reference. -/
def withObject (m : DeviceManager ε) (r : Nat) (o : Option (Device ε View)) : DeviceManager ε :=
  { m with objects := Function.update m.objects r o }

@[simp] theorem withObject_self (m : DeviceManager ε) (r : Nat) (o : Option (Device ε View)) :
    (m.withObject r o).objects r = o := Function.update_self _ _ _

@[simp] theorem withObject_withObject (m : DeviceManager ε) (r : Nat) (o p : Option (Device ε View)) :
    (m.withObject r o).withObject r p = m.withObject r p := by
  simp [withObject]

@[simp] theorem withObject_eq_self (m : DeviceManager ε) (r : Nat) : m.withObject r (m.objects r) = m := by
  simp [withObject]

/-- The state with the object and the notifier as a program on the object left them. -/
def putBack (m : DeviceManager ε) (r : Nat) (s : DeviceState ε View) : DeviceManager ε :=
  { m.withObject r (some s.dev) with notifier := s.out.notifier }

@[simp] theorem putBack_self (m : DeviceManager ε) (r : Nat) (s : DeviceState ε View) :
    (m.putBack r s).objects r = some s.dev := withObject_self m r _

theorem run_onDevice_some {m : DeviceManager ε} {d : Device ε View} (h : m.objects r = some d) (x : DeviceM ε View α) :
    (onDevice r x).run m = match x.run ⟨d, ⟨m.notifier, m.getDeviceList⟩⟩ with
      | .ok a s => .ok a (m.putBack r s)
      | .error e s => .error e (m.putBack r s) := by
  simp only [onDevice, EStateM.run_bind, EStateM.run_get, h, Base.run_zoom]
  cases x.run ⟨d, ⟨m.notifier, m.getDeviceList⟩⟩ <;> rfl

theorem final_onDevice {m : DeviceManager ε} {d : Device ε View} (h : m.objects r = some d) (x : DeviceM ε View α) :
    final ((onDevice r x).run m) = m.putBack r (final (x.run ⟨d, ⟨m.notifier, m.getDeviceList⟩⟩)) := by
  rw [run_onDevice_some h]
  cases x.run ⟨d, ⟨m.notifier, m.getDeviceList⟩⟩ <;> rfl

/-- The object moves within its frame, and reports. -/
structure Works (r : Nat) (m m' : DeviceManager ε) : Prop where
  rest : m' = { m.withObject r (m'.objects r) with notifier := m'.notifier }
  self : Option.Rel DeviceFrame (m.objects r) (m'.objects r)
  reports : (∀ d, m.objects r = some d → Wired d) →
    ∃ new, m'.notifier = { m.notifier with log := m.notifier.log ++ new } ∧
      ∀ n ∈ new, ∃ d, m.objects r = some d ∧ IsReport d m.getDeviceList n

/-- The object moves within its frame. -/
structure Handles (r : Nat) (m m' : DeviceManager ε) : Prop where
  rest : m' = m.withObject r (m'.objects r)
  self : Option.Rel DeviceFrame (m.objects r) (m'.objects r)

theorem rel_refl (o : Option (Device ε View)) : Option.Rel DeviceFrame o o := by
  cases o with
  | none => exact .none
  | some d => exact .some (.refl d)

theorem rel_trans {o p q : Option (Device ε View)} (h : Option.Rel DeviceFrame o p) (h' : Option.Rel DeviceFrame p q) :
    Option.Rel DeviceFrame o q := by
  cases h with
  | none =>
    cases h'
    exact .none
  | some hd =>
    cases h' with
    | some hd' => exact .some (hd.trans hd')

instance (r : Nat) : IsPreorder (DeviceManager ε) (Handles r) where
  refl m := ⟨(withObject_eq_self m r).symm, rel_refl _⟩
  trans m m' m'' h h' := by
    refine ⟨?_, rel_trans h.self h'.self⟩
    rw [h'.rest, h.rest]
    simp only [withObject_withObject, withObject_self]

theorem Handles.works {m m' : DeviceManager ε} (h : Handles r m m') : Works r m m' := by
  have hn : m'.notifier = m.notifier := by
    rw [h.rest]
    rfl
  refine ⟨by rw [hn]; exact h.rest, h.self, fun _ => ⟨[], ?_, fun n hn => absurd hn List.not_mem_nil⟩⟩
  rw [hn, List.append_nil]

theorem works_onDevice {x : DeviceM ε View α} (hx : Within Operates x) : Within (Works r) (onDevice r x) := by
  intro m
  cases h : m.objects r with
  | none =>
    rw [run_onDevice_none h]
    exact (refl (r := Handles r) m).works
  | some d =>
    have hop := hx ⟨d, ⟨m.notifier, m.getDeviceList⟩⟩
    rw [final_onDevice h]
    refine ⟨by rw [putBack_self]; rfl, ?_, fun hw => ?_⟩
    · rw [h, putBack_self]
      exact .some hop.device
    · obtain ⟨new, hnew, hreports⟩ := hop.reports (hw d h)
      refine ⟨new, ?_, fun n hn => ⟨d, h, hreports n hn⟩⟩
      rw [putBack, hnew]
      rfl

theorem handles_onDevice {x : DeviceM ε View α} (hx : Within Silent x) : Within (Handles r) (onDevice r x) := by
  intro m
  cases h : m.objects r with
  | none =>
    rw [run_onDevice_none h]
    exact refl m
  | some d =>
    have hop := hx ⟨d, ⟨m.notifier, m.getDeviceList⟩⟩
    rw [final_onDevice h]
    refine ⟨by rw [putBack_self, putBack, hop.out]; rfl, ?_⟩
    rw [h, putBack_self]
    exact .some hop.device

section
variable {R : DeviceManager ε → DeviceManager ε → Prop}

/-- A callback of the manager moves its log and nothing else. -/
theorem within_withView (hR : ∀ m n, R m { m with notifier := n }) (x : EStateM Fault View Unit) :
    Within R (withView x : ManagerM ε Unit) :=
  Within.zoom (Q := fun _ _ => True) (fun _ => trivial) (fun m v _ => hR m v.notifier)

variable [IsPreorder (DeviceManager ε) R]

/-- Reading an object changes nothing. -/
theorem within_deref (r : Nat) : Within R (deref r : ManagerM ε (Device ε View)) := by
  refine Within.get.bind (fun m => ?_)
  split
  · exact Within.throw _
  · exact Within.pure _

theorem within_notifyRemoved (hR : ∀ m n, R m { m with notifier := n }) (serial : String) :
    Within R (notifyRemoved serial : ManagerM ε Unit) := by
  refine Within.get.bind (fun m => ?_)
  split
  · split
    · exact Within.throw _
    · exact within_withView hR _
  · exact Within.pure _

end

/-! ## Entering a device -/

theorem run_onDevice_modifyDev {m : DeviceManager ε} {d : Device ε View} (h : m.objects r = some d)
    (f : Device ε View → Device ε View) : (onDevice r (Device.modifyDev f)).run m =
      .ok () (m.withObject r (some (f d))) := by
  rw [run_onDevice_some h]
  rfl

/-- Tracking a list of registers: they are added to the keys, and nothing else happens. -/
theorem run_trackAll : ∀ (watchlist : List AddrPort) (m : DeviceManager ε) (d : Device ε View), m.objects r = some d →
    ∃ regs, (trackAll r watchlist).run m =
        .ok () (m.withObject r (some { d with trackedRegs := regs })) ∧
      ∀ k, k ∈ regs.keys ↔ k ∈ d.trackedRegs.keys ∨ k ∈ watchlist
  | [], m, d, h => by
    refine ⟨d.trackedRegs, ?_, fun k => by simp⟩
    rw [← h, withObject_eq_self]
    rfl
  | k :: watchlist, m, d, h => by
    obtain ⟨regs, hrun, hkeys⟩ := run_trackAll watchlist
      (m.withObject r (some { d with trackedRegs := d.trackedRegs.insert ⟨k.addr, k.port⟩ 0 }))
      { d with trackedRegs := d.trackedRegs.insert ⟨k.addr, k.port⟩ 0 } (withObject_self _ _ _)
    refine ⟨regs, ?_, fun q => ?_⟩
    · rw [trackAll, EStateM.run_bind, Device.trackReg, run_onDevice_modifyDev h]
      simp only [hrun, withObject_withObject]
    · rw [hkeys, OrdMap.mem_keys_insert, List.mem_cons]
      tauto

theorem run_setup (watchlist : List AddrPort) {m : DeviceManager ε} {d : Device ε View} (h : m.objects r = some d) :
    ∃ regs, (do
        trackAll r watchlist
        onDevice r (Device.setRegChangedCallback onRegChange)).run m =
        .ok () (m.withObject r (some { d with trackedRegs := regs, regChangedCb := some onRegChange })) ∧
      ∀ k, k ∈ regs.keys ↔ k ∈ d.trackedRegs.keys ∨ k ∈ watchlist := by
  obtain ⟨regs, htrack, hkeys⟩ := run_trackAll watchlist m d h
  refine ⟨regs, ?_, hkeys⟩
  rw [EStateM.run_bind, htrack, Device.setRegChangedCallback]
  simp only [run_onDevice_modifyDev (withObject_self m r _), withObject_withObject]

/-- The notifier after the added callback, if one is set. -/
def afterAdded (m : DeviceManager ε) (serial : String) : Notifier :=
  match m.notifier.addedCb with
  | none => m.notifier
  | some _ => { m.notifier with log := m.notifier.log ++ [⟨.added serial, m.getDeviceList⟩] }

/-- Both maps with the new device. -/
def entered (m : DeviceManager ε) (dev r : Nat) (serial : String) : DeviceManager ε :=
  { m with deviceMap := m.deviceMap.insert dev r, serialMap := m.serialMap.insert serial r }

/-- The manager with the device entered, announced and tracking these registers. -/
def registered (m : DeviceManager ε) (dev r : Nat) (d : Device ε View) (regs : OrdMap AddrPort UInt16) :
    DeviceManager ε :=
  { (m.entered dev r d.name).withObject r (some { d with trackedRegs := regs, regChangedCb := some onRegChange }) with
    notifier := (m.entered dev r d.name).afterAdded d.name }

/-- **Entering a device**, with an added callback that does not throw. -/
theorem run_register {m : DeviceManager ε} {d : Device ε View} (h : m.objects r = some d)
    (hquiet : ∀ cb, m.notifier.addedCb = some cb → cb d.name = none) (dev : Nat) (desc : Description) :
    ∃ regs, (register dev r desc).run m = .ok () (m.registered dev r d regs) ∧
      ∀ k, k ∈ regs.keys ↔ k ∈ d.trackedRegs.keys ∨ k ∈ desc.watchlist := by
  obtain ⟨regs, hsetup, hkeys⟩ := run_setup desc.watchlist
    (m := { m.entered dev r d.name with notifier := (m.entered dev r d.name).afterAdded d.name }) (d := d) h
  refine ⟨regs, ?_, hkeys⟩
  have hderef : (deref r).run m = .ok d m := by
    simp only [deref, EStateM.run_bind, EStateM.run_get, h]
    rfl
  rw [register, EStateM.run_bind, hderef]
  simp only [EStateM.run_bind, EStateM.run_modify, EStateM.run_get]
  cases hcb : m.notifier.addedCb with
  | none =>
    have hafter : (m.entered dev r d.name).afterAdded d.name = m.notifier := by
      rw [afterAdded, entered]
      simp only [hcb]
    rw [hafter] at hsetup
    rw [registered, hafter]
    exact hsetup
  | some cb =>
    have hafter : (m.entered dev r d.name).afterAdded d.name = { m.notifier with
        log := m.notifier.log ++ [⟨.added d.name, (m.entered dev r d.name).getDeviceList⟩] } := by
      rw [afterAdded, entered]
      simp only [hcb]
    rw [hafter] at hsetup
    rw [registered, hafter]
    simp only [hquiet cb hcb]
    exact hsetup

/-! ## Removing a device -/

/-- The notifier after the removed callback: both callbacks have to be set. -/
def afterRemoved (m : DeviceManager ε) (serial : String) : Notifier :=
  match m.notifier.addedCb, m.notifier.removedCb with
  | some _, some _ => { m.notifier with log := m.notifier.log ++ [⟨.removed serial, m.getDeviceList⟩] }
  | _, _ => m.notifier

/-- The manager without the device. -/
def unregistered (m : DeviceManager ε) (r : Nat) (d : Device ε View) : DeviceManager ε :=
  { m.withObject r none with
    deviceMap := m.deviceMap.erase d.libusbDevice
    serialMap := m.serialMap.erase d.name
    notifier := m.afterRemoved d.name }

/-- The removed callback is called, or it is not; no exception of it passes. -/
theorem run_notifyRemoved (m : DeviceManager ε) (serial : String) :
    (catchException (notifyRemoved serial) (fun _ => pure ())).run m =
      .ok () { m with notifier := m.afterRemoved serial } := by
  rw [catchException, Base.run_handle]
  cases ha : m.notifier.addedCb with
  | none =>
    have hrun : (notifyRemoved serial).run m = .ok () m := by
      simp only [notifyRemoved, EStateM.run_bind, EStateM.run_get, ha]
      rfl
    have hafter : m.afterRemoved serial = m.notifier := by simp only [afterRemoved, ha]
    rw [hrun, hafter]
  | some added =>
    cases hr : m.notifier.removedCb with
    | none =>
      have hrun : (notifyRemoved serial).run m = .error (.exception "bad_function_call") m := by
        simp only [notifyRemoved, EStateM.run_bind, EStateM.run_get, ha, hr]
        rfl
      have hafter : m.afterRemoved serial = m.notifier := by simp only [afterRemoved, ha, hr]
      rw [hrun, hafter]
      rfl
    | some cb =>
      have hrun : (notifyRemoved serial).run m = (withView (notify (.removed serial) (cb serial))).run m := by
        simp only [notifyRemoved, EStateM.run_bind, EStateM.run_get, ha, hr]
        rfl
      have hafter : m.afterRemoved serial =
          { m.notifier with log := m.notifier.log ++ [⟨.removed serial, m.getDeviceList⟩] } := by
        simp only [afterRemoved, ha, hr]
      rw [hrun, hafter]
      cases cb serial <;> rfl

/-! ## Building a device -/

/-- The object moves within its frame, or is destroyed. -/
structure Builds (r : Nat) (m m' : DeviceManager ε) : Prop where
  rest : m' = m.withObject r (m'.objects r)
  self : ∀ d', m'.objects r = some d' → ∃ d, m.objects r = some d ∧ DeviceFrame d d'

theorem Handles.builds {m m' : DeviceManager ε} (h : Handles r m m') : Builds r m m' := by
  refine ⟨h.rest, fun d' hd' => ?_⟩
  have hself := h.self
  rw [hd'] at hself
  cases hm : m.objects r with
  | none => rw [hm] at hself; cases hself
  | some d =>
    rw [hm] at hself
    cases hself with
    | some hd => exact ⟨d, rfl, hd⟩

instance (r : Nat) : IsPreorder (DeviceManager ε) (Builds r) where
  refl m := (refl (r := Handles r) m).builds
  trans m m' m'' h h' := by
    refine ⟨?_, fun d'' hd'' => ?_⟩
    · rw [h'.rest, h.rest]
      simp only [withObject_withObject, withObject_self]
    · obtain ⟨d', hd', hf'⟩ := h'.self d'' hd''
      obtain ⟨d, hd, hf⟩ := h.self d' hd'
      exact ⟨d, hd, hf.trans hf'⟩

theorem builds_freeObject : Within (Builds r) (freeObject r : ManagerM ε Unit) := by
  intro m
  have hfinal : final ((freeObject r).run m) = m.withObject r none := rfl
  rw [hfinal]
  refine ⟨by rw [withObject_self], fun d' hd' => ?_⟩
  rw [withObject_self] at hd'
  cases hd'

/-- The device as the constructor finds it. -/
def blank (dev : Nat) (serial : String) (usb : ε) : Device ε View :=
  { name := serial, libusbDevice := dev, ftdi := none, trackedRegs := OrdMap.empty, regChangedCb := none, contexts := [],
    nextContext := 0, usb := usb }

/-- The next object taken into use. -/
def alloc (m : DeviceManager ε) (d : Device ε View) : DeviceManager ε :=
  { m.withObject m.nextRef (some d) with nextRef := m.nextRef + 1 }

theorem eq_alloc {m m' : DeviceManager ε} {d : Device ε View} (h : Builds m.nextRef (m.alloc d) m') :
    m' = { m.withObject m.nextRef (m'.objects m.nextRef) with nextRef := m.nextRef + 1 } := by
  refine h.rest.trans ?_
  simp only [alloc, withObject, Function.update_idem]

variable [Ftdi ε]

theorem builds_release : Within (Builds r) (release r : ManagerM ε Unit) := by
  refine Within.get.bind (fun m => ?_)
  split
  · exact Within.pure _
  · exact ((handles_onDevice silent_close).imp (fun _ _ => Handles.builds)).bind (fun _ => builds_freeObject)

theorem makeDevice_builds (dev : Nat) (serial : String) (usb : ε) (m : DeviceManager ε) :
    Builds m.nextRef (m.alloc (blank dev serial usb)) (final ((makeDevice dev serial usb).run m)) ∧
      ∀ q m', (makeDevice dev serial usb).run m = .ok q m' →
        q = m.nextRef ∧ Handles m.nextRef (m.alloc (blank dev serial usb)) m' := by
  have hopen : Within (Handles m.nextRef) (onDevice m.nextRef Device.openDevice : ManagerM ε Unit) :=
    handles_onDevice silent_openDevice
  have hguarded : Within (Builds m.nextRef) (catchException (onDevice m.nextRef Device.openDevice : ManagerM ε Unit)
      (fun what => do
        freeObject m.nextRef
        raise what)) :=
    within_catchException (hopen.imp (fun _ _ => Handles.builds)) (fun _ => builds_freeObject.bind (fun _ => Within.throw _))
  have hrun : (makeDevice dev serial usb).run m = (catchException (onDevice m.nextRef Device.openDevice : ManagerM ε Unit)
      (fun what => do
        freeObject m.nextRef
        raise what) >>= fun _ => pure m.nextRef).run (m.alloc (blank dev serial usb)) := rfl
  rw [hrun]
  refine ⟨hguarded.bind (fun _ => Within.pure _) _, fun q m' hq => ?_⟩
  obtain ⟨a, u, hguard, hpure⟩ := Base.bind_ok_iff.1 hq
  cases hpure
  exact ⟨rfl, hopen.ok (ok_of_rethrow hguard)⟩

/-- Closing does not fail. -/
theorem close_returns (s : DeviceState ε View) : ∃ t, (Device.close : DeviceM ε View Unit).run s = .ok () t := by
  simp only [Device.close, EStateM.run_bind, EStateM.run_get]
  split
  · exact ⟨_, rfl⟩
  · exact ⟨_, rfl⟩

/-! ## Bringing a device up -/

variable [Programmer ε]

theorem handles_reprogramDevice : Within (Handles r) (reprogramDevice (some r) : ManagerM ε Bool) := by
  refine Within.get.bind (fun m => (within_deref r).bind (fun d => ?_))
  split
  · exact Within.pure _
  · split
    · exact Within.pure _
    · have hopen : Within (Handles r) (onDevice r Device.openDevice : ManagerM ε Unit) := handles_onDevice silent_openDevice
      refine (handles_onDevice silent_close).bind (fun _ => ?_)
      refine (within_catchException (handles_onDevice ?_) (fun what => hopen.bind (fun _ => Within.throw _))).bind
        (fun _ => hopen.bind (fun _ => Within.pure _))
      exact (silent_programmerCall _).bind (fun _ => silent_programmerCall _)

/-- A bring-up that has built a device for the description. -/
structure BroughtUp (dev : Nat) (m m' : DeviceManager ε) (d : Device ε View) (desc : Description) : Prop where
  built : m' = m.alloc d
  libusbDevice : d.libusbDevice = dev
  silent : d.regChangedCb = none
  untracked : d.trackedRegs.keys = []
  unknown : m.serialMap.find? d.name = none
  described : findDescription d.name m.descriptions = some desc

section
variable {m m' : DeviceManager ε} {d : Device ε View} {desc : Description} {dev : Nat}

omit [Ftdi ε] [Programmer ε]

theorem BroughtUp.object (h : BroughtUp dev m m' d desc) : m'.objects m.nextRef = some d := by
  rw [h.built]
  exact withObject_self _ _ _

theorem BroughtUp.handle_free (h : BroughtUp dev m m' d desc) (hdev : ¬ m.hasDevice dev = true) :
    m'.deviceMap.find? d.libusbDevice = none := by
  rw [h.built, h.libusbDevice]
  exact Option.not_isSome_iff_eq_none.1 hdev

theorem BroughtUp.serial_free (h : BroughtUp dev m m' d desc) : m'.serialMap.find? d.name = none := by
  rw [h.built]
  exact h.unknown

theorem BroughtUp.description (h : BroughtUp dev m m' d desc) : findDescription d.name m'.descriptions = some desc := by
  rw [h.built]
  exact h.described

end

theorem run_bringUp (dev : Nat) (serial : String) (usb : ε) (m : DeviceManager ε) :
    (bringUp dev (.ok serial) usb).run m = (if m.hasSerial serial then pure none else
      match findDescription serial m.descriptions with
      | none => pure none
      | some desc => do
        let r ← makeDevice dev serial usb
        catchException (do let _ ← reprogramDevice (some r)) (fun what => do
          release r
          raise what)
        return some (r, desc)).run m := rfl

/-- A bring-up changes nothing, or one fresh object; where it yields a device, that device is not registered yet. -/
theorem bringUp_spec (dev : Nat) (strings : Except String String) (usb : ε) (m : DeviceManager ε) :
    (final ((bringUp dev strings usb).run m) = m ∨
      ∃ serial, Builds m.nextRef (m.alloc (blank dev serial usb)) (final ((bringUp dev strings usb).run m))) ∧
    ∀ q desc m', (bringUp dev strings usb).run m = .ok (some (q, desc)) m' →
      q = m.nextRef ∧ ∃ d, BroughtUp dev m m' d desc := by
  cases strings with
  | error what => exact ⟨Or.inl rfl, fun q desc m' h => by cases h⟩
  | ok serial =>
    rw [run_bringUp]
    split
    · exact ⟨Or.inl rfl, fun q desc m' h => by cases h⟩
    · rename_i hserial
      split
      · exact ⟨Or.inl rfl, fun q desc m' h => by cases h⟩
      · rename_i desc hdesc
        obtain ⟨hmake, hmade⟩ := makeDevice_builds dev serial usb m
        have hreprogram : Within (Handles m.nextRef) (do let _ ← reprogramDevice (some m.nextRef) : ManagerM ε Unit) :=
          handles_reprogramDevice.bind (fun _ => Within.pure _)
        have hguarded : Within (Builds m.nextRef) (catchException (do let _ ← reprogramDevice (some m.nextRef))
            (fun what => do
              release m.nextRef
              raise what) : ManagerM ε Unit) :=
          within_catchException (hreprogram.imp (fun _ _ => Handles.builds))
            (fun _ => builds_release.bind (fun _ => Within.throw _))
        rw [EStateM.run_bind]
        cases hr : (makeDevice dev serial usb).run m with
        | error e u =>
          rw [hr] at hmake
          exact ⟨Or.inr ⟨serial, hmake⟩, fun q desc m' h => by cases h⟩
        | ok q u =>
          obtain ⟨rfl, hu⟩ := hmade q u hr
          refine ⟨Or.inr ⟨serial, IsTrans.trans _ _ _ hu.builds (hguarded.bind (fun _ => Within.pure _) u)⟩,
            fun q desc' m' h => ?_⟩
          obtain ⟨_, v, hcatch, hpure⟩ := Base.bind_ok_iff.1 h
          cases hpure
          -- what was built is still there, and is what the constructor made but for its channel
          have hh : Handles m.nextRef (m.alloc (blank dev serial usb)) m' :=
            IsTrans.trans _ _ _ hu (hreprogram.ok (ok_of_rethrow hcatch))
          have hself := hh.self
          have hblank : (m.alloc (blank dev serial usb)).objects m.nextRef = some (blank dev serial usb) :=
            Function.update_self _ _ _
          have hm' := eq_alloc hh.builds
          rw [hblank] at hself
          cases hobj : m'.objects m.nextRef with
          | none => rw [hobj] at hself; cases hself
          | some d =>
            rw [hobj] at hself hm'
            cases hself with
            | some hd =>
              refine ⟨rfl, d, hm', hd.libusbDevice, hd.regChangedCb, hd.keys, ?_, ?_⟩
              · rw [hd.name]
                exact Option.not_isSome_iff_eq_none.1 hserial
              · rw [hd.name]
                exact hdesc

/-! ## The handlers, from their parts -/

/-- What the handlers of devices that are registered are made of moves the manager along `R`. -/
structure HandlerRules (R : DeviceManager ε → DeviceManager ε → Prop) : Prop where
  poll : ∀ r, Within R (onDevice r Device.updateTrackedRegs)
  request : ∀ r (op : DeviceOp), Within R (onDevice r op.run)
  removes : ∀ serial, Within R (removeDevice serial)
  armed : ∀ m, R m { m with timerWaits := m.timerWaits + 1 }

namespace HandlerRules

variable {R : DeviceManager ε → DeviceManager ε → Prop} [IsPreorder (DeviceManager ε) R]

omit [Programmer ε] in
theorem pollDevices (h : HandlerRules R) : ∀ (entries : List (String × Nat)),
    Within R (pollDevices entries : ManagerM ε Unit)
  | [] => Within.pure _
  | (serial, r) :: rest => by
    refine Within.get.bind (fun m => ?_)
    split
    · exact Within.throw _
    · refine (within_catchException (h.poll r) (fun _ => ?_)).bind (fun _ => h.pollDevices rest)
      exact (within_deref r).bind (fun d => h.removes d.name)

omit [Programmer ε] in
theorem periodicRegisterUpdates (h : HandlerRules R) : Within R (periodicRegisterUpdates : ManagerM ε Unit) :=
  Within.get.bind (fun _ => (h.pollDevices _).bind (fun _ => Within.modify h.armed))

omit [Programmer ε] in
theorem usbDeviceRemoved (h : HandlerRules R) (dev : Nat) : Within R (usbDeviceRemoved dev : ManagerM ε Unit) := by
  refine Within.get.bind (fun m => ?_)
  split
  · exact Within.pure _
  · exact (within_deref _).bind (fun d => h.removes d.name)

theorem deviceRequest (h : HandlerRules R) (serial : String) (op : DeviceOp) :
    Within R (Action.device serial op : Action ε).run := by
  refine Within.get.bind (fun m => ?_)
  split
  · exact Within.pure _
  · exact within_catchException (h.request _ op) (fun _ => Within.pure _)

theorem reprogramRequest (hr : ∀ r, Within R (reprogramDevice (some r) : ManagerM ε Bool)) (serial : String) :
    Within R (Action.reprogram serial : Action ε).run := by
  refine Within.get.bind (fun m => within_catchException ?_ (fun _ => Within.pure _))
  cases m.getDevice serial with
  | none => exact (Within.pure _).bind (fun _ => Within.pure _)
  | some r => exact (hr r).bind (fun _ => Within.pure _)

/-- **Every handler moves along `R`** if bringing a device up and reprogramming one do, too. -/
theorem action (h : HandlerRules R) (hadded : ∀ dev strings usb, Within R (usbDeviceAdded dev strings usb : ManagerM ε Unit))
    (hr : ∀ r, Within R (reprogramDevice (some r) : ManagerM ε Bool)) (a : Action ε) : Within R a.run := by
  cases a with
  | usbDeviceAdded dev strings usb => exact hadded dev strings usb
  | usbDeviceRemoved dev => exact h.usbDeviceRemoved dev
  | periodicRegisterUpdates => exact h.periodicRegisterUpdates
  | reprogram serial => exact reprogramRequest hr serial
  | device serial op => exact h.deviceRequest serial op

end HandlerRules

omit [Programmer ε] in
theorem HandlerRules.imp {R Q : DeviceManager ε → DeviceManager ε → Prop} (h : HandlerRules R) (hQ : ∀ m m', R m m' → Q m m') :
    HandlerRules Q where
  poll r := (h.poll r).imp hQ
  request r op := (h.request r op).imp hQ
  removes serial := (h.removes serial).imp hQ
  armed m := hQ _ _ (h.armed m)

theorem within_step {R : DeviceManager ε → DeviceManager ε → Prop} {m m' : DeviceManager ε} {a : Action ε}
    (ha : Within R a.run) (hs : m.step a = some m') : R m m' := by
  rw [step] at hs
  split at hs
  · rename_i u hrun
    cases hs
    exact ha.ok hrun
  · cases hs

end DeviceManager
end Fpga
