import FpgaServer.RegisterPass
import FpgaServer.ReadSizes
import FpgaServer.Pairing
import FpgaServer.SessionWire
/-!
# Watchlists — the registers a device polls

`_usbDeviceAdded` sets the change callback of a device last, so a device that has one has been set up to its end: whatever
the manager's own callbacks do, it tracks the watchlist of the first description that matches its serial
(`watching_of_reachable`).  While it is open, what `updateTrackedRegs` writes is one read command for each register of that
watchlist (`polls_watchlist`).
-/
namespace Fpga

open Base (OrdMap Within final)

namespace DeviceManager

variable {ε α : Type} {m m' : DeviceManager ε} {r : Nat} {d : Device ε View}

/-! ## Set-up devices -/

/-- A device that has its change callback tracks the watchlist of the first description that matches its name. -/
structure Watching (descriptions : List Description) (m : DeviceManager ε) : Prop where
  tracks : ∀ r d, m.objects r = some d → d.regChangedCb ≠ none →
    ∃ desc, findDescription d.name descriptions = some desc ∧ ∀ k, k ∈ d.trackedRegs.keys ↔ k ∈ desc.watchlist
  descriptions : m.descriptions = descriptions

/-- No object gets a change callback, and one that has it keeps its frame. -/
structure Retains (m m' : DeviceManager ε) : Prop where
  descriptions : m'.descriptions = m.descriptions
  objects : ∀ r d', m'.objects r = some d' → d'.regChangedCb ≠ none → ∃ d, m.objects r = some d ∧ DeviceFrame d d'

instance : IsPreorder (DeviceManager ε) Retains where
  refl _ := ⟨rfl, fun _ d' hd' _ => ⟨d', hd', .refl d'⟩⟩
  trans m m' m'' h h' := by
    refine ⟨h'.descriptions.trans h.descriptions, fun r d'' hd'' hcb => ?_⟩
    obtain ⟨d', hd', hf'⟩ := h'.objects r d'' hd'' hcb
    obtain ⟨d, hd, hf⟩ := h.objects r d' hd' (by rwa [← hf'.regChangedCb])
    exact ⟨d, hd, hf.trans hf'⟩

theorem Retains.watching {descriptions : List Description} (h : Retains m m') (hm : Watching descriptions m) :
    Watching descriptions m' := by
  refine ⟨fun r d' hd' hcb => ?_, h.descriptions.trans hm.descriptions⟩
  obtain ⟨d, hd, hf⟩ := h.objects r d' hd' hcb
  rw [hf.name, hf.keys]
  exact hm.tracks r d hd (by rwa [← hf.regChangedCb])

theorem Retains.of_objects (hobj : m'.objects = m.objects) (hdesc : m'.descriptions = m.descriptions) : Retains m m' :=
  ⟨hdesc, fun r d' hd' _ => ⟨d', by rw [← hobj]; exact hd', .refl d'⟩⟩

theorem Works.retains (h : Works r m m') : Retains m m' :=
  ⟨by rw [h.rest]; rfl, fun _ _ hd' _ => h.object_of hd'⟩

theorem Builds.retains (h : Builds r m m') : Retains m m' := by
  refine ⟨by rw [h.rest]; rfl, fun q d' hd' _ => ?_⟩
  by_cases hq : q = r
  · subst hq
    exact h.self d' hd'
  · rw [h.rest] at hd'
    exact ⟨d', (Function.update_of_ne hq _ _).symm.trans hd', .refl d'⟩

/-- A new object has no change callback yet. -/
theorem retains_alloc (h : d.regChangedCb = none) : Retains m (m.alloc d) := by
  refine ⟨rfl, fun q d' hd' hcb => ?_⟩
  by_cases hq : q = m.nextRef
  · subst hq
    have hself : (m.alloc d).objects m.nextRef = some d := Function.update_self _ _ _
    cases hself.symm.trans hd'
    exact absurd h hcb
  · exact ⟨d', (Function.update_of_ne hq _ _).symm.trans hd', .refl d'⟩

theorem retains_onDevice {x : DeviceM ε View α} (hx : Within Operates x) (r : Nat) : Within Retains (onDevice r x) :=
  (works_onDevice hx).imp (fun _ _ => Works.retains)

/-- **Entering a device**: whether the added callback throws or not, the device has its change callback only together with
its watchlist. -/
theorem watching_register {descriptions : List Description} {desc : Description} (hm : Watching descriptions m)
    (hd : m.objects r = some d) (huntracked : d.trackedRegs.keys = [])
    (hdesc : findDescription d.name descriptions = some desc) (dev : Nat) :
    Watching descriptions (final ((register dev r desc).run m)) := by
  have hsetup : ∀ t : DeviceManager ε, t.objects = m.objects → t.descriptions = m.descriptions →
      Watching descriptions (final ((do
        trackAll r desc.watchlist
        onDevice r (Device.setRegChangedCallback onRegChange) : ManagerM ε Unit).run t)) := by
    intro t hobj hdescs
    have ht := (Retains.of_objects hobj hdescs).watching hm
    obtain ⟨regs, hrun, hkeys⟩ := run_setup desc.watchlist (m := t) (d := d) (by rw [hobj]; exact hd)
    rw [hrun]
    refine ⟨fun q d' hd' hcb => ?_, ht.descriptions⟩
    by_cases hq : q = r
    · subst hq
      cases (withObject_self t q _).symm.trans hd'
      refine ⟨desc, hdesc, fun k => ?_⟩
      rw [hkeys, huntracked]
      simp
    · exact ht.tracks q d' ((Function.update_of_ne hq _ _).symm.trans hd') hcb
  rw [register, EStateM.run_bind, run_deref hd]
  simp only [EStateM.run_bind, EStateM.run_modify, EStateM.run_get]
  split
  · exact hsetup _ rfl rfl
  · have hentered : Watching descriptions (m.entered dev r d.name) := Retains.watching (m := m) (.of_objects rfl rfl) hm
    refine Base.final_bind ((within_withView (R := Retains) (fun _ _ => .of_objects rfl rfl) _ _).watching hentered) (fun a t ht _ => ?_)
    obtain ⟨v, -, rfl⟩ := Base.zoom_ok_iff.1 ht
    exact hsetup _ rfl rfl

/-! ## Handlers -/

variable [Ftdi ε]

theorem retains_removeDevice (serial : String) : Within Retains (removeDevice serial : ManagerM ε Unit) := by
  refine Within.get.bind (fun m => ?_)
  split
  · exact Within.pure _
  · refine (within_catchException (within_notifyRemoved (R := Retains) (fun _ _ => .of_objects rfl rfl) serial)
      (fun _ => Within.pure _)).bind (fun _ => ?_)
    refine (within_deref _).bind (fun d => Within.bind (Within.modify (fun _ => .of_objects rfl rfl)) (fun _ => ?_))
    refine Within.bind (Within.modify (fun _ => .of_objects rfl rfl)) (fun _ => ?_)
    exact builds_release.imp (fun _ _ => Builds.retains)

theorem retains_rules : HandlerRules (Retains : DeviceManager ε → DeviceManager ε → Prop) where
  poll := retains_onDevice operates_updateTrackedRegs
  request r op := retains_onDevice (operates_deviceOp op) r
  removes := retains_removeDevice
  armed _ := .of_objects rfl rfl

variable [Programmer ε] {descriptions : List Description}

theorem watching_usbDeviceAdded (dev : Nat) (strings : Except String String) (usb : ε) :
    Within (Keeps (Watching descriptions)) (usbDeviceAdded dev strings usb) := by
  intro m hm
  have hup : Retains m (final ((bringUp dev strings usb).run m)) := by
    rcases (bringUp_spec dev strings usb m).1 with hsame | ⟨serial, hbuilds⟩
    · rw [hsame]
      exact refl m
    · exact IsTrans.trans _ _ _ (retains_alloc (d := blank dev serial usb) rfl) hbuilds.retains
  refine final_usbDeviceAdded hm (hup.watching hm) (fun d desc u _ _ hbrought hu => ?_)
  refine watching_register hu hbrought.object hbrought.untracked ?_ d.libusbDevice
  rw [← hm.descriptions]
  exact hbrought.described

theorem watching_step {a : Action ε} (hm : Watching descriptions m) (hs : m.step a = some m') : Watching descriptions m' := by
  have hkeeps : ∀ m m' : DeviceManager ε, Retains m m' → Keeps (Watching descriptions) m m' :=
    fun _ _ h hm => h.watching hm
  exact within_step ((retains_rules.imp hkeeps).action watching_usbDeviceAdded
    (fun _ => handles_reprogramDevice.imp (fun _ _ h => hkeeps _ _ h.works.retains)) a) hs hm

/-- **In every run, with any callbacks, a device that is set up tracks its watchlist.** -/
theorem watching_of_reachable {notifier : Notifier} (h : Reachable descriptions notifier m) : Watching descriptions m := by
  induction h with
  | initial => exact ⟨fun r d hd => (by cases hd), rfl⟩
  | step a _ hs ih => exact watching_step ih hs

end DeviceManager

/-! ## What a poll sends -/

variable {ε : Type}

/-- Nothing is written. -/
def WritesNothing (s t : DeviceState (Logged ε) View) : Prop := t.dev.usb.writes = s.dev.usb.writes

instance : IsPreorder (DeviceState (Logged ε) View) WritesNothing where
  refl _ := rfl
  trans _ _ _ h h' := Eq.trans h' h

theorem writesNothing_storeResult (k : AddrPort) (value : UInt16) :
    Within WritesNothing (Device.storeResult k value : DeviceM (Logged ε) View Unit) := by
  refine Within.get.bind (fun s => ?_)
  split
  · exact Within.pure _
  · refine Within.bind (Within.modify (fun _ => rfl)) (fun _ => ?_)
    split
    · refine Within.get.bind (fun s => ?_)
      split
      · exact Within.pure _
      · exact Within.zoom (Q := fun _ _ => True) (fun _ => trivial) (fun _ _ _ => rfl)
    · exact Within.pure _

theorem writesNothing_storeResults : ∀ (kvs : List (AddrPort × UInt16)),
    Within WritesNothing (Device.storeResults kvs : DeviceM (Logged ε) View Unit)
  | [] => Within.pure _
  | kv :: kvs => (writesNothing_storeResult kv.1 kv.2).bind (fun _ => writesNothing_storeResults kvs)

variable [Ftdi ε]

theorem writesNothing_readData (size : Int) :
    Within WritesNothing (Device.ftdiReadData size : DeviceM (Logged ε) View (Except Int (List UInt8))) := by
  exact within_ftdiReadData (fun _ => rfl)

theorem writesNothing_readLoop (size : Int) : ∀ (i : Nat) (recv : List UInt8),
    Within WritesNothing (Device.readLoop size i recv : DeviceM (Logged ε) View (List UInt8))
  | 0, recv => Within.pure recv
  | i + 1, recv => by
    refine (writesNothing_readData _).bind (fun r => ?_)
    cases r with
    | error code => exact Within.throw _
    | ok bytes =>
      simp only
      split
      · exact writesNothing_readLoop size i _
      · exact Within.pure _

/-- **A poll of an open device** writes one buffer, with one read packet for each tracked register, or nothing where there
are none. -/
theorem writes_updateTrackedRegs {s : DeviceState (Logged ε) View} (hopen : s.dev.isOpen = true) :
    ∃ n, (final (Device.updateTrackedRegs.run s)).dev.usb.writes = s.dev.usb.writes ++
      if s.dev.trackedRegs.keys = [] then [] else [(Device.readRegPackets s.dev.trackedRegs.keys, n)] := by
  simp only [Device.updateTrackedRegs, EStateM.run_bind, EStateM.run_get]
  split
  · exact ⟨0, (List.append_nil _).symm⟩
  · obtain ⟨t, hwrite, ht⟩ := run_writeData_logged hopen (Device.readRegPackets s.dev.trackedRegs.keys)
    refine ⟨_, Eq.trans ?_ ht.writes⟩
    have hrest : ∀ n : Int, Within WritesNothing (do
        raiseIf (n ≠ cInt (2 * s.dev.trackedRegs.keys.length)) "FTDI write error"
        let recv ← Device.ftdiReadDataWait (cInt (2 * s.dev.trackedRegs.keys.length))
        Device.storeResults (s.dev.trackedRegs.keys.zip (words recv)) : DeviceM (Logged ε) View Unit) := by
      refine fun n => (within_raiseIf _ _).bind (fun _ => ?_)
      refine ((writesNothing_readLoop _ 100 []).bind (fun _ => (within_raiseIf _ _).bind (fun _ => Within.pure _))).bind
        (fun _ => writesNothing_storeResults _)
    rw [EStateM.run_bind, hwrite]
    exact hrest _ t

namespace DeviceManager

variable {m : DeviceManager (Logged ε)} {d : Device (Logged ε) View}

/-- A poll of the device hands the channel one buffer, and it holds a read command for the register. -/
def Polls (m : DeviceManager (Logged ε)) (d : Device (Logged ε) View) (reg : Reg) : Prop :=
  ∃ bytes n cmds, (final (m.poll d)).dev.usb.writes = d.usb.writes ++ [(bytes, n)] ∧ decode bytes = some cmds ∧
    .readReg reg ∈ cmds

theorem decode_readRegPackets (keys : List AddrPort) :
    decode (Device.readRegPackets keys) = some (keys.map (fun k => .readReg k.reg)) := by
  have hreads : commandParser.run boundary (Device.readRegPackets keys) = _ := reads_poll keys
  rw [decode, hreads, if_pos rfl, filterMap_command_map]

/-- **An open device is polled for the registers it tracks**, and no others. -/
theorem polls_iff (hopen : d.isOpen = true) (reg : Reg) : m.Polls d reg ↔ ∃ k ∈ d.trackedRegs.keys, k.reg = reg := by
  obtain ⟨n, hwrites⟩ := writes_updateTrackedRegs (s := ⟨d, ⟨m.notifier, m.getDeviceList⟩⟩) hopen
  simp only at hwrites
  rw [Polls, poll, hwrites]
  split
  · rename_i hnil
    simp [hnil]
  · constructor
    · rintro ⟨bytes, n', cmds, hbytes, hcmds, hmem⟩
      cases List.append_cancel_left hbytes
      rw [decode_readRegPackets] at hcmds
      cases hcmds
      simpa using hmem
    · rintro ⟨k, hk, rfl⟩
      exact ⟨_, n, _, rfl, decode_readRegPackets _, List.mem_map.2 ⟨k, hk, rfl⟩⟩

/-- **A device that is set up and open is polled for the registers of its watchlist**, and no others, in every run and with
any callbacks. -/
theorem polls_watchlist [Programmer ε] {descriptions : List Description} {notifier : Notifier} {serial : String} {r : Nat}
    {desc : Description} (h : Reachable descriptions notifier m) (hs : m.getDevice serial = some r) (hd : m.objects r = some d)
    (hopen : d.isOpen = true) (hset : d.regChangedCb ≠ none) (hdesc : findDescription serial descriptions = some desc)
    (reg : Reg) : m.Polls d reg ↔ ∃ k ∈ desc.watchlist, k.reg = reg := by
  obtain ⟨d', hd', rfl, -⟩ := (paired_of_reachable h).serial serial r hs
  cases hd.symm.trans hd'
  obtain ⟨desc', hdesc', hkeys⟩ := (watching_of_reachable h).tracks r d hd hset
  cases hdesc.symm.trans hdesc'
  simp only [polls_iff hopen, hkeys]

/-! ## A bring-up that goes well -/

/-- Where no call on the device fails, it is brought up and set up. -/
theorem setUp_of_calls_succeed [Programmer ε] {descriptions : List Description} {n : Notifier} {serial : String}
    {desc : Description} (hopen : ∀ d : Device ε View, Device.OpenSucceeds d)
    (hprogram : ∀ fname (usb : ε), (Device.programmed fname usb).1 = none) (hn : n.addedCb = none)
    (hdesc : findDescription serial descriptions = some desc) (usb : ε) :
    ∃ (m : DeviceManager ε) (d : Device ε View), Reachable descriptions n m ∧ m.getDevice serial = some 0 ∧
      m.objects 0 = some d ∧ d.isOpen = true ∧ d.regChangedCb ≠ none := by
  let m0 : DeviceManager ε := initial descriptions n
  have hself : ∀ d, (m0.alloc d).objects 0 = some d := fun d => withObject_self m0 0 _
  have halloc : ∀ d d', (m0.alloc d).withObject 0 (some d') = m0.alloc d' := by
    intro d d'
    show ({ (m0.withObject 0 (some d)).withObject 0 (some d') with nextRef := 1 } : DeviceManager ε) = _
    rw [withObject_withObject]
    rfl
  obtain ⟨d1, hf1, hd1, ⟨hmake, ho1, -⟩ | ⟨what, -, hnot⟩⟩ := makeDevice_result 0 serial usb m0
  · have hdesc1 : findDescription d1.name (m0.alloc d1).descriptions = some desc := by
      rw [hd1.name]
      exact hdesc
    have hreprogram : ∃ b d2, (reprogramDevice (some 0)).run (m0.alloc d1) = .ok b (m0.alloc d2) ∧ d2.isOpen = true ∧
        DeviceFrame d1 d2 := by
      by_cases hfile : desc.fnameBitfile = ""
      · refine ⟨false, d1, reprogramDevice_skips (hself d1) (fun desc' h => ?_), ho1, .refl d1⟩
        cases hdesc1.symm.trans h
        exact hfile
      · obtain ⟨d2, -, hd2, ho2, ⟨hrun, -⟩ | ⟨what, -, hnot⟩⟩ := reprogramDevice_result (hself d1) hf1 hdesc1 hfile
        · exact ⟨true, d2, by rw [hrun, halloc], ho2.2 (hopen _), hd2⟩
        · exact absurd ⟨hprogram _ _, hopen _⟩ hnot
    obtain ⟨b, d2, hreprogram, ho2, hd2⟩ := hreprogram
    have hup : (bringUp 0 (.ok serial) usb).run m0 = .ok (some (0, desc)) (m0.alloc d2) := by
      have hdesc0 : findDescription serial m0.descriptions = some desc := hdesc
      have hnew : ¬ m0.hasSerial serial = true := Bool.false_ne_true
      have hfirst : m0.nextRef = 0 := rfl
      rw [run_bringUp, if_neg hnew, hdesc0]
      simp only [EStateM.run_bind, hmake, hfirst, catchException, Base.run_handle, hreprogram, EStateM.run_pure]
    obtain ⟨regs, hregister, -⟩ := run_register (hself d2) (fun cb hcb => by
      have hnone : n.addedCb = some cb := hcb
      rw [hn] at hnone
      cases hnone) 0 desc
    have hregistered : ((m0.alloc d2).registered 0 0 d2 regs).objects 0 = some _ :=
      withObject_self ((m0.alloc d2).entered 0 0 d2.name) 0 _
    refine ⟨(m0.alloc d2).registered 0 0 d2 regs, { d2 with trackedRegs := regs, regChangedCb := some onRegChange },
      .step (.usbDeviceAdded 0 (.ok serial) usb) .initial ?_, ?_, hregistered, ho2, Option.some_ne_none _⟩
    · have hdev : ¬ m0.hasDevice 0 = true := Bool.false_ne_true
      rw [step, Action.run, run_usbDeviceAdded hdev, hup]
      simp only [catchException, Base.run_handle, hregister]
    · have hname : d2.name = serial := hd2.name.trans hd1.name
      rw [← hname]
      exact (OrdMap.find?_insert_of_fresh rfl _ _).trans (if_pos rfl)
  · exact absurd (hopen _) hnot

end DeviceManager
end Fpga
