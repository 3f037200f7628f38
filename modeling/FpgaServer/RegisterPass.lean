import FpgaServer.Announcements
import FpgaServer.Pairing
import FpgaServer.Transport
/-!
# RegisterPass — one run of `_periodicRegisterUpdates`

How a poll ends, what it leaves of its device and what it tells do not depend on what the log holds or which serials are
listed (`logFree_updateTrackedRegs`), so each poll of a pass is the one its device would have had at the start of it.  The
loop is followed one visit at a time (`run_visit`); a visit erases at most the element it stands on, and the rest of the
entries is still there when the iterator comes to it (`run_pollDevices`).
-/
namespace Fpga

open Base (OrdMap Within final)

variable {ε α β : Type}

/-! ## Operations and the log -/

def View.told (v : View) (events : List DeviceEvent) : View := v.logged (events.map (fun e => ⟨e, v.listed⟩))

theorem View.told_nil (v : View) : v.told [] = v := v.logged_nil

theorem View.told_append (v : View) (events more : List DeviceEvent) :
    (v.told events).told more = v.told (events ++ more) := by
  rw [View.told, View.told, View.told, View.logged_append, List.map_append]
  rfl

/-- A run that ends so. -/
def ending {σ : Type} : Except Fault α → σ → EStateM.Result Fault σ α
  | .ok a, s => .ok a s
  | .error e, s => .error e s

/-- Reports of changes of registers of the device. -/
def Reports (d : Device ε View) (events : List DeviceEvent) : Prop :=
  ∀ e ∈ events, ∃ addr port value, e = .regChanged d.name addr port value

/-- From this device and with this change callback the operation always ends alike, whatever has been logged. -/
def LogFree (x : DeviceM ε View α) : Prop :=
  ∀ d, Wired d → ∀ cb, ∃ (o : Except Fault α) (d' : Device ε View) (events : List DeviceEvent),
    DeviceFrame d d' ∧ Reports d events ∧
      ∀ v, v.notifier.regChangeCb = cb → x.run ⟨d, v⟩ = ending o ⟨d', v.told events⟩

theorem LogFree.of_silent {x : DeviceM ε View α}
    (h : ∀ d, ∃ (o : Except Fault α) (d' : Device ε View), DeviceFrame d d' ∧ ∀ v, x.run ⟨d, v⟩ = ending o ⟨d', v⟩) :
    LogFree x := by
  intro d _ cb
  obtain ⟨o, d', hf, hrun⟩ := h d
  refine ⟨o, d', [], hf, fun e he => absurd he List.not_mem_nil, fun v _ => ?_⟩
  rw [View.told_nil]
  exact hrun v

theorem LogFree.pure (a : α) : LogFree (pure a : DeviceM ε View α) :=
  .of_silent (fun d => ⟨.ok a, d, .refl d, fun _ => rfl⟩)

theorem LogFree.raise (what : String) : LogFree (raise what : DeviceM ε View α) :=
  .of_silent (fun d => ⟨.error (.exception what), d, .refl d, fun _ => rfl⟩)

theorem LogFree.raiseIf (c : Prop) [Decidable c] (what : String) : LogFree (raiseIf c what : DeviceM ε View Unit) := by
  unfold Fpga.raiseIf
  split
  · exact .raise what
  · exact .pure _

theorem LogFree.bind {x : DeviceM ε View α} {f : α → DeviceM ε View β} (hx : LogFree x) (hf : ∀ a, LogFree (f a)) :
    LogFree (x >>= f) := by
  intro d hw cb
  obtain ⟨o, d', events, hframe, hreports, hrun⟩ := hx d hw cb
  cases o with
  | error e =>
    refine ⟨.error e, d', events, hframe, hreports, fun v hv => ?_⟩
    rw [EStateM.run_bind, hrun v hv]
    rfl
  | ok a =>
    obtain ⟨o', d'', more, hframe', hreports', hrun'⟩ := hf a d' (hframe.wired hw) cb
    refine ⟨o', d'', events ++ more, hframe.trans hframe', fun e he => ?_, fun v hv => ?_⟩
    · rcases List.mem_append.1 he with he | he
      · exact hreports e he
      · obtain ⟨addr, port, value, h⟩ := hreports' e he
        exact ⟨addr, port, value, by rw [h, hframe.name]⟩
    · rw [EStateM.run_bind, hrun v hv]
      show (f a).run ⟨d', v.told events⟩ = _
      rw [hrun' _ (by exact hv), View.told_append]

/-- A program that looks at its device and then goes on. -/
theorem LogFree.ofDev {f : Device ε View → DeviceM ε View α} (hf : ∀ d, LogFree (f d)) :
    LogFree (do let s ← get; f s.dev : DeviceM ε View α) := by
  intro d hw cb
  obtain ⟨o, d', events, hframe, hreports, hrun⟩ := hf d d hw cb
  exact ⟨o, d', events, hframe, hreports, hrun⟩

/-- A program that is another one on each device. -/
theorem LogFree.ofEach {x : DeviceM ε View α} (hx : ∀ d, ∃ y, LogFree y ∧ ∀ v, x.run ⟨d, v⟩ = y.run ⟨d, v⟩) : LogFree x := by
  intro d hw cb
  obtain ⟨y, hy, hxy⟩ := hx d
  obtain ⟨o, d', events, hframe, hreports, hrun⟩ := hy d hw cb
  exact ⟨o, d', events, hframe, hreports, fun v hv => (hxy v).trans (hrun v hv)⟩

theorem logFree_usbCall (f : ε → α × ε) : LogFree (Device.usbCall f : DeviceM ε View α) :=
  .of_silent (fun d => ⟨.ok (f d.usb).1, { d with usb := (f d.usb).2 }, ⟨rfl, rfl, rfl, rfl⟩, fun _ => rfl⟩)

/-- A device with the manager's callback reports what it is told. -/
theorem run_regChanged_told {d : Device ε View} (h : d.regChangedCb = some onRegChange) (addr port : UInt8) (value : UInt16) (v : View) :
    (Device.regChanged addr port value).run ⟨d, v⟩ =
      match (onRegChange d.name addr port value).run v with
      | .ok a w => .ok a ⟨d, w⟩
      | .error e w => .error e ⟨d, w⟩ := by
  simp only [Device.regChanged, EStateM.run_bind, EStateM.run_get, h, Base.run_zoom]
  cases (onRegChange d.name addr port value).run v <;> rfl

theorem logFree_regChanged (addr port : UInt8) (value : UInt16) :
    LogFree (Device.regChanged addr port value : DeviceM ε View Unit) := by
  intro d hw cb
  have hnone : d.regChangedCb = none → ∀ v, (Device.regChanged addr port value).run ⟨d, v⟩ = .ok () ⟨d, v.told []⟩ := by
    intro h v
    simp only [Device.regChanged, EStateM.run_bind, EStateM.run_get, h, View.told_nil]
    rfl
  rcases hw with hw | hw
  · exact ⟨.ok (), d, [], .refl d, fun e he => absurd he List.not_mem_nil, fun v _ => hnone hw v⟩
  · cases cb with
    | none =>
      refine ⟨.ok (), d, [], .refl d, fun e he => absurd he List.not_mem_nil, fun v hv => ?_⟩
      rw [run_regChanged_told hw]
      simp only [onRegChange, EStateM.run_bind, EStateM.run_get, hv, View.told_nil]
      rfl
    | some cb =>
      have hreports : Reports d [.regChanged d.name addr port value] :=
        fun e he => ⟨addr, port, value, List.mem_singleton.1 he⟩
      have hcalled : ∀ v : View, v.notifier.regChangeCb = some cb → (onRegChange d.name addr port value).run v =
          (notify (.regChanged d.name addr port value) (cb d.name addr port value)).run v := by
        intro v hv
        simp only [onRegChange, EStateM.run_bind, EStateM.run_get, hv]
      cases hthrows : cb d.name addr port value with
      | none =>
        refine ⟨.ok (), d, [.regChanged d.name addr port value], .refl d, hreports, fun v hv => ?_⟩
        rw [run_regChanged_told hw, hcalled v hv, hthrows]
        rfl
      | some what =>
        refine ⟨.error (.exception what), d, [.regChanged d.name addr port value], .refl d, hreports, fun v hv => ?_⟩
        rw [run_regChanged_told hw, hcalled v hv, hthrows]
        rfl

theorem logFree_storeResult (k : AddrPort) (value : UInt16) :
    LogFree (Device.storeResult k value : DeviceM ε View Unit) := by
  refine .ofEach (fun d => ?_)
  cases h : d.trackedRegs.find? k with
  | none => exact ⟨_, .pure (), fun v => by simp only [Device.storeResult, EStateM.run_bind, EStateM.run_get, h]⟩
  | some old =>
    have hrun : ∀ v, (Device.storeResult k value).run ⟨d, v⟩ = (do
        Device.modifyDev (fun d => { d with trackedRegs := d.trackedRegs.set k value })
        if value ≠ old then
          Device.regChanged k.addr k.port value : DeviceM ε View Unit).run ⟨d, v⟩ := by
      intro v
      simp only [Device.storeResult, EStateM.run_bind, EStateM.run_get, h]
    refine ⟨_, LogFree.bind (.of_silent (fun e => ?_)) (fun _ => ?_), hrun⟩
    · exact ⟨.ok (), { e with trackedRegs := e.trackedRegs.set k value }, ⟨rfl, rfl, rfl, OrdMap.keys_set _ _ _⟩, fun _ => rfl⟩
    · split
      · exact logFree_regChanged _ _ _
      · exact .pure _

theorem logFree_storeResults : ∀ (kvs : List (AddrPort × UInt16)),
    LogFree (Device.storeResults kvs : DeviceM ε View Unit)
  | [] => .pure _
  | kv :: kvs => (logFree_storeResult kv.1 kv.2).bind (fun _ => logFree_storeResults kvs)

variable [Ftdi ε]

theorem logFree_ftdiWriteData (bytes : List UInt8) : LogFree (Device.ftdiWriteData bytes : DeviceM ε View Int) := by
  refine .ofEach (fun d => ?_)
  cases h : d.ftdi with
  | none => exact ⟨_, .pure (-666), fun v => by simp only [Device.ftdiWriteData, EStateM.run_bind, EStateM.run_get, h]⟩
  | some a =>
    exact ⟨_, logFree_usbCall (Ftdi.writeData bytes), fun v => by
      simp only [Device.ftdiWriteData, EStateM.run_bind, EStateM.run_get, h]⟩

theorem logFree_ftdiReadData (size : Int) :
    LogFree (Device.ftdiReadData size : DeviceM ε View (Except Int (List UInt8))) := by
  refine .ofEach (fun d => ?_)
  cases h : d.ftdi with
  | none =>
    exact ⟨throw .crash, .of_silent (fun e => ⟨.error .crash, e, .refl e, fun _ => rfl⟩), fun v => by
      simp only [Device.ftdiReadData, EStateM.run_bind, EStateM.run_get, h]⟩
  | some a =>
    refine ⟨Device.usbCall (Ftdi.readData size) >>= Device.copyOut size, ?_, fun v => by
      simp only [Device.ftdiReadData, EStateM.run_bind, EStateM.run_get, h]⟩
    refine (logFree_usbCall _).bind (fun r => ?_)
    cases r with
    | error code => exact .pure _
    | ok bytes =>
      rw [Device.copyOut]
      split
      · exact .of_silent (fun e => ⟨.error .overrun, e, .refl e, fun _ => rfl⟩)
      · exact .pure _

theorem logFree_readLoop (size : Int) : ∀ (i : Nat) (recv : List UInt8),
    LogFree (Device.readLoop size i recv : DeviceM ε View (List UInt8))
  | 0, recv => .pure recv
  | i + 1, recv => by
    refine (logFree_ftdiReadData _).bind (fun r => ?_)
    cases r with
    | error code => exact .raise _
    | ok bytes =>
      simp only
      split
      · exact logFree_readLoop size i _
      · exact .pure _

theorem logFree_ftdiReadDataWait (size : Int) : LogFree (Device.ftdiReadDataWait size : DeviceM ε View (List UInt8)) :=
  (logFree_readLoop size 100 []).bind (fun _ => (LogFree.raiseIf _ _).bind (fun _ => .pure _))

/-- **The outcome of a poll does not depend on the log.** -/
theorem logFree_updateTrackedRegs : LogFree (Device.updateTrackedRegs : DeviceM ε View Unit) := by
  refine LogFree.ofDev (f := fun d => if d.trackedRegs.keys = [] then Pure.pure () else do
    let n ← Device.ftdiWriteData (Device.readRegPackets d.trackedRegs.keys)
    Fpga.raiseIf (n ≠ cInt (2 * d.trackedRegs.keys.length)) "FTDI write error"
    let recv ← Device.ftdiReadDataWait (cInt (2 * d.trackedRegs.keys.length))
    Device.storeResults (d.trackedRegs.keys.zip (words recv))) (fun d => ?_)
  split
  · exact .pure _
  · refine (logFree_ftdiWriteData _).bind (fun _ => (LogFree.raiseIf _ _).bind (fun _ => ?_))
    exact (logFree_ftdiReadDataWait _).bind (fun _ => logFree_storeResults _)

/-- A poll fails by an exception only: on a device that is not open it throws before it reads. -/
theorem updateTrackedRegs_throws {s t : DeviceState ε View} {e : Fault} (hw : Wired s.dev)
    (h : (Device.updateTrackedRegs : DeviceM ε View Unit).run s = .error e t) : ∃ what, e = .exception what := by
  by_cases hopen : s.dev.isOpen = true
  · exact graceful_rules.updateTrackedRegs.throws s e t hopen hw h
  · have hclosed : s.dev.isOpen = false := by simpa using hopen
    have hlen := length_keys_le s.dev.trackedRegs
    simp only [Device.updateTrackedRegs, EStateM.run_bind, EStateM.run_get] at h
    split at h
    · cases h
    · have hne : (-666 : Int) ≠ cInt (2 * s.dev.trackedRegs.keys.length) := by
        rw [cInt_of_lt (by omega)]
        omega
      simp only [EStateM.run_bind, run_writeData_closed hclosed, raiseIf, if_pos hne] at h
      cases h
      exact ⟨_, rfl⟩

/-! ## The polls of a state -/

def DeviceEvent.removedSerial : DeviceEvent → Option String
  | .removed serial => some serial
  | _ => none

namespace DeviceManager

variable {m m' u u' : DeviceManager ε} {r : Nat} {s : String} {d : Device ε View}

/-- The poll of an object, as the device is now. -/
def poll (m : DeviceManager ε) (d : Device ε View) : EStateM.Result Fault (DeviceState ε View) Unit :=
  Device.updateTrackedRegs.run ⟨d, ⟨m.notifier, m.getDeviceList⟩⟩

def failsPoll (m : DeviceManager ε) (r : Nat) : Bool :=
  match m.objects r with
  | none => false
  | some d =>
    match m.poll d with
    | .ok _ _ => false
    | .error _ _ => true

/-- What the poll leaves of the object. -/
def polled (m : DeviceManager ε) (r : Nat) : Option (Device ε View) := (m.objects r).map (fun d => (final (m.poll d)).dev)

/-- What the poll tells. -/
def pollEvents (m : DeviceManager ε) (r : Nat) : List DeviceEvent :=
  match m.objects r with
  | none => []
  | some d => ((final (m.poll d)).out.notifier.log.drop m.notifier.log.length).map Notice.event

/-- What is told while the loop is at this entry. -/
def visitEvents (m : DeviceManager ε) (e : String × Nat) : List DeviceEvent :=
  m.pollEvents e.2 ++
    if m.failsPoll e.2 ∧ m.notifier.addedCb.isSome ∧ m.notifier.removedCb.isSome then [.removed e.1] else []

/-- How the poll ends, the object it leaves, and what it tells. -/
structure PollEnds (m : DeviceManager ε) (r : Nat) (d : Device ε View) (o : Except Fault Unit) (d' : Device ε View)
    (events : List DeviceEvent) : Prop where
  frame : DeviceFrame d d'
  reports : Reports d events
  run : ∀ u : DeviceManager ε, u.notifier.regChangeCb = m.notifier.regChangeCb →
    u.poll d = ending o ⟨d', View.told ⟨u.notifier, u.getDeviceList⟩ events⟩
  fails : m.failsPoll r = match o with | .ok _ => false | .error _ => true
  polled : m.polled r = some d'
  events : m.pollEvents r = events

theorem final_ending {σ : Type} (o : Except Fault α) (s : σ) : final (ending o s) = s := by
  cases o <;> rfl

theorem pollEnds (m : DeviceManager ε) (hd : m.objects r = some d) (hw : Wired d) :
    ∃ o d' events, PollEnds m r d o d' events := by
  obtain ⟨o, d', events, hframe, hreports, hrun⟩ := logFree_updateTrackedRegs d hw m.notifier.regChangeCb
  have hpoll : m.poll d = ending o ⟨d', View.told ⟨m.notifier, m.getDeviceList⟩ events⟩ := hrun _ rfl
  refine ⟨o, d', events, hframe, hreports, fun u hu => hrun _ hu, ?_, ?_, ?_⟩
  · rw [failsPoll, hd]
    simp only [hpoll]
    cases o <;> rfl
  · rw [DeviceManager.polled, hd, Option.map_some, hpoll, final_ending]
  · simp [pollEvents, hd, hpoll, final_ending, View.told, View.logged, List.map_map, Function.comp_def]

/-- The object and the callbacks decide the poll. -/
theorem poll_congr (hobj : u.objects r = m.objects r) (ha : u.notifier.addedCb = m.notifier.addedCb)
    (hr : u.notifier.removedCb = m.notifier.removedCb) (hc : u.notifier.regChangeCb = m.notifier.regChangeCb)
    (hw : ∀ d, m.objects r = some d → Wired d) :
    u.failsPoll r = m.failsPoll r ∧ u.polled r = m.polled r ∧ ∀ s, u.visitEvents (s, r) = m.visitEvents (s, r) := by
  have h : u.failsPoll r = m.failsPoll r ∧ u.polled r = m.polled r ∧ u.pollEvents r = m.pollEvents r := by
    cases hd : m.objects r with
    | none =>
      rw [hd] at hobj
      simp [failsPoll, polled, pollEvents, hd, hobj]
    | some d =>
      obtain ⟨o, d', events, hm⟩ := pollEnds m hd (hw d hd)
      obtain ⟨o', d'', events', hu⟩ := pollEnds u (hobj.trans hd) (hw d hd)
      -- both are what the poll does from `m`
      have hsame : ending o (⟨d', View.told ⟨m.notifier, m.getDeviceList⟩ events⟩ : DeviceState ε View) =
          ending o' ⟨d'', View.told ⟨m.notifier, m.getDeviceList⟩ events'⟩ := (hm.run m rfl).symm.trans (hu.run m hc.symm)
      have hstate := congrArg final hsame
      simp only [final_ending, DeviceState.mk.injEq, View.told, View.logged, View.mk.injEq, Notifier.mk.injEq,
        List.append_cancel_left_eq, true_and, and_true] at hstate
      obtain ⟨rfl, hevents⟩ := hstate
      have hevents : events = events' := by
        have := congrArg (List.map Notice.event) hevents
        simpa [List.map_map, Function.comp_def] using this
      subst hevents
      refine ⟨?_, by rw [hm.polled, hu.polled], by rw [hm.events, hu.events]⟩
      rw [hm.fails, hu.fails]
      cases o <;> cases o' <;> first | rfl | (simp [ending] at hsame)
  refine ⟨h.1, h.2.1, fun s => ?_⟩
  rw [visitEvents, visitEvents, h.1, h.2.2, ha, hr]

/-! ## The loop -/

/-- What the loop has done when it has been at these entries. -/
structure Passed (m m' : DeviceManager ε) (entries : List (String × Nat)) : Prop where
  serial : ∀ s r, m'.serialMap.find? s = some r ↔
    m.serialMap.find? s = some r ∧ ¬ (r ∈ entries.map Prod.snd ∧ m.failsPoll r = true)
  device : ∀ p r, m'.deviceMap.find? p = some r ↔
    m.deviceMap.find? p = some r ∧ ¬ (r ∈ entries.map Prod.snd ∧ m.failsPoll r = true)
  objects : ∀ r, m'.objects r = if r ∈ entries.map Prod.snd then
      if m.failsPoll r = true then none else m.polled r
    else m.objects r
  notifier : ∃ new, m'.notifier = { m.notifier with log := m.notifier.log ++ new } ∧
    new.map Notice.event = entries.flatMap m.visitEvents
  timerWaits : m'.timerWaits = m.timerWaits

def AllWired (m : DeviceManager ε) : Prop := ∀ r d, m.objects r = some d → Wired d

theorem Passed.wired {entries : List (String × Nat)} (h : Passed m m' entries) (hw : m.AllWired) : m'.AllWired := by
  intro r d' hd'
  rw [h.objects] at hd'
  split at hd'
  · split at hd'
    · cases hd'
    · cases hd : m.objects r with
      | none => simp [polled, hd] at hd'
      | some d =>
        obtain ⟨o, d'', events, hends⟩ := pollEnds m hd (hw r d hd)
        cases hends.polled.symm.trans hd'
        exact hends.frame.wired (hw r d hd)
  · exact hw r d' hd'

theorem Passed.nil (m : DeviceManager ε) : Passed m m [] :=
  ⟨fun s r => by simp, fun p r => by simp, fun r => by simp, ⟨[], by simp, rfl⟩, rfl⟩

theorem Passed.cons {e : String × Nat} {rest : List (String × Nat)} (h : Passed m u [e]) (h' : Passed u u' rest)
    (hw : m.AllWired) (hne : e.2 ∉ rest.map Prod.snd) : Passed m u' (e :: rest) := by
  obtain ⟨new, hnew, hevents⟩ := h.notifier
  obtain ⟨more, hmore, hevents'⟩ := h'.notifier
  have hother : ∀ r, r ≠ e.2 → u.objects r = m.objects r := fun r hr => by
    rw [h.objects, if_neg (by simpa using hr)]
  have hsame : ∀ r ∈ rest.map Prod.snd, u.failsPoll r = m.failsPoll r ∧ u.polled r = m.polled r ∧
      ∀ s, u.visitEvents (s, r) = m.visitEvents (s, r) := by
    intro r hr
    refine poll_congr (hother r ?_) (by rw [hnew]) (by rw [hnew]) (by rw [hnew]) (hw r)
    rintro rfl
    exact hne hr
  -- gone after the rest is gone at the first entry or at a later one
  have hgone : ∀ r, (¬ (r ∈ [e].map Prod.snd ∧ m.failsPoll r = true) ∧ ¬ (r ∈ rest.map Prod.snd ∧ u.failsPoll r = true)) ↔
      ¬ (r ∈ (e :: rest).map Prod.snd ∧ m.failsPoll r = true) := by
    intro r
    by_cases hr : r ∈ rest.map Prod.snd
    · rw [(hsame r hr).1]
      simp only [List.map_cons, List.map_nil, List.mem_cons, List.not_mem_nil, or_false]
      tauto
    · simp only [List.map_cons, List.map_nil, List.mem_cons, List.not_mem_nil, or_false]
      tauto
  refine ⟨fun s r => ?_, fun p r => ?_, fun r => ?_, ⟨new ++ more, ?_, ?_⟩, h'.timerWaits.trans h.timerWaits⟩
  · rw [h'.serial, h.serial, and_assoc, hgone]
  · rw [h'.device, h.device, and_assoc, hgone]
  · rw [h'.objects]
    by_cases hr : r ∈ rest.map Prod.snd
    · have hcons : r ∈ (e :: rest).map Prod.snd := List.mem_cons_of_mem _ hr
      rw [if_pos hr, if_pos hcons, (hsame r hr).1, (hsame r hr).2.1]
    · rw [if_neg hr, h.objects]
      simp only [List.map_cons, List.map_nil, List.mem_cons, List.not_mem_nil, or_false, hr]
  · rw [hmore, hnew, List.append_assoc]
  · rw [List.map_append, hevents, hevents', List.flatMap_cons, List.flatMap_cons, List.flatMap_nil, List.append_nil]
    refine congrArg _ (List.flatMap_congr (fun x hx => ?_))
    exact (hsame x.2 (List.mem_map_of_mem hx)).2.2 x.1

omit [Ftdi ε] in
theorem afterRemoved_logs (m : DeviceManager ε) (serial : String) :
    ∃ new, m.afterRemoved serial = { m.notifier with log := m.notifier.log ++ new } ∧
      new.map Notice.event =
        if m.notifier.addedCb.isSome ∧ m.notifier.removedCb.isSome then [.removed serial] else [] := by
  unfold afterRemoved
  split
  · rename_i ha hr
    exact ⟨_, rfl, by simp [ha, hr]⟩
  · rename_i h
    refine ⟨[], by simp, ?_⟩
    rw [if_neg]
    · rfl
    · rintro ⟨ha, hr⟩
      obtain ⟨cb, ha⟩ := Option.isSome_iff_exists.1 ha
      obtain ⟨cb', hr⟩ := Option.isSome_iff_exists.1 hr
      exact h cb cb' ha hr

/-- The device is polled, and taken out if that throws. -/
def visit (r : Nat) : ManagerM ε Unit :=
  catchException (onDevice r Device.updateTrackedRegs) (fun _ => do
    let d ← deref r
    removeDevice d.name)

/-- **One visit** returns; it puts the device back or takes it out. -/
theorem run_visit (hp : Paired m) (hw : m.AllWired) (hs : m.serialMap.find? s = some r) :
    ∃ m', (visit r).run m = .ok () m' ∧ Passed m m' [(s, r)] ∧ Paired m' := by
  obtain ⟨d, hd, rfl, hh⟩ := hp.serial s r hs
  obtain ⟨o, d', events, hends⟩ := pollEnds m hd (hw r d hd)
  have hpoll : (Device.updateTrackedRegs : DeviceM ε View Unit).run ⟨d, ⟨m.notifier, m.getDeviceList⟩⟩ =
      ending o ⟨d', View.told ⟨m.notifier, m.getDeviceList⟩ events⟩ := hends.run m rfl
  let u := m.putBack r ⟨d', View.told ⟨m.notifier, m.getDeviceList⟩ events⟩
  have hu : u.objects r = some d' := putBack_self _ _ _
  have hother : ∀ q, q ≠ r → u.objects q = m.objects q := fun q hq => Function.update_of_ne hq _ _
  have hpu : Paired u := (paired_put hp hd hends.frame.name hends.frame.libusbDevice).congr rfl rfl rfl rfl
  have hmem : ∀ q, q ∈ [(d.name, r)].map Prod.snd ↔ q = r := by simp
  have hnotifier : u.notifier = { m.notifier with log := m.notifier.log ++ events.map (fun e => ⟨e, m.getDeviceList⟩) } := rfl
  have hmap : (events.map (fun e => (⟨e, m.getDeviceList⟩ : Notice))).map Notice.event = events := by
    simp [List.map_map, Function.comp_def]
  cases o with
  | ok a =>
    have hfails : m.failsPoll r = false := hends.fails
    have hnot : ∀ q, ¬ (q ∈ [(d.name, r)].map Prod.snd ∧ m.failsPoll q = true) := by
      intro q hq
      rw [(hmem q).1 hq.1, hfails] at hq
      cases hq.2
    refine ⟨u, ?_, ⟨fun s q => ?_, fun p q => ?_, fun q => ?_, ⟨_, hnotifier, ?_⟩, rfl⟩, hpu⟩
    · rw [visit, catchException, Base.run_handle, run_onDevice_some hd, hpoll]
      rfl
    · simp only [hnot, not_false_eq_true, and_true]
      exact Iff.rfl
    · simp only [hnot, not_false_eq_true, and_true]
      exact Iff.rfl
    · by_cases hq : q = r
      · rw [if_pos ((hmem q).2 hq), hq, hfails, hu, hends.polled]
        rfl
      · rw [if_neg (fun h => hq ((hmem q).1 h)), hother q hq]
    · simp [hmap, visitEvents, hends.events, hfails]
  | error e =>
    obtain ⟨what, rfl⟩ := updateTrackedRegs_throws (hw r d hd) hpoll
    have hfails : m.failsPoll r = true := hends.fails
    have hsu : u.serialMap.find? d'.name = some r := by
      rw [hends.frame.name]
      exact hs
    obtain ⟨new, hnew, hremoved⟩ := afterRemoved_logs u d'.name
    refine ⟨u.unregistered r d', ?_, ⟨fun s q => ?_, fun p q => ?_, fun q => ?_,
      ⟨events.map (fun e => ⟨e, m.getDeviceList⟩) ++ new, ?_, ?_⟩, rfl⟩, paired_unregistered hpu hsu hu⟩
    · rw [visit, catchException, Base.run_handle, run_onDevice_some hd, hpoll]
      show (do
        let d ← deref r
        removeDevice d.name : ManagerM ε Unit).run u = _
      rw [EStateM.run_bind, run_deref hu]
      exact run_removeDevice hpu hsu hu
    · have hgone : (u.unregistered r d').serialMap.find? s = some q ↔ m.serialMap.find? s = some q ∧ q ≠ r := by
        show (m.serialMap.erase d'.name).find? s = some q ↔ _
        rw [hends.frame.name]
        exact OrdMap.find?_erase_of_unique hs (fun _ => hp.serial_unique hd)
      rw [hgone, hmem, not_and]
      exact and_congr_right (fun _ => ⟨fun hq hqr => absurd hqr hq, fun h hqr => h hqr (by rw [hqr]; exact hfails)⟩)
    · have hgone : (u.unregistered r d').deviceMap.find? p = some q ↔ m.deviceMap.find? p = some q ∧ q ≠ r := by
        show (m.deviceMap.erase d'.libusbDevice).find? p = some q ↔ _
        rw [hends.frame.libusbDevice]
        exact OrdMap.find?_erase_of_unique hh (fun _ => hp.device_unique hd)
      rw [hgone, hmem, not_and]
      exact and_congr_right (fun _ => ⟨fun hq hqr => absurd hqr hq, fun h hqr => h hqr (by rw [hqr]; exact hfails)⟩)
    · by_cases hq : q = r
      · rw [if_pos ((hmem q).2 hq), hq, if_pos hfails]
        exact withObject_self _ _ _
      · rw [if_neg (fun h => hq ((hmem q).1 h)), unregistered_other u d' hq, hother q hq]
    · show u.afterRemoved d'.name = _
      rw [hnew, hnotifier, List.append_assoc]
    · rw [List.map_append, hmap, hremoved, hnotifier, hends.frame.name]
      simp [visitEvents, hends.events, hfails]

/-- **The loop** comes to every entry, and finds it undisturbed. -/
theorem run_pollDevices : ∀ (entries : List (String × Nat)) {m : DeviceManager ε}, Paired m → m.AllWired →
    (∀ e ∈ entries, m.serialMap.find? e.1 = some e.2) → (entries.map Prod.snd).Nodup →
    ∃ m', (pollDevices entries).run m = .ok () m' ∧ Passed m m' entries
  | [], m, _, _, _, _ => ⟨m, rfl, .nil m⟩
  | (s, r) :: rest, m, hp, hw, hentries, hnd => by
    rw [List.map_cons, List.nodup_cons] at hnd
    have hs : m.serialMap.find? s = some r := hentries (s, r) List.mem_cons_self
    obtain ⟨u, hvisit, hu, hpu⟩ := run_visit hp hw hs
    obtain ⟨m', hrest, hm'⟩ := run_pollDevices rest hpu (hu.wired hw) (fun e he => by
      refine (hu.serial e.1 e.2).2 ⟨hentries e (List.mem_cons_of_mem _ he), fun hgone => hnd.1 ?_⟩
      have hmem : e.2 ∈ rest.map Prod.snd := List.mem_map_of_mem he
      have heq : e.2 = r := by simpa using hgone.1
      rwa [heq] at hmem) hnd.2
    refine ⟨m', ?_, hu.cons hm' hw hnd.1⟩
    have hrun : (pollDevices ((s, r) :: rest)).run m = (do
        visit r
        pollDevices rest : ManagerM ε Unit).run m := by
      simp only [pollDevices, EStateM.run_bind, EStateM.run_get, hs, ne_eq, not_true_eq_false, if_false]
      rfl
    rw [hrun, EStateM.run_bind, hvisit]
    exact hrest

/-! ## The pass -/

omit [Ftdi ε] in
theorem Paired.nodup_refs (h : Paired m) : (m.serialMap.entries.map Prod.snd).Nodup := by
  have hnd : m.serialMap.entries.Nodup := m.serialMap.keys_nodup.of_map Prod.fst
  refine hnd.map_on (fun x hx y hy hxy => ?_)
  have hx := OrdMap.mem_entries_iff.1 hx
  have hy := OrdMap.mem_entries_iff.1 hy
  obtain ⟨d, hd, hname, -⟩ := h.serial x.1 x.2 hx
  rw [← hxy] at hy
  exact Prod.ext (hname.symm.trans (h.serial_unique hd hy).symm) hxy

omit [Ftdi ε] in
theorem mem_refs {m : DeviceManager ε} : r ∈ m.serialMap.entries.map Prod.snd ↔ ∃ s, m.serialMap.find? s = some r :=
  mem_values_iff

theorem run_periodicRegisterUpdates (hp : Paired m) (hw : m.AllWired) :
    ∃ u, periodicRegisterUpdates.run m = .ok () { u with timerWaits := m.timerWaits + 1 } ∧
      Passed m u m.serialMap.entries := by
  obtain ⟨u, hrun, hu⟩ := run_pollDevices m.serialMap.entries hp hw (fun e he => OrdMap.mem_entries_iff.1 he)
    hp.nodup_refs
  refine ⟨u, ?_, hu⟩
  have hpass : periodicRegisterUpdates.run m = (do
      pollDevices m.serialMap.entries
      modify (fun m => { m with timerWaits := m.timerWaits + 1 }) : ManagerM ε Unit).run m := rfl
  rw [hpass, EStateM.run_bind, hrun, ← hu.timerWaits]
  rfl

/-- The devices that are not there after the pass are those whose polls failed. -/
theorem Passed.serial_iff (h : Passed m m' m.serialMap.entries) (s : String) (r : Nat) :
    m'.serialMap.find? s = some r ↔ m.serialMap.find? s = some r ∧ m.failsPoll r = false := by
  rw [h.serial]
  refine and_congr_right (fun hs => ?_)
  rw [not_and, Bool.not_eq_true]
  exact ⟨fun hf => hf (mem_refs.2 ⟨s, hs⟩), fun hf _ => hf⟩

theorem Passed.device_iff (hp : Paired m) (h : Passed m m' m.serialMap.entries) (p r : Nat) :
    m'.deviceMap.find? p = some r ↔ m.deviceMap.find? p = some r ∧ m.failsPoll r = false := by
  rw [h.device]
  refine and_congr_right (fun hdev => ?_)
  rw [not_and, Bool.not_eq_true]
  obtain ⟨d, -, -, hs⟩ := hp.device p r hdev
  exact ⟨fun hf => hf (mem_refs.2 ⟨d.name, hs⟩), fun hf _ => hf⟩

omit [Ftdi ε] in
theorem removedSerial_reports {d : Device ε View} {events : List DeviceEvent} (h : Reports d events) :
    events.filterMap DeviceEvent.removedSerial = [] := by
  rw [List.filterMap_eq_nil_iff]
  intro e he
  obtain ⟨addr, port, value, rfl⟩ := h e he
  rfl

theorem removedSerial_pollEvents (hw : m.AllWired) (r : Nat) : (m.pollEvents r).filterMap DeviceEvent.removedSerial = [] := by
  cases hd : m.objects r with
  | none =>
    rw [pollEvents, hd]
    rfl
  | some d =>
    obtain ⟨o, d', events, hends⟩ := pollEnds m hd (hw r d hd)
    rw [hends.events]
    exact removedSerial_reports hends.reports

/-- The removed notices of the visits: one for each failed poll, if both callbacks are set. -/
theorem removedSerial_visits (hw : m.AllWired) : ∀ (entries : List (String × Nat)),
    (entries.flatMap m.visitEvents).filterMap DeviceEvent.removedSerial =
      if m.notifier.addedCb.isSome ∧ m.notifier.removedCb.isSome then
        (entries.filter (fun e => m.failsPoll e.2)).map Prod.fst
      else []
  | [] => by simp
  | e :: entries => by
    rw [List.flatMap_cons, List.filterMap_append, removedSerial_visits hw entries, visitEvents, List.filterMap_append,
      removedSerial_pollEvents hw, List.nil_append]
    by_cases hset : m.notifier.addedCb.isSome ∧ m.notifier.removedCb.isSome
    · cases hf : m.failsPoll e.2 <;> simp [hset, hf, DeviceEvent.removedSerial]
    · simp [hset]

variable [Programmer ε]

theorem allWired_of_reachable {descriptions : List Description} {n : Notifier} (h : Reachable descriptions n m) :
    m.AllWired := fun r d hd => ((ready_of_reachable h).tidy r d hd).wired

/-- **A register pass** polls each registered device once, takes out those whose polls fail, with one removed notice each,
and keeps the others as their polls have left them. -/
theorem register_pass {descriptions : List Description} {n : Notifier} (h : Reachable descriptions n m)
    (hn : AllSet m.notifier) :
    ∃ m', periodicRegisterUpdates.run m = .ok () m' ∧ m'.timerWaits = m.timerWaits + 1 ∧
      (∀ s r, m'.serialMap.find? s = some r ↔ m.serialMap.find? s = some r ∧ m.failsPoll r = false) ∧
      (∀ p r, m'.deviceMap.find? p = some r ↔ m.deviceMap.find? p = some r ∧ m.failsPoll r = false) ∧
      (∀ s r, m.serialMap.find? s = some r → m'.objects r = if m.failsPoll r = true then none else m.polled r) ∧
      (∀ r, (∀ s, m.serialMap.find? s ≠ some r) → m'.objects r = m.objects r) ∧
      ∃ new, m'.notifier.log = m.notifier.log ++ new ∧
        new.map Notice.event = m.serialMap.entries.flatMap (fun e =>
          m.pollEvents e.2 ++ if m.failsPoll e.2 = true then [.removed e.1] else []) ∧
        (new.map Notice.event).filterMap DeviceEvent.removedSerial =
          (m.serialMap.entries.filter (fun e => m.failsPoll e.2)).map Prod.fst := by
  have hp := paired_of_reachable h
  have hw := allWired_of_reachable h
  have hset : m.notifier.addedCb.isSome ∧ m.notifier.removedCb.isSome := ⟨hn.1, hn.2.1⟩
  obtain ⟨u, hrun, hu⟩ := run_periodicRegisterUpdates hp hw
  obtain ⟨new, hnew, hevents⟩ := hu.notifier
  refine ⟨_, hrun, rfl, fun s r => hu.serial_iff s r, fun p r => hu.device_iff hp p r, fun s r hs => ?_, fun r hr => ?_, new,
    by rw [hnew], ?_, ?_⟩
  · exact (hu.objects r).trans (if_pos (mem_refs.2 ⟨s, hs⟩))
  · refine (hu.objects r).trans (if_neg (fun hmem => ?_))
    obtain ⟨s, hs⟩ := mem_refs.1 hmem
    exact hr s hs
  · rw [hevents]
    refine List.flatMap_congr (fun e _ => ?_)
    rw [visitEvents]
    simp only [hset, and_true]
  · rw [hevents, removedSerial_visits hw, if_pos hset]

/-- A second device whose next read fails. -/
def twoDevices : Option (DeviceManager (Line RegisterFile)) :=
  step oneDevice (.usbDeviceAdded 9 (.ok "FPGA0002") ⟨⟨boundary, ⟨fun _ => 5⟩, [], []⟩, [], [], [.fail (-1)], []⟩)

theorem register_pass_two : ∃ m m', twoDevices = some m ∧ periodicRegisterUpdates.run m = .ok () m' ∧
    m'.serialMap.find? "FPGA0001" = some 0 ∧ m'.serialMap.find? "FPGA0002" ≠ some 1 := by
  have hset : twoDevices.map (fun m => [m.notifier.addedCb.isSome, m.notifier.removedCb.isSome, m.notifier.regChangeCb.isSome]) =
      some [true, true, true] := by decide +kernel
  have hpolls : twoDevices.map (fun m => (m.serialMap.entries, [m.failsPoll 0, m.failsPoll 1])) =
      some ([("FPGA0001", 0), ("FPGA0002", 1)], [false, true]) := by decide +kernel
  obtain ⟨m, hm, hstate⟩ := Option.map_eq_some_iff.1 hpolls
  rw [hm] at hset
  simp only [Option.map_some, Option.some.injEq, List.cons.injEq, and_true] at hset
  obtain ⟨ha, hr, hc⟩ := hset
  simp only [Prod.mk.injEq, List.cons.injEq, and_true] at hstate
  obtain ⟨hentries, hok, hfails⟩ := hstate
  obtain ⟨m', hrun, -, hserial, -⟩ := register_pass (reachable_oneDevice.step _ hm) ⟨ha, hr, hc⟩
  refine ⟨m, m', hm, hrun, (hserial _ _).2 ⟨OrdMap.mem_entries_iff.1 ?_, hok⟩, fun h => ?_⟩
  · rw [hentries]
    exact List.mem_cons_self
  · cases ((hserial _ _).1 h).2.symm.trans hfails

end DeviceManager
end Fpga
