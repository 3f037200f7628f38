import FpgaServer.DeviceHandles
import FpgaServer.Posted
/-!
# DevicePasses — which `libusb_device` pointers are alive when they are passed

The event loop runs the posted hotplug handlers and other tasks call by call, and libusb reports arrivals and departures
whenever its events are handled: between handlers, and in every call that makes a transfer (a report made inside a call
counts as made right after it).  A device is alive while it is attached or a handle to it is open.  Nothing keeps one alive
from its report to its handler, nor across `reprogramDevice`, which closes and opens it again: where it leaves there, a
dangling pointer is passed (`departed_passed`), and nowhere else (`passes_alive`).
-/
namespace Fpga

open Base (Calls Report)

/-- What the event loop runs besides the posted handlers. -/
inductive UsbTask where
  | periodicRegisterUpdates
  | reprogram (serial : String)
  | deviceRequest (serial : String)
  deriving DecidableEq, Repr

def UsbTask.calls (descriptions : List Description) (devices : List ManagedDevice) : UsbTask → ManagerCalls
  | .periodicRegisterUpdates => ManagerCalls.periodicRegisterUpdates devices
  | .reprogram serial => ManagerCalls.reprogram descriptions devices serial
  | .deviceRequest serial => ManagerCalls.deviceRequest devices serial

/-- `attached` holds up to the end of the departure callback; `pumps` says whether the running handler is inside or right
after a call that handles events. -/
structure UsbLoop where
  attached : Nat → Bool
  handles : Nat → Nat
  queue : List (Report Nat)
  devices : List ManagedDevice
  running : Option ManagerCalls
  pumps : Bool

/-- libusb reports, the first posted handler or another task starts, and the running one gets an answer or returns. -/
inductive UsbEvent where
  | arrives (dev : Nat)
  | leaves (dev : Nat)
  | handler
  | task (t : UsbTask)
  | answer (r : UsbAnswer)
  | returns
  deriving Repr

namespace UsbLoop

def initial : UsbLoop where
  attached _ := false
  handles _ := 0
  queue := []
  devices := []
  running := none
  pumps := false

/-- Events of libusb are handled now, so it can report. -/
def reports (s : UsbLoop) : Bool := s.running.isNone || s.pumps

/-- The device is attached, or a handle to it is open. -/
def alive (s : UsbLoop) (dev : Nat) : Bool := s.attached dev || decide (0 < s.handles dev)

/-- The pointer the running handler passes next. -/
def passing (s : UsbLoop) : Option Nat :=
  match s.running with
  | some (.call c _) => c.passes
  | _ => none

def posted (descriptions : List Description) (devices : List ManagedDevice) : Report Nat → ManagerCalls
  | .arrived dev => ManagerCalls.usbDeviceAdded descriptions devices dev
  | .left dev => ManagerCalls.usbDeviceRemoved devices dev

/-- The loop after an event; none if it does not happen now. -/
def step (descriptions : List Description) (s : UsbLoop) : UsbEvent → Option UsbLoop
  | .arrives dev =>
    if s.reports && !s.attached dev then
      some { s with attached := Function.update s.attached dev true, queue := s.queue ++ [.arrived dev] }
    else none
  | .leaves dev =>
    if s.reports && s.attached dev then
      some { s with attached := Function.update s.attached dev false, queue := s.queue ++ [.left dev] }
    else none
  | .handler =>
    match s.running, s.queue with
    | none, report :: queue =>
      some { s with queue := queue, running := some (posted descriptions s.devices report), pumps := false }
    | _, _ => none
  | .task t =>
    match s.running with
    | none => some { s with running := some (t.calls descriptions s.devices), pumps := false }
    | some _ => none
  | .answer r =>
    match s.running with
    | some (.call c next) =>
      some { s with handles := c.after r s.handles, running := some (next r), pumps := c.handlesEvents }
    | _ => none
  | .returns =>
    match s.running with
    | some (.pure devices) => some { s with devices := devices, running := none }
    | _ => none

/-- The states reached by any events. -/
def run (descriptions : List Description) (events : List UsbEvent) : Option UsbLoop :=
  events.foldlM (step descriptions) initial

/-! ## When the pointers are alive -/

/-- The call passes the device while no handle to it is open. -/
def Exposes (dev : Nat) (handles : Nat → Nat) (c : UsbCall) : Prop := c.passes = some dev ∧ handles dev = 0

/-- With some answers the program comes to pass the device while no handle to it is open. -/
def Exposed (dev : Nat) (p : ManagerCalls) (handles : Nat → Nat) : Prop := p.Reaches (Exposes dev) UsbCall.after handles

/-- Every pointer about to be passed is alive. -/
def PassesAlive (s : UsbLoop) : Prop := ∀ dev, s.passing = some dev → s.alive dev = true

/-- No device goes that a posted or running handler is going to pass without a handle to it, and a task that is going to do
so starts while the device is there. -/
def Harmless (descriptions : List Description) (s : UsbLoop) : UsbEvent → Prop
  | .leaves dev => Report.arrived dev ∉ s.queue ∧ ∀ p, s.running = some p → ¬ Exposed dev p s.handles
  | .task t => ∀ dev, Exposed dev (t.calls descriptions s.devices) s.handles → s.attached dev = true
  | _ => True

/-- The states of the runs whose events are harmless. -/
inductive Reachable (descriptions : List Description) : UsbLoop → Prop where
  | initial : Reachable descriptions initial
  | step {s s' : UsbLoop} (e : UsbEvent) (h : Reachable descriptions s) (he : Harmless descriptions s e)
    (hs : s.step descriptions e = some s') : Reachable descriptions s'

/-- What is going to be passed without a handle to it is attached. -/
structure Covered (s : UsbLoop) : Prop where
  queued : ∀ dev, Report.arrived dev ∈ s.queue → s.attached dev = true
  running : ∀ p, s.running = some p → ∀ dev, Exposed dev p s.handles → s.attached dev = true

variable {descriptions : List Description} {s s' : UsbLoop} {p : ManagerCalls} {S : Nat → Prop} {dev : Nat}

theorem not_exposed {handles : Nat → Nat} (hp : p.Every (UsbCall.Only S)) (hdev : ¬ S dev) : ¬ Exposed dev p handles := by
  refine Calls.Every.not_reaches (hp.imp (fun c hc handles hbad => ?_)) handles
  exact hdev (hc dev hbad.1)

/-- A program that passes nothing exposes nothing. -/
theorem not_exposed_of_none {handles : Nat → Nat} (hp : p.Every (UsbCall.Only (fun _ => False))) :
    ¬ Exposed dev p handles := not_exposed hp id

/-- Nothing but a request to reprogram a device that has left can be a task that does harm. -/
theorem harmless_task {t : UsbTask} (h : ∀ serial d, t = .reprogram serial →
    ManagerCalls.getDevice s.devices serial = some d → s.attached d.libusbDevice = true) :
    Harmless descriptions s (.task t) := by
  intro dev hexposed
  cases t with
  | periodicRegisterUpdates => exact absurd hexposed (not_exposed_of_none (ManagerCalls.only_pollDevices _ _))
  | deviceRequest serial => exact absurd hexposed (not_exposed_of_none (ManagerCalls.only_deviceRequest _ serial))
  | reprogram serial =>
    by_contra hleft
    refine not_exposed (S := fun q => s.attached q = true) ?_ hleft hexposed
    exact ManagerCalls.only_reprogram descriptions s.devices serial (fun d hd => h serial d rfl hd)

theorem update_true {f : Nat → Bool} {q : Nat} (h : q = dev ∨ f q = true) : Function.update f dev true q = true := by
  by_cases hq : q = dev
  · rw [hq, Function.update_self]
  · rw [Function.update_of_ne hq]
    exact h.resolve_left hq

theorem update_false {f : Nat → Bool} {q : Nat} (hq : q ≠ dev) (h : f q = true) :
    Function.update f dev false q = true := by
  rw [Function.update_of_ne hq]
  exact h

theorem Covered.step (h : Covered s) (e : UsbEvent) (he : Harmless descriptions s e)
    (hs : s.step descriptions e = some s') : Covered s' := by
  cases e with
  | arrives dev =>
    rw [UsbLoop.step] at hs
    split at hs
    · cases hs
      constructor
      · intro q hq
        apply update_true
        rcases List.mem_append.1 hq with hq | hq
        · exact .inr (h.queued q hq)
        · cases List.mem_singleton.1 hq
          exact .inl rfl
      · intro p hp q hq
        exact update_true (.inr (h.running p hp q hq))
    · cases hs
  | leaves dev =>
    rw [UsbLoop.step] at hs
    split at hs
    · cases hs
      obtain ⟨hqueue, hrunning⟩ := he
      constructor
      · intro q hq
        have hmem : Report.arrived q ∈ s.queue := (List.mem_append.1 hq).resolve_right (by simp)
        refine update_false ?_ (h.queued q hmem)
        rintro rfl
        exact hqueue hmem
      · intro p hp q hq
        refine update_false ?_ (h.running p hp q hq)
        rintro rfl
        exact hrunning p hp hq
    · cases hs
  | handler =>
    rw [UsbLoop.step] at hs
    split at hs
    · rename_i report queue hrunning hqueue
      cases hs
      constructor
      · intro q hq
        exact h.queued q (by rw [hqueue]; exact List.mem_cons_of_mem _ hq)
      · rintro p hp q hq
        cases hp
        cases report with
        | arrived dev =>
          by_contra hleft
          refine not_exposed (S := fun r => s.attached r = true) ?_ hleft hq
          have hattached : s.attached dev = true := h.queued dev (by rw [hqueue]; exact List.mem_cons_self)
          exact ManagerCalls.only_usbDeviceAdded descriptions s.devices hattached
        | left dev => exact absurd hq (not_exposed_of_none (ManagerCalls.only_usbDeviceRemoved _ dev))
    · cases hs
  | task t =>
    rw [UsbLoop.step] at hs
    split at hs
    · cases hs
      refine ⟨h.queued, fun p hp q hq => ?_⟩
      cases hp
      exact he q hq
    · cases hs
  | answer r =>
    rw [UsbLoop.step] at hs
    split at hs
    · rename_i c next hrunning
      cases hs
      refine ⟨h.queued, fun p hp q hq => ?_⟩
      cases hp
      exact h.running _ hrunning q (.inr ⟨r, hq⟩)
    · cases hs
  | returns =>
    rw [UsbLoop.step] at hs
    split at hs
    · cases hs
      refine ⟨h.queued, fun p hp => ?_⟩
      cases hp
    · cases hs

theorem Reachable.covered (h : Reachable descriptions s) : Covered s := by
  induction h with
  | initial =>
    constructor
    · intro dev hdev
      cases hdev
    · intro p hp
      cases hp
  | step e hr he hs ih => exact ih.step e he hs

/-- **In a run of harmless events every pointer passed is alive.** -/
theorem passes_alive (h : Reachable descriptions s) : s.PassesAlive := by
  intro dev hdev
  rw [alive, Bool.or_eq_true, decide_eq_true_eq]
  by_cases hhandles : 0 < s.handles dev
  · exact .inr hhandles
  · refine .inl ?_
    rw [passing] at hdev
    split at hdev
    · rename_i c next hrunning
      exact h.covered.running _ hrunning dev (.inl ⟨hdev, Nat.eq_zero_of_not_pos hhandles⟩)
    · cases hdev

/-- A device arrives, cannot be read, leaves and arrives again. -/
theorem passes_alive_again : ∃ s, run [] [.arrives 7, .handler, .answer (.error "LIBUSB_ERROR_IO"), .returns, .leaves 7,
    .handler, .returns, .arrives 7, .handler] = some s ∧ s.passing = some 7 ∧ s.alive 7 = true := by
  have hread := (((Reachable.initial : Reachable [] initial).step (.arrives 7) trivial rfl).step .handler trivial rfl).step
    (.answer (.error "LIBUSB_ERROR_IO")) trivial rfl
  have hleft := (hread.step .returns trivial rfl).step (.leaves 7) ⟨List.not_mem_nil, fun p hp => by cases hp⟩ rfl
  have hagain := ((hleft.step .handler trivial rfl).step .returns trivial rfl).step (.arrives 7) trivial rfl
  exact ⟨_, rfl, rfl, passes_alive (hagain.step .handler trivial rfl) 7 rfl⟩

/-! ## When they are not -/

/-- **What is exposed is passed**: some answers lead there, whether the device is still attached or not. -/
theorem exposed_passes (descriptions : List Description) (hrunning : s.running = some p) (hp : Exposed dev p s.handles) :
    ∃ (answers : List UsbAnswer) (s' : UsbLoop), (answers.map UsbEvent.answer).foldlM (step descriptions) s = some s' ∧
      s'.passing = some dev ∧ s'.handles dev = 0 ∧ s'.attached = s.attached := by
  induction p generalizing s with
  | pure devices => exact hp.elim
  | call c next ih =>
    rcases hp with ⟨hdev, hhandles⟩ | ⟨r, hr⟩
    · refine ⟨[], s, rfl, ?_, hhandles, rfl⟩
      rw [passing, hrunning]
      exact hdev
    · have hstep : s.step descriptions (.answer r) =
          some { s with handles := c.after r s.handles, running := some (next r), pumps := c.handlesEvents } := by
        rw [step, hrunning]
      obtain ⟨answers, s', hrun, hs'⟩ := ih r (s := { s with
        handles := c.after r s.handles, running := some (next r), pumps := c.handlesEvents }) rfl hr
      refine ⟨r :: answers, s', ?_, hs'⟩
      rw [List.map_cons, List.foldlM_cons, hstep]
      exact hrun

/-- **A departure does harm while the running handler exposes the device**: some answers lead to a dangling pointer. -/
theorem leaves_harms (hrunning : s.running = some p) (hp : Exposed dev p s.handles)
    (hs : s.step descriptions (.leaves dev) = some s') :
    ∃ (answers : List UsbAnswer) (t : UsbLoop), (answers.map UsbEvent.answer).foldlM (step descriptions) s' = some t ∧
      ¬ t.PassesAlive := by
  rw [step] at hs
  split at hs
  · cases hs
    obtain ⟨answers, t, hrun, hpassing, hhandles, hattached⟩ := exposed_passes descriptions
      (s := { s with attached := Function.update s.attached dev false, queue := s.queue ++ [.left dev] }) hrunning hp
    have hleft : t.attached dev = false := by
      rw [hattached]
      exact Function.update_self dev false s.attached
    refine ⟨answers, t, hrun, fun halive => ?_⟩
    have := halive dev hpassing
    rw [alive, hleft, hhandles] at this
    cases this
  · cases hs

/-- **A device that leaves before its arrival handler has run is passed all the same.** -/
theorem departed_passed : ¬ ∀ (descriptions : List Description) (events : List UsbEvent) (s s' : UsbLoop) (r : UsbAnswer),
    run descriptions events = some s → s.step descriptions (.answer r) = some s' → s.PassesAlive := by
  intro h
  have halive := h [] [.arrives 7, .leaves 7, .handler] _ _ (.ok "") rfl rfl 7 rfl
  revert halive
  decide

-- the device leaves while it is programmed, and is opened again
example : ((run [⟨"FPGA", "top.bit", []⟩] ([.arrives 7, .handler] ++ List.replicate 27 (.answer (.ok "FPGA0001")) ++
    [.leaves 7] ++ List.replicate 5 (.answer (.ok "")))).map (fun s => (s.passing, s.alive 7))) = some (some 7, false) := by
  decide +kernel

end UsbLoop
end Fpga
