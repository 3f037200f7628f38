import FpgaServer.ManagerReady
/-!
# ManagerOpen — registered devices are open

Between handlers every registered device is open, and then no request hands a null context to libftdi.  Only
`reprogramDevice` closes a device that stays registered; it opens it again on both of its ways out, and neither way takes
the device out of the maps if that fails.  So the invariant holds in every state of a run exactly if each device a request
reprograms can be opened again (`registered_open`).
-/
namespace Fpga

open Base (OrdMap Within final)

namespace DeviceManager

variable {ε : Type} [Ftdi ε] [Programmer ε] {m m' : DeviceManager ε}

/-- No request on a registered device crashes: none passes a null context. -/
theorem Ready.device_runs (hm : Ready True m) (serial : String) (op : DeviceOp) (m' : DeviceManager ε) :
    (Action.device serial op).run.run m ≠ .error .crash m' := by
  intro h
  simp only [Action.run, EStateM.run_bind, EStateM.run_get] at h
  split at h
  · cases h
  · rename_i r hr
    obtain ⟨d, hd, ho⟩ := hm.allOpen trivial serial r hr
    rw [catchException, Base.run_handle, run_onDevice_some hd] at h
    cases hop : op.run.run ⟨d, ⟨m.notifier, m.getDeviceList⟩⟩ with
    | ok a s =>
      rw [hop] at h
      cases h
    | error e s =>
      rw [hop] at h
      cases e with
      | exception what => cases h
      | overrun => cases h
      | crash => exact (survives_rules.deviceOp op).runs _ s ho (hm.tidy r d hd).wired hop

def run (m : DeviceManager ε) (actions : List (Action ε)) : Option (DeviceManager ε) := actions.foldlM step m

theorem run_concat (m : DeviceManager ε) (actions : List (Action ε)) (a : Action ε) :
    m.run (actions ++ [a]) = (m.run actions).bind (fun m' => m'.step a) := by
  simp [run, List.foldlM_append]

/-- The invariant over a run whose steps meet the condition where they start from it. -/
theorem ready_run {descriptions : List Description} {notifier : Notifier} {actions : List (Action ε)}
    (h : ∀ made a m m', made ++ [a] <+: actions → (initial descriptions notifier).run made = some m →
      m.step a = some m' → Ready True m → m.Reopens a) (made : List (Action ε)) :
    ∀ m, made <+: actions → (initial descriptions notifier).run made = some m → Ready True m := by
  induction made using List.reverseRecOn with
  | nil =>
    intro m _ hm
    cases hm
    exact ready_initial descriptions notifier
  | append_singleton made a ih =>
    intro m hmade hm
    rw [run_concat, Option.bind_eq_some_iff] at hm
    obtain ⟨m0, hm0, hs⟩ := hm
    have hready := ih m0 ((List.prefix_append _ _).trans hmade) hm0
    exact (ready_step hready hs).1 (fun _ => h made a m0 m hmade hm0 hs hready)

/-- **Registered devices are open between handlers**, and no request on one passes a null context, in every state of a run
if and only if each device a request reprograms can be opened again. -/
theorem registered_open (descriptions : List Description) (notifier : Notifier) (actions : List (Action ε)) :
    (∀ made m, made <+: actions → (initial descriptions notifier).run made = some m →
      m.AllOpen ∧ ∀ serial op m', (Action.device serial op).run.run m ≠ .error .crash m') ↔
    ∀ made a m, made ++ [a] <+: actions → (initial descriptions notifier).run made = some m → m.Reopens a := by
  constructor
  · intro h made a m hmade hm
    have hreopens : ∀ made a m m', made ++ [a] <+: actions → (initial descriptions notifier).run made = some m →
        m.step a = some m' → Ready True m → m.Reopens a := by
      intro made a m m' hmade hm hs hready
      refine (ready_step hready hs).2 (h _ m' hmade ?_).1
      rw [run_concat, hm]
      exact hs
    have hready := ready_run hreopens made m ((List.prefix_append _ _).trans hmade) hm
    cases a with
    | reprogram serial =>
      obtain ⟨m', hs, -⟩ := reprogram_result hready serial
      exact hreopens made _ m m' hmade hm hs hready
    | _ => trivial
  · intro h made m hmade hm
    have hready := ready_run (fun made a m _ hmade hm _ _ => h made a m hmade hm) made m hmade hm
    exact ⟨hready.allOpen trivial, hready.device_runs⟩

/-- A device that is brought up and programmed; then a request reprograms it, which fails, and so does opening it again. -/
def lostDevice : Option (DeviceManager Script) :=
  (initial [⟨"FPGA", "fpga.bit", []⟩] setNotifier).run
    [.usbDeviceAdded 7 (.ok "FPGA0001") ⟨List.replicate 21 true ++ [false, false]⟩, .reprogram "FPGA0001"]

def crashes {σ : Type} : EStateM.Result Fault σ Unit → Bool
  | .error .crash _ => true
  | _ => false

/-- The device is registered and closed, and a raw read of one byte from it crashes. -/
theorem lostDevice_closed : ∃ m, lostDevice = some m ∧ ¬ m.AllOpen ∧
    ∃ m', (Action.device "FPGA0001" (.readRaw 1)).run.run m = .error .crash m' := by
  have hserial : lostDevice.bind (fun m => m.getDevice "FPGA0001") = some 0 := by decide +kernel
  have hclosed : lostDevice.bind (fun m => (m.objects 0).map Device.isOpen) = some false := by decide +kernel
  have hcrash : lostDevice.map (fun m => crashes ((Action.device "FPGA0001" (.readRaw 1)).run.run m)) = some true := by
    decide +kernel
  obtain ⟨m, hm, hserial⟩ := Option.bind_eq_some_iff.1 hserial
  rw [hm, Option.bind_some] at hclosed
  rw [hm, Option.map_some, Option.some.injEq] at hcrash
  refine ⟨m, hm, fun h => ?_, ?_⟩
  · obtain ⟨d, hd, ho⟩ := h "FPGA0001" 0 hserial
    rw [hd, Option.map_some, ho] at hclosed
    cases hclosed
  · unfold crashes at hcrash
    split at hcrash
    · exact ⟨_, by assumption⟩
    · cases hcrash

end DeviceManager

end Fpga
