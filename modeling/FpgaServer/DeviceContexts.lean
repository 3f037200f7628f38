import Mathlib.Data.List.Induction
import FpgaServer.Device
/-!
# DeviceContexts — the libftdi contexts held for a device

`Device::open` takes a context for each interface and gives them back on its way out, `Device::close` gives back the one
that is left.  A slot is the place of one USB device: its object, if there is one, and the contexts allocated on its behalf,
which outlive an object whose constructor throws.  Over every sequence of constructions, `open`, `close` and destructor
calls the slot holds one open context on interface A while the device is open and nothing otherwise, for as long as no
`open` fails between taking interface A and giving back interface B (`exact_iff`).
-/
namespace Fpga

open Base (final final_ok)

variable {ε ω : Type}

/-! ## Scripted calls -/

/-- An environment in which the calls go as a script says, and go well once it has run out.  An interface is claimed once
at a time. -/
structure Script where
  results : List Bool
  deriving DecidableEq, Repr

def Script.next (failure : String) (s : Script) : Option String × Script :=
  match s.results with
  | [] => (none, s)
  | ok :: results => (if ok then none else some failure, ⟨results⟩)

instance : Ftdi Script where
  ftdiNew s := ((s.next "").1.isNone, (s.next "").2)
  usbOpenDev i claimed s :=
    if i ∈ claimed then (some "unable to claim usb device", (s.next "").2) else s.next "unable to open"
  usbPurgeBuffers s := s.next "purge failed"
  usbReset s := s.next "reset failed"
  setBitmode _ _ s := s.next "bitmode failed"
  setLatencyTimer _ s := s.next "latency timer failed"
  writeData bytes s := (if (s.next "").1.isNone then bytes.length else -1, (s.next "").2)
  readData size s := (if (s.next "").1.isNone then .ok (List.replicate size.toNat 0) else .error (-1), (s.next "").2)
  writeData_le bytes s := by
    split <;> omega
  readData_le size s bytes _ h := by
    split at h
    · cases h
      simp
    · cases h

instance : Programmer Script where
  construct s := s.next "Device not found"
  program _ s := s.next "Programming failed"

namespace Device

/-! ## Acquiring and releasing -/

/-- The interfaces this process has claimed through the contexts of the device. -/
def claimed (d : Device ε ω) : List Interface := (d.contexts.filter (·.opened)).map (·.interface)

/-- No context has the number of a context still to come. -/
def Fresh (d : Device ε ω) : Prop := ∀ c ∈ d.contexts, c.id < d.nextContext

/-- The state with other contexts and another state of the environment. -/
def holding (s : DeviceState ε ω) (contexts : List Context) (nextContext : Nat) (usb : ε) : DeviceState ε ω :=
  { s with dev := { s.dev with contexts := contexts, nextContext := nextContext, usb := usb } }

/-- The device with the context it works on. -/
def attached (s : DeviceState ε ω) (a : Nat) : DeviceState ε ω := { s with dev := { s.dev with ftdi := some a } }

section holding
variable (s : DeviceState ε ω) (cs cs' : List Context) (n n' : Nat) (e e' : ε)

@[simp] theorem holding_contexts : (holding s cs n e).dev.contexts = cs := rfl
@[simp] theorem holding_nextContext : (holding s cs n e).dev.nextContext = n := rfl
@[simp] theorem holding_usb : (holding s cs n e).dev.usb = e := rfl
@[simp] theorem holding_ftdi : (holding s cs n e).dev.ftdi = s.dev.ftdi := rfl
@[simp] theorem holding_holding : holding (holding s cs n e) cs' n' e' = holding s cs' n' e' := rfl
@[simp] theorem holding_self : holding s s.dev.contexts s.dev.nextContext s.dev.usb = s := rfl
end holding

theorem map_update_of_fresh {cs : List Context} {k : Nat} (h : ∀ c ∈ cs, c.id ≠ k) (f : Context → Context) :
    cs.map (fun c => if c.id = k then f c else c) = cs := by
  conv => rhs; rw [← List.map_id cs]
  apply List.map_congr_left
  intro c hc
  simp [h c hc]

theorem filter_of_fresh {cs : List Context} {k : Nat} (h : ∀ c ∈ cs, c.id ≠ k) : cs.filter (fun c => c.id ≠ k) = cs := by
  rw [List.filter_eq_self]
  intro c hc
  simp [h c hc]

theorem run_usbCall {α : Type} (f : ε → α × ε) (s : DeviceState ε ω) :
    (usbCall f).run s = .ok (f s.dev.usb).1 (holding s s.dev.contexts s.dev.nextContext (f s.dev.usb).2) := rfl

/-- A change of the newest context. -/
theorem run_updateContext {s : DeviceState ε ω} {a : Nat} {i : Interface} {o : Bool} {cs : List Context}
    (hs : s.dev.contexts = ⟨a, i, o⟩ :: cs) (hc : ∀ x ∈ cs, x.id ≠ a) (f : Context → Context) :
    (updateContext a f : DeviceM ε ω Unit).run s = .ok () (holding s (f ⟨a, i, o⟩ :: cs) s.dev.nextContext s.dev.usb) := by
  have h := map_update_of_fresh hc f
  simp only [updateContext, modifyDev, EStateM.run_modify, hs, List.map_cons, if_true, h]
  rfl

/-- Freeing the newest context. -/
theorem run_ftdiFree {s : DeviceState ε ω} {a : Nat} {i : Interface} {o : Bool} {cs : List Context}
    (hs : s.dev.contexts = ⟨a, i, o⟩ :: cs) (hc : ∀ x ∈ cs, x.id ≠ a) :
    (ftdiFree a : DeviceM ε ω Unit).run s = .ok () (holding s cs s.dev.nextContext s.dev.usb) := by
  have h := filter_of_fresh hc
  simp only [ftdiFree, modifyDev, EStateM.run_modify, hs]
  rw [List.filter_cons_of_neg (by simp), h]
  rfl

theorem run_release {s : DeviceState ε ω} {a : Nat} {i : Interface} {o : Bool} {cs : List Context}
    (hs : s.dev.contexts = ⟨a, i, o⟩ :: cs) (hc : ∀ x ∈ cs, x.id ≠ a) :
    (do ftdiUsbClose a; ftdiFree a : DeviceM ε ω Unit).run s = .ok () (holding s cs s.dev.nextContext s.dev.usb) := by
  rw [EStateM.run_bind, ftdiUsbClose, run_updateContext hs hc]
  exact run_ftdiFree rfl hc

theorem run_release_then {s : DeviceState ε ω} {a : Nat} {i : Interface} {o : Bool} {cs : List Context}
    (hs : s.dev.contexts = ⟨a, i, o⟩ :: cs) (hc : ∀ x ∈ cs, x.id ≠ a) (k : DeviceM ε ω Unit) :
    (do ftdiUsbClose a; ftdiFree a; k).run s = k.run (holding s cs s.dev.nextContext s.dev.usb) := by
  have h := run_release hs hc
  rw [← bind_assoc, EStateM.run_bind, h]

variable [Ftdi ε]

theorem run_ftdiNew (s : DeviceState ε ω) : (ftdiNew : DeviceM ε ω Nat).run s =
    if (Ftdi.ftdiNew s.dev.usb).1 then
      .ok s.dev.nextContext (holding s (⟨s.dev.nextContext, .A, false⟩ :: s.dev.contexts) (s.dev.nextContext + 1)
        (Ftdi.ftdiNew s.dev.usb).2)
    else .error (.exception "ftdi_new failed") (holding s s.dev.contexts s.dev.nextContext (Ftdi.ftdiNew s.dev.usb).2) := by
  simp only [ftdiNew, EStateM.run_bind, run_usbCall]
  split <;> rfl

theorem run_ftdiUsbOpenDev {s : DeviceState ε ω} {n : Nat} {i j : Interface} {cs : List Context}
    (hs : s.dev.contexts = ⟨n, j, false⟩ :: cs) (hc : ∀ x ∈ cs, x.id ≠ n) :
    (ftdiUsbOpenDev n i : DeviceM ε ω (Option String)).run s =
      let opening := Ftdi.usbOpenDev i ((cs.filter (·.opened)).map (·.interface)) s.dev.usb
      .ok opening.1 (holding s (⟨n, j, opening.1.isNone⟩ :: cs) s.dev.nextContext opening.2) := by
  have hf : s.dev.contexts.filter (·.opened) = cs.filter (·.opened) := by rw [hs]; rfl
  simp only [ftdiUsbOpenDev, EStateM.run_bind, EStateM.run_get, run_usbCall, hf]
  generalize Ftdi.usbOpenDev i ((cs.filter (·.opened)).map (·.interface)) s.dev.usb = opening
  obtain ⟨_ | what, e⟩ := opening
  · simp only [if_true, EStateM.run_bind]
    have h := run_updateContext (s := holding s s.dev.contexts s.dev.nextContext e) hs hc
      (fun c => { c with opened := true })
    rw [h]
    rfl
  · simp only [hs]
    rfl

/-- **Taking one interface**: a context is allocated and opened and the rest goes on with it, or nothing is held that was
not held before. -/
theorem run_acquire {s : DeviceState ε ω} (hf : Fresh s.dev) (i : Interface) (k : Nat → DeviceM ε ω Unit) :
    (do
      let c ← ftdiNew
      ftdiSetInterface c i
      let r ← ftdiUsbOpenDev c i
      exitOn r (ftdiFree c)
      k c).run s =
    let new := Ftdi.ftdiNew s.dev.usb
    let opening := Ftdi.usbOpenDev i s.dev.claimed new.2
    if new.1 then
      match opening.1 with
      | none => (k s.dev.nextContext).run
          (holding s (⟨s.dev.nextContext, i, true⟩ :: s.dev.contexts) (s.dev.nextContext + 1) opening.2)
      | some what => .error (.exception what) (holding s s.dev.contexts (s.dev.nextContext + 1) opening.2)
    else .error (.exception "ftdi_new failed") (holding s s.dev.contexts s.dev.nextContext new.2) := by
  have hne : ∀ c ∈ s.dev.contexts, c.id ≠ s.dev.nextContext := fun c hc => Nat.ne_of_lt (hf c hc)
  rw [EStateM.run_bind, run_ftdiNew]
  simp only [claimed]
  cases (Ftdi.ftdiNew s.dev.usb).1 with
  | false => simp only [Bool.false_eq_true, if_false]
  | true =>
    simp only [if_true, EStateM.run_bind, ftdiSetInterface]
    rw [run_updateContext rfl hne]
    simp only [holding_holding]
    rw [run_ftdiUsbOpenDev rfl hne]
    simp only [holding_usb, holding_holding, holding_nextContext]
    cases (Ftdi.usbOpenDev i ((s.dev.contexts.filter (·.opened)).map (·.interface)) (Ftdi.ftdiNew s.dev.usb).2).1 with
    | none => rfl
    | some what =>
      simp only [exitOn, EStateM.run_bind]
      rw [run_ftdiFree rfl hne]
      rfl

omit [Ftdi ε] in
/-- **One configuration step** on what the newest context opened: it succeeds and the rest goes on, or the context is
closed and freed. -/
theorem run_configure {s : DeviceState ε ω} {a : Nat} {i : Interface} {o : Bool} {cs : List Context}
    (hs : s.dev.contexts = ⟨a, i, o⟩ :: cs) (hc : ∀ x ∈ cs, x.id ≠ a) (f : ε → Option String × ε) (k : DeviceM ε ω Unit) :
    (do
      let r ← usbCall f
      exitOn r (do ftdiUsbClose a; ftdiFree a)
      k).run s =
    match (f s.dev.usb).1 with
    | none => k.run (holding s s.dev.contexts s.dev.nextContext (f s.dev.usb).2)
    | some what => .error (.exception what) (holding s cs s.dev.nextContext (f s.dev.usb).2) := by
  rw [EStateM.run_bind, run_usbCall]
  simp only
  cases (f s.dev.usb).1 with
  | none => rfl
  | some what =>
    simp only [exitOn]
    rw [EStateM.run_bind, EStateM.run_bind, run_release (by exact hs) hc]
    rfl

/-! ## Opening -/

/-! The calls of the first part of `open` on a closed device, each in the state the calls before it leave. -/

def newA (d : Device ε ω) : Bool × ε := Ftdi.ftdiNew d.usb

def openA (d : Device ε ω) : Option String × ε := Ftdi.usbOpenDev .A d.claimed d.newA.2

def newB (d : Device ε ω) : Bool × ε := Ftdi.ftdiNew d.openA.2

def openB (d : Device ε ω) : Option String × ε := Ftdi.usbOpenDev .B (.A :: d.claimed) d.newB.2

def purgeB (d : Device ε ω) : Option String × ε := Ftdi.usbPurgeBuffers d.openB.2

/-- Where `open` acquires interface A, it goes on to open interface B and to purge it. -/
def InterfaceBWorks (d : Device ε ω) : Prop :=
  d.newA.1 = true → d.openA.1 = none → d.newB.1 = true ∧ d.openB.1 = none ∧ d.purgeB.1 = none

/-- The last part of `open` goes well. -/
def Configures (usb : ε) : Prop :=
  (Ftdi.usbReset usb).1 = none ∧ (Ftdi.setBitmode 0 .syncff (Ftdi.usbReset usb).2).1 = none ∧
    (Ftdi.setLatencyTimer 1 (Ftdi.setBitmode 0 .syncff (Ftdi.usbReset usb).2).2).1 = none

/-- Every call of `open` on a closed device goes well. -/
def OpenSucceeds (d : Device ε ω) : Prop :=
  d.newA.1 = true ∧ d.openA.1 = none ∧ d.newB.1 = true ∧ d.openB.1 = none ∧ d.purgeB.1 = none ∧ Configures d.purgeB.2

/-- How `open` ends on a closed device: open, with nothing held beyond what was held before, or with the context of
interface A left behind. -/
inductive OpenResult (s : DeviceState ε ω) : EStateM.Result Fault (DeviceState ε ω) Unit → Prop where
  | opened (n : Nat) (e : ε) (hn : s.dev.nextContext < n) (ho : OpenSucceeds s.dev) :
    OpenResult s (.ok () (attached (holding s (⟨s.dev.nextContext, .A, true⟩ :: s.dev.contexts) n e) s.dev.nextContext))
  | released (what : String) (n : Nat) (e : ε) (hn : s.dev.nextContext ≤ n) (hb : InterfaceBWorks s.dev)
    (ho : ¬ OpenSucceeds s.dev) :
    OpenResult s (.error (.exception what) (holding s s.dev.contexts n e))
  | leaked (what : String) (n : Nat) (e : ε) (hn : s.dev.nextContext < n) (hb : ¬ InterfaceBWorks s.dev) :
    OpenResult s (.error (.exception what) (holding s (⟨s.dev.nextContext, .A, true⟩ :: s.dev.contexts) n e))

omit [Ftdi ε] in
theorem Fresh.cons {s : DeviceState ε ω} (h : Fresh s.dev) (i : Interface) (o : Bool) (e : ε) :
    Fresh (holding s (⟨s.dev.nextContext, i, o⟩ :: s.dev.contexts) (s.dev.nextContext + 1) e).dev := by
  intro c hc
  rcases List.mem_cons.1 hc with rfl | hc
  · exact Nat.lt_succ_self _
  · exact Nat.lt_succ_of_lt (h c hc)

/-- The last part of `open`, on what the newest context opened. -/
theorem configure_result {s : DeviceState ε ω} {a : Nat} {i : Interface} {o : Bool} {cs : List Context}
    (hs : s.dev.contexts = ⟨a, i, o⟩ :: cs) (hc : ∀ x ∈ cs, x.id ≠ a) {x : DeviceM ε ω Unit}
    (hx : x = do
      let r ← usbCall Ftdi.usbReset
      exitOn r (do ftdiUsbClose a; ftdiFree a)
      let r ← usbCall (Ftdi.setBitmode 0 .syncff)
      exitOn r (do ftdiUsbClose a; ftdiFree a)
      let r ← usbCall (Ftdi.setLatencyTimer 1)
      exitOn r (do ftdiUsbClose a; ftdiFree a)
      modifyDev (fun d => { d with ftdi := some a })) :
    (Configures s.dev.usb ∧ ∃ e, x.run s = .ok () (attached (holding s (⟨a, i, o⟩ :: cs) s.dev.nextContext e) a)) ∨
    ¬ Configures s.dev.usb ∧ ∃ what e, x.run s = .error (.exception what) (holding s cs s.dev.nextContext e) := by
  subst hx
  rw [run_configure hs hc]
  split
  · rename_i hreset
    rw [run_configure (by exact hs) hc]
    split
    · rename_i hbitmode
      rw [run_configure (by exact hs) hc]
      split
      · rename_i hlatency
        refine .inl ⟨⟨hreset, hbitmode, hlatency⟩,
          (Ftdi.setLatencyTimer 1 (Ftdi.setBitmode 0 .syncff (Ftdi.usbReset s.dev.usb).2).2).2, ?_⟩
        rw [← hs]
        rfl
      · rename_i what hlatency
        exact .inr ⟨fun h => Option.some_ne_none what (hlatency.symm.trans h.2.2), _, _, rfl⟩
    · rename_i what hbitmode
      exact .inr ⟨fun h => Option.some_ne_none what (hbitmode.symm.trans h.2.1), _, _, rfl⟩
  · rename_i what hreset
    exact .inr ⟨fun h => Option.some_ne_none what (hreset.symm.trans h.1), _, _, rfl⟩

/-- **`open` on a closed device.** -/
theorem openDevice_result {s : DeviceState ε ω} (hs : s.dev.isOpen = false) (hf : Fresh s.dev) :
    OpenResult s (openDevice.run s) := by
  have hne : ∀ c ∈ s.dev.contexts, c.id ≠ s.dev.nextContext := fun c hc => Nat.ne_of_lt (hf c hc)
  unfold openDevice
  rw [EStateM.run_bind, EStateM.run_get]
  simp only [hs, Bool.false_eq_true, if_false]
  rw [run_acquire hf]
  change OpenResult s (if s.dev.newA.1 = true then match s.dev.openA.1 with | none => _ | some _ => _ else _)
  cases hnewA : s.dev.newA.1 with
  | false => exact .released _ _ _ (Nat.le_refl _) (fun h => by simp [hnewA] at h) (fun h => by simp [h.1] at hnewA)
  | true =>
    simp only [if_true]
    cases hopenA : s.dev.openA.1 with
    | some what =>
      exact .released _ _ _ (Nat.le_succ _) (fun _ h => by simp [hopenA] at h) (fun h => by simp [h.2.1] at hopenA)
    | none =>
      simp only
      rw [run_acquire (hf.cons .A true _)]
      change OpenResult s (if s.dev.newB.1 = true then match s.dev.openB.1 with | none => _ | some _ => _ else _)
      cases hnewB : s.dev.newB.1 with
      | false => exact .leaked _ _ _ (Nat.lt_succ_self _) (fun h => absurd (h hnewA hopenA).1 (by simp [hnewB]))
      | true =>
        simp only [if_true]
        have hneB : ∀ c ∈ (⟨s.dev.nextContext, .A, true⟩ :: s.dev.contexts : List Context), c.id ≠ s.dev.nextContext + 1 :=
          fun c hc => Nat.ne_of_lt (hf.cons .A true s.dev.usb c hc)
        have hlt : s.dev.nextContext < s.dev.nextContext + 1 + 1 := by omega
        cases hopenB : s.dev.openB.1 with
        | some what => exact .leaked _ _ _ hlt (fun h => absurd (h hnewA hopenA).2.1 (by simp [hopenB]))
        | none =>
          simp only [holding_nextContext, holding_contexts, holding_holding]
          rw [run_configure rfl hneB]
          change OpenResult s (match s.dev.purgeB.1 with | none => _ | some _ => _)
          cases hpurgeB : s.dev.purgeB.1 with
          | some what => exact .leaked _ _ _ hlt (fun h => absurd (h hnewA hopenA).2.2 (by simp [hpurgeB]))
          | none =>
            have hb : InterfaceBWorks s.dev := fun _ _ => ⟨hnewB, hopenB, hpurgeB⟩
            simp only
            rw [run_release_then rfl hneB]
            obtain ⟨hconf, e, h⟩ | ⟨hconf, what, e, h⟩ := configure_result
              (s := holding s (⟨s.dev.nextContext, .A, true⟩ :: s.dev.contexts) (s.dev.nextContext + 1 + 1) s.dev.purgeB.2)
              rfl hne rfl
            · exact h ▸ .opened _ e hlt ⟨hnewA, hopenA, hnewB, hopenB, hpurgeB, hconf⟩
            · exact h ▸ .released what _ e (Nat.le_of_lt hlt) hb (fun ho => hconf ho.2.2.2.2.2)

theorem OpenSucceeds.interfaceB {d : Device ε ω} (h : OpenSucceeds d) : InterfaceBWorks d :=
  fun _ _ => ⟨h.2.2.1, h.2.2.2.1, h.2.2.2.2.1⟩

theorem openDevice_opened {s : DeviceState ε ω} (hs : s.dev.isOpen = true) : openDevice.run s = .ok () s := by
  simp only [openDevice, EStateM.run_bind, EStateM.run_get, hs, if_true, EStateM.run_pure]

/-! ## Closing -/

/-- The device as `close` leaves it. -/
def closed (d : Device ε ω) : Device ε ω :=
  match d.ftdi with
  | none => d
  | some a => { d with
      usb := (Ftdi.setBitmode 0xfb .reset d.usb).2
      contexts := (d.contexts.map (fun c => if c.id = a then { c with opened := false } else c)).filter (fun c => c.id ≠ a)
      ftdi := none }

theorem run_close (s : DeviceState ε ω) : close.run s = .ok () { s with dev := s.dev.closed } := by
  simp only [close, EStateM.run_bind, EStateM.run_get, closed]
  cases s.dev.ftdi <;> rfl

@[simp] theorem closed_ftdi (d : Device ε ω) : d.closed.ftdi = none := by
  unfold closed
  split
  · assumption
  · rfl

theorem Fresh.closed {d : Device ε ω} (h : Fresh d) : Fresh d.closed := by
  unfold Device.closed
  split
  · exact h
  · intro c hc
    obtain ⟨b, hb, rfl⟩ := List.mem_map.1 (List.mem_filter.1 hc).1
    have := h b hb
    split <;> exact this

/-! ## The slot of a device -/

inductive Call where
  | construct (name : String)
  | openDevice
  | close
  | destroy
  deriving DecidableEq, Repr

/-- The place of a USB device: whether its object exists, and the fields of the object that is there or was last. -/
structure Slot (ε ω : Type) where
  alive : Bool
  state : DeviceState ε ω

namespace Slot

/-- The device before anything has been called. -/
def empty (libusbDevice : Nat) (usb : ε) (out : ω) : Slot ε ω where
  alive := false
  state := {
    dev := { name := "", libusbDevice := libusbDevice, ftdi := none, trackedRegs := Base.OrdMap.empty, regChangedCb := none,
             contexts := [], nextContext := 0, usb := usb }
    out := out }

/-- `m_ftdi` and what the constructor initialises beside it. -/
def constructing (s : Slot ε ω) (name : String) : DeviceState ε ω :=
  { s.state with dev := { s.state.dev with
    name := name, ftdi := none, trackedRegs := Base.OrdMap.empty, regChangedCb := none } }

/-- A call; one that needs an object where there is none, or the other way round, is not made. -/
def call (s : Slot ε ω) : Call → Slot ε ω
  | .construct name =>
    if s.alive then s
    else match Device.openDevice.run (s.constructing name) with
      | .ok _ t => ⟨true, t⟩
      | .error _ t => ⟨false, t⟩
  | .openDevice => if s.alive then { s with state := final (Device.openDevice.run s.state) } else s
  | .close => if s.alive then { s with state := final (Device.close.run s.state) } else s
  | .destroy => if s.alive then ⟨false, final (Device.close.run s.state)⟩ else s

def run (s : Slot ε ω) (calls : List Call) : Slot ε ω := calls.foldl call s

/-- `isOpen()` of the object, if there is one. -/
def isOpen (s : Slot ε ω) : Bool := s.alive && s.state.dev.isOpen

/-- **What is held is what `isOpen` says**: the context the device works on, open on interface A, or nothing. -/
def Exact (s : Slot ε ω) : Prop :=
  s.state.dev.contexts = if s.isOpen then s.state.dev.ftdi.toList.map (fun a => ⟨a, .A, true⟩) else []

instance (s : Slot ε ω) : Decidable s.Exact := inferInstanceAs (Decidable (_ = _))

/-- The call opens the device. -/
def Opens (s : Slot ε ω) : Call → Prop
  | .construct _ => s.alive = false
  | .openDevice => s.alive = true ∧ s.state.dev.isOpen = false
  | _ => False

/-- An opening call does not fail between acquiring interface A and giving back interface B. -/
def Undisturbed (s : Slot ε ω) (c : Call) : Prop := s.Opens c → InterfaceBWorks s.state.dev

structure Sound (s : Slot ε ω) : Prop where
  fresh : Fresh s.state.dev
  gone : s.alive = false → s.state.dev.ftdi = none

omit [Ftdi ε] in
theorem sound_empty (libusbDevice : Nat) (usb : ε) (out : ω) : (empty libusbDevice usb out).Sound :=
  ⟨fun _ hc => absurd hc List.not_mem_nil, fun _ => rfl⟩

omit [Ftdi ε] in
theorem isOpen_false_iff {d : Device ε ω} : d.isOpen = false ↔ d.ftdi = none := by
  unfold Device.isOpen
  cases d.ftdi <;> simp

theorem fresh_of_openResult {s : DeviceState ε ω} {r : EStateM.Result Fault (DeviceState ε ω) Unit} (hr : OpenResult s r)
    (hf : Fresh s.dev) : Fresh (final r).dev := by
  cases hr with
  | opened n e hn ho =>
    intro c hc
    exact Nat.lt_of_lt_of_le (hf.cons .A true e c hc) hn
  | released what n e hn hb ho =>
    intro c hc
    exact Nat.lt_of_lt_of_le (hf c hc) hn
  | leaked what n e hn hb =>
    intro c hc
    exact Nat.lt_of_lt_of_le (hf.cons .A true e c hc) hn

theorem ftdi_of_openResult {s t : DeviceState ε ω} {e : Fault} (hr : OpenResult s (.error e t)) :
    t.dev.ftdi = s.dev.ftdi := by
  cases hr <;> rfl

/-- What an opening call holds afterwards, if nothing was held before. -/
theorem exact_of_openResult {s : DeviceState ε ω} {r : EStateM.Result Fault (DeviceState ε ω) Unit} (hr : OpenResult s r)
    (hs : s.dev.ftdi = none) (hc : s.dev.contexts = []) (alive : Bool) (ha : ∀ t, r = .ok () t → alive = true) :
    (Slot.mk alive (final r)).Exact ↔ InterfaceBWorks s.dev := by
  cases hr with
  | opened n e hn ho =>
    have := ha _ rfl
    simp [Exact, Slot.isOpen, Device.isOpen, attached, holding, this, hc, ho.interfaceB]
  | released what n e hn hb ho => simp [Exact, Slot.isOpen, Device.isOpen, holding, hs, hc, hb]
  | leaked what n e hn hb => simp [Exact, Slot.isOpen, Device.isOpen, holding, hs, hb]

omit [Ftdi ε] in
theorem Exact.contexts {s : Slot ε ω} (h : s.Exact) (hs : s.state.dev.ftdi = none) : s.state.dev.contexts = [] := by
  rw [Exact] at h
  simpa [isOpen, Device.isOpen, hs] using h

/-- Closing a device gives back what it holds. -/
theorem Exact.closed {s : Slot ε ω} (h : s.Exact) (halive : s.alive = true) : s.state.dev.closed.contexts = [] := by
  unfold Device.closed
  split
  · rename_i hs
    exact h.contexts hs
  · rename_i a hs
    rw [Exact] at h
    simp [h, isOpen, Device.isOpen, halive, hs]

theorem sound_call {s : Slot ε ω} (h : s.Sound) (c : Call) : (s.call c).Sound := by
  cases hd : s.alive with
  | false =>
    cases c with
    | construct name =>
      have hr : OpenResult (s.constructing name) _ := openDevice_result rfl h.fresh
      have hf := fresh_of_openResult hr h.fresh
      simp only [call, hd, Bool.false_eq_true, if_false]
      split
      · rename_i t ht
        rw [ht] at hf
        exact ⟨hf, fun h => by cases h⟩
      · rename_i e t ht
        rw [ht] at hf hr
        exact ⟨hf, fun _ => ftdi_of_openResult hr⟩
    | openDevice => simpa [call, hd] using h
    | close => simpa [call, hd] using h
    | destroy => simpa [call, hd] using h
  | true =>
    cases c with
    | construct name => simpa [call, hd] using h
    | openDevice =>
      simp only [call, hd, if_true]
      refine ⟨?_, fun h => by simp at h⟩
      cases hopen : s.state.dev.isOpen with
      | true =>
        rw [openDevice_opened hopen]
        exact h.fresh
      | false => exact fresh_of_openResult (openDevice_result hopen h.fresh) h.fresh
    | close =>
      simp only [call, hd, if_true, run_close, final_ok]
      exact ⟨h.fresh.closed, fun _ => closed_ftdi _⟩
    | destroy =>
      simp only [call, hd, if_true, run_close, final_ok]
      exact ⟨h.fresh.closed, fun _ => closed_ftdi _⟩

/-- **A call keeps the slot exact if and only if it is undisturbed.** -/
theorem exact_call {s : Slot ε ω} (h : s.Sound) (he : s.Exact) (c : Call) : (s.call c).Exact ↔ s.Undisturbed c := by
  cases hd : s.alive with
  | false =>
    have hcontexts := he.contexts (h.gone hd)
    cases c with
    | construct name =>
      have hr : OpenResult (s.constructing name) _ := openDevice_result rfl h.fresh
      have hu : s.Undisturbed (.construct name) ↔ InterfaceBWorks (s.constructing name).dev := forall_prop_of_true hd
      rw [hu]
      simp only [call, hd, Bool.false_eq_true, if_false]
      split
      · rename_i t ht
        rw [ht] at hr
        exact exact_of_openResult hr rfl hcontexts true (fun _ _ => rfl)
      · rename_i e t ht
        rw [ht] at hr
        exact exact_of_openResult hr rfl hcontexts false (fun _ h => by cases h)
    | openDevice => simp [call, Undisturbed, Opens, hd, he]
    | close => simp [call, Undisturbed, Opens, hd, he]
    | destroy => simp [call, Undisturbed, Opens, hd, he]
  | true =>
    cases c with
    | construct name => simp [call, Undisturbed, Opens, hd, he]
    | openDevice =>
      cases hopen : s.state.dev.isOpen with
      | true =>
        have hcall : s.call .openDevice = s := by
          simp [call, openDevice_opened hopen]
        simp [hcall, he, Undisturbed, Opens, hd, hopen]
      | false =>
        have hftdi := isOpen_false_iff.1 hopen
        have hiff := exact_of_openResult (openDevice_result hopen h.fresh) hftdi (he.contexts hftdi) s.alive
          (fun _ _ => hd)
        simpa [call, Undisturbed, Opens, hd, hopen] using hiff
    | close => simp [call, Undisturbed, Opens, hd, Exact, isOpen, Device.isOpen, run_close, he.closed hd]
    | destroy => simp [call, Undisturbed, Opens, hd, Exact, isOpen, run_close, he.closed hd]

omit [Ftdi ε] in
theorem exact_empty (libusbDevice : Nat) (usb : ε) (out : ω) : (empty libusbDevice usb out).Exact := rfl

theorem run_concat (s : Slot ε ω) (calls : List Call) (c : Call) : s.run (calls ++ [c]) = (s.run calls).call c := by
  simp [run]

theorem sound_run {s : Slot ε ω} (h : s.Sound) (calls : List Call) : (s.run calls).Sound := by
  induction calls using List.reverseRecOn with
  | nil => exact h
  | append_singleton calls c ih =>
    rw [run_concat]
    exact sound_call ih c

/-- **The contexts of a device over every sequence of calls**: after each call the live contexts are one open context on
interface A if the device is open and none otherwise, if and only if no call that opens the device fails between acquiring
interface A and giving back interface B. -/
theorem exact_iff (libusbDevice : Nat) (usb : ε) (out : ω) (calls : List Call) :
    (∀ made, made <+: calls → ((empty libusbDevice usb out).run made).Exact) ↔
      ∀ made c, made ++ [c] <+: calls → ((empty libusbDevice usb out).run made).Undisturbed c := by
  have hsound := sound_run (sound_empty libusbDevice usb out)
  constructor
  · intro h made c hmade
    have hnext := h _ hmade
    rw [run_concat] at hnext
    exact (exact_call (hsound made) (h made ((List.prefix_append _ _).trans hmade)) c).1 hnext
  · intro h made
    induction made using List.reverseRecOn with
    | nil => exact fun _ => exact_empty libusbDevice usb out
    | append_singleton made c ih =>
      intro hmade
      rw [run_concat]
      exact (exact_call (hsound made) (ih ((List.prefix_append _ _).trans hmade)) c).2 (h made c hmade)

/-- Interface B cannot be opened: the constructor throws and leaves interface A claimed, and no later construction succeeds
although every later call goes well. -/
theorem interface_B_leaks :
    let s := (empty 1 (Script.mk [true, true, true, false]) ()).run [.construct "FPGA1"]
    ¬ s.Exact ∧ s.state.dev.contexts = [⟨0, .A, true⟩] ∧ s.state.dev.usb.results = [] ∧
      (s.run [.construct "FPGA1"]).isOpen = false := by
  decide +kernel

end Slot
end Device
end Fpga
