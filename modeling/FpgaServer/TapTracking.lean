import FpgaServer.Jtag
import FpgaServer.Wires
/-!
# TapTracking — the state `Jtag` keeps is the state of the port

`current_state` moves with every TMS level `Jtag` sends, and with the last bit of a shift; nothing ever reads it back from the
device.  On the lines of a target, whatever it is, each call leaves the two the same (`Tracked`), and so does every run of calls,
as long as a shift that is to leave its state shifts at least one bit and the clock is cycled in a state that lasts.
-/
namespace Fpga
namespace Xc3s

open Base

variable {σ : Type} [Target σ]

/-! ## The walk -/

namespace Jtag

/-- The turns of the loop of `setTapState`: the levels of TMS, and the state it is left in. -/
def route (state : Tap) : Nat → Option Tap → List Bool × Option Tap
  | 0, current => ([], current)
  | left + 1, some current =>
    if current = state then ([], some current)
    else
      ((towards current state).1 :: (route state left (some (towards current state).2)).1,
        (route state left (some (towards current state).2)).2)
  | left + 1, none =>
    (List.replicate 6 true ++ (route state left (some .testLogicReset)).1, (route state left (some .testLogicReset)).2)

/-- Each turn of the loop moves as the port does. -/
theorem next_towards (current state : Tap) : current.next (towards current state).1 = (towards current state).2 := by
  cases current <;> cases state <;> rfl

/-- **The loop of `setTapState` ends**, in the state asked for, from every state and from none. -/
theorem route_ends (state : Tap) (current : Option Tap) : (route state 16 current).2 = some state := by
  cases current with
  | none => cases state <;> rfl
  | some current => cases current <;> cases state <;> rfl

/-- The port goes the way of the loop. -/
theorem after_route (state : Tap) : ∀ (left : Nat) (current : Tap),
    some (current.after (tmsClocks true (route state left (some current)).1)) = (route state left (some current)).2
  | 0, current => rfl
  | left + 1, current => by
    unfold route
    by_cases h : current = state
    · rw [if_pos h]
      rfl
    · rw [if_neg h]
      have hstep := next_towards current state
      have hrest := after_route state left (towards current state).2
      rw [← hrest]
      exact congrArg (fun t => some (Tap.after t _)) hstep

/-- From a state not known, the first turn resets the port. -/
theorem after_route_none (state t : Tap) (left : Nat) :
    some (t.after (tmsClocks true (route state (left + 1) none).1)) = (route state (left + 1) none).2 := by
  have hreset : t.after (tmsClocks true (List.replicate 6 true)) = .testLogicReset := by
    cases t <;> rfl
  rw [route, tmsClocks_append, Tap.after_append, hreset]
  exact after_route state left .testLogicReset

/-! ## On the lines -/

/-- The lines clocked. -/
def clocked (j : Jtag (Wires σ)) (cs : List Clock) : Jtag (Wires σ) := { j with io := j.io.clocked cs }

@[simp] theorem io_clocked (j : Jtag (Wires σ)) (cs : List Clock) : (j.clocked cs).io = j.io.clocked cs := rfl

theorem clocked_clocked (j : Jtag (Wires σ)) (cs ds : List Clock) : (j.clocked cs).clocked ds = j.clocked (cs ++ ds) := by
  simp only [clocked, Wires.clocked, Pins.clocked_append]

/-- Another state to go by. -/
def inState (j : Jtag (Wires σ)) (state : Option Tap) : Jtag (Wires σ) := { j with currentState := state }

theorem run_forM_setTms : ∀ (vals : List Bool) (j : Jtag (Wires σ)),
    (vals.forM setTms : PortM (Wires σ) PUnit).run j = .ok () (j.clocked (tmsClocks true vals))
  | [], j => rfl
  | val :: vals, j => by
    have hrest := run_forM_setTms vals (j.clocked [⟨val, true⟩])
    rw [clocked_clocked] at hrest
    exact hrest

theorem run_tapTestLogicReset (j : Jtag (Wires σ)) : tapTestLogicReset.run j =
    .ok () ((j.clocked (tmsClocks true (List.replicate 5 true))).inState (some .testLogicReset)) := rfl

theorem run_walk (state : Tap) : ∀ (left : Nat) (j : Jtag (Wires σ)), (walk state left).run j =
    .ok () ((j.clocked (tmsClocks true (route state left j.currentState).1)).inState (route state left j.currentState).2)
  | 0, j => rfl
  | left + 1, j => by
    cases hcurrent : j.currentState with
    | none =>
      have hrun : (walk state (left + 1)).run j = (walk state left).run
          ((j.clocked (tmsClocks true (List.replicate 6 true))).inState (some .testLogicReset)) := by
        rw [walk, EStateM.run_bind, EStateM.run_get]
        simp only [hcurrent]
        rfl
      rw [hrun, run_walk state left, route, tmsClocks_append, ← clocked_clocked]
      rfl
    | some current =>
      rw [route]
      by_cases h : current = state
      · have hrun : (walk state (left + 1)).run j = .ok () j := by
          rw [walk, EStateM.run_bind, EStateM.run_get]
          simp only [hcurrent, if_pos h]
          rfl
        rw [hrun, if_pos h]
        exact congrArg (EStateM.Result.ok ()) (by rw [inState, ← hcurrent]; rfl)
      · have hrun : (walk state (left + 1)).run j = (walk state left).run
            ((j.clocked [⟨(towards current state).1, true⟩]).inState (some (towards current state).2)) := by
          rw [walk, EStateM.run_bind, EStateM.run_get]
          simp only [hcurrent, if_neg h]
          rfl
        rw [hrun, run_walk state left, if_neg h]
        have hgo := congrArg (fun k : Jtag (Wires σ) => (EStateM.Result.ok () (k.inState
          (route state left (some (towards current state).2)).2) : EStateM.Result String (Jtag (Wires σ)) Unit))
            (clocked_clocked j [⟨(towards current state).1, true⟩]
              (tmsClocks true (route state left (some (towards current state).2)).1))
        exact hgo

/-- **`setTapState` on the lines**: it ends in the state asked for. -/
theorem run_setTapState (j : Jtag (Wires σ)) (state : Tap) (pre : Nat) : (setTapState state pre).run j =
    .ok () ((j.clocked (tmsClocks true ((route state 16 j.currentState).1 ++ List.replicate pre false))).inState (some state)) := by
  have hwalk := run_walk state 16 j
  rw [route_ends] at hwalk
  rw [setTapState, EStateM.run_bind, hwalk]
  simp only [run_forM_setTms]
  rw [tmsClocks_append, ← clocked_clocked]
  rfl

/-- `current_state` is where the port is, and where it lasts, TMS is held so. -/
def Tracked (j : Jtag (Wires σ)) : Prop := ∀ t, j.currentState = some t → j.io.pins.tap = t ∧ j.io.pins.Held

theorem tracked_inState {j : Jtag (Wires σ)} {t : Tap} (htap : j.io.pins.tap = t) (hheld : j.io.pins.Held) :
    (j.inState (some t)).Tracked := by
  intro t' ht
  cases ht
  exact ⟨htap, hheld⟩

/-- Levels of TMS from a tracked state. -/
theorem held_tms {p : Pins σ} {vals : List Bool} (h : p.Held ∨ vals ≠ []) : (p.clocked (tmsClocks true vals)).Held :=
  Pins.held_clocked (h.imp id (fun hne hnil => hne (List.map_eq_nil_iff.1 hnil)))

theorem after_low {t : Tap} (h : t.next false = t) (n : Nat) : t.after (tmsClocks true (List.replicate n false)) = t := by
  induction n with
  | zero => rfl
  | succ n ih => exact (congrArg (Tap.after · _) h).trans ih

/-- The walk from a state that is tracked or not known. -/
theorem walked {j : Jtag (Wires σ)} (h : j.Tracked) (state : Tap) :
    (j.io.pins.clocked (tmsClocks true (route state 16 j.currentState).1)).tap = state ∧
      (j.io.pins.clocked (tmsClocks true (route state 16 j.currentState).1)).Held := by
  have hend := route_ends state j.currentState
  rw [Pins.tap_clocked]
  cases hcurrent : j.currentState with
  | none =>
    rw [hcurrent] at hend
    refine ⟨?_, held_tms (.inr ?_)⟩
    · exact Option.some.inj ((after_route_none state j.io.pins.tap 15).trans hend)
    · exact List.append_ne_nil_of_left_ne_nil (by decide) _
  | some current =>
    obtain ⟨htap, hheld⟩ := h current hcurrent
    rw [hcurrent] at hend
    refine ⟨?_, held_tms (.inl hheld)⟩
    rw [htap]
    exact Option.some.inj ((after_route state 16 current).trans hend)

/-- What a call comes to: it returns, the port is tracked, and the state is the one it names. -/
def Reaches {α : Type} (x : PortM (Wires σ) α) (j : Jtag (Wires σ)) (P : Jtag (Wires σ) → Prop) : Prop :=
  ∃ a j', x.run j = .ok a j' ∧ j'.Tracked ∧ P j'

theorem tracked_setTapState {j : Jtag (Wires σ)} (h : j.Tracked) {state : Tap} {pre : Nat}
    (hpre : state.next false = state ∨ pre = 0) :
    Reaches (setTapState state pre) j (fun j' => j'.currentState = some state) := by
  obtain ⟨htap, hheld⟩ := walked h state
  refine ⟨(), _, run_setTapState j state pre, tracked_inState ?_ ?_, rfl⟩
  · rw [io_clocked, tmsClocks_append, Wires.clocked, Pins.clocked_append, Pins.tap_clocked, htap]
    rcases hpre with hlow | hnone
    · exact after_low hlow pre
    · rw [hnone]
      rfl
  · rw [io_clocked, tmsClocks_append, Wires.clocked, Pins.clocked_append]
    exact held_tms (.inl hheld)

theorem tracked_tapTestLogicReset (j : Jtag (Wires σ)) :
    Reaches tapTestLogicReset j (fun j' => j'.currentState = some .testLogicReset) := by
  refine ⟨(), _, run_tapTestLogicReset j, tracked_inState ?_ ?_, rfl⟩
  · rw [io_clocked, Wires.clocked, Pins.tap_clocked]
    exact Tap.five_ones j.io.pins.tap
  · exact held_tms (.inr (by decide))

theorem Reaches.pure {α : Type} {a : α} {j : Jtag (Wires σ)} {P : Jtag (Wires σ) → Prop} (h : j.Tracked) (hP : P j) :
    Reaches (pure a : PortM (Wires σ) α) j P := ⟨a, j, rfl, h, hP⟩

theorem Reaches.bind {α β : Type} {x : PortM (Wires σ) α} {f : α → PortM (Wires σ) β} {j : Jtag (Wires σ)}
    {P Q : Jtag (Wires σ) → Prop} (hx : Reaches x j P) (hf : ∀ a j', j'.Tracked → P j' → Reaches (f a) j' Q) :
    Reaches (x >>= f) j Q := by
  obtain ⟨a, j', hrun, htracked, hP⟩ := hx
  obtain ⟨b, j'', hrun', htracked', hQ⟩ := hf a j' htracked hP
  exact ⟨b, j'', bind_ok_iff.2 ⟨a, j', hrun, hrun'⟩, htracked', hQ⟩

theorem Reaches.imp {α : Type} {x : PortM (Wires σ) α} {j : Jtag (Wires σ)} {P Q : Jtag (Wires σ) → Prop}
    (h : Reaches x j P) (hPQ : ∀ j', P j' → Q j') : Reaches x j Q := by
  obtain ⟨a, j', hrun, htracked, hP⟩ := h
  exact ⟨a, j', hrun, htracked, hPQ j' hP⟩

/-- A program whose first step is known. -/
theorem Reaches.step {α β : Type} {x : PortM (Wires σ) α} {f : α → PortM (Wires σ) β} {j j' : Jtag (Wires σ)} {a : α}
    {P : Jtag (Wires σ) → Prop} (hx : x.run j = .ok a j') (hf : Reaches (f a) j' P) : Reaches (x >>= f) j P := by
  obtain ⟨b, j'', hrun, h⟩ := hf
  exact ⟨b, j'', bind_ok_iff.2 ⟨a, j', hx, hrun⟩, h⟩

/-- A step that is taken only sometimes. -/
theorem Reaches.of_if {α : Type} {c : Prop} [Decidable c] {x : PortM (Wires σ) PUnit} {k : PortM (Wires σ) α}
    {j : Jtag (Wires σ)} {P : Jtag (Wires σ) → Prop} (h : j.Tracked) (hx : c → Reaches x j (fun _ => True))
    (hk : ∀ j', j'.Tracked → Reaches k j' P) : Reaches (if c then x >>= fun _ => k else k) j P := by
  by_cases hc : c
  · rw [if_pos hc]
    exact (hx hc).bind (fun _ j' htracked _ => hk j' htracked)
  · rw [if_neg hc]
    exact hk j h

/-! ## Shifts -/

theorem run_shift (j : Jtag (Wires σ)) (tdi : Bool) (n : Nat) (last : Bool) :
    (onIo (IoBase.shift tdi n last) : PortM (Wires σ) Unit).run j =
      .ok () (j.clocked (scan j.io.pins.tms last (List.replicate n tdi))) := rfl

/-- A transfer clocks as many bits as it is long. -/
theorem run_transfer (j : Jtag (Wires σ)) (tdi tdo : Option (List UInt8)) {length : Nat} (last : Bool)
    (hdata : ∀ bytes ∈ tdi, length ≤ 8 * bytes.length) : ∃ r bits, bits.length = length ∧
      (transfer tdi tdo length last).run j = .ok r (j.clocked (scan j.io.pins.tms last bits)) := by
  unfold transfer
  by_cases h : tdi.isSome = true ∨ tdo.isSome = true
  · rw [if_pos h]
    exact ⟨_, tdiBits j.io.pins.tdi tdi length last, length_tdiBits hdata, rfl⟩
  · rw [if_neg h]
    exact ⟨none, List.replicate length false, List.length_replicate, rfl⟩

/-- Bits shifted in a state that lasts. -/
theorem tracked_hold {j : Jtag (Wires σ)} (h : j.Tracked) {t : Tap} (ht : j.currentState = some t) (hstable : t.stable = true)
    (bits : List Bool) : (j.clocked (scan j.io.pins.tms false bits)).Tracked := by
  obtain ⟨htap, hheld⟩ := h t ht
  have hstays : t.next j.io.pins.tms = t := by
    unfold Pins.Held at hheld
    rw [htap] at hheld
    exact hheld hstable
  intro t' ht'
  have heq : t = t' := Option.some.inj (ht.symm.trans ht')
  subst heq
  refine ⟨?_, Pins.held_clocked (.inl hheld)⟩
  rw [io_clocked, Wires.clocked, Pins.tap_clocked, scan_false, htap, Tap.after_dataClocks hstays]

theorem run_nextTapState_shifts {j : Jtag (Wires σ)} {t : Tap} (hshift : t = .shiftDR ∨ t = .shiftIR)
    (ht : j.currentState = some t) (last : Bool) :
    (nextTapState last).run j = .ok () (if last then j.inState (some (t.next true)) else j) := by
  rw [nextTapState, EStateM.run_bind, EStateM.run_get]
  simp only [ht]
  rcases hshift with rfl | rfl <;> cases last <;> rfl

theorem run_nextTapState_other {j : Jtag (Wires σ)} (hDR : j.currentState ≠ some .shiftDR)
    (hIR : j.currentState ≠ some .shiftIR) (last : Bool) : (nextTapState last).run j = tapTestLogicReset.run j := by
  rw [nextTapState, EStateM.run_bind, EStateM.run_get]
  simp only

/-- **After a shift `nextTapState` is right**, in whatever state the shift was: where the state is not one that shifts, it resets
the port. -/
theorem tracked_nextTapState {j : Jtag (Wires σ)} (h : j.Tracked) {last : Bool} {bits : List Bool}
    (hne : last = true → bits ≠ []) :
    Reaches (nextTapState last) (j.clocked (scan j.io.pins.tms last bits)) (fun _ => True) := by
  have hshifts : ∀ t, t = .shiftDR ∨ t = .shiftIR → j.currentState = some t →
      (j.clocked (scan j.io.pins.tms last bits)).io.pins.tap = (if last then t.next true else t) ∧
        (j.clocked (scan j.io.pins.tms last bits)).io.pins.Held := by
    intro t hshift ht
    obtain ⟨htap, hheld⟩ := h t ht
    have hlow := hheld.tms_low (htap ▸ hshift)
    have hstays : t.next j.io.pins.tms = t := by
      rw [hlow]
      rcases hshift with rfl | rfl <;> rfl
    refine ⟨?_, Pins.held_clocked (.inl hheld)⟩
    rw [io_clocked, Wires.clocked, Pins.tap_clocked, htap]
    cases last with
    | false => rw [scan_false, Tap.after_dataClocks hstays, if_neg Bool.false_ne_true]
    | true => rw [Tap.after_scan hstays true (hne rfl)]
  by_cases hshift : j.currentState = some .shiftDR ∨ j.currentState = some .shiftIR
  · obtain ⟨t, hkind, ht⟩ : ∃ t, (t = .shiftDR ∨ t = .shiftIR) ∧ j.currentState = some t := by
      rcases hshift with h' | h'
      · exact ⟨_, .inl rfl, h'⟩
      · exact ⟨_, .inr rfl, h'⟩
    obtain ⟨htap, hheld⟩ := hshifts t hkind ht
    refine ⟨(), _, run_nextTapState_shifts (j := j.clocked (scan j.io.pins.tms last bits)) hkind ht last, ?_, trivial⟩
    cases last with
    | false =>
      intro t' ht'
      rw [if_neg Bool.false_ne_true] at ht' ⊢
      exact ⟨htap.trans (Option.some.inj (ht.symm.trans ht')), hheld⟩
    | true =>
      rw [if_pos rfl]
      exact tracked_inState htap hheld
  · obtain ⟨hDR, hIR⟩ := not_or.1 hshift
    obtain ⟨u, j', hrun, htracked, -⟩ := tracked_tapTestLogicReset (j.clocked (scan j.io.pins.tms last bits))
    have hother := run_nextTapState_other (j := j.clocked (scan j.io.pins.tms last bits)) hDR hIR last
    exact ⟨u, j', hother.trans hrun, htracked, trivial⟩

/-! ## The calls -/

theorem tracked_modify {j : Jtag (Wires σ)} (h : j.Tracked) {f : Jtag (Wires σ) → Jtag (Wires σ)} (hio : (f j).io = j.io)
    (hstate : (f j).currentState = j.currentState) : Reaches (modify f : PortM (Wires σ) PUnit) j (fun j' => j' = f j) := by
  refine ⟨(), f j, rfl, ?_, rfl⟩
  intro t ht
  rw [hio]
  exact h t (hstate.symm.trans ht)

/-- The bits after the selected device, and the end of the shift. -/
theorem tracked_post {j : Jtag (Wires σ)} (h : j.Tracked) (tdi : Bool) (post : Nat) {α : Type} {k : PortM (Wires σ) α}
    {P : Jtag (Wires σ) → Prop} (hk : ∀ j', j'.Tracked → Reaches k j' P) :
    Reaches (onIo (IoBase.shift tdi post true) >>= fun _ => if post ≠ 0 then nextTapState true >>= fun _ => k else k) j P := by
  apply Reaches.step (run_shift j tdi post true)
  by_cases hpost : post = 0
  · subst hpost
    exact hk j h
  · rw [if_pos hpost]
    have hne : true = true → List.replicate post tdi ≠ [] := by
      intro _ hnil
      exact hpost ((List.replicate_eq_nil_iff tdi).1 hnil)
    exact (tracked_nextTapState h hne).bind (fun _ j' htracked _ => hk j' htracked)

/-- `shiftDR` keeps track, if it shifts a bit wherever the selected device is the last one to leave the state with. -/
theorem tracked_shiftDR {j : Jtag (Wires σ)} (h : j.Tracked) {tdi tdo : Option (List UInt8)} {length align : Nat} {exit : Bool}
    (hdata : ∀ bytes ∈ tdi, length ≤ 8 * bytes.length) (hlength : j.deviceIndex = some 0 → exit = true → 0 < length) :
    Reaches (shiftDR tdi tdo length align exit) j (fun _ => True) := by
  unfold shiftDR
  apply Reaches.step (EStateM.run_get j)
  cases hindex : j.deviceIndex with
  | none => exact Reaches.pure h trivial
  | some post =>
    refine Reaches.of_if h (fun _ => ?_) (fun j1 h1 => ?_)
    · exact (tracked_setTapState h (.inl rfl)).imp (fun _ _ => trivial)
    · obtain ⟨r, bits, hbits, hrun⟩ := run_transfer j1 tdi tdo (decide (post = 0) && exit) hdata
      have hne : (decide (post = 0) && exit) = true → bits ≠ [] := by
        intro hlast hnil
        rw [Bool.and_eq_true, decide_eq_true_eq] at hlast
        have hpos := hlength (hlast.1 ▸ hindex) hlast.2
        rw [← hbits, hnil] at hpos
        exact Nat.lt_irrefl 0 hpos
      apply Reaches.step hrun
      apply (tracked_nextTapState h1 hne).bind
      intro _ j2 h2 _
      cases exit with
      | false => exact (tracked_modify h2 rfl rfl).bind (fun _ j3 h3 _ => Reaches.pure h3 trivial)
      | true =>
        apply tracked_post h2
        intro j3 h3
        apply (tracked_setTapState h3 (.inr rfl)).bind
        intro _ j4 h4 _
        exact (tracked_modify h4 rfl rfl).bind (fun _ j5 h5 _ => Reaches.pure h5 trivial)

theorem run_shiftTDITDO (j : Jtag (Wires σ)) (tdi : List UInt8) (tdo : Option (List UInt8)) {length : Nat} (last : Bool)
    (hdata : length ≤ 8 * tdi.length) : ∃ r bits, bits.length = length ∧
      (onIo (IoBase.shiftTDITDO (some tdi) tdo length last) : PortM (Wires σ) _).run j =
        .ok r (j.clocked (scan j.io.pins.tms last bits)) :=
  ⟨_, tdiBits j.io.pins.tdi (some tdi) length last, length_tdiBits (fun _ hbytes => Option.some.inj hbytes ▸ hdata), rfl⟩

/-- `shiftIR` keeps track, if the selected device has its instruction length. -/
theorem tracked_shiftIR {j : Jtag (Wires σ)} (h : j.Tracked) {tdi : List UInt8} {tdo : Option (List UInt8)}
    (hirlen : ∀ index, j.deviceIndex = some index → 0 < j.selectedIrlen index ∧ j.selectedIrlen index ≤ 8 * tdi.length) :
    Reaches (shiftIR tdi tdo) j (fun _ => True) := by
  unfold shiftIR
  apply Reaches.step (EStateM.run_get j)
  cases hindex : j.deviceIndex with
  | none => exact Reaches.pure h trivial
  | some index =>
    obtain ⟨hpos, hdata⟩ := hirlen index hindex
    apply (tracked_setTapState h (.inr rfl)).bind
    intro _ j1 h1 hstate
    apply Reaches.step (run_shift j1 true _ false)
    have h2 := tracked_hold h1 hstate rfl
      (List.replicate (irlens ((j.devices.take (j.numDevices.getD 0)).drop (index + 1))) true)
    generalize hj2 : j1.clocked _ = j2 at h2 ⊢
    have hstate2 : j2.currentState = some .shiftIR := hj2 ▸ hstate
    obtain ⟨r, bits, hbits, hrun⟩ := run_shiftTDITDO j2 tdi tdo (decide (irlens (j.devices.take index) = 0)) hdata
    apply Reaches.step hrun
    apply Reaches.step (run_shift _ true _ true)
    have hend : ∀ j', j'.Tracked → Reaches (do setTapState j.postIRState 0; return r : PortM (Wires σ) _) j' (fun _ => True) :=
      fun j' h' => (tracked_setTapState h' (.inr rfl)).bind (fun _ j'' h'' _ => Reaches.pure h'' trivial)
    by_cases hpost : irlens (j.devices.take index) = 0
    · have hne : true = true → bits ≠ [] := by
        intro _ hnil
        rw [hnil, List.length_nil] at hbits
        omega
      have hnext := tracked_nextTapState h2 hne
      rw [hpost]
      exact hnext.bind (fun _ j' h' _ => hend j' h')
    · have hne : true = true → List.replicate (irlens (j.devices.take index)) true ≠ [] :=
        fun _ hnil => hpost ((List.replicate_eq_nil_iff true).1 hnil)
      rw [decide_eq_false hpost]
      exact (tracked_nextTapState (tracked_hold h2 hstate2 rfl bits) hne).bind (fun _ j' h' _ => hend j' h')

theorem tracked_readIdcodes : ∀ (left : Nat) (idx : List UInt8) {j : Jtag (Wires σ)}, j.Tracked →
    j.currentState = some .shiftDR → Reaches (readIdcodes left idx) j (fun _ => True)
  | 0, idx, j, h, _ => Reaches.pure h trivial
  | left + 1, idx, j, h, hstate => by
    unfold readIdcodes
    have hdata : 32 ≤ 8 * [(0 : UInt8), 0, 0, 0].length := by
      decide
    obtain ⟨r, bits, -, hrun⟩ := run_shiftTDITDO j [0, 0, 0, 0] (some idx) false hdata
    apply Reaches.step hrun
    have h1 := tracked_hold h hstate rfl bits
    simp only
    split
    · apply (tracked_modify h1 rfl rfl).bind
      intro _ j2 h2 heq
      subst heq
      exact tracked_readIdcodes left _ h2 hstate
    · exact Reaches.pure h1 trivial

theorem tracked_getChain {j : Jtag (Wires σ)} (h : j.Tracked) (detect : Bool) (idx : List UInt8) :
    Reaches (getChain detect idx) j (fun _ => True) := by
  unfold getChain
  apply Reaches.step (EStateM.run_get j)
  have hend : ∀ j', j'.Tracked → Reaches (do return (← get).numDevices.getD 0 : PortM (Wires σ) Nat) j' (fun _ => True) :=
    fun j' h' => Reaches.step (EStateM.run_get j') (Reaches.pure h' trivial)
  by_cases hdetect : j.numDevices = none ∨ detect = true
  · rw [if_pos hdetect]
    apply (tracked_tapTestLogicReset j).bind
    intro _ j1 h1 _
    apply (tracked_setTapState h1 (.inr rfl)).bind
    intro _ j2 h2 hstate
    apply (tracked_modify h2 rfl rfl).bind
    intro _ j3 h3 heq
    subst heq
    apply (tracked_readIdcodes 1000 idx h3 hstate).bind
    intro _ j4 h4 _
    exact (tracked_setTapState h4 (.inr rfl)).bind (fun _ j5 h5 _ => hend j5 h5)
  · rw [if_neg hdetect]
    exact hend j h

/-- The clock cycled in a state that lasts. -/
theorem tracked_cycleTCK {j : Jtag (Wires σ)} (h : j.Tracked) (n : Nat) (tdi : Bool)
    (hstable : ∀ t, j.currentState = some t → t.stable = true) : Reaches (cycleTCK n tdi) j (fun _ => True) := by
  refine ⟨(), _, run_shift j tdi n false, ?_, trivial⟩
  intro t ht
  exact tracked_hold h ht (hstable t ht) _ t ht

theorem tracked_usleep {j : Jtag (Wires σ)} (h : j.Tracked) (usec : Nat)
    (hstable : ∀ t, j.currentState = some t → t.stable = true) : Reaches (usleep usec) j (fun _ => True) := by
  by_cases hshort : usec < 20000
  · refine ⟨(), j.clocked (j.io.pins.holding (idleBits j.io.hasFastClock j.io.pins.tdi (IoFtdi.ticks j.io.tckFreq usec))),
      ?_, ?_, trivial⟩
    · rw [usleep, onIo, run_zoom]
      simp only [IoBase.usleep, Wires.usleep, EStateM.run_modify, if_pos hshort]
      rfl
    · intro t ht
      have hhold := tracked_hold h ht (hstable t ht)
        (idleBits j.io.hasFastClock j.io.pins.tdi (IoFtdi.ticks j.io.tckFreq usec))
      rw [scan_false] at hhold
      exact hhold t ht
  · refine ⟨(), j, ?_, h, trivial⟩
    rw [usleep, onIo, run_zoom]
    simp only [IoBase.usleep, Wires.usleep, EStateM.run_modify, if_neg hshort]

/-! ## Runs -/

/-- What a call has to respect in the state it is made in. -/
def Call.Sound (j : Jtag (Wires σ)) : Call → Prop
  | .setTapState state pre => state.next false = state ∨ pre = 0
  | .shiftDR tdi _ length _ exit =>
    (∀ bytes ∈ tdi, length ≤ 8 * bytes.length) ∧ (j.deviceIndex = some 0 → exit = true → 0 < length)
  | .shiftIR tdi _ =>
    ∀ index, j.deviceIndex = some index →
      j.LengthsSet index ∧ 0 < j.selectedIrlen index ∧ j.selectedIrlen index ≤ 8 * tdi.length
  | .cycleTCK _ _ | .usleep _ => ∀ t, j.currentState = some t → t.stable = true
  | _ => True

/-- **A call keeps track.** -/
theorem tracked_call {j : Jtag (Wires σ)} (h : j.Tracked) (c : Call) (hc : c.Sound j) : Reaches c.run j (fun _ => True) := by
  cases c with
  | tapTestLogicReset => exact (tracked_tapTestLogicReset j).imp (fun _ _ => trivial)
  | setTapState state pre => exact (tracked_setTapState h hc).imp (fun _ _ => trivial)
  | shiftDR tdi tdo length align exit => exact (tracked_shiftDR h hc.1 hc.2).bind (fun _ j' h' _ => Reaches.pure h' trivial)
  | shiftIR tdi tdo => exact (tracked_shiftIR h (fun index hi => (hc index hi).2)).bind (fun _ j' h' _ => Reaches.pure h' trivial)
  | cycleTCK n tdi => exact tracked_cycleTCK h n tdi hc
  | usleep usec => exact tracked_usleep h usec hc
  | getChain detect idx => exact (tracked_getChain h detect idx).bind (fun _ j' h' _ => Reaches.pure h' trivial)
  | selectDevice dev => exact (tracked_modify h rfl rfl).imp (fun _ _ => trivial)
  | setDeviceIRLength dev len =>
    refine (tracked_modify h ?_ ?_).imp (fun _ _ => trivial)
    all_goals
      split <;> rfl

/-- Every call of a run respects its state. -/
def SoundRun : List Call → Jtag (Wires σ) → Prop
  | [], _ => True
  | c :: calls, j => c.Sound j ∧ SoundRun calls (final (c.run.run j))

theorem tracked_calls : ∀ (calls : List Call) {j : Jtag (Wires σ)}, j.Tracked → SoundRun calls j →
    Reaches (calls.forM Call.run : PortM (Wires σ) PUnit) j (fun _ => True)
  | [], j, h, _ => Reaches.pure h trivial
  | c :: calls, j, h, hs => by
    obtain ⟨hc, hrest⟩ := hs
    obtain ⟨u, j', hrun, h', -⟩ := tracked_call h c hc
    rw [hrun] at hrest
    exact Reaches.step hrun (tracked_calls calls h' hrest)

/-- **`current_state` is where the port is**, after any run of calls on a new `Jtag`, whatever the target and wherever it was. -/
theorem tracks_the_port (w : Wires σ) (calls : List Call) (h : SoundRun calls (Jtag.new w)) :
    ∃ j, (calls.forM Call.run : PortM (Wires σ) PUnit).run (Jtag.new w) = .ok () j ∧
      ∀ t, j.currentState = some t → j.io.pins.tap = t ∧ j.io.pins.Held := by
  obtain ⟨u, j, hrun, htracked, -⟩ := tracked_calls calls (j := Jtag.new w) (fun t ht => by cases ht) h
  exact ⟨j, hrun, htracked⟩

/-- A walk, a shift, and the clock cycled at rest, on a port found while it was shifting. -/
theorem tracks_the_port_walk : ∃ j : Jtag (Wires Tap),
    ([Call.setTapState .shiftDR 3, .setTapState .runTestIdle 0, .cycleTCK 5 true].forM Call.run).run
        (Jtag.new ⟨⟨false, false, .shiftIR⟩, true, 30000000⟩) = .ok () j ∧
      ∀ t, j.currentState = some t → j.io.pins.tap = t ∧ j.io.pins.Held := by
  apply tracks_the_port
  refine ⟨.inl rfl, .inr rfl, ?_, trivial⟩
  intro t ht
  cases ht
  rfl

end Jtag
end Xc3s
end Fpga
