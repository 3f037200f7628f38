import FpgaServer.Retraces
import FpgaServer.TapTracking
/-!
# TapRoutes — the shortest way, and a shift that loses the port

The loop of `setTapState` has a case for every state, and among them they make its way the shortest one from every state to every
other: each turn brings it one clock nearer, and no clock can bring a port more (`Base.potential_le`).

`nextTapState` takes it that a shift has left its state with the last bit.  A shift of no bits leaves nothing, so for the device
on TDI `current_state` goes on without the port, and every scan after it is one in the wrong state (`shiftDR_tracks_iff`).
-/
namespace Base

/-- What a step lowers by one at most takes as many steps as it is high. -/
theorem potential_le {α ι : Type} {step : α → ι → α} {potential : α → Nat}
    (h : ∀ a i, potential a ≤ potential (step a i) + 1) (is : List ι) (a : α) :
    potential a ≤ is.length + potential (is.foldl step a) := by
  induction is generalizing a with
  | nil => exact Nat.le_add_left _ _
  | cons i is ih =>
    have hfirst := h a i
    have hrest := ih (step a i)
    rw [List.length_cons, List.foldl_cons]
    omega

end Base

namespace Fpga
namespace Xc3s

open Base

namespace Jtag

variable {σ : Type} [Target σ]

/-- The clocks the loop of `setTapState` takes from a state. -/
def distance (state current : Tap) : Nat := (route state 16 (some current)).1.length

theorem distance_self (state : Tap) : distance state state = 0 := by
  cases state <;> rfl

/-- A clock brings the port nearer by one at most, whatever its level. -/
theorem distance_next (state current : Tap) (tms : Bool) : distance state current ≤ distance state (current.next tms) + 1 := by
  cases tms <;> cases state <;> cases current <;> decide

/-- No other clocks that lead there are fewer. -/
theorem distance_le {state current : Tap} {cs : List Clock} (h : current.after cs = state) : distance state current ≤ cs.length := by
  have hall := potential_le (fun (a : Tap) (c : Clock) => distance_next state a c.tms) cs current
  have hend : cs.foldl (fun (t : Tap) (c : Clock) => t.next c.tms) current = state := h
  rwa [hend, distance_self, Nat.add_zero] at hall

theorem distance_le_eight (state current : Tap) : distance state current ≤ 8 := by
  cases state <;> cases current <;> decide

/-- From a state not known, the way is that from reset, and the six clocks to get there. -/
theorem length_route_none (state : Tap) : (route state 16 none).1.length ≤ 13 := by
  cases state <;> decide

/-- **`setTapState` takes the shortest way**: it ends in the state asked for, on any target, and from a state that is tracked no
other clocks that lead there are fewer. -/
theorem setTapState_shortest {j : Jtag (Wires σ)} (h : j.Tracked) (state : Tap) :
    ∃ levels, (setTapState state 0).run j = .ok () ((j.clocked (tmsClocks true levels)).inState (some state)) ∧
      (j.io.pins.clocked (tmsClocks true levels)).tap = state ∧ levels.length ≤ 13 ∧
      ∀ t, j.currentState = some t → ∀ cs, (j.io.pins.clocked cs).tap = state → levels.length ≤ cs.length := by
  have hrun := run_setTapState j state 0
  rw [List.replicate_zero, List.append_nil] at hrun
  refine ⟨(route state 16 j.currentState).1, hrun, (walked h state).1, ?_, ?_⟩
  · cases hcurrent : j.currentState with
    | none => exact length_route_none state
    | some current => exact Nat.le_trans (distance_le_eight state current) (by decide)
  · intro t ht cs hcs
    rw [Pins.tap_clocked, (h t ht).1] at hcs
    rw [ht]
    exact distance_le hcs

/-- A port half way from a reset to a scan. -/
def halfway : Jtag (Wires Tap) :=
  ⟨⟨⟨true, true, .selectDRScan⟩, true, 6000⟩, some .selectDRScan, [], none, .runTestIdle, .runTestIdle, none, false⟩

theorem setTapState_shortest_halfway : ∃ levels, (setTapState .shiftDR 0).run halfway =
    .ok () ((halfway.clocked (tmsClocks true levels)).inState (some .shiftDR)) ∧ levels.length ≤ 2 := by
  have htracked : halfway.Tracked := by
    intro t ht
    cases ht
    exact ⟨rfl, fun hstable => by cases hstable⟩
  obtain ⟨levels, hrun, -, -, hleast⟩ := setTapState_shortest htracked .shiftDR
  exact ⟨levels, hrun, hleast _ rfl [⟨false, true⟩, ⟨false, true⟩] rfl⟩

/-! ## No bits -/

/-- The way from `EXIT1_DR`, taken from `SHIFT_DR`, never ends where it should. -/
theorem astray (state : Tap) : Tap.shiftDR.after (tmsClocks true (route state 16 (some .exit1DR)).1) ≠ state := by
  cases state <;> decide

/-- What a shift of no bits comes to. -/
theorem run_shiftDR_nothing {j : Jtag (Wires σ)} (h : j.Tracked) (hindex : j.deviceIndex = some 0)
    (hcomplete : j.shiftDRincomplete = false) (tdi tdo : Option (List UInt8)) (align : Nat) :
    ∃ r j', (shiftDR tdi tdo 0 align true).run j = .ok r j' ∧ j'.currentState = some j.postDRState ∧
      j'.io.pins.tap = Tap.shiftDR.after (tmsClocks true (route j.postDRState 16 (some .exit1DR)).1) := by
  have hlow : Tap.shiftDR.next false = .shiftDR ∨ preBits (j.numDevices.getD 0) 0 align = 0 := .inl rfl
  have hnone : ∀ bytes ∈ tdi, 0 ≤ 8 * bytes.length := fun _ _ => Nat.zero_le _
  obtain ⟨u, j1, hshift, htracked1, hstate1⟩ := tracked_setTapState h hlow
  obtain ⟨r, bits, hbits, htransfer⟩ := run_transfer j1 tdi tdo true hnone
  have hnil := List.length_eq_zero_iff.1 hbits
  subst hnil
  have hsame : j1.clocked (scan j1.io.pins.tms true []) = j1 := rfl
  rw [hsame] at htransfer
  have hnext := run_nextTapState_shifts (.inl rfl) hstate1 true
  have hleave := run_setTapState (j1.inState (some .exit1DR)) j.postDRState 0
  rw [List.replicate_zero, List.append_nil] at hleave
  have hnext' : (nextTapState true).run j1 = .ok () (j1.inState (some .exit1DR)) := hnext
  have hpost : (onIo (IoBase.shift false 0 true) : PortM (Wires σ) Unit).run (j1.inState (some .exit1DR)) =
      .ok () (j1.inState (some .exit1DR)) := rfl
  have hstart := (htracked1 _ hstate1).1
  refine ⟨r, { (((j1.inState (some .exit1DR)).clocked (tmsClocks true (route j.postDRState 16 (some .exit1DR)).1)).inState
    (some j.postDRState)) with shiftDRincomplete := false }, ?_, rfl, ?_⟩
  · unfold shiftDR
    rw [run_bind_of (EStateM.run_get j)]
    simp only [hindex, hcomplete, if_pos, decide_true, Bool.and_true]
    rw [run_bind_of hshift, run_bind_of htransfer, run_bind_of hnext', run_bind_of hpost, if_neg (fun hne => hne rfl),
      run_bind_of hleave]
    rfl
  · have hpins := Pins.tap_clocked j1.io.pins (tmsClocks true (route j.postDRState 16 (some .exit1DR)).1)
    rw [hstart] at hpins
    exact hpins

/-- **`shiftDR` keeps track if and only if it shifts a bit**, for the device on TDI and a shift made in one part: after a shift of
nothing `current_state` is not where the port is, on any target and for any state the shift is to end in. -/
theorem shiftDR_tracks_iff {j : Jtag (Wires σ)} (h : j.Tracked) (hindex : j.deviceIndex = some 0)
    (hcomplete : j.shiftDRincomplete = false) {tdi tdo : Option (List UInt8)} {length : Nat} (align : Nat)
    (hdata : ∀ bytes ∈ tdi, length ≤ 8 * bytes.length) :
    (∃ r j', (shiftDR tdi tdo length align true).run j = .ok r j' ∧ ∀ t, j'.currentState = some t → j'.io.pins.tap = t) ↔
      0 < length := by
  constructor
  · rintro ⟨r, j', hrun, htap'⟩
    refine Nat.pos_of_ne_zero (fun hzero => ?_)
    subst hzero
    obtain ⟨r', j'', hrun', hstate, htap⟩ := run_shiftDR_nothing h hindex hcomplete tdi tdo align
    rw [hrun] at hrun'
    cases hrun'
    exact astray j.postDRState (htap.symm.trans (htap' _ hstate))
  · intro hpos
    have hreaches : Reaches (shiftDR tdi tdo length align true) j (fun _ => True) := tracked_shiftDR h hdata (fun _ _ => hpos)
    obtain ⟨r, j', hrun, htracked, -⟩ := hreaches
    exact ⟨r, j', hrun, fun t ht => (htracked t ht).1⟩

/-- A `Jtag` at rest that has selected its one device. -/
def seated : Jtag (Wires Tap) := ⟨⟨⟨false, true, .runTestIdle⟩, true, 6000⟩, some .runTestIdle, [⟨5, some 6⟩], some 1, .runTestIdle,
  .runTestIdle, some 0, false⟩

theorem shiftDR_tracks_iff_nothing : ¬ ∃ r j', (shiftDR (some []) none 0 0 true).run seated = .ok r j' ∧
    ∀ t, j'.currentState = some t → j'.io.pins.tap = t := by
  have htracked : seated.Tracked := by
    intro t ht
    cases ht
    exact ⟨rfl, fun _ => rfl⟩
  have hdata : ∀ bytes ∈ some ([] : List UInt8), 0 ≤ 8 * bytes.length := fun _ _ => Nat.zero_le _
  intro hkeeps
  exact Nat.lt_irrefl 0 ((shiftDR_tracks_iff htracked rfl rfl 0 hdata).1 hkeeps)

end Jtag
end Xc3s
end Fpga
