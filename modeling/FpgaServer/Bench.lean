import FpgaServer.Scans
/-!
# Bench — a device by itself

`Bench` is the one device of a chain, with nothing between it and the four calls of `ProgAlgXC3S`: an instruction, an exchange of
the data register, clocks at rest.  `Jtag` on the lines of the chain mirrors it (`scans_bench`), in results as in states.
-/
namespace Fpga
namespace Xc3s

open Base

/-- The device, whether it is held in reset still, and what `Usleep` goes by. -/
structure Bench (δ : Type) where
  part : Member δ
  fresh : Bool
  hasFastClock : Bool
  tckFreq : Nat

theorem length_idleBits (hasFastClock held held' : Bool) (n : Nat) :
    (idleBits hasFastClock held n).length = (idleBits hasFastClock held' n).length := by
  unfold idleBits
  split
  · rw [List.length_replicate, List.length_replicate]
  · rfl

namespace Bench

variable {δ : Type} [Circuit δ]

def shiftIR (tdi : List UInt8) (tdo : Option (List UInt8)) : EStateM String (Bench δ) (Option (List UInt8)) :=
  modifyGet (fun b => (tdo.map (fun buf => store buf 0 (packBits b.part.idle.status)),
    { b with part := b.part.idle.load ((bytesBits tdi).take b.part.irlen), fresh := false }))

def shiftDR (tdi tdo : Option (List UInt8)) (length : Nat) : EStateM String (Bench δ) (Option (List UInt8)) :=
  modifyGet (fun b => (tdo.map (fun buf => store buf 0 (packBits ((b.part.idle.captured ++
      Jtag.sent true tdi tdo length true).take length))),
    { b with part := b.part.scanned true (Jtag.sent true tdi tdo length true), fresh := false }))

def cycleTCK (n : Nat) : EStateM String (Bench δ) Unit := modify (fun b => { b with part := b.part.still b.fresh n })

/-- The clocks of `Usleep`. -/
def pauseClocks (hasFastClock : Bool) (tckFreq usec : Nat) : Nat :=
  if usec < 20000 then (idleBits hasFastClock true (IoFtdi.ticks tckFreq usec)).length else 0

def usleep (usec : Nat) : EStateM String (Bench δ) Unit :=
  modify (fun b => { b with part := b.part.still b.fresh (pauseClocks b.hasFastClock b.tckFreq usec) })

instance : Scanner (Bench δ) where
  shiftIR := shiftIR
  shiftDR := shiftDR
  cycleTCK := cycleTCK
  usleep := usleep

/-- A `Jtag` that has selected the one device of its chain, and this device. -/
structure Seats (j : Jtag (Wires (Chain δ))) (b : Bench δ) : Prop where
  rests : Jtag.RestsIn (stillState b.fresh) j [b.part]
  index : j.deviceIndex = some 0
  measured : Jtag.Measured j [b.part]
  irlen : 0 < b.part.irlen ∧ b.part.irlen ≤ 8
  postDRState : j.postDRState = .runTestIdle
  postIRState : j.postIRState = .runTestIdle
  complete : j.shiftDRincomplete = false
  hasFastClock : j.io.hasFastClock = b.hasFastClock
  tckFreq : j.io.tckFreq = b.tckFreq

omit [Circuit δ] in
theorem Seats.at_rest {j : Jtag (Wires (Chain δ))} {b : Bench δ} (h : Seats j b) : Jtag.Rests j ([] ++ b.part :: []) := by
  have hrests := h.rests
  cases hfresh : b.fresh with
  | false =>
    rw [hfresh] at hrests
    exact .inl hrests
  | true =>
    rw [hfresh] at hrests
    exact .inr hrests

omit [Circuit δ] in
/-- After a call that leaves the rest of `Jtag` as it is. -/
theorem Seats.placed {j : Jtag (Wires (Chain δ))} {b : Bench δ} (h : Seats j b) {q : Pins (Chain δ)} {p : Member δ} (fresh : Bool)
    (hrests : Jtag.RestsIn (stillState fresh) (j.placed q (stillState fresh)) [p]) (hstatic : p.static = b.part.static) :
    Seats (j.placed q (stillState fresh)) { b with part := p, fresh := fresh } := by
  have hirlen : p.irlen = b.part.irlen := congrArg Prod.fst hstatic
  refine ⟨hrests, h.index, ?_, ?_, h.postDRState, h.postIRState, h.complete, h.hasFastClock, h.tckFreq⟩
  · obtain ⟨hnum, hlens⟩ := h.measured
    refine ⟨hnum, hlens.trans ?_⟩
    rw [List.map_singleton, List.map_singleton, hirlen]
  · exact hirlen ▸ h.irlen

theorem mirrors_shiftIR {tdi : List UInt8} (hi : 1 ≤ tdi.length) (tdo : Option (List UInt8)) :
    Mirrors (Seats (δ := δ)) (Jtag.shiftIR tdi tdo) (shiftIR tdi tdo) := by
  intro j b h
  have hdata : b.part.irlen ≤ 8 * tdi.length := by
    have := h.irlen.2
    omega
  obtain ⟨q, hrun, hrests⟩ :=
    Jtag.run_shiftIR_chain h.at_rest h.index h.measured h.postIRState h.irlen.1 hdata tdo
  exact ⟨_, hrun, h.placed false hrests rfl⟩

theorem mirrors_shiftDR {tdi tdo : Option (List UInt8)} {length : Nat} (hlength : 0 < length)
    (hdata : ∀ bytes ∈ tdi, length ≤ 8 * bytes.length) :
    Mirrors (Seats (δ := δ)) (Jtag.shiftDR tdi tdo length 0 true) (shiftDR tdi tdo length) := by
  intro j b h
  have hnone : Bypassed ([] : List (Member δ)) := fun p hp => by cases hp
  obtain ⟨r, q, before, after, hrun, hrests, hbefore, hafter, hback⟩ :=
    Jtag.run_shiftDR_chain h.at_rest h.index h.measured.1 hnone hnone h.postDRState h.complete
      hdata tdo 0 (.inl hlength)
  cases hbefore
  cases hafter
  have hr := hback rfl
  subst hr
  exact ⟨_, hrun, h.placed false hrests (b.part.static_scanned _ _)⟩

/-- Clocks with TMS as it is held. -/
theorem mirrors_still {j : Jtag (Wires (Chain δ))} {b : Bench δ} (h : Seats j b) (bs : List Bool) :
    Seats (j.clocked (j.io.pins.holding bs)) { b with part := b.part.still b.fresh bs.length } := by
  have htms : j.io.pins.tms = b.fresh := by
    rw [h.rests.tms]
    cases b.fresh <;> rfl
  have htarget := clocked_still b.fresh bs h.rests.target
  have hclocks : j.io.pins.holding bs = dataClocks b.fresh bs := by
    rw [Pins.holding, htms]
  have hplaced : j.clocked (j.io.pins.holding bs) =
      j.placed (j.io.pins.clocked (j.io.pins.holding bs)) (stillState b.fresh) := by
    rw [Jtag.placed, ← h.rests.state]
    rfl
  rw [hplaced]
  refine h.placed b.fresh ⟨rfl, ?_, ?_⟩ (b.part.static_still _ _)
  · rw [hclocks]
    exact htarget
  · exact (tms_holding j.io.pins bs).trans h.rests.tms

theorem mirrors_cycleTCK (n : Nat) : Mirrors (Seats (δ := δ)) (Jtag.cycleTCK n true) (cycleTCK n) := by
  intro j b h
  have hstill := mirrors_still h (List.replicate n true)
  rw [List.length_replicate] at hstill
  refine ⟨_, ?_, hstill⟩
  rw [Jtag.cycleTCK, Jtag.run_shift, scan_false]
  rfl

theorem mirrors_usleep (usec : Nat) : Mirrors (Seats (δ := δ)) (Jtag.usleep usec) (usleep usec) := by
  intro j b h
  by_cases hshort : usec < 20000
  · have hstill := mirrors_still h (idleBits j.io.hasFastClock j.io.pins.tdi (IoFtdi.ticks j.io.tckFreq usec))
    have hcount : (idleBits j.io.hasFastClock j.io.pins.tdi (IoFtdi.ticks j.io.tckFreq usec)).length =
        pauseClocks b.hasFastClock b.tckFreq usec := by
      rw [pauseClocks, if_pos hshort, h.hasFastClock, h.tckFreq]
      exact length_idleBits _ _ _ _
    rw [hcount] at hstill
    refine ⟨_, ?_, hstill⟩
    rw [Jtag.usleep, Jtag.onIo, run_zoom]
    simp only [IoBase.usleep, Wires.usleep, EStateM.run_modify, if_pos hshort]
    rfl
  · have hnone : pauseClocks b.hasFastClock b.tckFreq usec = 0 := if_neg hshort
    refine ⟨j, ?_, ?_⟩
    · rw [Jtag.usleep, Jtag.onIo, run_zoom]
      simp only [IoBase.usleep, Wires.usleep, EStateM.run_modify, if_neg hshort]
    · simp only [hnone]
      exact h

/-- **`Jtag` on the lines mirrors the device**, call by call. -/
theorem scans_bench : Scans (fun {α} (x : EStateM String (Jtag (Wires (Chain δ))) α) (y : EStateM String (Bench δ) α) =>
    Mirrors Seats x y) (fun _ => True) where
  shiftIR _ tdo hi _ := mirrors_shiftIR hi tdo
  shiftDR _ _ _ hlength hdata _ := mirrors_shiftDR hlength hdata
  cycleTCK n := mirrors_cycleTCK n
  usleep usec _ := mirrors_usleep usec

end Bench
end Xc3s
end Fpga
