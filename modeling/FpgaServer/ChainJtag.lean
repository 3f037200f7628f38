import FpgaServer.Retraces
import FpgaServer.ScanChain
import FpgaServer.TapTracking
/-!
# ChainJtag — `Jtag` on a chain of devices

On the lines of a `Chain`, `shiftIR` loads the selected device with its instruction and all others with `BYPASS`, `shiftDR`
exchanges the data register of the selected device with its data, and `getChain` finds the devices.  Device 0 is the one on TDI.
-/
namespace Fpga
namespace Xc3s

open Base

namespace Jtag

variable {δ : Type} [Circuit δ]

/-- The same `Jtag` with the lines elsewhere, and in another state. -/
def placed (j : Jtag (Wires (Chain δ))) (q : Pins (Chain δ)) (state : Tap) : Jtag (Wires (Chain δ)) :=
  { j with io := { j.io with pins := q }, currentState := some state }

/-- The state is this one, with these devices, and TMS is held so that it lasts. -/
structure RestsIn (t : Tap) (j : Jtag (Wires (Chain δ))) (ps : List (Member δ)) : Prop where
  state : j.currentState = some t
  target : j.io.pins.target = ⟨t, ps⟩
  tms : j.io.pins.tms = decide (t = .testLogicReset)

/-- At rest or reset. -/
def Rests (j : Jtag (Wires (Chain δ))) (ps : List (Member δ)) : Prop :=
  RestsIn .runTestIdle j ps ∨ RestsIn .testLogicReset j ps

/-! ## To a scan and back -/

theorem tmsClocks_low (n : Nat) : tmsClocks true (List.replicate n false) = dataClocks false (List.replicate n true) := by
  rw [tmsClocks, dataClocks, List.map_replicate, List.map_replicate]

/-- The way to a scan, and the levels for the devices before the data. -/
theorem run_enter (dr : Bool) {j : Jtag (Wires (Chain δ))} {ps : List (Member δ)} (h : Rests j ps) (pre : Nat) :
    ∃ q : Pins (Chain δ), (setTapState (shiftState dr) pre).run j =
        .ok () (j.placed (q.clocked (scan q.tms false (List.replicate pre true))) (shiftState dr)) ∧
      q.target = ⟨shiftState dr, ps.map (fun p => p.idle.capture dr)⟩ ∧ q.tms = false ∧ q.tdi = true := by
  have hrun := run_setTapState j (shiftState dr) pre
  have hlevels : ∀ q : Pins (Chain δ), (q.clocked (tmsClocks true (enterLevels dr))).tms = false ∧
      (q.clocked (tmsClocks true (enterLevels dr))).tdi = true := by
    intro q
    rw [Pins.tms_clocked, Pins.tdi_clocked]
    cases dr <;> exact ⟨rfl, rfl⟩
  have hend : ∀ q : Pins (Chain δ), q.target = ⟨.runTestIdle, ps⟩ →
      (j.io.pins.clocked (tmsClocks true (route (shiftState dr) 16 j.currentState).1) =
        q.clocked (tmsClocks true (enterLevels dr))) →
      ∃ q : Pins (Chain δ), (setTapState (shiftState dr) pre).run j =
          .ok () (j.placed (q.clocked (scan q.tms false (List.replicate pre true))) (shiftState dr)) ∧
        q.target = ⟨shiftState dr, ps.map (fun p => p.idle.capture dr)⟩ ∧ q.tms = false ∧ q.tdi = true := by
    intro q htarget hroute
    refine ⟨_, ?_, clocked_enter dr htarget, hlevels q⟩
    rw [hrun, tmsClocks_append, tmsClocks_low, ← clocked_clocked, (hlevels q).1, scan_false, ← hroute]
    rfl
  rcases h with h | h
  · apply hend j.io.pins h.target
    rw [h.state]
    cases dr <;> rfl
  · apply hend (j.io.pins.clock ⟨false, true⟩).1
    · rw [Pins.clock, h.target]
      rfl
    · rw [h.state]
      cases dr <;> rfl

/-- The way back. -/
theorem run_leave (dr : Bool) {j : Jtag (Wires (Chain δ))} {q : Pins (Chain δ)} {ps : List (Member δ)}
    (htarget : q.target = ⟨exitState dr, ps⟩) : ∃ q' : Pins (Chain δ),
      (setTapState .runTestIdle 0).run (j.placed q (exitState dr)) = .ok () (j.placed q' .runTestIdle) ∧
        RestsIn .runTestIdle (j.placed q' .runTestIdle) (ps.map (Member.finish dr)) := by
  refine ⟨q.clocked (tmsClocks true leaveLevels), ?_, rfl, clocked_leave dr htarget, Pins.tms_clocked q _⟩
  rw [run_setTapState]
  cases dr <;> rfl

/-! ## `shiftDR` -/

/-- The bits of a transfer. -/
def sent (held : Bool) (tdi tdo : Option (List UInt8)) (length : Nat) (last : Bool) : List Bool :=
  if tdi.isSome ∨ tdo.isSome then tdiBits held tdi length last else List.replicate length false

theorem length_sent {held : Bool} {tdi tdo : Option (List UInt8)} {length : Nat} {last : Bool}
    (hdata : ∀ bytes ∈ tdi, length ≤ 8 * bytes.length) : (sent held tdi tdo length last).length = length := by
  unfold sent
  split
  · exact length_tdiBits hdata
  · exact List.length_replicate

theorem run_transfer_sent {σ : Type} [Target σ] (j : Jtag (Wires σ)) (tdi tdo : Option (List UInt8)) (length : Nat) (last : Bool) :
    (transfer tdi tdo length last).run j =
      .ok (tdo.map (fun buf => store buf 0 (packBits (j.io.pins.shown
          (scan j.io.pins.tms last (sent j.io.pins.tdi tdi tdo length last))))))
        (j.clocked (scan j.io.pins.tms last (sent j.io.pins.tdi tdi tdo length last))) := by
  unfold transfer sent
  by_cases h : tdi.isSome = true ∨ tdo.isSome = true
  · rw [if_pos h, if_pos h]
    rfl
  · have hnone : tdo = none := Option.not_isSome_iff_eq_none.1 (fun hsome => h (.inr hsome))
    rw [if_neg h, if_neg h, hnone]
    rfl

/-- The bits a device selected among others sees in `shiftDR`. -/
def seen (post pre : Nat) (data : List Bool) : List Bool := List.replicate post false ++ List.replicate pre true ++ data

/-- **`shiftDR` on a chain**, with the other devices bypassed: the selected one sees its data, after the bits of the devices before
it and those that are to pass the devices behind it; and where these are as many as the devices, what comes back is its register. -/
theorem run_shiftDR_chain {j : Jtag (Wires (Chain δ))} {before after : List (Member δ)} {p : Member δ}
    (h : Rests j (before ++ p :: after)) (hindex : j.deviceIndex = some before.length)
    (hcount : j.numDevices = some (before.length + 1 + after.length)) (hbefore : Bypassed before) (hafter : Bypassed after)
    (hstate : j.postDRState = .runTestIdle) (hcomplete : j.shiftDRincomplete = false) {tdi : Option (List UInt8)}
    {length : Nat} (hdata : ∀ bytes ∈ tdi, length ≤ 8 * bytes.length) (tdo : Option (List UInt8)) (align : Nat)
    (hlength : 0 < length ∨ before ≠ []) :
    ∃ r q before' after', (shiftDR tdi tdo length align true).run j = .ok r (j.placed q .runTestIdle) ∧
      RestsIn .runTestIdle (j.placed q .runTestIdle) (before' ++ p.scanned true (seen before.length
        (preBits (before.length + 1 + after.length) before.length align)
        (sent true tdi tdo length (decide (before.length = 0)))) :: after') ∧
      List.Forall₂ Waited before before' ∧ List.Forall₂ Waited after after' ∧
      (align = 0 → r = tdo.map (fun buf => store buf 0 (packBits ((p.idle.captured ++
        seen before.length after.length (sent true tdi tdo length (decide (before.length = 0)))).take length)))) := by
  obtain ⟨q, henter, htarget, htms, htdi⟩ := run_enter true h (preBits (before.length + 1 + after.length) before.length align)
  generalize hpre : preBits (before.length + 1 + after.length) before.length align = pre at henter
  generalize hbits : sent true tdi tdo length (decide (before.length = 0)) = bits
  have hlen : bits.length = length := by
    rw [← hbits]
    exact length_sent hdata
  have hempty : (List.replicate before.length false).isEmpty = decide (before.length = 0) := by
    cases before <;> rfl
  have hne : bits ≠ [] ∨ List.replicate before.length false ≠ [] := by
    rcases hlength with hpos | hsome
    · refine .inl (fun hnil => ?_)
      rw [hnil] at hlen
      exact Nat.ne_of_lt hpos hlen
    · refine .inr (fun hnil => hsome ?_)
      exact List.length_eq_zero_iff.1 ((List.length_replicate).symm.trans (congrArg List.length hnil))
  have hmap : (before ++ p :: after).map (fun p => p.idle.capture true) =
      before.map (fun p => p.idle.capture true) ++ p.idle.capture true :: after.map (fun p => p.idle.capture true) := by
    rw [List.map_append, List.map_cons]
  rw [hmap] at htarget
  obtain ⟨q1, q2, q3, hq1, hq2, hq3, htarget3, hshown⟩ :=
    scan_pieces true htms htarget (List.replicate pre true) hne
  have hqueue := queue_captured hbefore
  obtain ⟨before', after', hmembers, hkept, hkept', -, hback⟩ := run_around true (p.idle.capture true) (List.replicate pre true) bits
    (fun _ => selects_captured hbefore) (fun _ => selects_captured hafter)
    (by rw [hqueue] : (List.replicate before.length false).length = _)
  rw [hmembers, hqueue] at htarget3
  rw [hqueue] at hback
  have hq1tdi : q1.tdi = true := by
    rw [← hq1, Pins.tdi_clocked, scan_false, dataClocks, List.map_replicate, List.getLast?_replicate, htdi]
    split <;> rfl
  obtain ⟨q4, hleave, hrest⟩ := run_leave true (j := j) htarget3
  have hexit : exitState true = Tap.exit1DR := rfl
  rw [hexit] at hleave
  have hplaced : ∀ q0 t, (j.placed q0 t).io.pins = q0 := fun _ _ => rfl
  have hshift : (setTapState .shiftDR pre).run j = .ok () (j.placed q1 .shiftDR) := by
    rw [← hq1]
    exact henter
  have htransfer : (transfer tdi tdo length (decide (before.length = 0) && true)).run (j.placed q1 .shiftDR) =
      .ok (tdo.map (fun buf => store buf 0 (packBits (q1.shown (scan q1.tms (List.replicate before.length false).isEmpty bits)))))
        (j.placed q2 .shiftDR) := by
    rw [Bool.and_true, run_transfer_sent, hplaced, hq1tdi, hbits, ← hempty, ← hq2]
    rfl
  have hnext : (nextTapState (decide (before.length = 0) && true)).run (j.placed q2 .shiftDR) =
      .ok () (j.placed q2 (if before.length = 0 then .exit1DR else .shiftDR)) := by
    rw [run_nextTapState_shifts (.inl rfl) rfl]
    by_cases h0 : before.length = 0
    · rw [decide_eq_true h0, if_pos h0]
      rfl
    · rw [decide_eq_false h0, if_neg h0]
      rfl
  have hpost : ∀ t, (onIo (IoBase.shift false before.length true)).run (j.placed q2 t) = .ok () (j.placed q3 t) := by
    intro t
    rw [run_shift, hplaced, ← hq3]
    rfl
  have hlast : ∀ {α : Type} (k : PortM (Wires (Chain δ)) α),
      (if before.length ≠ 0 then nextTapState true >>= fun _ => k else k).run
        (j.placed q3 (if before.length = 0 then .exit1DR else .shiftDR)) = k.run (j.placed q3 .exit1DR) := by
    intro α k
    by_cases h0 : before.length = 0
    · rw [if_neg (fun hne => hne h0), if_pos h0]
    · rw [if_pos h0, if_neg h0, run_bind_of (run_nextTapState_shifts (.inl rfl) rfl true)]
      rfl
  generalize hr : tdo.map (fun buf => store buf 0 (packBits (q1.shown (scan q1.tms (List.replicate before.length false).isEmpty bits))))
    = r at htransfer
  refine ⟨r, q4, before'.map (Member.finish true), after'.map (Member.finish true), ?_, ?_, waited_of_kept hbefore hkept,
    waited_of_kept hafter hkept', ?_⟩
  · unfold shiftDR
    rw [run_bind_of (EStateM.run_get j)]
    simp only [hindex, hcomplete, if_pos, hcount, Option.getD_some, hpre]
    rw [run_bind_of hshift, run_bind_of htransfer, run_bind_of hnext, run_bind_of (hpost _), hlast, hstate,
      run_bind_of hleave]
    have hsame : { j.placed q4 .runTestIdle with shiftDRincomplete := false } = j.placed q4 .runTestIdle := by
      rw [← hcomplete]
      rfl
    exact congrArg (EStateM.Result.ok _) hsame
  · rw [List.map_append, List.map_cons] at hrest
    rw [seen]
    exact hrest
  · intro halign
    have hafterlen : pre = after.length := by
      rw [← hpre, halign, preBits, if_pos rfl]
      omega
    have hxs : (List.replicate pre true).length = (queue (after.map (fun p => p.idle.capture true))).length := by
      rw [queue_captured hafter, List.length_replicate, List.length_replicate, hafterlen]
    obtain ⟨hread, -⟩ := hback hxs
    have hcaptured : (p.idle.capture true).register = p.idle.captured := rfl
    rw [← hr, hshown, hread, hlen, hafterlen, seen, hcaptured]
    simp only [List.append_assoc]

/-! ## `shiftIR` -/

/-- The instruction lengths `Jtag` has are those of the devices. -/
def Measured {ι : Type} (j : Jtag ι) (ps : List (Member δ)) : Prop :=
  j.numDevices = some ps.length ∧ (j.devices.take ps.length).map (·.irlen) = ps.map (fun p => some p.irlen)

omit [Circuit δ] in
theorem irlens_eq {devices : List ChainParam} {ps : List (Member δ)}
    (h : devices.map (·.irlen) = ps.map (fun p => some p.irlen)) : irlens devices = (ps.map (·.irlen)).sum := by
  have hlens := congrArg (List.map (fun len : Option Nat => len.getD 0)) h
  rw [List.map_map, List.map_map] at hlens
  exact congrArg List.sum hlens

omit [Circuit δ] in
/-- What `shiftIR` makes of them for one device. -/
theorem Measured.lengths {ι : Type} {j : Jtag ι} {before after : List (Member δ)} {p : Member δ}
    (h : Measured j (before ++ p :: after)) :
    irlens ((j.devices.take (j.numDevices.getD 0)).drop (before.length + 1)) = (after.map (·.irlen)).sum ∧
      j.selectedIrlen before.length = p.irlen ∧ irlens (j.devices.take before.length) = (before.map (·.irlen)).sum := by
  obtain ⟨hnum, hlens⟩ := h
  have hle : before.length ≤ (before ++ p :: after).length := by
    rw [List.length_append]
    exact Nat.le_add_right _ _
  have hlt : before.length < (before ++ p :: after).length := by
    simp only [List.length_append, List.length_cons]
    omega
  refine ⟨irlens_eq ?_, ?_, irlens_eq ?_⟩
  · rw [hnum, Option.getD_some, List.map_drop, hlens, List.map_append, List.map_cons]
    have hsplit : before.map (fun p => some p.irlen) ++ some p.irlen :: after.map (fun p => some p.irlen) =
        (before.map (fun p => some p.irlen) ++ [some p.irlen]) ++ after.map (fun p => some p.irlen) := by
      rw [List.append_assoc, List.singleton_append]
    rw [hsplit, List.drop_left']
    simp only [List.length_append, List.length_map, List.length_singleton]
  · have hget := congrArg (fun l => l[before.length]?) hlens
    simp only [List.getElem?_map] at hget
    rw [List.getElem?_take_of_lt hlt, List.getElem?_append_right (Nat.le_refl _), Nat.sub_self, List.getElem?_cons_zero] at hget
    obtain ⟨d, hd, hirlen⟩ := Option.map_eq_some_iff.1 hget
    rw [selectedIrlen, hd, Option.bind_some, hirlen, Option.getD_some]
  · have htake := congrArg (List.take before.length) hlens
    rw [← List.map_take, List.take_take, Nat.min_eq_left hle, List.map_append, List.take_left' (List.length_map _)] at htake
    exact htake

/-- **`shiftIR` on a chain** loads the selected device with its instruction and all others with `BYPASS`; what comes back is what
the instruction register of the selected device captured. -/
theorem run_shiftIR_chain {j : Jtag (Wires (Chain δ))} {before after : List (Member δ)} {p : Member δ}
    (h : Rests j (before ++ p :: after)) (hindex : j.deviceIndex = some before.length)
    (hmeasured : Measured j (before ++ p :: after)) (hstate : j.postIRState = .runTestIdle) (hirlen : 0 < p.irlen)
    {tdi : List UInt8} (hdata : p.irlen ≤ 8 * tdi.length) (tdo : Option (List UInt8)) :
    ∃ q, (shiftIR tdi tdo).run j =
        .ok (tdo.map (fun buf => store buf 0 (packBits p.idle.status))) (j.placed q .runTestIdle) ∧
      RestsIn .runTestIdle (j.placed q .runTestIdle) (before.map (fun p => p.idle.load (bypass p.irlen)) ++
        p.idle.load ((bytesBits tdi).take p.irlen) :: after.map (fun p => p.idle.load (bypass p.irlen))) := by
  obtain ⟨q, henter, htarget, htms, htdi⟩ := run_enter false h 0
  obtain ⟨hpre, hown, hpost⟩ := hmeasured.lengths
  generalize hi : (bytesBits tdi).take p.irlen = instruction
  have hlen : instruction.length = p.irlen := by
    rw [← hi, List.length_take, length_bytesBits, Nat.min_eq_left hdata]
  have hne : instruction ≠ [] ∨ List.replicate (before.map (·.irlen)).sum true ≠ [] := by
    refine .inl (fun hnil => ?_)
    rw [hnil] at hlen
    exact Nat.ne_of_lt hirlen hlen
  have hempty : (List.replicate (before.map (·.irlen)).sum true).isEmpty = decide ((before.map (·.irlen)).sum = 0) := by
    cases (before.map (·.irlen)).sum <;> rfl
  have hmap : (before ++ p :: after).map (fun p => p.idle.capture false) =
      before.map (fun p => p.idle.capture false) ++ p.idle.capture false :: after.map (fun p => p.idle.capture false) := by
    rw [List.map_append, List.map_cons]
  rw [hmap] at htarget
  obtain ⟨q1, q2, q3, hq1, hq2, hq3, htarget3, hshown⟩ :=
    scan_pieces false htms htarget (List.replicate (after.map (·.irlen)).sum true) hne
  have hys : (List.replicate (before.map (·.irlen)).sum true).length = (queue (before.map (fun p => p.idle.capture false))).length := by
    rw [List.length_replicate, length_queue_status]
  have hxs : (List.replicate (after.map (·.irlen)).sum true).length = (queue (after.map (fun p => p.idle.capture false))).length := by
    rw [List.length_replicate, length_queue_status]
  obtain ⟨before', after', hmembers, hkept, hkept', hqueue, hback⟩ := run_around false (p.idle.capture false)
    (List.replicate (after.map (·.irlen)).sum true) instruction (fun hdr => by cases hdr) (fun hdr => by cases hdr) hys
  obtain ⟨hread, hqueue'⟩ := hback hxs
  have hregister : (p.idle.capture false).register = p.idle.status := rfl
  have hstatus : instruction.length = p.idle.status.length := by
    rw [hlen, Member.length_status]
    rfl
  have hones := loaded_of_kept hkept (fun b hb => List.eq_of_mem_replicate (hqueue ▸ hb))
  have hones' := loaded_of_kept hkept' (fun b hb => List.eq_of_mem_replicate (hqueue' (hregister ▸ hstatus) ▸ hb))
  have hout : (p.idle.status ++ queue (before.map (fun p => p.idle.capture false)) ++
      List.replicate (after.map (·.irlen)).sum true ++ instruction).take instruction.length = p.idle.status := by
    rw [List.append_assoc, List.append_assoc]
    exact List.take_left' hstatus.symm
  rw [hregister, hout] at hread
  rw [hmembers] at htarget3
  obtain ⟨q4, hleave, hrest⟩ := run_leave false (j := j) htarget3
  have hexit : exitState false = Tap.exit1IR := rfl
  rw [hexit] at hleave
  have hselected : ((p.idle.capture false).shifted false (queue (before.map (fun p => p.idle.capture false)) ++
      List.replicate (after.map (·.irlen)).sum true ++ instruction)).finish false = p.idle.load instruction :=
    p.scanned_instruction _ hlen
  rw [List.map_append, List.map_cons, hones, hones', hselected] at hrest
  refine ⟨q4, ?_, hrest⟩
  have hplaced : ∀ q0 t, (j.placed q0 t).io.pins = q0 := fun _ _ => rfl
  have hshift : (setTapState .shiftIR 0).run j = .ok () (j.placed q .shiftIR) := henter
  have hfirst : (onIo (IoBase.shift true (after.map (·.irlen)).sum false)).run (j.placed q .shiftIR) =
      .ok () (j.placed q1 .shiftIR) := by
    rw [run_shift, hplaced, ← hq1]
    rfl
  have htransfer : (onIo (IoBase.shiftTDITDO (some tdi) tdo p.irlen (decide ((before.map (·.irlen)).sum = 0)))).run
      (j.placed q1 .shiftIR) = .ok (tdo.map (fun buf => store buf 0 (packBits p.idle.status))) (j.placed q2 .shiftIR) := by
    have hrun := run_transfer_sent (j.placed q1 .shiftIR) (some tdi) tdo p.irlen (decide ((before.map (·.irlen)).sum = 0))
    have hsent : sent (j.placed q1 .shiftIR).io.pins.tdi (some tdi) tdo p.irlen (decide ((before.map (·.irlen)).sum = 0)) =
        instruction := hi
    rw [hsent, hplaced, ← hempty, hshown, hread] at hrun
    rw [hempty] at hrun
    refine Eq.trans hrun ?_
    rw [← hempty, ← hq2]
    rfl
  have hthird : (onIo (IoBase.shift true (before.map (·.irlen)).sum true)).run (j.placed q2 .shiftIR) =
      .ok () (j.placed q3 .shiftIR) := by
    rw [run_shift, hplaced, ← hq3]
    rfl
  have hnext : (nextTapState true).run (j.placed q3 .shiftIR) = .ok () (j.placed q3 .exit1IR) :=
    run_nextTapState_shifts (.inr rfl) rfl true
  unfold shiftIR
  rw [run_bind_of (EStateM.run_get j)]
  simp only [hindex, hpre, hpost, hown]
  rw [run_bind_of hshift, run_bind_of hfirst, run_bind_of htransfer, run_bind_of hthird, run_bind_of hnext, hstate,
    run_bind_of hleave]
  rfl

/-! ## `getChain` -/

/-- The four bytes of 32 bits, in an array of any size, are the number. -/
theorem byteArrayToLong_store (idx : List UInt8) (id : UInt32) :
    byteArrayToLong (store idx 0 (packBits (bits 32 id.toNat))) = id := by
  have hlen : (packBits (bits 32 id.toNat)).length = 4 := length_packBits (n := 4) (length_bits 32 _)
  have hbits : bytesBits (packBits (bits 32 id.toNat)) = bits 32 id.toNat := bytesBits_packBits (n := 4) (length_bits 32 _)
  obtain ⟨a, b, c, d, hbytes⟩ : ∃ a b c d, packBits (bits 32 id.toNat) = [a, b, c, d] :=
    List.length_eq_four.1 hlen
  rw [hbytes] at hbits ⊢
  have hvalue := congrArg ofBits hbits
  rw [ofBits_bits, Nat.mod_eq_of_lt id.toNat_lt] at hvalue
  have hsum : (d.toNat <<< 24 + c.toNat <<< 16 + b.toNat <<< 8 + a.toNat) = id.toNat := by
    rw [← hvalue]
    simp only [bytesBits_cons, bytesBits_nil, List.append_nil, ofBits_append, byteBits, ofBits_bits,
      Nat.shiftLeft_eq, length_bits]
    have ha := a.toNat_lt
    have hb := b.toNat_lt
    have hc := c.toNat_lt
    have hd := d.toNat_lt
    omega
  have harray : store idx 0 [a, b, c, d] = a :: b :: c :: d :: idx.drop 4 := rfl
  rw [harray, byteArrayToLong]
  simp only [List.getD_cons_zero, List.getD_cons_succ]
  rw [hsum]
  exact UInt32.ofNat_toNat

/-- What comes out of devices that were reset: the identification of the one on TDO first. -/
def identification (ids : List UInt32) : List Bool := ids.reverse.flatMap (fun id => bits 32 id.toNat)

theorem identification_concat (ids : List UInt32) (id : UInt32) :
    identification (ids ++ [id]) = bits 32 id.toNat ++ identification ids := by
  rw [identification, List.reverse_append]
  rfl

theorem queue_identification (ps : List (Member δ)) :
    queue (ps.map (fun p => p.reset.idle.capture true)) = identification (ps.map (·.idcode)) := by
  induction ps with
  | nil => rfl
  | cons p ps ih =>
    rw [List.map_cons, queue, ih, List.map_cons, identification, identification, List.reverse_cons, List.flatMap_append]
    rfl

/-- The chain while its devices are read. -/
structure Identifying (built : List (Nat × UInt32)) (q : Pins (Chain δ)) (ps : List (Member δ)) (ids : List UInt32) (read : Nat) :
    Prop where
  target : q.target = ⟨.shiftDR, ps⟩
  static : ps.map Member.static = built
  tms : q.tms = false
  selects : ∀ p ∈ ps, p.selects = false
  holds : queue ps = identification ids ++ List.replicate (32 * read) false

/-- 32 bits of the chain. -/
theorem Identifying.shift {built : List (Nat × UInt32)} {q : Pins (Chain δ)} {ps : List (Member δ)} {ids : List UInt32} {read : Nat}
    (h : Identifying built q ps ids read) :
    ∃ ps', q.shown (scan q.tms false (List.replicate 32 false)) = (queue ps ++ List.replicate 32 false).take 32 ∧
      (q.clocked (scan q.tms false (List.replicate 32 false))).target = ⟨.shiftDR, ps'⟩ ∧
      (q.clocked (scan q.tms false (List.replicate 32 false))).tms = false ∧ (∀ p ∈ ps', p.selects = false) ∧
      ps'.map Member.static = built ∧ queue ps' = (queue ps ++ List.replicate 32 false).drop 32 := by
  obtain ⟨htarget, hshown⟩ := scan_chain true false (List.replicate 32 false) h.tms h.target
  obtain ⟨ps', hrun, hqueue, hkept⟩ := run_others true (fun _ => h.selects) (List.replicate 32 false)
  rw [hrun] at htarget hshown
  refine ⟨ps', hshown, htarget, ?_, selects_kept hkept h.selects, (static_kept hkept).trans h.static, hqueue⟩
  rw [scan_false]
  exact (tms_holding q _).trans h.tms

/-- The idcodes of a chain, the last `left` of them: as many as the loop reads, and the rest stays. -/
def found (left : Nat) (ids : List UInt32) : List ChainParam := (ids.drop (ids.length - left)).map (fun id => ⟨id, none⟩)

theorem found_nil (left : Nat) : found left [] = [] := by
  rw [found, List.drop_nil]
  rfl

theorem found_of_le {left : Nat} {ids : List UInt32} (h : ids.length ≤ left) :
    found left ids = ids.map (fun id => ⟨id, none⟩) := by
  rw [found, Nat.sub_eq_zero_of_le h, List.drop_zero]

theorem found_concat (left : Nat) (ids : List UInt32) (id : UInt32) :
    found (left + 1) (ids ++ [id]) = found left ids ++ [⟨id, none⟩] := by
  have hlen : (ids ++ [id]).length - (left + 1) = ids.length - left := by
    rw [List.length_append, List.length_singleton]
    omega
  rw [found, hlen, List.drop_append_of_le_length (Nat.sub_le _ _), List.map_append]
  rfl

theorem run_readIdcodes (left : Nat) : ∀ (ids : List UInt32) (idx : List UInt8) {j : Jtag (Wires (Chain δ))}
    {built : List (Nat × UInt32)} {q : Pins (Chain δ)} {ps : List (Member δ)} {read n : Nat},
    Identifying built q ps ids read → (∀ id ∈ ids, id ≠ 0 ∧ id ≠ 0xffffffff) →
      j.numDevices = some n → ∃ q' ps' ids' read', (readIdcodes left idx).run (j.placed q .shiftDR) =
          .ok () (({ j with devices := found left ids ++ j.devices, numDevices := some (n + min left ids.length) } :
            Jtag (Wires (Chain δ))).placed q' .shiftDR) ∧ Identifying built q' ps' ids' read' := by
  induction left with
  | zero =>
    intro ids idx j built q ps read n h _ hn
    refine ⟨q, ps, ids, read, ?_, h⟩
    rw [found, Nat.sub_zero, List.drop_length, Nat.zero_min, Nat.add_zero, ← hn]
    rfl
  | succ left ih =>
    intro ids idx j built q ps read n h hids hn
    obtain ⟨ps', hshown, htarget, htms, hselects, hstatic, hqueue⟩ := h.shift
    have hrun : (onIo (IoBase.shiftTDITDO (some [0, 0, 0, 0]) (some idx) 32 false)).run (j.placed q .shiftDR) =
        .ok (some (store idx 0 (packBits ((queue ps ++ List.replicate 32 false).take 32))))
          (j.placed (q.clocked (scan q.tms false (List.replicate 32 false))) .shiftDR) := by
      rw [← hshown]
      rfl
    unfold readIdcodes
    rw [run_bind_of hrun]
    rcases List.eq_nil_or_concat ids with hnil | ⟨ids', id, hconcat⟩
    · subst hnil
      have hzeros : (queue ps ++ List.replicate 32 false).take 32 = bits 32 (0 : UInt32).toNat := by
        rw [h.holds, identification, List.reverse_nil, List.flatMap_nil, List.nil_append, ← List.replicate_add, List.take_replicate]
        have hmin : min 32 (32 * read + 32) = 32 := by omega
        rw [hmin]
        decide
      have hmore : queue ps' = identification [] ++ List.replicate (32 * read) false := by
        rw [hqueue, h.holds, identification, List.reverse_nil, List.flatMap_nil, List.nil_append, ← List.replicate_add,
          List.drop_replicate, Nat.add_sub_cancel]
      refine ⟨_, ps', [], read, ?_, htarget, hstatic, htms, hselects, hmore⟩
      simp only [Option.getD_some]
      have hcount : n + min (left + 1) ([] : List UInt32).length = n := by
        rw [List.length_nil, Nat.min_zero, Nat.add_zero]
      rw [hzeros, byteArrayToLong_store, if_neg (fun hne => hne.1 rfl), hcount, found_nil, List.nil_append, ← hn]
      rfl
    · rw [List.concat_eq_append] at hconcat
      subst hconcat
      have hid := hids id (List.mem_append_right _ (List.mem_singleton_self id))
      have hout : (queue ps ++ List.replicate 32 false).take 32 = bits 32 id.toNat := by
        rw [h.holds, identification_concat, List.append_assoc, List.append_assoc]
        exact List.take_left' (length_bits 32 _)
      have hmore : queue ps' = identification ids' ++ List.replicate (32 * (read + 1)) false := by
        rw [hqueue, h.holds, identification_concat, List.append_assoc, List.append_assoc, List.drop_left' (length_bits 32 _),
          ← List.replicate_add]
        rfl
      have hrest := ih ids' (store idx 0 (packBits (bits 32 id.toNat)))
        (j := { j with numDevices := some (j.numDevices.getD 0 + 1), devices := ⟨id, none⟩ :: j.devices }) (n := n + 1)
        (⟨htarget, hstatic, htms, hselects, hmore⟩ : Identifying built _ ps' ids' (read + 1))
        (fun i hi => hids i (List.mem_append_left _ hi)) (by rw [hn]; rfl)
      obtain ⟨q', ps'', ids'', read', hloop, hend⟩ := hrest
      refine ⟨q', ps'', ids'', read', ?_, hend⟩
      simp only [Option.getD_some]
      rw [hout, byteArrayToLong_store, if_pos hid, found_concat, List.append_assoc, List.length_append, List.length_singleton]
      have hcount : n + min (left + 1) (ids'.length + 1) = n + 1 + min left ids'.length := by omega
      rw [hcount]
      exact hloop

/-- **`getChain` finds the devices**, wherever the chain was: up to a thousand of them, the one on TDI first; the chain is reset. -/
theorem run_getChain (j : Jtag (Wires (Chain δ))) (detect : Bool) (hdetect : j.numDevices = none ∨ detect = true)
    (idx : List UInt8) {ids : List UInt32} (hids : j.io.pins.target.members.map (·.idcode) = ids)
    (hvalid : ∀ id ∈ ids, id ≠ 0 ∧ id ≠ 0xffffffff) :
    ∃ q ps, (getChain detect idx).run j = .ok (min 1000 ids.length)
        (({ j with devices := found 1000 ids ++ j.devices, numDevices := some (min 1000 ids.length) } :
          Jtag (Wires (Chain δ))).placed q .testLogicReset) ∧
      q.target = ⟨.testLogicReset, ps⟩ ∧ q.tms = true ∧ ps.map Member.static = j.io.pins.target.members.map Member.static ∧
      ∀ p ∈ ps, p.instruction = none := by
  have hidcodes : ∀ ps qs : List (Member δ), ps.map Member.static = qs.map Member.static →
      ps.map (·.idcode) = qs.map (·.idcode) := by
    intro ps qs h
    have hsnd := congrArg (List.map Prod.snd) h
    rw [List.map_map, List.map_map] at hsnd
    exact hsnd
  obtain ⟨ps0, hreset, hstatic0⟩ := clocked_reset j.io.pins
  generalize hq0 : j.io.pins.clocked (tmsClocks true (List.replicate 5 true)) = q0 at hreset
  have hfirst : tapTestLogicReset.run j = .ok () (j.placed q0 .testLogicReset) := by
    rw [run_tapTestLogicReset, ← hq0]
    rfl
  have hrests : Rests (j.placed q0 .testLogicReset) (ps0.map Member.reset) := by
    refine .inr ⟨rfl, hreset, ?_⟩
    have htms := Pins.tms_clocked j.io.pins (tmsClocks true (List.replicate 5 true))
    rw [hq0] at htms
    exact htms
  obtain ⟨q1, henter, htarget, htms, -⟩ := run_enter true hrests 0
  have hmap : (ps0.map Member.reset).map (fun p => p.idle.capture true) = ps0.map (fun p => p.reset.idle.capture true) :=
    List.map_map
  rw [hmap] at htarget
  have hids0 : ps0.map (·.idcode) = ids := (hidcodes _ _ hstatic0).trans hids
  have hidentifying : Identifying (j.io.pins.target.members.map Member.static) q1 (ps0.map (fun p => p.reset.idle.capture true)) ids 0 := by
    refine ⟨htarget, ?_, htms, ?_, ?_⟩
    · rw [← hstatic0, List.map_map]
      rfl
    · intro p hp
      obtain ⟨p0, -, rfl⟩ := List.mem_map.1 hp
      rfl
    · rw [queue_identification, hids0, Nat.mul_zero, List.replicate_zero, List.append_nil]
  have hsecond : (setTapState .shiftDR 0).run (j.placed q0 .testLogicReset) = .ok () (j.placed q1 .shiftDR) := henter
  obtain ⟨q2, ps2, ids2, read2, hread, hend⟩ :=
    run_readIdcodes 1000 ids idx (j := { j with numDevices := some 0 }) hidentifying hvalid rfl
  obtain ⟨ps3, hreset3, hstatic3⟩ := clocked_reset q2
  refine ⟨q2.clocked (tmsClocks true (List.replicate 5 true)), ps3.map Member.reset, ?_, hreset3, Pins.tms_clocked q2 _, ?_, ?_⟩
  · rw [Nat.zero_add] at hread
    have hthird : (modify (fun j => { j with numDevices := some 0 }) : PortM (Wires (Chain δ)) PUnit).run (j.placed q1 .shiftDR) =
        .ok () (({ j with numDevices := some 0 } : Jtag (Wires (Chain δ))).placed q1 .shiftDR) := rfl
    have hfifth : ∀ k : Jtag (Wires (Chain δ)), (setTapState .testLogicReset 0).run (k.placed q2 .shiftDR) =
        .ok () (k.placed (q2.clocked (tmsClocks true (List.replicate 5 true))) .testLogicReset) := by
      intro k
      rw [run_setTapState]
      rfl
    unfold getChain
    rw [run_bind_of (EStateM.run_get j), if_pos hdetect, run_bind_of hfirst, run_bind_of hsecond, run_bind_of hthird,
      run_bind_of hread, run_bind_of (hfifth _), run_bind_of (EStateM.run_get _)]
    rfl
  · have hmap3 : (ps3.map Member.reset).map Member.static = ps3.map Member.static := List.map_map
    rw [hmap3, hstatic3, hend.target]
    exact hend.static
  · intro p hp
    obtain ⟨p0, -, rfl⟩ := List.mem_map.1 hp
    rfl

end Jtag
end Xc3s
end Fpga
