import FpgaServer.CableJtag
import FpgaServer.ChainJtag
/-!
# ChainCable — a chain at the end of a cable

What `shiftIR`, `shiftDR` and `getChain` do to a chain they do through a working cable too.  An instruction and then as many bits
of data as the register it selects has: the data take the place of what was in the register, which comes back, and every other
device of the chain stays in `BYPASS`, wherever the selected one is (`cable_exchanges`).
-/
namespace Base

variable {δ : Type} [Circuit δ]

/-- A device with this much data where its register was, past some other bits. -/
def Member.exchanged (p : Member δ) (past data : List Bool) : Member δ :=
  { p.idle with
    register := data
    circuit := if p.selects then Circuit.update ((past ++ data).foldl Circuit.shift p.idle.circuit) data else p.idle.circuit }

theorem Member.scanned_data (p : Member δ) (past : List Bool) {data : List Bool} (h : data.length = p.idle.captured.length) :
    p.scanned true (past ++ data) = p.exchanged past data := by
  have hregister : ((p.idle.capture true).register ++ (past ++ data)).drop (past ++ data).length = data := by
    have hcapture : (p.idle.capture true).register = p.idle.captured := rfl
    have hlen : (past ++ data).length = (p.idle.captured ++ past).length := by
      rw [List.length_append, List.length_append, h, Nat.add_comm]
    rw [hcapture, ← List.append_assoc, hlen, List.drop_left]
  have hselects : (p.idle.capture true).selects = p.selects := rfl
  unfold scanned finish shifted updateDR exchanged
  rw [if_pos rfl, hregister, hselects, Bool.true_and]
  by_cases h1 : p.selects = true
  · have h2 : ({ p.idle.capture true with
        register := data
        circuit := if p.selects = true then (past ++ data).foldl Circuit.shift (p.idle.capture true).circuit
          else (p.idle.capture true).circuit } : Member δ).selects = true := h1
    rw [if_pos h2, if_pos h1, if_pos h1]
    rfl
  · have h2 : ¬ ({ p.idle.capture true with
        register := data
        circuit := if p.selects = true then (past ++ data).foldl Circuit.shift (p.idle.capture true).circuit
          else (p.idle.capture true).circuit } : Member δ).selects = true := h1
    rw [if_neg h2, if_neg h1, if_neg h1]
    rfl

theorem bypassed_load (ps : List (Member δ)) : Bypassed (ps.map (fun p => p.idle.load (bypass p.irlen))) := by
  intro q hq
  obtain ⟨p, -, rfl⟩ := List.mem_map.1 hq
  rfl

end Base

namespace Fpga
namespace Xc3s

open Base

namespace Jtag

section

variable {ι : Type} [IoBase ι]

/-- An instruction for the selected device, and data for the register it selects. -/
def exchange (instruction data buf : List UInt8) (length : Nat) : PortM ι (Option (List UInt8)) := do
  let _ ← shiftIR instruction none
  shiftDR (some data) (some buf) length 0 true

end

variable {δ : Type} [Circuit δ]

/-- At rest or reset, with one device selected, and nothing of a shift left to do. -/
structure Selects (j : Jtag (Wires (Chain δ))) (before : List (Member δ)) (p : Member δ) (after : List (Member δ)) : Prop where
  rests : Rests j (before ++ p :: after)
  index : j.deviceIndex = some before.length
  measured : Measured j (before ++ p :: after)
  postIRState : j.postIRState = .runTestIdle
  postDRState : j.postDRState = .runTestIdle
  complete : j.shiftDRincomplete = false

/-- **On the lines of a chain.** -/
theorem run_exchange {j : Jtag (Wires (Chain δ))} {before after : List (Member δ)} {p : Member δ} (h : Selects j before p after)
    (hirlen : 0 < p.irlen) {instruction data : List UInt8} (buf : List UInt8) {length : Nat} {i : List Bool}
    (hinstruction : p.irlen ≤ 8 * instruction.length) (hi : (bytesBits instruction).take p.irlen = i)
    (hdata : length ≤ 8 * data.length) (hpos : 0 < length) (hlength : length = (p.idle.load i).idle.captured.length) :
    ∃ q before' after' past, (exchange instruction data buf length).run j =
        .ok (some (store buf 0 (packBits (p.idle.load i).idle.captured))) (j.placed q .runTestIdle) ∧
      RestsIn .runTestIdle (j.placed q .runTestIdle)
        (before' ++ (p.idle.load i).exchanged past ((bytesBits data).take length) :: after') ∧
      List.Forall₂ Waited (before.map (fun p => p.idle.load (bypass p.irlen))) before' ∧
      List.Forall₂ Waited (after.map (fun p => p.idle.load (bypass p.irlen))) after' := by
  obtain ⟨q, hrun, hrests⟩ := run_shiftIR_chain h.rests h.index h.measured h.postIRState hirlen hinstruction none
  rw [hi] at hrests
  have hcount : (j.placed q .runTestIdle).numDevices =
      some ((before.map (fun p => p.idle.load (bypass p.irlen))).length + 1 +
        (after.map (fun p => p.idle.load (bypass p.irlen))).length) := by
    have hnum := h.measured.1
    rw [List.length_append, List.length_cons, Nat.add_comm after.length, ← Nat.add_assoc] at hnum
    rw [List.length_map, List.length_map]
    exact hnum
  have hindex : (j.placed q .runTestIdle).deviceIndex = some (before.map (fun p => p.idle.load (bypass p.irlen))).length := by
    rw [List.length_map]
    exact h.index
  have hfits : ∀ bytes ∈ some data, length ≤ 8 * bytes.length := by
    intro bytes hbytes
    rw [← Option.some.inj hbytes]
    exact hdata
  have hlen : ((bytesBits data).take length).length = (p.idle.load i).idle.captured.length := by
    rw [List.length_take, length_bytesBits, Nat.min_eq_left hdata, hlength]
  obtain ⟨r, q', before', after', hrun', hrests', hbefore, hafter, hread⟩ := run_shiftDR_chain (.inl hrests) hindex hcount
    (bypassed_load before) (bypassed_load after) h.postDRState h.complete hfits (some buf) 0 (.inl hpos)
  have hsent : ∀ last, sent true (some data) (some buf) length last = (bytesBits data).take length := fun _ => rfl
  rw [hsent, seen, Member.scanned_data _ _ hlen] at hrests'
  refine ⟨q', before', after', _, ?_, hrests', hbefore, hafter⟩
  rw [exchange, run_bind_of hrun, hrun', hread rfl, hsent, seen, hlength, List.take_left]
  rfl

/-! ## On a cable -/

variable [Host (Chip (Chain δ))] {fast : Bool} {freq : Nat}

/-- **A register exchanged through a cable.**  If both calls return and everything answered has been read, the selected device has
the instruction, its register holds the data and has been updated with them, what comes back is what it captured, and all other
devices are in `BYPASS`: whatever the cable does to the writes and reads, and wherever in the chain the device is. -/
theorem cable_exchanges {j j' : Jtag (IoFtdi (Chip (Chain δ)))} (hj : Ready fast freq j.io) {before after : List (Member δ)}
    {p : Member δ} (h : Selects (j.through wires) before p after) (hirlen : 0 < p.irlen)
    {instruction data buf : List UInt8} {length : Nat} {i : List Bool} (hinstruction : p.irlen ≤ 8 * instruction.length)
    (hi : (bytesBits instruction).take p.irlen = i) (hdata : length ≤ 8 * data.length) (hroom : length ≤ 8 * buf.length)
    (hpos : 0 < length) (hlength : length = (p.idle.load i).idle.captured.length) {r : Option (List UInt8)}
    (hrun : (exchange instruction data buf length).run j = .ok r j') (hend : Settled j'.io) :
    ∃ before' after' past, r = some (store buf 0 (packBits (p.idle.load i).idle.captured)) ∧
      RestsIn .runTestIdle (j'.through wires)
        (before' ++ (p.idle.load i).exchanged past ((bytesBits data).take length) :: after') ∧
      List.Forall₂ Waited (before.map (fun p => p.idle.load (bypass p.irlen))) before' ∧
      List.Forall₂ Waited (after.map (fun p => p.idle.load (bypass p.irlen))) after' := by
  have hfits : ∀ bytes ∈ some data, length ≤ 8 * bytes.length := by
    intro bytes hbytes
    rw [← Option.some.inj hbytes]
    exact hdata
  have hbuf : ∀ bytes ∈ some buf, length ≤ 8 * bytes.length := by
    intro bytes hbytes
    rw [← Option.some.inj hbytes]
    exact hroom
  have hirlens : ∀ index, j.deviceIndex = some index → j.selectedIrlen index ≤ 8 * instruction.length := by
    intro index hindex
    have hsame : some index = some before.length := hindex.symm.trans h.index
    rw [Option.some.inj hsame]
    exact Nat.le_trans (Nat.le_of_eq h.measured.lengths.2.1) hinstruction
  have hretraces : RetracesFrom j (Keeps (Ready fast freq) (fun _ => True)) (fun j => Settled j.io) (through wires)
      (exchange instruction data buf length) (exchange instruction data buf length : PortM (Wires (Chain δ)) _) :=
    (retraces_shiftIR_from (carries_wires fast freq) (fun index hi => ⟨hirlens index hi, fun _ hb => by cases hb⟩)).bind
      (fun _ t _ _ => retraces_shiftDR (carries_wires fast freq) 0 true hfits hbuf t)
  obtain ⟨-, hgood⟩ := hretraces r j' ⟨hj, trivial⟩ hrun
  obtain ⟨-, hlines⟩ := hgood hend
  obtain ⟨q, before', after', past, hon, hrests, hbefore, hafter⟩ :=
    run_exchange h hirlen buf hinstruction hi hdata hpos hlength
  rw [hon] at hlines
  obtain ⟨hr, hstate⟩ := EStateM.Result.ok.inj hlines
  rw [← hstate]
  exact ⟨before', after', past, hr.symm, hrests, hbefore, hafter⟩

/-- A register that holds what it was updated with last. -/
structure Latch where
  held : List Bool
  deriving DecidableEq, Repr

instance : Circuit Latch where
  status _ n := n = 0
  capture l := l.held
  shift l _ := l
  update _ bits := ⟨bits⟩
  load l _ := l
  idle l := l
  reset l := l

instance : Host (Chip (Chain Latch)) where
  ftdiGetErrorString _ := "all fine"
  errno _ := 0
  strerror _ := "Success"
  stack _ _ := 0

def latch (irlen : Nat) (idcode : UInt32) (held : List Bool) : Member Latch := ⟨irlen, idcode, none, [], ⟨held⟩⟩

/-- Three of them, on a cable with reads of a byte, of nothing, and of all there is. -/
def latches (state : Tap) : IoFtdi (Chip (Chain Latch)) :=
  ⟨⟨⟨⟨false, false, ⟨state, [latch 4 5 [true], latch 6 7 [true, false, true], latch 5 9 []]⟩⟩, 0, .command⟩, [], [],
    [.deliver 1, .deliver 0]⟩, [], [], true, 30000⟩

/-- The one in the middle selected. -/
def middle : Jtag (IoFtdi (Chip (Chain Latch))) :=
  { Jtag.new (latches .runTestIdle) with
    currentState := some .runTestIdle, devices := [⟨5, some 4⟩, ⟨7, some 6⟩, ⟨9, some 5⟩], numDevices := some 3,
    deviceIndex := some 1 }

theorem ready_latches (state : Tap) : Ready true 30000 (latches state) := ⟨rfl, rfl, rfl⟩

theorem cable_exchanges_middle : ∃ r j', (exchange [0x02] [0x06] [0xff] 3).run middle = .ok r j' ∧ r = some [0x05] ∧
    ∃ before' p' after', RestsIn .runTestIdle (j'.through wires) (before' ++ p' :: after') ∧
      p'.circuit.held = [false, true, true] := by
  have hreturns : returns (fun _ j => decide (j.io.link.owed = [])) ((exchange [0x02] [0x06] [0xff] 3).run middle) = true := by
    decide +kernel
  obtain ⟨r, j', hrun, hread⟩ := ok_of_returns hreturns
  have hselects : Selects (middle.through wires) [latch 4 5 [true]] (latch 6 7 [true, false, true]) [latch 5 9 []] :=
    ⟨.inl ⟨rfl, rfl, rfl⟩, rfl, ⟨rfl, rfl⟩, rfl, rfl, rfl⟩
  have hend : j'.io.link.owed = [] := of_decide_eq_true hread
  have hinstruction : 6 ≤ 8 * [(0x02 : UInt8)].length := by decide
  have hi : (bytesBits [0x02]).take 6 = [false, true, false, false, false, false] := by decide
  have hdata : 3 ≤ 8 * [(0x06 : UInt8)].length := by decide
  have hroom : 3 ≤ 8 * [(0xff : UInt8)].length := by decide
  obtain ⟨before', after', past, hr, hrests, -, -⟩ :=
    cable_exchanges (ready_latches _) hselects (by decide) hinstruction hi hdata hroom (by decide) (by decide) hrun hend
  refine ⟨r, j', hrun, ?_, before', _, after', hrests, rfl⟩
  rw [hr]
  decide +kernel

/-- **A chain read through a cable.**  If `getChain` returns and everything answered has been read, it has found the devices, up to
a thousand of them, the one on TDI first, and they are reset; what an earlier look had found stays behind them. -/
theorem cable_finds {j j' : Jtag (IoFtdi (Chip (Chain δ)))} (hj : Ready fast freq j.io) {detect : Bool}
    (hdetect : j.numDevices = none ∨ detect = true) {idx : List UInt8} (hidx : 4 ≤ idx.length) {ids : List UInt32}
    (hids : (wires j.io).pins.target.members.map (·.idcode) = ids) (hvalid : ∀ id ∈ ids, id ≠ 0 ∧ id ≠ 0xffffffff) {n : Nat}
    (hrun : (getChain detect idx).run j = .ok n j') (hend : Settled j'.io) :
    n = min 1000 ids.length ∧ j'.numDevices = some n ∧ j'.devices = found 1000 ids ++ j.devices ∧
      ∃ ps, RestsIn .testLogicReset (j'.through wires) ps ∧
        ps.map Member.static = (wires j.io).pins.target.members.map Member.static ∧ ∀ p ∈ ps, p.instruction = none := by
  obtain ⟨-, hgood⟩ := retraces_getChain (carries_wires fast freq) (P := fun _ => True) (fun _ _ _ => trivial) detect hidx j n j'
    ⟨hj, trivial⟩ hrun
  obtain ⟨-, hlines⟩ := hgood hend
  obtain ⟨q, ps, hon, htarget, htms, hstatic, hinstruction⟩ := run_getChain (j.through wires) detect hdetect idx hids hvalid
  rw [hon] at hlines
  obtain ⟨hn, hstate⟩ := EStateM.Result.ok.inj hlines
  have hnum : j'.numDevices = some (min 1000 ids.length) := (congrArg Jtag.numDevices hstate).symm
  have hdevices : j'.devices = found 1000 ids ++ j.devices := (congrArg Jtag.devices hstate).symm
  refine ⟨hn.symm, ?_, hdevices, ps, ?_, hstatic, hinstruction⟩
  · rw [hnum, hn]
  · rw [← hstate]
    exact ⟨rfl, htarget, htms⟩

theorem cable_finds_latches : ∃ j', (getChain false [1, 2, 3, 4]).run (Jtag.new (latches .shiftIR)) = .ok 3 j' ∧
    j'.devices = [⟨5, none⟩, ⟨7, none⟩, ⟨9, none⟩] := by
  have hreturns : returns (fun n j => decide (n = 3) && decide (j.io.link.owed = []))
      ((getChain false [1, 2, 3, 4]).run (Jtag.new (latches .shiftIR))) = true := by
    decide +kernel
  obtain ⟨n, j', hrun, hall⟩ := ok_of_returns hreturns
  rw [Bool.and_eq_true, decide_eq_true_eq, decide_eq_true_eq] at hall
  obtain ⟨rfl, hread⟩ := hall
  have hvalid : ∀ id ∈ [(5 : UInt32), 7, 9], id ≠ 0 ∧ id ≠ 0xffffffff := by
    intro id hid
    simp only [List.mem_cons, List.not_mem_nil, or_false] at hid
    rcases hid with rfl | rfl | rfl
    all_goals decide
  obtain ⟨-, -, hdevices, -⟩ :=
    cable_finds (ready_latches .shiftIR) (j := Jtag.new (latches .shiftIR)) (.inl rfl) (by decide) rfl hvalid hrun hread
  exact ⟨j', hrun, hdevices⟩

end Jtag
end Xc3s
end Fpga
