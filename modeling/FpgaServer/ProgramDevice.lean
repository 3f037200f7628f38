import FpgaServer.Programming
/-!
# ProgramDevice — a bitfile on its way into a device

The constructor of `DeviceProgrammer` looks for the one device of the chain and selects it; `program` gives it the bitfile.  On a
cable that returns and has nothing left to read, that is what the device has been given (`cable_programs`).
-/
namespace Fpga
namespace Xc3s

open Base

/-! ## The bits of a bitfile -/

theorem byteBits_bitRev (b : UInt8) : byteBits (bitRev b) = (byteBits b).reverse := by
  have hall : ∀ n : Fin 256, byteBits (bitRev (UInt8.ofNat n)) = (byteBits (UInt8.ofNat n)).reverse := by
    decide +kernel
  have hb := hall ⟨b.toNat, b.toNat_lt⟩
  rwa [UInt8.ofNat_toNat] at hb

/-- **What is sent of a file is the file with the most significant bit of each byte first.** -/
theorem bytesBits_bitRev (bytes : List UInt8) :
    bytesBits (bytes.map bitRev) = bytes.flatMap (fun b => (byteBits b).reverse) := by
  induction bytes with
  | nil => rfl
  | cons b bytes ih => rw [List.map_cons, bytesBits_cons, byteBits_bitRev, ih, List.flatMap_cons]

namespace DeviceProgrammer

variable {δ : Type} [Circuit δ]

/-- The chain once its one device has been found. -/
def foundOne (w : Wires (Chain δ)) (idcode : UInt32) (q : Pins (Chain δ)) : Jtag (Wires (Chain δ)) :=
  ({ Jtag.new w with devices := [⟨idcode, none⟩], numDevices := some 1 } : Jtag (Wires (Chain δ))).placed q .testLogicReset

/-- One device is found, and it is reset. -/
theorem run_getChain_one (w : Wires (Chain δ)) {p : Member δ} (hmember : w.pins.target.members = [p])
    (hvalid : p.idcode ≠ 0 ∧ p.idcode ≠ 0xffffffff) (idx : List UInt8) :
    ∃ q p0, (Jtag.getChain false idx).run (Jtag.new w) = .ok 1 (foundOne w p.idcode q) ∧ q.target = ⟨.testLogicReset, [p0]⟩ ∧
      q.tms = true ∧ p0.static = p.static ∧ p0.instruction = none := by
  have hids : (Jtag.new w).io.pins.target.members.map (·.idcode) = [p.idcode] := by
    have hnew : (Jtag.new w).io.pins.target.members = [p] := hmember
    rw [hnew]
    rfl
  obtain ⟨q, ps, hchain, htarget, htms, hstatic, hinstruction⟩ :=
    Jtag.run_getChain (Jtag.new w) false (.inl rfl) idx hids (by rwa [List.forall_mem_singleton])
  have hnew : (Jtag.new w).io.pins.target.members = [p] := hmember
  rw [hnew, List.map_singleton] at hstatic
  obtain ⟨p0, rfl⟩ : ∃ p0, ps = [p0] := List.length_eq_one_iff.1 (by
    have hlen := congrArg List.length hstatic
    rwa [List.length_map, List.length_singleton] at hlen)
  have hone : [p.idcode].length ≤ 1000 := Nat.le_of_ble_eq_true rfl
  have hcount : min 1000 [p.idcode].length = 1 := Nat.min_eq_right hone
  have hdevices : Jtag.found 1000 [p.idcode] ++ (Jtag.new w).devices = [⟨p.idcode, none⟩] :=
    congrArg (· ++ []) (Jtag.found_of_le hone)
  rw [hcount, hdevices] at hchain
  exact ⟨q, p0, hchain, htarget, htms, List.head_eq_of_cons_eq hstatic, hinstruction p0 List.mem_cons_self⟩

/-- What the constructor makes of it. -/
theorem run_construct_one {w : Wires (Chain δ)} {idcode : UInt32} {q : Pins (Chain δ)} {idx : List UInt8}
    (hchain : (Jtag.getChain false idx).run (Jtag.new w) = .ok 1 (foundOne w idcode q)) :
    (construct idx).run (Jtag.new w) =
      match familyOf idcode with
      | none => .error "Unexpected Jtag device ID" (foundOne w idcode q)
      | some family => .ok family { foundOne w idcode q with devices := [⟨idcode, some irlen⟩], deviceIndex := some 0 } := by
  have hid : Jtag.getDeviceID (foundOne w idcode q) 0 = idcode := rfl
  unfold construct
  rw [run_bind_of hchain, if_neg (fun hne => hne rfl), run_bind_of (EStateM.run_get _)]
  simp only [hid]
  cases familyOf idcode with
  | none => rfl
  | some family => rfl

/-- The constructor finds the one device of a chain, if it is one it knows, wherever the chain was; it is reset, and selected. -/
theorem run_construct (w : Wires (Chain δ)) {p : Member δ} (hmember : w.pins.target.members = [p]) (hirlen : p.irlen = irlen)
    {family : Family} (hfamily : familyOf p.idcode = some family) (idx : List UInt8) :
    ∃ j b, (construct idx).run (Jtag.new w) = .ok family j ∧ Bench.Seats j b ∧ b.fresh = true ∧ b.part.static = p.static ∧
      b.part.instruction = none ∧ b.hasFastClock = w.hasFastClock ∧ b.tckFreq = w.tckFreq := by
  have hvalid : p.idcode ≠ 0 ∧ p.idcode ≠ 0xffffffff := by
    constructor
    all_goals
      intro hbad
      rw [hbad] at hfamily
      cases hfamily
  obtain ⟨q, p0, hchain, htarget, htms, hp0, hinstruction⟩ := run_getChain_one w hmember hvalid idx
  have hlen : p0.irlen = irlen := (congrArg Prod.fst hp0).trans hirlen
  have hrun := run_construct_one hchain
  rw [hfamily] at hrun
  refine ⟨_, ⟨p0, true, w.hasFastClock, w.tckFreq⟩, hrun, ?_, rfl, hp0, hinstruction, rfl, rfl⟩
  refine ⟨⟨rfl, htarget, htms⟩, rfl, ⟨rfl, ?_⟩, ?_, rfl, rfl, rfl, rfl, rfl⟩
  · rw [List.map_singleton, hlen]
    rfl
  · rw [hlen]
    exact ⟨by decide, by decide⟩

/-- **The constructor accepts a chain of one known device and no other**, however long the chain is and wherever its ports were, and
it says what is wrong with another one. -/
theorem construct_ends (w : Wires (Chain δ)) (hvalid : ∀ p ∈ w.pins.target.members, p.idcode ≠ 0 ∧ p.idcode ≠ 0xffffffff)
    (idx : List UInt8) :
    ∃ j, (construct idx).run (Jtag.new w) =
      match w.pins.target.members with
      | [p] =>
        match familyOf p.idcode with
        | none => .error "Unexpected Jtag device ID" j
        | some family => .ok family j
      | _ => .error "Error in Jtag chain" j := by
  by_cases hone : w.pins.target.members.length = 1
  · obtain ⟨p, hmember⟩ := List.length_eq_one_iff.1 hone
    rw [hmember, List.forall_mem_singleton] at hvalid
    obtain ⟨q, p0, hchain, -⟩ := run_getChain_one w hmember hvalid idx
    have hrun := run_construct_one hchain
    rw [hmember]
    cases hfamily : familyOf p.idcode with
    | none =>
      rw [hfamily] at hrun
      simp only [hfamily]
      exact ⟨_, hrun⟩
    | some family =>
      rw [hfamily] at hrun
      simp only [hfamily]
      exact ⟨_, hrun⟩
  · have hids : ∀ id ∈ w.pins.target.members.map (·.idcode), id ≠ 0 ∧ id ≠ 0xffffffff := by
      intro id hid
      obtain ⟨p, hp, rfl⟩ := List.mem_map.1 hid
      exact hvalid p hp
    have hmap : (Jtag.new w).io.pins.target.members.map (·.idcode) = w.pins.target.members.map (·.idcode) := rfl
    obtain ⟨q, ps, hchain, -⟩ := Jtag.run_getChain (Jtag.new w) false (.inl rfl) idx hmap hids
    have hcount : min 1000 (w.pins.target.members.map (·.idcode)).length ≠ 1 := by
      rw [List.length_map]
      omega
    unfold construct
    rw [run_bind_of hchain, if_pos hcount]
    split
    · rename_i p hmember
      exact absurd (congrArg List.length hmember) hone
    · exact ⟨_, rfl⟩

/-- **What becomes of a program on the lines of a device**: it returns where the device clears its configuration and comes up in
time, it throws where the device is not up in time, and where the configuration is never cleared there is no end to it. -/
theorem program_ends (w : Wires (Chain δ)) {p : Member δ} (hmember : w.pins.target.members = [p]) (hirlen : p.irlen = irlen)
    {family : Family} (hfamily : familyOf p.idcode = some family) (idx : List UInt8) {file : BitFile}
    (hfile : 0 < cInt file.getLength) (turns : Nat) : ∃ j1 p0,
      (construct idx).run (Jtag.new w) = .ok family j1 ∧ j1.io.pins.target.members = [p0] ∧ p0.static = p.static ∧
      p0.instruction = none ∧
      ((∃ k m j, k < turns ∧ m < 50 ∧ ProgAlgXC3S.ClearsAt (ProgAlgXC3S.asked family p0) k ∧
          ProgAlgXC3S.UpAt (ProgAlgXC3S.leftOver family p0 k)
            (performs p0 (ProgAlgXC3S.configures family (ProgAlgXC3S.bitsOf file) (k + 1)))
            (Bench.pauseClocks w.hasFastClock w.tckFreq 1000) m ∧
          (program idx file turns).run (Jtag.new w) = .ok (some ()) j ∧
          j.io.pins.target = ⟨.runTestIdle, [performs p0 (ProgAlgXC3S.script family (ProgAlgXC3S.bitsOf file)
            (Bench.pauseClocks w.hasFastClock w.tckFreq 1000) (k + 1) m)]⟩) ∨
        (∃ k j, k < turns ∧ ProgAlgXC3S.ClearsAt (ProgAlgXC3S.asked family p0) k ∧
          (∀ i < 50, ProgAlgXC3S.goneBy (ProgAlgXC3S.leftOver family p0 k)
            (performs p0 (ProgAlgXC3S.configures family (ProgAlgXC3S.bitsOf file) (k + 1)))
            (Bench.pauseClocks w.hasFastClock w.tckFreq 1000) i &&& 0x23 ≠ 0x21) ∧
          (program idx file turns).run (Jtag.new w) = .error "Error configuring device" j) ∨
        ((∀ i < turns, ¬ statusOf (performs (ProgAlgXC3S.asked family p0) (ProgAlgXC3S.clears i)) &&& 0x10 ≠ 0) ∧
          ∃ j, (program idx file turns).run (Jtag.new w) = .ok none j)) := by
  obtain ⟨j1, b, hconstruct, hseats, -, hstatic, hinstruction, hfast, hfreq⟩ := run_construct w hmember hirlen hfamily idx
  have hpause : ProgAlgXC3S.pauseOf b = Bench.pauseClocks w.hasFastClock w.tckFreq 1000 := by
    rw [ProgAlgXC3S.pauseOf, hfast, hfreq]
  have hpos : 0 < file.getLength := by
    refine Nat.pos_of_ne_zero (fun hzero => ?_)
    rw [hzero] at hfile
    exact absurd hfile (by decide)
  have hmirrors := ProgAlgXC3S.simulates_arrayProgram (simulation_mirrors Bench.Seats) (Bench.scans_bench (δ := δ)) trivial family
    hpos turns j1 b hseats
  have hrun : ∀ r, (ProgAlgXC3S.arrayProgram family file turns).run j1 = r → (program idx file turns).run (Jtag.new w) = r := by
    intro r hr
    rw [program, run_bind_of hconstruct]
    exact hr
  refine ⟨j1, b.part, hconstruct, congrArg Chain.members hseats.rests.target, hstatic, hinstruction, ?_⟩
  rw [← hpause]
  rcases ProgAlgXC3S.outcomes (b := b) family file turns with ⟨k, m, hk, hm, hclears, hup⟩ | ⟨k, hk, hclears, hdown⟩ | hnone
  · rw [ProgAlgXC3S.run_arrayProgram_up hseats.irlen family file hk hm hclears hup] at hmirrors
    obtain ⟨j, hj, hseats'⟩ := hmirrors
    exact .inl ⟨k, m, j, hk, hm, hclears, hup, hrun _ hj, hseats'.rests.target⟩
  · rw [ProgAlgXC3S.run_arrayProgram_down hseats.irlen family file hk hclears hdown] at hmirrors
    obtain ⟨j, hj, -⟩ := hmirrors
    exact .inr (.inl ⟨k, j, hk, hclears, hdown, hrun _ hj⟩)
  · rw [ProgAlgXC3S.run_arrayProgram_stuck hseats.irlen family file hnone] at hmirrors
    obtain ⟨j, hj, -⟩ := hmirrors
    exact .inr (.inr ⟨hnone, j, hrun _ hj⟩)

/-! ## On a cable -/

section

variable {ι τ : Type} [IoBase ι] [IoBase τ] {I G : ι → Prop} {view : ι → τ} {paced : Nat → Prop}

theorem retraces_construct (h : Carries I G view paced) {idx : List UInt8} (hidx : 4 ≤ idx.length) :
    Jtag.RetracesOn I Jtag.Short G view (construct idx) (construct idx) := by
  unfold construct
  apply (Jtag.retraces_getChain h (fun id _ hshort => hshort.cons id) false hidx).bind
  intro n
  apply Retraces.of_if
  · exact fun _ => Retraces.throw _ _
  · apply Retraces.get_bind
    intro j _
    have hsame : (j.through view).getDeviceID 0 = j.getDeviceID 0 := rfl
    rw [hsame]
    cases familyOf (j.getDeviceID 0) with
    | none => exact Retraces.throw _ _
    | some family =>
      apply (Jtag.retraces_setDeviceIRLength 0 irlen (fun _ hshort => hshort.modify 0 (by decide))).bind
      intro _
      apply (Jtag.retraces_setTapState h _ _).bind
      intro _
      exact (Jtag.retraces_selectDevice 0).bind (fun _ => Retraces.pure family)

theorem retraces_program (h : Carries I G view paced) (hpaced : paced 1000) {idx : List UInt8} (hidx : 4 ≤ idx.length)
    {file : BitFile} (hfile : 0 < file.getLength) (turns : Nat) :
    Jtag.RetracesOn I Jtag.Short G view (program idx file turns) (program idx file turns) :=
  (retraces_construct h hidx).bind (fun family =>
    ProgAlgXC3S.simulates_arrayProgram (simulation_retraces _ _ _) (scans_carried h) hpaced family hfile turns)

end

/-- The bits of a file are sent from the top of each byte. -/
theorem bitsOf_bitRev {file : BitFile} {raw : List UInt8} (hraw : file.buffer = raw.map bitRev) (hsize : 8 * raw.length < 2 ^ 31) :
    ProgAlgXC3S.bitsOf file = raw.flatMap (fun b => (byteBits b).reverse) := by
  have hlength : file.getLength = (bytesBits file.buffer).length := by
    rw [length_bytesBits, BitFile.getLength]
    apply Nat.mod_eq_of_lt
    rw [hraw, List.length_map]
    omega
  rw [ProgAlgXC3S.bitsOf, hlength, List.take_length, hraw, bytesBits_bitRev]

/-- **A program that returns has programmed the device.**  The cable may cut its writes and its reads as it likes; if everything
answered has been read in the end, the one device of the chain was reset and then given the script, with the bits of the file in
it, and it has cleared its configuration and come up where the loops say so. -/
theorem cable_programs [Host (Chip (Chain δ))] {fast : Bool} {freq : Nat} (hpaced : Paced fast freq 1000)
    (io : IoFtdi (Chip (Chain δ))) (hio : Ready fast freq io) {p : Member δ} (hmember : (wires io).pins.target.members = [p])
    (hirlen : p.irlen = irlen) {family : Family} (hfamily : familyOf p.idcode = some family) {idx : List UInt8} (hidx : 4 ≤ idx.length)
    {file : BitFile} {raw : List UInt8} (hraw : file.buffer = raw.map bitRev) (hne : raw ≠ []) (hsize : 8 * raw.length < 2 ^ 31)
    {turns : Nat} {j : Jtag (IoFtdi (Chip (Chain δ)))} (hrun : (program idx file turns).run (Jtag.new io) = .ok (some ()) j)
    (hend : Settled j.io) :
    ∃ p0 k m, p0.static = p.static ∧ p0.instruction = none ∧ k < turns ∧ m < 50 ∧
      ProgAlgXC3S.ClearsAt (ProgAlgXC3S.asked family p0) k ∧
      ProgAlgXC3S.UpAt (ProgAlgXC3S.leftOver family p0 k)
        (performs p0 (ProgAlgXC3S.configures family (raw.flatMap (fun b => (byteBits b).reverse)) (k + 1)))
        (Bench.pauseClocks fast freq 1000) m ∧
      (wires j.io).pins.target = ⟨.runTestIdle, [performs p0 (ProgAlgXC3S.script family
        (raw.flatMap (fun b => (byteBits b).reverse)) (Bench.pauseClocks fast freq 1000) (k + 1) m)]⟩ := by
  have hfile : 0 < file.getLength := by
    have hpos := List.length_pos_iff.2 hne
    rw [BitFile.getLength, hraw, List.length_map, Nat.mod_eq_of_lt (by omega)]
    omega
  have hnew : Jtag.Keeps (Ready fast freq) Jtag.Short (Jtag.new io) := ⟨hio, Jtag.short_nil⟩
  obtain ⟨-, hgood⟩ := retraces_program (carries_wires fast freq) hpaced hidx hfile turns (Jtag.new io) _ j hnew hrun
  obtain ⟨-, hlines⟩ := hgood hend
  obtain ⟨j1, b, hconstruct, hseats, hfresh, hstatic, hinstruction, hfast, hfreq⟩ :=
    run_construct (wires io) hmember hirlen hfamily idx
  have hthrough : (Jtag.new io).through wires = Jtag.new (wires io) := rfl
  rw [hthrough, program, run_bind_of hconstruct] at hlines
  have hmirrors := ProgAlgXC3S.simulates_arrayProgram (simulation_mirrors Bench.Seats) (Bench.scans_bench (δ := δ)) trivial family
    hfile turns
  obtain ⟨b', hbench, hseats'⟩ := hmirrors.ok hseats hlines
  obtain ⟨k, m, hk, hm, hclears, hup, hb'⟩ := (ProgAlgXC3S.arrayProgram_returns_iff hseats.irlen family file turns).1 hbench
  have hpause : ProgAlgXC3S.pauseOf b = Bench.pauseClocks fast freq 1000 := by
    rw [ProgAlgXC3S.pauseOf, hfast, hfreq]
    have hw1 : (wires io).hasFastClock = fast := hio.hasFastClock
    have hw2 : (wires io).tckFreq = freq := hio.tckFreq
    rw [hw1, hw2]
  rw [hpause, bitsOf_bitRev hraw hsize] at hup hb'
  have htarget := hseats'.rests.target
  rw [hb'] at htarget
  exact ⟨b.part, k, m, hstatic, hinstruction, hk, hm, hclears, hup, htarget⟩

end DeviceProgrammer

/-! ## One device -/

/-- A memory to configure: it is cleared by `JPROGRAM`, filled while `CFG_IN` is loaded, and up after `JSTART`. -/
structure Fabric where
  instruction : List Bool
  cleared : Bool
  memory : List Bool
  done : Bool
  deriving DecidableEq, Repr

instance : Circuit Fabric where
  status f n := n = 0 || (n = 4 && f.cleared) || (n = 5 && f.done)
  capture _ := [false]
  shift f b := if f.instruction = bits 6 0x05 then { f with memory := f.memory ++ [b] } else f
  update f _ := f
  load f i :=
    if i = bits 6 0x0b then ⟨i, false, [], false⟩
    else if i = bits 6 0x05 then { f with instruction := i, cleared := true }
    else if i = bits 6 0x0c then { f with instruction := i, done := !f.memory.isEmpty }
    else { f with instruction := i }
  idle f := f
  reset f := { f with instruction := [] }

instance : Host (Chip (Chain Fabric)) where
  ftdiGetErrorString _ := "all fine"
  errno _ := 0
  strerror _ := "Success"
  stack _ _ := 0

/-- A Spartan-6 that is configured and shifting, on a cable with reads of a byte, of nothing, of two bytes, and of all there is. -/
def spartan : IoFtdi (Chip (Chain Fabric)) :=
  ⟨⟨⟨⟨false, false, ⟨.shiftIR, [⟨6, 0x24001093, some (bits 6 0x05), bits 6 0x0d, ⟨bits 6 0x05, true, [true], true⟩⟩]⟩⟩, 0,
    .command⟩, [], [], [.deliver 1, .deliver 0, .deliver 2]⟩, [], [], true, 30000⟩

def someFile : BitFile := ⟨[], [], [], [], [0xaa, 0x99].map bitRev⟩

namespace DeviceProgrammer

theorem run_spartan : ∃ j, (program [0, 0, 0, 0] someFile 5).run (Jtag.new spartan) = .ok (some ()) j ∧ Settled j.io ∧
    (wires j.io).pins.target.members.map (fun p => p.circuit.memory) = [byteBits 0x55 ++ byteBits 0x99] := by
  have hreturns : returns (fun r j => r == some () && decide (j.io.link.owed = []) &&
      decide ((wires j.io).pins.target.members.map (fun p => p.circuit.memory) = [byteBits 0x55 ++ byteBits 0x99]))
        ((program [0, 0, 0, 0] someFile 5).run (Jtag.new spartan)) = true := by
    decide +kernel
  obtain ⟨r, j, hrun, hall⟩ := ok_of_returns hreturns
  rw [Bool.and_eq_true, Bool.and_eq_true, beq_iff_eq, decide_eq_true_eq, decide_eq_true_eq] at hall
  obtain ⟨⟨rfl, howed⟩, hmemory⟩ := hall
  exact ⟨j, hrun, howed, hmemory⟩

theorem cable_programs_spartan : ∃ j, (program [0, 0, 0, 0] someFile 5).run (Jtag.new spartan) = .ok (some ()) j ∧
    ∃ p0 k m, p0.instruction = none ∧ k < 5 ∧ m < 50 ∧ (wires j.io).pins.target = ⟨.runTestIdle, [performs p0
      (ProgAlgXC3S.script .xc6s ([0xaa, 0x99].flatMap (fun b => (byteBits b).reverse)) (Bench.pauseClocks true 30000 1000)
        (k + 1) m)]⟩ := by
  obtain ⟨j, hrun, hend, -⟩ := run_spartan
  have hpaced : Paced true 30000 1000 := fun _ => ⟨by decide, fun hslow => by cases hslow⟩
  have hready : Ready true 30000 spartan := ⟨rfl, rfl, rfl⟩
  have hidx : 4 ≤ [(0 : UInt8), 0, 0, 0].length := Nat.le_refl 4
  have hraw : someFile.buffer = [0xaa, 0x99].map bitRev := rfl
  obtain ⟨p0, k, m, -, hinstruction, hk, hm, -, -, htarget⟩ :=
    cable_programs hpaced spartan hready rfl rfl rfl hidx hraw (by decide) (by decide) hrun hend
  exact ⟨j, hrun, p0, k, m, hinstruction, hk, hm, htarget⟩

theorem program_ends_spartan : ∃ j1 p0, (construct [0, 0, 0, 0]).run (Jtag.new (wires spartan)) = .ok .xc6s j1 ∧
    j1.io.pins.target.members = [p0] ∧ p0.instruction = none := by
  have hpos : 0 < cInt someFile.getLength := by
    decide
  obtain ⟨j1, p0, hrun, hmember, -, hinstruction, -⟩ := program_ends (wires spartan) rfl rfl rfl [0, 0, 0, 0] hpos 5
  exact ⟨j1, p0, hrun, hmember, hinstruction⟩

theorem construct_ends_spartan : ∃ j, (construct [0, 0, 0, 0]).run (Jtag.new (wires spartan)) = .ok .xc6s j := by
  have hvalid : ∀ p ∈ (wires spartan).pins.target.members, p.idcode ≠ 0 ∧ p.idcode ≠ 0xffffffff := by
    intro p hp
    rw [List.mem_singleton.1 hp]
    exact ⟨by decide, by decide⟩
  exact construct_ends (wires spartan) hvalid [0, 0, 0, 0]

end DeviceProgrammer
end Xc3s
end Fpga
