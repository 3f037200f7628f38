import FpgaServer.Bench
/-!
# Programming — what a device is given when it is programmed

`script` is everything `array_program` does to the device: instructions, data, clocks.  Only the number of polls in its two loops
depends on the device, and a run returns for a device that clears its configuration and comes up in time, and for no other
(`arrayProgram_returns_iff`).  The end of it is `cable_programs`: whatever the cable did to the commands on their way, a
program that returned has given the one device of the chain this script, with the bits of the bitfile in it.
-/
namespace Fpga
namespace Xc3s

open Base

/-- What a device is given: an instruction, data for the selected register, clocks at rest. -/
inductive Scan where
  | instruction (code : List UInt8)
  | data (bits : List Bool)
  | clocks (n : Nat)
  deriving DecidableEq, Repr

variable {δ : Type} [Circuit δ]

/-- A device that is given something at rest. -/
def perform (p : Member δ) : Scan → Member δ
  | .instruction code => p.idle.load ((bytesBits code).take p.irlen)
  | .data bits => p.scanned true bits
  | .clocks n => p.still false n

def performs (p : Member δ) (scans : List Scan) : Member δ := scans.foldl perform p

/-- What `shiftIR` reads of a device. -/
def statusOf (p : Member δ) : UInt8 := byteOf p.idle.status

theorem performs_append (p : Member δ) (scans more : List Scan) : performs p (scans ++ more) = performs (performs p scans) more :=
  List.foldl_append

theorem static_performs (scans : List Scan) (p : Member δ) : (performs p scans).static = p.static := by
  induction scans generalizing p with
  | nil => rfl
  | cons scan scans ih =>
    have hfirst : (perform p scan).static = p.static := by
      cases scan with
      | instruction code => rfl
      | data bits => exact p.static_scanned true bits
      | clocks n => exact p.static_still false n
    exact (ih (perform p scan)).trans hfirst

theorem irlen_performs (scans : List Scan) (p : Member δ) : (performs p scans).irlen = p.irlen :=
  congrArg Prod.fst (static_performs scans p)

namespace ProgAlgXC3S

/-! ## The script -/

def enable (family : Family) : List Scan :=
  [.instruction iscEnable, .data (List.replicate 5 false), .clocks (tckLen family)]

def dna : Family → List Scan
  | .xc6s => [.instruction iscEnable, .instruction iscDna, .data (List.replicate 63 true ++ [false]), .clocks 1]
  | .xc7 => []

def legacy (family : Family) (bits : List Bool) : List Scan :=
  [.instruction jshutdown, .clocks (tckLen family), .instruction cfgIn, .data bits, .clocks 1, .instruction jstart,
    .clocks (2 * tckLen family), .instruction bypass, .data [false], .clocks 1]

def disable (family : Family) : List Scan :=
  [.instruction iscDisable, .clocks (tckLen family), .instruction bypass, .data [false], .clocks 1]

/-- The polls of the first loop. -/
def clears (polls : Nat) : List Scan := List.replicate polls (.instruction cfgIn)

/-- The polls of the last loop, with the clocks of a pause. -/
def rises (pause polls : Nat) : List Scan := (List.replicate polls [.instruction bypass, .clocks pause]).flatten

/-- Everything before the polls of the last loop. -/
def configures (family : Family) (bits : List Bool) (polls : Nat) : List Scan :=
  enable family ++ .instruction jprogram :: clears polls ++ dna family ++ legacy family bits ++ disable family

/-- What `array_program` gives a device, with so many polls in its loops. -/
def script (family : Family) (bits : List Bool) (pause cleared up : Nat) : List Scan :=
  configures family bits cleared ++ rises pause up

/-- The device shows a cleared configuration with this poll, and with none before. -/
def ClearsAt (p : Member δ) (k : Nat) : Prop :=
  statusOf (performs p (clears k)) &&& 0x10 ≠ 0 ∧ ∀ i < k, ¬ statusOf (performs p (clears i)) &&& 0x10 ≠ 0

/-- What `array_program` goes by before each poll of the last loop: at first what the other loop has left. -/
def goneBy (buf : UInt8) (p : Member δ) (pause : Nat) : Nat → UInt8
  | 0 => buf
  | i + 1 => statusOf (performs p (rises pause i))

/-- The device shows that it is up before this poll, and not before. -/
def UpAt (buf : UInt8) (p : Member δ) (pause m : Nat) : Prop :=
  ¬ goneBy buf p pause m &&& 0x23 ≠ 0x21 ∧ ∀ i < m, goneBy buf p pause i &&& 0x23 ≠ 0x21

/-! ## The calls, one after the other -/

/-- A program that gives a device this, and does not fail. -/
def Gives {α : Type} (scans : List Scan) (x : ScanM (Bench δ) α) : Prop :=
  ∀ b : Bench δ, b.fresh = false → ∃ a, x.run b = .ok a { b with part := performs b.part scans }

omit [Circuit δ] in
/-- A device that is not held in reset. -/
theorem released {b : Bench δ} (hb : b.fresh = false) (p : Member δ) :
    ({ b with part := p, fresh := false } : Bench δ) = { b with part := p } := by
  rw [← hb]

theorem Gives.pure {α : Type} (a : α) : Gives [] (pure a : ScanM (Bench δ) α) := fun _ _ => ⟨a, rfl⟩

theorem Gives.bind {α β : Type} {scans more : List Scan} {x : ScanM (Bench δ) α} {f : α → ScanM (Bench δ) β} (hx : Gives scans x)
    (hf : ∀ a, Gives more (f a)) : Gives (scans ++ more) (x >>= f) := by
  intro b hb
  obtain ⟨a, ha⟩ := hx b hb
  obtain ⟨c, hc⟩ := hf a { b with part := performs b.part scans } hb
  refine ⟨c, ?_⟩
  rw [run_bind_of ha, hc, performs_append]

theorem run_load (code : List UInt8) (b : Bench δ) :
    (load code).run b = .ok () { b with part := perform b.part (.instruction code), fresh := false } := rfl

theorem gives_load (code : List UInt8) : Gives [.instruction code] (load code : ScanM (Bench δ) Unit) := by
  intro b hb
  refine ⟨(), ?_⟩
  rw [run_load, ← hb]
  rfl

theorem gives_send (data : List UInt8) (length : Nat) :
    Gives [.data ((bytesBits data).take length)] (send data length : ScanM (Bench δ) Unit) := by
  intro b hb
  refine ⟨(), ?_⟩
  have hrun : (send data length).run b =
      .ok () { b with part := perform b.part (.data ((bytesBits data).take length)), fresh := false } := rfl
  rw [hrun, ← hb]
  rfl

theorem gives_cycleTCK (n : Nat) : Gives [.clocks n] (Scanner.cycleTCK n : ScanM (Bench δ) Unit) := by
  intro b hb
  refine ⟨(), ?_⟩
  have hrun : (Scanner.cycleTCK n : ScanM (Bench δ) Unit).run b = .ok () { b with part := b.part.still b.fresh n } := rfl
  rw [hrun, hb]
  rfl

theorem gives_flowDisable (family : Family) : Gives (disable family) (flowDisable family : ScanM (Bench δ) Unit) :=
  (gives_load _).bind fun _ => (gives_cycleTCK _).bind fun _ => (gives_load _).bind fun _ => (gives_send _ _).bind fun _ =>
    gives_cycleTCK _

theorem gives_flowProgramLegacy (family : Family) (file : BitFile) :
    Gives (legacy family ((bytesBits file.buffer).take file.getLength)) (flowProgramLegacy family file : ScanM (Bench δ) Unit) :=
  (gives_load _).bind fun _ => (gives_cycleTCK _).bind fun _ => (gives_load _).bind fun _ => (gives_send _ _).bind fun _ =>
    (gives_cycleTCK _).bind fun _ => (gives_load _).bind fun _ => (gives_cycleTCK _).bind fun _ => (gives_load _).bind fun _ =>
      (gives_send _ _).bind fun _ => gives_cycleTCK _

theorem gives_readDna (family : Family) : Gives (dna family) (readDna family : ScanM (Bench δ) Unit) := by
  cases family with
  | xc6s =>
    apply (gives_load _).bind
    intro _
    apply (gives_load _).bind
    intro _
    have hread : Gives [.data (List.replicate 63 true ++ [false])]
        (Scanner.shiftDR none (some (List.replicate 8 0)) 64 : ScanM (Bench δ) _) := by
      intro b hb
      obtain ⟨out, hout⟩ : ∃ out, (Scanner.shiftDR none (some (List.replicate 8 0)) 64 : ScanM (Bench δ) _).run b =
          .ok out { b with part := perform b.part (.data (List.replicate 63 true ++ [false])), fresh := false } := ⟨_, rfl⟩
      exact ⟨out, hout.trans (congrArg (EStateM.Result.ok out) (released hb _))⟩
    exact hread.bind (fun _ => gives_cycleTCK 1)
  | xc7 => exact Gives.pure ()

/-- A poll reads the status of before. -/
theorem run_poll (code : List UInt8) (buf : UInt8) {b : Bench δ} (h : 0 < b.part.irlen ∧ b.part.irlen ≤ 8) :
    (poll code buf).run b = .ok (statusOf b.part) { b with part := perform b.part (.instruction code), fresh := false } := by
  have hlen : b.part.idle.status.length = b.part.irlen := b.part.idle.length_status
  have hne : b.part.idle.status ≠ [] := by
    intro hnil
    rw [hnil] at hlen
    exact Nat.ne_of_lt h.1 hlen
  have hbyte : store [buf] 0 (packBits b.part.idle.status) = [statusOf b.part] := by
    rw [packBits_short hne (hlen ▸ h.2)]
    rfl
  have hrun : (poll code buf).run b = .ok ((store [buf] 0 (packBits b.part.idle.status)).headD buf)
      { b with part := perform b.part (.instruction code), fresh := false } := rfl
  rw [hrun, hbyte]
  rfl

/-! ## The loops -/

/-- The first loop ends with the poll that shows a cleared configuration. -/
theorem run_waitCleared (k : Nat) : ∀ {turns : Nat} (buf : UInt8) {b : Bench δ}, b.fresh = false →
    0 < b.part.irlen ∧ b.part.irlen ≤ 8 → k < turns → ClearsAt b.part k → (waitCleared turns buf).run b =
      .ok (some (statusOf (performs b.part (clears k)))) { b with part := performs b.part (clears (k + 1)) } := by
  induction k with
  | zero =>
    intro turns buf b hb hirlen hturns hclears
    obtain ⟨left, rfl⟩ := Nat.exists_eq_succ_of_ne_zero (Nat.ne_of_gt hturns)
    rw [Nat.succ_eq_add_one, waitCleared, run_bind_of (run_poll cfgIn buf hirlen)]
    have hshown : statusOf b.part &&& 0x10 ≠ 0 := hclears.1
    rw [if_pos hshown, ← hb]
    rfl
  | succ k ih =>
    intro turns buf b hb hirlen hturns hclears
    obtain ⟨left, rfl⟩ := Nat.exists_eq_succ_of_ne_zero (Nat.ne_of_gt (Nat.lt_of_le_of_lt (Nat.zero_le _) hturns))
    rw [Nat.succ_eq_add_one, waitCleared, run_bind_of (run_poll cfgIn buf hirlen)]
    have hhidden : ¬ statusOf b.part &&& 0x10 ≠ 0 := hclears.2 0 (Nat.zero_lt_succ k)
    have hlater : ClearsAt (perform b.part (.instruction cfgIn)) k :=
      ⟨hclears.1, fun i hi => hclears.2 (i + 1) (Nat.succ_lt_succ hi)⟩
    have hrest := ih (statusOf b.part) (b := { b with part := perform b.part (.instruction cfgIn), fresh := false }) rfl hirlen
      (Nat.lt_of_succ_lt_succ hturns) hlater
    rw [if_neg hhidden, hrest, ← hb]
    rfl

/-- It is given up for a device that does not clear its configuration. -/
theorem run_waitCleared_none (turns : Nat) : ∀ (buf : UInt8) {b : Bench δ}, b.fresh = false →
    0 < b.part.irlen ∧ b.part.irlen ≤ 8 → (∀ i < turns, ¬ statusOf (performs b.part (clears i)) &&& 0x10 ≠ 0) →
      (waitCleared turns buf).run b = .ok none { b with part := performs b.part (clears turns) } := by
  induction turns with
  | zero => exact fun buf b _ _ _ => rfl
  | succ turns ih =>
    intro buf b hb hirlen hhidden
    have hfirst : ¬ statusOf b.part &&& 0x10 ≠ 0 := hhidden 0 (Nat.zero_lt_succ turns)
    have hrest := ih (statusOf b.part) (b := { b with part := perform b.part (.instruction cfgIn), fresh := false }) rfl hirlen
      (fun i hi => hhidden (i + 1) (Nat.succ_lt_succ hi))
    rw [waitCleared, run_bind_of (run_poll cfgIn buf hirlen), if_neg hfirst, hrest, ← hb]
    rfl

/-- The clocks of the pause between two polls. -/
def pauseOf (b : Bench δ) : Nat := Bench.pauseClocks b.hasFastClock b.tckFreq 1000

/-- A turn of the last loop. -/
theorem run_waitUp_turn {left : Nat} {buf : UInt8} {b : Bench δ} (hb : b.fresh = false)
    (hirlen : 0 < b.part.irlen ∧ b.part.irlen ≤ 8) (hdown : buf &&& 0x23 ≠ 0x21) : (waitUp (left + 1) buf).run b =
      (waitUp left (statusOf b.part)).run
        { b with part := performs b.part [.instruction bypass, .clocks (pauseOf b)] } := by
  rw [waitUp, if_pos hdown, run_bind_of (run_poll bypass buf hirlen)]
  have hpause : (Scanner.usleep 1000 : ScanM (Bench δ) Unit).run
      { b with part := perform b.part (.instruction bypass), fresh := false } =
        .ok () { b with part := performs b.part [.instruction bypass, .clocks (pauseOf b)] } := by
    rw [← hb]
    have hrun : ∀ c : Bench δ, (Scanner.usleep 1000 : ScanM (Bench δ) Unit).run c =
        .ok () { c with part := c.part.still c.fresh (pauseOf c) } := fun _ => rfl
    rw [hrun, hb]
    rfl
  rw [run_bind_of hpause]

theorem goneBy_succ (buf : UInt8) (p : Member δ) (pause i : Nat) : goneBy buf p pause (i + 1) =
    goneBy (statusOf p) (performs p [.instruction bypass, .clocks pause]) pause i := by
  cases i <;> rfl

/-- The last loop ends where the device is up. -/
theorem run_waitUp (m : Nat) : ∀ (left : Nat) {buf : UInt8} {b : Bench δ}, b.fresh = false →
    0 < b.part.irlen ∧ b.part.irlen ≤ 8 → m < left → UpAt buf b.part (pauseOf b) m →
      (waitUp left buf).run b = .ok (left - m) { b with part := performs b.part (rises (pauseOf b) m) } := by
  induction m with
  | zero =>
    intro left buf b hb hirlen hleft hup
    obtain ⟨rest, rfl⟩ := Nat.exists_eq_succ_of_ne_zero (Nat.ne_of_gt hleft)
    have hshown : ¬ buf &&& 0x23 ≠ 0x21 := hup.1
    rw [Nat.succ_eq_add_one, waitUp, if_neg hshown]
    rfl
  | succ m ih =>
    intro left buf b hb hirlen hleft hup
    obtain ⟨rest, rfl⟩ := Nat.exists_eq_succ_of_ne_zero (Nat.ne_of_gt (Nat.lt_of_le_of_lt (Nat.zero_le _) hleft))
    have hdown : buf &&& 0x23 ≠ 0x21 := hup.2 0 (Nat.zero_lt_succ m)
    have hlater : UpAt (statusOf b.part) (performs b.part [.instruction bypass, .clocks (pauseOf b)]) (pauseOf b) m := by
      refine ⟨?_, fun i hi => ?_⟩
      · rw [← goneBy_succ buf]
        exact hup.1
      · rw [← goneBy_succ buf]
        exact hup.2 (i + 1) (Nat.succ_lt_succ hi)
    have hstays : 0 < (performs b.part [.instruction bypass, .clocks (pauseOf b)]).irlen ∧
        (performs b.part [.instruction bypass, .clocks (pauseOf b)]).irlen ≤ 8 := by
      rw [irlen_performs]
      exact hirlen
    have hrest := ih rest (b := { b with part := performs b.part [.instruction bypass, .clocks (pauseOf b)] }) hb hstays
      (Nat.lt_of_succ_lt_succ hleft) hlater
    rw [run_waitUp_turn hb hirlen hdown, hrest, Nat.succ_sub_succ]
    rfl

/-- For a device that is not up in time it ends with no polls left, though the last one may have shown it up. -/
theorem run_waitUp_zero (left : Nat) : ∀ (buf : UInt8) {b : Bench δ}, b.fresh = false →
    0 < b.part.irlen ∧ b.part.irlen ≤ 8 → (∀ i < left, goneBy buf b.part (pauseOf b) i &&& 0x23 ≠ 0x21) →
      (waitUp left buf).run b = .ok 0 { b with part := performs b.part (rises (pauseOf b) left) } := by
  induction left with
  | zero =>
    intro buf b _ _ _
    rfl
  | succ left ih =>
    intro buf b hb hirlen hdown
    have hstays : 0 < (performs b.part [.instruction bypass, .clocks (pauseOf b)]).irlen ∧
        (performs b.part [.instruction bypass, .clocks (pauseOf b)]).irlen ≤ 8 := by
      rw [irlen_performs]
      exact hirlen
    have hrest := ih (statusOf b.part) (b := { b with part := performs b.part [.instruction bypass, .clocks (pauseOf b)] })
      hb hstays (fun i hi => goneBy_succ buf b.part (pauseOf b) i ▸ hdown (i + 1) (Nat.succ_lt_succ hi))
    have hfirst : buf &&& 0x23 ≠ 0x21 := hdown 0 (Nat.zero_lt_succ left)
    rw [run_waitUp_turn hb hirlen hfirst, hrest]
    rfl

/-! ## `array_program` -/

/-- The device before the first loop, and the one before the last. -/
def asked (family : Family) (p : Member δ) : Member δ := performs p (enable family ++ [.instruction jprogram])

/-- What the first loop has left in the buffer. -/
def leftOver (family : Family) (p : Member δ) (k : Nat) : UInt8 := statusOf (performs (asked family p) (clears k))

/-- The bits `array_program` sends. -/
def bitsOf (file : BitFile) : List Bool := (bytesBits file.buffer).take file.getLength

theorem run_asked (family : Family) (b : Bench δ) {α : Type} (k : ScanM (Bench δ) α) :
    (do flowEnable family; load jprogram; k).run b = k.run { b with part := asked family b.part, fresh := false } := by
  have hrest : Gives [.data (List.replicate 5 false), .clocks (tckLen family), .instruction jprogram]
      (do send [0] 5; Scanner.cycleTCK (tckLen family); load jprogram : ScanM (Bench δ) Unit) :=
    (gives_send [0] 5).bind fun _ => (gives_cycleTCK _).bind fun _ => gives_load _
  obtain ⟨u, hu⟩ := hrest { b with part := perform b.part (.instruction iscEnable), fresh := false } rfl
  have hwhole : (do flowEnable family; load jprogram; k).run b =
      ((do send [0] 5; Scanner.cycleTCK (tckLen family); load jprogram : ScanM (Bench δ) Unit) >>= fun _ => k).run
        { b with part := perform b.part (.instruction iscEnable), fresh := false } := by
    simp only [flowEnable, bind_assoc]
    rw [run_bind_of (run_load iscEnable b)]
  rw [hwhole, run_bind_of hu]
  rfl

theorem performs_configures (family : Family) (bits : List Bool) (polls : Nat) (p : Member δ) :
    performs p (configures family bits polls) =
      performs (performs (asked family p) (clears polls)) (dna family ++ (legacy family bits ++ disable family)) := by
  have hcut : configures family bits polls = (enable family ++ [.instruction jprogram]) ++
      (clears polls ++ (dna family ++ (legacy family bits ++ disable family))) := by
    simp only [configures, List.append_assoc, List.cons_append, List.nil_append]
  rw [hcut, performs_append, performs_append]
  rfl

theorem irlen_asked (family : Family) (p : Member δ) : (asked family p).irlen = p.irlen := irlen_performs _ p

/-- The last loop, as `array_program` ends. -/
def finish (buf : UInt8) : ScanM (Bench δ) (Option Unit) := do
  let left ← waitUp 50 buf
  if left = 0 then
    throw "Error configuring device"
  return some ()

/-- Up to the last loop. -/
theorem run_configured {b : Bench δ} (hirlen : 0 < b.part.irlen ∧ b.part.irlen ≤ 8) (family : Family) (file : BitFile)
    {turns k : Nat} (hk : k < turns) (hclears : ClearsAt (asked family b.part) k) :
    (arrayProgram family file turns).run b = (finish (leftOver family b.part k)).run
      { b with part := performs b.part (configures family (bitsOf file) (k + 1)), fresh := false } := by
  have hasked : 0 < (asked family b.part).irlen ∧ (asked family b.part).irlen ≤ 8 := by
    rw [irlen_asked]
    exact hirlen
  have hloop := run_waitCleared k 0 (b := { b with part := asked family b.part, fresh := false }) rfl hasked hk hclears
  unfold arrayProgram
  rw [run_asked, run_bind_of hloop]
  have hgives := (gives_readDna (δ := δ) family).bind fun _ =>
    (gives_flowProgramLegacy family file).bind fun _ => gives_flowDisable family
  obtain ⟨u, hu⟩ := hgives { b with part := performs (asked family b.part) (clears (k + 1)), fresh := false } rfl
  have hrest : ∀ c : Bench δ, (do
      readDna family
      flowProgramLegacy family file
      flowDisable family
      finish (leftOver family b.part k) : ScanM (Bench δ) _).run c =
        ((do readDna family; flowProgramLegacy family file; flowDisable family : ScanM (Bench δ) Unit) >>= fun _ =>
          finish (leftOver family b.part k)).run c := by
    intro c
    simp only [bind_assoc]
  refine (hrest _).trans ?_
  rw [run_bind_of hu, performs_configures]
  rfl

omit [Circuit δ] in
/-- Up to a bound, there is a first or there is none. -/
theorem first_or_none (P : Nat → Prop) (n : Nat) : (∃ k < n, P k ∧ ∀ i < k, ¬ P i) ∨ ∀ i < n, ¬ P i := by
  induction n with
  | zero => exact .inr (fun i hi => absurd hi (Nat.not_lt_zero i))
  | succ n ih =>
    rcases ih with ⟨k, hk, hfirst⟩ | hnone
    · exact .inl ⟨k, Nat.lt_succ_of_lt hk, hfirst⟩
    · by_cases hn : P n
      · exact .inl ⟨n, Nat.lt_succ_self n, hn, hnone⟩
      · refine .inr (fun i hi => ?_)
        rcases Nat.lt_succ_iff_lt_or_eq.1 hi with hlt | rfl
        · exact hnone i hlt
        · exact hn

section

variable {b : Bench δ} (hirlen : 0 < b.part.irlen ∧ b.part.irlen ≤ 8) (family : Family) (file : BitFile)
include hirlen

theorem irlen_configured (polls : Nat) : 0 < (performs b.part (configures family (bitsOf file) polls)).irlen ∧
    (performs b.part (configures family (bitsOf file) polls)).irlen ≤ 8 := by
  rw [irlen_performs]
  exact hirlen

/-- A device that is up in time. -/
theorem run_arrayProgram_up {turns k m : Nat} (hk : k < turns) (hm : m < 50) (hclears : ClearsAt (asked family b.part) k)
    (hup : UpAt (leftOver family b.part k) (performs b.part (configures family (bitsOf file) (k + 1))) (pauseOf b) m) :
    (arrayProgram family file turns).run b = .ok (some ())
      { b with part := performs b.part (script family (bitsOf file) (pauseOf b) (k + 1) m), fresh := false } := by
  have hrun := run_waitUp m 50
    (b := { b with part := performs b.part (configures family (bitsOf file) (k + 1)), fresh := false })
    rfl (irlen_configured hirlen family file _) hm hup
  have hleft : ¬ 50 - m = 0 := by omega
  rw [run_configured hirlen family file hk hclears, finish, run_bind_of hrun, if_neg hleft, script, performs_append]
  rfl

/-- One that is not. -/
theorem run_arrayProgram_down {turns k : Nat} (hk : k < turns) (hclears : ClearsAt (asked family b.part) k)
    (hdown : ∀ i < 50, goneBy (leftOver family b.part k) (performs b.part (configures family (bitsOf file) (k + 1)))
      (pauseOf b) i &&& 0x23 ≠ 0x21) :
    (arrayProgram family file turns).run b = .error "Error configuring device"
      { b with part := performs b.part (script family (bitsOf file) (pauseOf b) (k + 1) 50), fresh := false } := by
  have hrun := run_waitUp_zero 50 (leftOver family b.part k)
    (b := { b with part := performs b.part (configures family (bitsOf file) (k + 1)), fresh := false })
    rfl (irlen_configured hirlen family file _) hdown
  rw [run_configured hirlen family file hk hclears, finish, run_bind_of hrun, script, performs_append]
  rfl

/-- One that does not clear its configuration. -/
theorem run_arrayProgram_stuck {turns : Nat}
    (hnone : ∀ i < turns, ¬ statusOf (performs (asked family b.part) (clears i)) &&& 0x10 ≠ 0) :
    (arrayProgram family file turns).run b =
      .ok none { b with part := performs (asked family b.part) (clears turns), fresh := false } := by
  have hasked : 0 < (asked family b.part).irlen ∧ (asked family b.part).irlen ≤ 8 := by
    rw [irlen_asked]
    exact hirlen
  have hgiven := run_waitCleared_none turns 0 (b := { b with part := asked family b.part, fresh := false }) rfl hasked hnone
  unfold arrayProgram
  rw [run_asked, run_bind_of hgiven]
  rfl

omit hirlen in
/-- The three ways it can go. -/
theorem outcomes (turns : Nat) :
    (∃ k m, k < turns ∧ m < 50 ∧ ClearsAt (asked family b.part) k ∧
      UpAt (leftOver family b.part k) (performs b.part (configures family (bitsOf file) (k + 1))) (pauseOf b) m) ∨
    (∃ k < turns, ClearsAt (asked family b.part) k ∧
      ∀ i < 50, goneBy (leftOver family b.part k) (performs b.part (configures family (bitsOf file) (k + 1)))
        (pauseOf b) i &&& 0x23 ≠ 0x21) ∨
    ∀ i < turns, ¬ statusOf (performs (asked family b.part) (clears i)) &&& 0x10 ≠ 0 := by
  rcases first_or_none (fun i => statusOf (performs (asked family b.part) (clears i)) &&& 0x10 ≠ 0) turns with
    ⟨k, hk, hclears⟩ | hnone
  · rcases first_or_none (fun i => ¬ goneBy (leftOver family b.part k) (performs b.part (configures family (bitsOf file) (k + 1)))
        (pauseOf b) i &&& 0x23 ≠ 0x21) 50 with ⟨m, hm, hup, hdown⟩ | hnever
    · exact .inl ⟨k, m, hk, hm, hclears, hup, fun i hi => Decidable.not_not.1 (hdown i hi)⟩
    · exact .inr (.inl ⟨k, hk, hclears, fun i hi => Decidable.not_not.1 (hnever i hi)⟩)
  · exact .inr (.inr hnone)

/-- **`array_program` returns for a device that clears its configuration and comes up in time, and for no other**; then it has
given the device the script. -/
theorem arrayProgram_returns_iff {b' : Bench δ} (turns : Nat) : (arrayProgram family file turns).run b = .ok (some ()) b' ↔
      ∃ k m, k < turns ∧ m < 50 ∧ ClearsAt (asked family b.part) k ∧
        UpAt (leftOver family b.part k) (performs b.part (configures family (bitsOf file) (k + 1))) (pauseOf b) m ∧
        b' = { b with part := performs b.part (script family (bitsOf file) (pauseOf b) (k + 1) m), fresh := false } := by
  constructor
  · intro hrun
    rcases outcomes (b := b) family file turns with ⟨k, m, hk, hm, hclears, hup⟩ | ⟨k, hk, hclears, hdown⟩ | hnone
    · have hresult := run_arrayProgram_up hirlen family file hk hm hclears hup
      rw [hrun] at hresult
      exact ⟨k, m, hk, hm, hclears, hup, (EStateM.Result.ok.inj hresult).2⟩
    · rw [run_arrayProgram_down hirlen family file hk hclears hdown] at hrun
      cases hrun
    · rw [run_arrayProgram_stuck hirlen family file hnone] at hrun
      cases hrun
  · rintro ⟨k, m, hk, hm, hclears, hup, rfl⟩
    exact run_arrayProgram_up hirlen family file hk hm hclears hup

end

end ProgAlgXC3S
end Xc3s
end Fpga
