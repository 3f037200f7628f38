import FpgaServer.ReadBuffer
/-!
# Arrivals — when `readRegN` returns

How the reads of a channel go on is what its script says.  A packet arrives if, within a hundred calls none of which fails,
as many bytes are delivered as it has; `readRegN` returns if and only if every command is written and every packet arrives,
and then the buffer holds the words of the device (`readRegN_fills`).
-/
namespace Fpga

open Base (Matches final countsOf)

variable {δ ω : Type}

/-- Within so many calls, none of which fails, the reads deliver so many bytes; then the script goes on with `rest`. -/
inductive Arrives (calls size : Nat) : List ReadStep → List ReadStep → Prop where
  | read (counts : List Nat) (last : Nat) (rest : List ReadStep) (hmissing : counts.sum < size)
    (hall : size ≤ counts.sum + last) (hcalls : counts.length < calls) :
    Arrives calls size (counts.map .deliver ++ .deliver last :: rest) rest
  | spent (counts : List Nat) (hmissing : counts.sum < size) (hcalls : counts.length < calls) :
    Arrives calls size (counts.map .deliver) []

/-- Every command is written, and the bytes of its packet arrive within a hundred calls. -/
inductive Completes : List Nat → List WriteStep → List ReadStep → Prop where
  | done (writes : List WriteStep) (reads : List ReadStep) : Completes [] writes reads
  | packet (words : Nat) (packets : List Nat) (writes : List WriteStep) (reads rest : List ReadStep)
    (hwrite : ∀ reached result, writes.head? ≠ some (.cut reached result)) (harrives : Arrives 100 (2 * words) reads rest)
    (hrest : Completes packets writes.tail rest) : Completes (words :: packets) writes reads

theorem completes_cons_iff {words : Nat} {packets : List Nat} {writes : List WriteStep} {reads : List ReadStep} :
    Completes (words :: packets) writes reads ↔ (∀ reached result, writes.head? ≠ some (.cut reached result)) ∧
      ∃ rest, Arrives 100 (2 * words) reads rest ∧ Completes packets writes.tail rest := by
  constructor
  · intro h
    cases h with
    | packet _ _ _ _ rest hwrite harrives hrest => exact ⟨hwrite, rest, harrives, hrest⟩
  · rintro ⟨hwrite, rest, harrives, hrest⟩
    exact .packet _ _ _ _ rest hwrite harrives hrest

/-! ## Reads one by one -/

theorem not_arrives_zero {size : Nat} {reads rest : List ReadStep} : ¬ Arrives 0 size reads rest := by
  intro h
  cases h with
  | read counts last rest hmissing hall hcalls => omega
  | spent counts hmissing hcalls => omega

theorem arrives_nil {calls size : Nat} (hsize : 0 < size) {rest : List ReadStep} :
    Arrives (calls + 1) size [] rest ↔ rest = [] := by
  constructor
  · intro h
    generalize hreads : ([] : List ReadStep) = reads at h
    cases h with
    | read counts last rest hmissing hall hcalls => simp at hreads
    | spent counts hmissing hcalls => exact hreads
  · rintro rfl
    exact .spent [] hsize (Nat.succ_pos _)

theorem not_arrives_fail {calls size : Nat} {code : Int} {reads rest : List ReadStep} :
    ¬ Arrives calls size (.fail code :: reads) rest := by
  intro h
  generalize hreads : ReadStep.fail code :: reads = script at h
  cases h with
  | read counts last rest hmissing hall hcalls => cases counts <;> simp at hreads
  | spent counts hmissing hcalls => cases counts <;> simp at hreads

theorem arrives_all {calls size count : Nat} (hcount : size ≤ count) (hsize : 0 < size) {reads rest : List ReadStep} :
    Arrives (calls + 1) size (.deliver count :: reads) rest ↔ rest = reads := by
  constructor
  · intro h
    generalize hreads : ReadStep.deliver count :: reads = script at h
    cases h with
    | read counts last rest hmissing hall hcalls =>
      cases counts with
      | nil => exact (List.cons.inj hreads).2.symm
      | cons first counts =>
        obtain ⟨rfl, -⟩ : count = first ∧ _ := by simpa using hreads
        rw [List.sum_cons] at hmissing
        omega
    | spent counts hmissing hcalls =>
      cases counts with
      | nil => cases hreads
      | cons first counts =>
        obtain ⟨rfl, -⟩ : count = first ∧ _ := by simpa using hreads
        rw [List.sum_cons] at hmissing
        omega
  · rintro rfl
    exact .read [] count rest hsize (by simpa using hcount) (Nat.succ_pos _)

theorem arrives_part {calls size count : Nat} (hcount : count < size) {reads rest : List ReadStep} :
    Arrives (calls + 1) size (.deliver count :: reads) rest ↔ Arrives calls (size - count) reads rest := by
  constructor
  · intro h
    generalize hreads : ReadStep.deliver count :: reads = script at h
    cases h with
    | read counts last rest hmissing hall hcalls =>
      cases counts with
      | nil =>
        obtain ⟨rfl, -⟩ : count = last ∧ _ := by simpa using hreads
        rw [List.sum_nil] at hall
        omega
      | cons first counts =>
        obtain ⟨rfl, rfl⟩ : count = first ∧ reads = _ := by simpa using hreads
        rw [List.sum_cons] at hmissing hall
        rw [List.length_cons] at hcalls
        exact .read counts last rest (by omega) (by omega) (by omega)
    | spent counts hmissing hcalls =>
      cases counts with
      | nil => cases hreads
      | cons first counts =>
        obtain ⟨rfl, rfl⟩ : count = first ∧ reads = _ := by simpa using hreads
        rw [List.sum_cons] at hmissing
        rw [List.length_cons] at hcalls
        exact .spent counts (by omega) (by omega)
  · intro h
    cases h with
    | read counts last rest hmissing hall hcalls =>
      exact .read (count :: counts) last rest (by rw [List.sum_cons]; omega) (by rw [List.sum_cons]; omega)
        (by rw [List.length_cons]; omega)
    | spent counts hmissing hcalls =>
      exact .spent (count :: counts) (by rw [List.sum_cons]; omega) (by rw [List.length_cons]; omega)

/-! ## A packet -/

/-- The waiting bytes have been read, and so far the script. -/
def emptied (s : DeviceState (Line δ) ω) (reads : List ReadStep) : DeviceState (Line δ) ω :=
  { s with dev := { s.dev with usb := { s.dev.usb with pending := [], reads := reads } } }

variable [Fabric δ]

/-- The wait returns what is waiting if it arrives, and otherwise too little or nothing. -/
theorem readLoop_arrives (size : Nat) : ∀ (calls : Nat) (recv : List UInt8) {s : DeviceState (Line δ) ω},
    s.dev.isOpen = true → s.dev.usb.pending ≠ [] → size = recv.length + s.dev.usb.pending.length →
    (∀ rest, Arrives calls s.dev.usb.pending.length s.dev.usb.reads rest →
      (Device.readLoop size calls recv).run s = .ok (recv ++ s.dev.usb.pending) (emptied s rest)) ∧
    ((∀ rest, ¬ Arrives calls s.dev.usb.pending.length s.dev.usb.reads rest) →
      ∀ got t, (Device.readLoop size calls recv).run s = .ok got t → (got.length : Int) ≠ size)
  | 0, recv, s, _, hne, hsize => by
    refine ⟨fun rest h => absurd h not_arrives_zero, fun _ got t h => ?_⟩
    have hpos := List.length_pos_iff.2 hne
    cases h
    omega
  | calls + 1, recv, s, hopen, hne, hsize => by
    have hpos := List.length_pos_iff.2 hne
    have hmissing : (size : Int) - recv.length = s.dev.usb.pending.length := by omega
    -- the read that takes all
    have hall : ∀ reads, s.dev.usb.readData s.dev.usb.pending.length =
          (.ok s.dev.usb.pending, { s.dev.usb with pending := [], reads := reads }) →
        (Device.readLoop size (calls + 1) recv).run s = .ok (recv ++ s.dev.usb.pending) (emptied s reads) := by
      intro reads hread
      have hread' : Ftdi.readData (s.dev.usb.pending.length : Int) s.dev.usb = _ := hread
      have hfull : ¬ (((recv ++ s.dev.usb.pending).length : Nat) : Int) ≠ size := by
        rw [List.length_append]
        omega
      rw [Device.readLoop, hmissing, EStateM.run_bind, run_readData hopen (Int.natCast_nonneg _), hread']
      simp only
      rw [if_neg hfull]
      rfl
    cases hscript : s.dev.usb.reads with
    | nil =>
      refine ⟨fun rest h => ?_, fun hnot => absurd ((arrives_nil hpos).2 rfl) (hnot [])⟩
      obtain rfl := (arrives_nil hpos).1 h
      refine hall [] ?_
      simp [Line.readData, hscript]
    | cons step script =>
      cases step with
      | fail code =>
        refine ⟨fun rest h => absurd h not_arrives_fail, fun _ got t h => ?_⟩
        have hread : Ftdi.readData (s.dev.usb.pending.length : Int) s.dev.usb =
            (.error code, { s.dev.usb with reads := script }) := by
          simp [Ftdi.readData, Line.readData, hscript]
        rw [Device.readLoop, hmissing, EStateM.run_bind, run_readData hopen (Int.natCast_nonneg _), hread] at h
        cases h
      | deliver count =>
        by_cases hcount : s.dev.usb.pending.length ≤ count
        · refine ⟨fun rest h => ?_, fun hnot => absurd ((arrives_all hcount hpos).2 rfl) (hnot script)⟩
          obtain rfl := (arrives_all hcount hpos).1 h
          refine hall rest ?_
          simp [Line.readData, hscript, hcount]
        · have hlt := Nat.not_le.1 hcount
          have hread : Ftdi.readData (s.dev.usb.pending.length : Int) s.dev.usb = (.ok (s.dev.usb.pending.take count),
              { s.dev.usb with pending := s.dev.usb.pending.drop count, reads := script }) := by
            simp [Ftdi.readData, Line.readData, hscript, Nat.min_eq_left hlt.le]
          have hlength : (s.dev.usb.pending.take count).length = count := List.length_take_of_le hlt.le
          have hpart : (((recv ++ s.dev.usb.pending.take count).length : Nat) : Int) ≠ size := by
            rw [List.length_append, hlength]
            omega
          have ih := readLoop_arrives size calls (recv ++ s.dev.usb.pending.take count)
            (s := { s with dev := { s.dev with usb :=
              { s.dev.usb with pending := s.dev.usb.pending.drop count, reads := script } } }) hopen
            (by simpa using hlt) (by simp only [List.length_append, hlength, List.length_drop]; omega)
          rw [Device.readLoop, hmissing, EStateM.run_bind, run_readData hopen (Int.natCast_nonneg _), hread]
          simp only
          rw [if_pos hpart]
          simp only [arrives_part hlt]
          simp only [List.length_drop, List.append_assoc, List.take_append_drop] at ih
          exact ih

theorem ftdiReadDataWait_arrives {s : DeviceState (Line δ) ω} (hopen : s.dev.isOpen = true) (hne : s.dev.usb.pending ≠ []) :
    (∀ rest, Arrives 100 s.dev.usb.pending.length s.dev.usb.reads rest →
      (Device.ftdiReadDataWait s.dev.usb.pending.length).run s = .ok s.dev.usb.pending (emptied s rest)) ∧
    ((∀ rest, ¬ Arrives 100 s.dev.usb.pending.length s.dev.usb.reads rest) →
      ∀ got t, (Device.ftdiReadDataWait s.dev.usb.pending.length).run s ≠ .ok got t) := by
  obtain ⟨harrives, hnot⟩ := readLoop_arrives s.dev.usb.pending.length 100 [] hopen hne (by simp)
  refine ⟨fun rest h => ?_, fun h got t hrun => ?_⟩
  · rw [Device.ftdiReadDataWait, EStateM.run_bind, harrives rest h]
    simp only [List.nil_append]
    rw [raiseIf_bind_neg (by simp)]
    rfl
  · obtain ⟨recv, u, hloop, hrun⟩ := Base.bind_ok_iff.1 hrun
    rw [raiseIf_bind_pos (hnot h recv u hloop)] at hrun
    cases hrun

theorem writeData_uncut {l : Line δ} (h : ∀ reached result, l.writes.head? ≠ some (.cut reached result)) (bytes : List UInt8) :
    l.writeData bytes = ((bytes.length : Int), { l.receive bytes with writes := l.writes.tail }) := by
  obtain ⟨board, pending, writes, reads, programs⟩ := l
  cases writes with
  | nil => rfl
  | cons step writes =>
    cases step with
    | full => rfl
    | cut reached result => exact absurd rfl (h reached result)

theorem writeData_cut {l : Line δ} {reached : Nat} {result : Int} (h : l.writes.head? = some (.cut reached result))
    (bytes : List UInt8) : (l.writeData bytes).1 ≠ bytes.length := by
  obtain ⟨board, pending, writes, reads, programs⟩ := l
  cases writes with
  | nil => cases h
  | cons step writes =>
    cases h
    simp only [Line.writeData]
    omega

/-- A device at a command boundary answers the command with as many words as it asks for. -/
theorem receive_readRegN {l : Line δ} (hparser : l.board.parser = boundary) (hpending : l.pending = []) (addr port : UInt8)
    {k : Nat} (hk : k < 65536) : (l.receive (readRegNPacket addr port k)).board.parser = boundary ∧
      (l.receive (readRegNPacket addr port k)).pending.length = 2 * k := by
  have hreads := reads_readRegNPacket addr port hk
  have hevents : (l.board.reaction (readRegNPacket addr port k)).map (·.1) = [.command (.readRegN (Reg.of addr port) k)] := by
    rw [Board.reaction, hparser, hreads]
    exact fabric_run_fst _ _
  refine ⟨?_, ?_⟩
  · rw [Line.receive, Board.receive, hparser, hreads]
  · have hcount := length_answers (fun x (hx : x ∈ l.board.reaction (readRegNPacket addr port k)) => length_of_mem_run hx)
    rw [hevents] at hcount
    simp only [Line.receive, hpending, List.nil_append]
    rw [← List.flatMap_assoc, length_be16s, hcount]
    rfl

/-- The command has been written. -/
def sentPacket (s : DeviceState (Line δ) ω) (packet : List UInt8) : DeviceState (Line δ) ω :=
  { s with dev := { s.dev with usb := { s.dev.usb.receive packet with writes := s.dev.usb.writes.tail } } }

/-- **One packet**: what follows is run if the command is written and the response arrives. -/
theorem packet_returns_iff {α : Type} {s : DeviceState (Line δ) ω} (hopen : s.dev.isOpen = true)
    (hparser : s.dev.usb.board.parser = boundary) (hpending : s.dev.usb.pending = []) (addr port : UInt8) {k : Nat}
    (hk : k < 65536) (hpos : 0 < k) (f : List UInt8 → DeviceM (Line δ) ω α) :
    (∃ a t, (do
      let n ← Device.ftdiWriteData (readRegNPacket addr port k)
      raiseIf (n ≠ 4) "FTDI write error"
      let recv ← Device.ftdiReadDataWait (cInt (2 * k))
      f recv).run s = .ok a t) ↔
    (∀ reached result, s.dev.usb.writes.head? ≠ some (.cut reached result)) ∧ ∃ rest, Arrives 100 (2 * k) s.dev.usb.reads rest ∧
      ∃ a t, (f (sentPacket s (readRegNPacket addr port k)).dev.usb.pending).run
        (emptied (sentPacket s (readRegNPacket addr port k)) rest) = .ok a t := by
  rw [EStateM.run_bind]
  by_cases hcut : ∃ reached result, s.dev.usb.writes.head? = some (.cut reached result)
  · obtain ⟨reached, result, hcut⟩ := hcut
    have hshort : (Ftdi.writeData (readRegNPacket addr port k) s.dev.usb).1 ≠ 4 := writeData_cut hcut _
    rw [run_writeData hopen]
    simp only
    rw [raiseIf_bind_pos hshort]
    refine iff_of_false ?_ (fun h => h.1 reached result hcut)
    rintro ⟨a, t, hrun⟩
    cases hrun
  · have huncut : ∀ reached result, s.dev.usb.writes.head? ≠ some (.cut reached result) :=
      fun reached result h => hcut ⟨reached, result, h⟩
    have hwrite : (Device.ftdiWriteData (readRegNPacket addr port k)).run s =
        .ok 4 (sentPacket s (readRegNPacket addr port k)) := by
      rw [run_writeData hopen, show Ftdi.writeData _ s.dev.usb = _ from writeData_uncut huncut _]
      rfl
    have hlength : (sentPacket s (readRegNPacket addr port k)).dev.usb.pending.length = 2 * k :=
      (receive_readRegN hparser hpending addr port hk).2
    have hsize : cInt (2 * k) = ((2 * k : Nat) : Int) := cInt_of_lt (by omega)
    have hwait := ftdiReadDataWait_arrives (s := sentPacket s (readRegNPacket addr port k)) hopen
      (fun hnil => by rw [hnil, List.length_nil] at hlength; omega)
    rw [hlength] at hwait
    obtain ⟨harrives, hnot⟩ := hwait
    rw [hwrite, hsize]
    simp only
    rw [raiseIf_bind_neg (by decide)]
    constructor
    · rintro ⟨a, t, hrun⟩
      obtain ⟨got, u, hwait, hrun⟩ := Base.bind_ok_iff.1 hrun
      by_cases hrest : ∃ rest, Arrives 100 (2 * k) s.dev.usb.reads rest
      · obtain ⟨rest, hrest⟩ := hrest
        rw [harrives rest hrest] at hwait
        cases hwait
        exact ⟨huncut, rest, hrest, a, t, hrun⟩
      · exact absurd hwait (hnot (fun rest h => hrest ⟨rest, h⟩) got u)
    · rintro ⟨-, rest, hrest, a, t, hrun⟩
      exact ⟨a, t, Base.bind_ok_iff.2 ⟨_, _, harrives rest hrest, hrun⟩⟩

/-- **Reading in packets returns if and only if** the commands are written and the packets arrive. -/
theorem readRegN_returns_iff (addr port : UInt8) (left : Nat) {s : DeviceState (Line δ) ω}
    (hparser : s.dev.usb.board.parser = boundary) (hpending : s.dev.usb.pending = []) :
    (∃ ws t, (Device.readRegN addr port left).run s = .ok ws t) ↔
      (left ≠ 0 → s.dev.isOpen = true) ∧ Completes (countsOf Device.nPacketMax left) s.dev.usb.writes s.dev.usb.reads := by
  by_cases hleft : left = 0
  · subst hleft
    rw [Device.readRegN, dif_pos rfl, Base.countsOf_zero]
    exact ⟨fun _ => ⟨fun h => absurd rfl h, .done _ _⟩, fun _ => ⟨_, _, rfl⟩⟩
  · rw [Device.readRegN, dif_neg hleft, Base.countsOf_pos (by decide) hleft]
    by_cases hopen : s.dev.isOpen = true
    · have hmax : min left Device.nPacketMax < 65536 := by
        simp only [Device.nPacketMax]
        omega
      have hpos : 0 < min left Device.nPacketMax := by
        simp only [Device.nPacketMax]
        omega
      refine (packet_returns_iff hopen hparser hpending addr port hmax hpos _).trans ?_
      simp only [completes_cons_iff, hopen, implies_true, true_and]
      refine and_congr_right (fun _ => exists_congr (fun rest => and_congr_right (fun _ => ?_)))
      obtain ⟨hparser', -⟩ := receive_readRegN hparser hpending addr port hmax
      have ih := readRegN_returns_iff addr port (left - min left Device.nPacketMax)
        (s := emptied (sentPacket s (readRegNPacket addr port (min left Device.nPacketMax))) rest) hparser' rfl
      refine Iff.trans ⟨?_, ?_⟩ (ih.trans (and_iff_right (fun _ => hopen)))
      · rintro ⟨ws, t, hrun⟩
        obtain ⟨more, u, hmore, -⟩ := Base.bind_ok_iff.1 hrun
        exact ⟨more, u, hmore⟩
      · rintro ⟨more, u, hmore⟩
        exact ⟨_, u, Base.bind_ok_iff.2 ⟨more, u, hmore, rfl⟩⟩
    · have hclosed : s.dev.isOpen = false := by simpa using hopen
      refine iff_of_false ?_ (fun h => hopen (h.1 hleft))
      rintro ⟨ws, t, hrun⟩
      rw [EStateM.run_bind, run_writeData_closed hclosed] at hrun
      simp only at hrun
      rw [raiseIf_bind_pos (by decide)] at hrun
      cases hrun
termination_by left
decreasing_by
  simp only [Device.nPacketMax]
  omega

/-! ## The buffer -/

omit [Fabric δ] in
theorem filled_start (dataBe n : Nat) (memory : Memory) (d : DeviceState (Line δ) ω) :
    ReadBuffer.Filled dataBe n memory [] 0 ⟨d, memory, []⟩ where
  memory := (Memory.store_nil memory dataBe).symm
  received := rfl
  requested := rfl
  inside := Nat.zero_le _
  orderly := ⟨fun pre packet result post h => (by cases pre <;> cases h),
    fun pre buf size result post h => (by cases pre <;> cases h)⟩

/-- **`readRegN` returns if and only if** every command is written and every packet arrives within a hundred reads.  Then
the buffer holds the words the device produced for the commands, in order.  However it ends, each command was sent when
all responses before it had been read, each read asked for no more than was missing of the current packet, and nothing
outside the buffer has changed. -/
theorem readRegN_fills (addr port : UInt8) (n dataBe : Nat) (memory : Memory) (d : DeviceState (Line δ) ω)
    (hparser : d.dev.usb.board.parser = boundary) (hpending : d.dev.usb.pending = []) :
    let r := (ReadBuffer.readRegN addr port dataBe n).run ⟨d, memory, []⟩
    ((∃ t, r = .ok () t) ↔
      (n ≠ 0 → d.dev.isOpen = true) ∧ Completes (countsOf Device.nPacketMax n) d.dev.usb.writes d.dev.usb.reads) ∧
    (∀ t, r = .ok () t → ∃ ws added, ws.length = n ∧ t.memory = memory.store dataBe (ws.flatMap be16) ∧
      Answered d t.device ((countsOf Device.nPacketMax n).map (fun k => .command (.readRegN (Reg.of addr port) k))) ws added) ∧
    Orderly dataBe n (final r).transfers ∧
    ∀ a, a < dataBe ∨ dataBe + 2 * n ≤ a → (final r).memory a = memory a := by
  have hmatches := ReadBuffer.readPackets_matches addr port 0 (Nat.zero_le n) (filled_start dataBe n memory d) rfl
  rw [Nat.sub_zero] at hmatches
  have hreturns := readRegN_returns_iff addr port n hparser hpending
  have hkept : ReadBuffer.Kept dataBe n memory (final ((ReadBuffer.readRegN addr port dataBe n).run ⟨d, memory, []⟩)) :=
    hmatches.final (fun ws _ t h => ⟨_, _, h.2⟩) (fun t h => h)
  obtain ⟨got, missing, hfilled⟩ := hkept
  refine ⟨?_, fun t ht => ?_, hfilled.orderly, fun a ha => ?_⟩
  · rw [← hreturns, ← hmatches.returns_iff]
    constructor
    · rintro ⟨t, ht⟩
      exact ⟨(), t, ht⟩
    · rintro ⟨_, t, ht⟩
      exact ⟨t, ht⟩
  · have ht : (ReadBuffer.readPackets addr port dataBe n 0 (Nat.zero_le n)).run ⟨d, memory, []⟩ = .ok () t := ht
    rw [ht] at hmatches
    obtain ⟨ws, hws, hlength, hmemory⟩ := hmatches.ok
    by_cases hopen : d.dev.isOpen = true
    · have hclean : Clean d.dev.trackedRegs.keys d := ⟨⟨hopen, rfl⟩, hparser, hpending⟩
      obtain ⟨added, hadded⟩ := (readRegN_spec addr port n hclean).2 ws t.device hws
      exact ⟨ws, added, hlength, hmemory.memory, hadded⟩
    · obtain rfl : n = 0 := by
        by_contra hn
        exact hopen ((hreturns.1 ⟨ws, _, hws⟩).1 hn)
      rw [Device.readRegN, dif_pos rfl] at hws
      cases hws
      exact ⟨[], [], rfl, hmemory.memory, (List.append_nil _).symm, by rw [Base.countsOf_zero]; rfl, rfl, fun _ h => by cases h⟩
  · have hinside := hfilled.inside
    rw [hfilled.memory]
    exact Memory.store_outside (by omega)

/-- A device whose reads deliver nothing, then `100` bytes, then a packet's worth. -/
def slowDevice : DeviceState (Line RegisterFile) Unit :=
  onRegisterFile (fun r => UInt16.ofNat r.addr) Base.OrdMap.empty [] [.deliver 0, .deliver 100, .deliver 131070]

/-- One word more than a packet holds is read in two packets, the first of them in three pieces. -/
theorem readRegN_fills_slow : ∃ t, (ReadBuffer.readRegN 2 0 64 65536).run ⟨slowDevice, fun _ => 0, []⟩ = .ok () t ∧
    ∃ ws added, ws.length = 65536 ∧ t.memory = Memory.store (fun _ => 0) 64 (ws.flatMap be16) ∧
      Answered slowDevice t.device [.command (.readRegN ⟨2, 0⟩ 65535), .command (.readRegN ⟨2, 0⟩ 1)] ws added := by
  have hcounts : countsOf Device.nPacketMax 65536 = [65535, 1] := by
    have hfirst := Base.countsOf_pos (m := Device.nPacketMax) (n := 65536) (by decide) (by decide)
    have hsecond := Base.countsOf_pos (m := Device.nPacketMax) (n := 1) (by decide) (by decide)
    rw [hfirst, show 65536 - min 65536 Device.nPacketMax = 1 from rfl, hsecond,
      show 1 - min 1 Device.nPacketMax = 0 from rfl, Base.countsOf_zero]
    rfl
  have hcompletes : Completes [65535, 1] slowDevice.dev.usb.writes slowDevice.dev.usb.reads :=
    .packet _ _ _ _ [] nofun (.read [0, 100] 131070 [] (by decide) (by decide) (by decide))
      (.packet _ _ _ _ [] nofun (.spent [] (by decide) (by decide)) (.done _ _))
  obtain ⟨hreturns, hok, -⟩ := readRegN_fills 2 0 65536 64 (fun _ => 0) slowDevice rfl rfl
  rw [hcounts] at hreturns hok
  obtain ⟨t, ht⟩ := hreturns.2 ⟨fun _ => rfl, hcompletes⟩
  exact ⟨t, ht, hok t ht⟩

end Fpga
