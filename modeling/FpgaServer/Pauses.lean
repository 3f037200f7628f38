import FpgaServer.CableJtag
/-!
# Pauses — when `Usleep` loses the chip

For a slow clock `Usleep` sends a command for one byte more than it has zeros for, and then the first byte of a command for the
bits left over, without its operands.  Where there are bits left over the stray byte is taken for the last byte of data, and the
chip is in step; where there are none, or no command before it, the chip is left waiting inside a command, and takes what comes
next for the rest of it (`usleep_in_step_iff`).
-/
namespace Base

variable {σ : Type} [Target σ]

/-- Data short of what a command asks for leave the engine waiting for the rest. -/
theorem Engine.expect_run_short {read : Bool} : ∀ (data : List UInt8) (more : Nat) (e : Engine σ), e.expect = .data read more →
    data.length ≤ more → ((mpsse σ).run e data).1.expect = .data read (more - data.length)
  | [], more, e, h, _ => h
  | v :: data, 0, e, _, hlen => absurd hlen (by simp)
  | v :: data, more + 1, e, h, hlen => by
    have hstep : e.step v = ({ e.sendByte v with expect := .data read more }, (e.sendByte v).answer read) := by
      unfold step
      rw [h]
    rw [run_cons, hstep, List.length_cons, Nat.add_sub_add_right]
    exact expect_run_short data more _ rfl (Nat.le_of_succ_le_succ hlen)

end Base

namespace Fpga
namespace Xc3s

open Base

/-- The clocks of a pause always fit the two bytes for their count. -/
theorem IoFtdi.ticks_lt (freq usec : Nat) : IoFtdi.ticks freq usec / 8 < 65536 := by
  have hlt : (usec * (freq / 100) + freq / 100 + (2 ^ 32 - 1)) % 2 ^ 32 < 2 ^ 32 := Nat.mod_lt _ (by decide)
  unfold IoFtdi.ticks
  omega

/-- The bytes of a pause that are whole commands, if only by chance. -/
def InStep (fast : Bool) (n : Nat) : Prop := fast = true ∨ n = 0 ∨ 8 < n ∧ n % 8 ≠ 0

variable {σ : Type} [Target σ] [Host (Chip σ)] {fast : Bool} {freq : Nat}

/-- What a slow clock is sent for `n` clocks. -/
def slowCommands (n : Nat) : List UInt8 :=
  (if n > 8 then [0x19, UInt8.ofNat (n / 8), UInt8.ofNat (n / 8 / 256)] else []) ++
    if n ≠ 0 then List.replicate ((n - 1) / 8) 0 ++ [0x1b] else []

theorem emits_slowCommands (n : Nat) :
    IoFtdi.Emits (slowCommands n) (IoFtdi.toggleTck false n : IoFtdi.IoM (Chip σ) Unit) := by
  intro io u io' h
  unfold IoFtdi.toggleTck at h
  rw [if_neg Bool.false_ne_true] at h
  obtain ⟨io1, hbytes, h⟩ := ok_of_if h
  have hhead := emits_if (IoFtdi.emits_mpsseAddCmd _) io () io1 hbytes
  refine hhead.trans ?_
  by_cases hn : n = 0
  · subst hn
    have hnone : (IoFtdi.slowTicks 0 : IoFtdi.IoM (Chip σ) Unit).run io1 = .ok () io1 := by
      rw [IoFtdi.slowTicks]
      rfl
    rw [hnone] at h
    cases h
    exact IoFtdi.Moved.refl _
  · rw [if_pos hn]
    exact emits_slowTicks n (Nat.pos_of_ne_zero hn) io1 u io' h

omit [Host (Chip σ)] in
/-- Where the bits are lacking, so is the end of a command. -/
theorem expect_slowCommands {l : Link σ} (hl : l.engine.expect = .command) {n : Nat} (hn : n / 8 < 65536)
    (hout : ¬ InStep false n) : (l.fed (slowCommands n)).engine.expect ≠ .command := by
  obtain ⟨-, hrest⟩ := not_or.1 hout
  obtain ⟨hne, hbad⟩ := not_or.1 hrest
  by_cases h8 : n > 8
  · have hmod : n % 8 = 0 := Decidable.not_not.1 (fun h => hbad ⟨h8, h⟩)
    have hoperands : (UInt8.ofNat (n / 8)).toNat + 256 * (UInt8.ofNat (n / 8 / 256)).toNat = n / 8 := by
      simp only [UInt8.toNat_ofNat']
      omega
    have hdecode : Mpsse.decode 0x19 = some (.bytes true false) := rfl
    have hhead := Engine.run_command hl hdecode [UInt8.ofNat (n / 8)] (UInt8.ofNat (n / 8 / 256)) rfl
    have hlen : (List.replicate ((n - 1) / 8) (0 : UInt8) ++ [0x1b]).length = n / 8 := by
      rw [List.length_append, List.length_replicate, List.length_singleton]
      omega
    have hdata : ∀ e : Engine σ, e.expect = .data false (n / 8) →
        ((mpsse σ).run e (List.replicate ((n - 1) / 8) 0 ++ [0x1b])).1.expect = .data false 0 := by
      intro e he
      have hshort := Engine.expect_run_short (List.replicate ((n - 1) / 8) 0 ++ [0x1b]) (n / 8) e he (Nat.le_of_eq hlen)
      rwa [hlen, Nat.sub_self] at hshort
    have hfirst : l.fed [0x19, UInt8.ofNat (n / 8), UInt8.ofNat (n / 8 / 256)] =
        ⟨{ l.engine with expect := .data false (n / 8) }, l.owed⟩ := by
      have hexecute : l.engine.execute (.bytes true false) ([UInt8.ofNat (n / 8)] ++ [UInt8.ofNat (n / 8 / 256)]) =
          ({ l.engine with expect := .data false (n / 8) }, []) := by
        rw [List.singleton_append, Engine.execute, hoperands]
      rw [hexecute] at hhead
      rw [Link.fed]
      simp only [List.singleton_append] at hhead
      rw [hhead, List.append_nil]
    rw [slowCommands, if_pos h8, if_pos hne, Link.fed_append, hfirst]
    intro hcommand
    have hwaits := hdata { l.engine with expect := .data false (n / 8) } rfl
    rw [Link.fed, hwaits] at hcommand
    cases hcommand
  · have hfew : (n - 1) / 8 = 0 := by omega
    have hdecode : Mpsse.decode 0x1b = some (.bits true false) := rfl
    have hstep : (mpsse σ).run l.engine [0x1b] = ({ l.engine with expect := .operand (.bits true false) [] 1 }, []) := by
      rw [Engine.run_cons, Engine.step_command (n := 1) hl hdecode rfl]
      rfl
    rw [slowCommands, if_neg h8, if_pos hne, hfew, List.nil_append, List.replicate_zero, List.nil_append, Link.fed, hstep]
    intro hcommand
    cases hcommand

/-- **`Usleep` leaves the chip where it expects a command if and only if** the process sleeps, the clock is a fast one, there is
nothing to wait for, or there is a byte of clocks and bits left over: for any chip, any clock rate and any time. -/
theorem usleep_in_step_iff {io io' : IoFtdi (Chip σ)} (hr : Ready fast freq io) {usec : Nat} {u : Unit}
    (h : (IoFtdi.usleep usec).run io = .ok u io') :
    io'.link.engine.expect = .command ↔ 20000 ≤ usec ∨ InStep fast (IoFtdi.ticks freq usec) := by
  have hready : Paced fast freq usec → io'.link.engine.expect = .command := fun hpaced =>
    ((retraces_usleep hpaced) io u io' hr h).1.expect
  by_cases hlong : 20000 ≤ usec
  · exact ⟨fun _ => .inl hlong, fun _ => hready (fun hshort => absurd hlong (Nat.not_le.2 hshort))⟩
  have hshort : usec < 20000 := Nat.lt_of_not_le hlong
  cases hfast : fast with
  | true =>
    refine ⟨fun _ => .inr (.inl rfl), fun _ => hready (fun _ => ⟨IoFtdi.ticks_lt freq usec, fun hslow => ?_⟩)⟩
    rw [hfast] at hslow
    cases hslow
  | false =>
    unfold IoFtdi.usleep at h
    obtain ⟨_, io1, hflush, h⟩ := bind_ok_iff.1 h
    have hf := IoFtdi.flushTms_ok hr.expect hflush
    obtain ⟨hr1, -⟩ := retraces_flushTms false io () io1 hr hflush
    rw [if_pos hshort] at h
    obtain ⟨_, _, hget, h⟩ := bind_ok_iff.1 h
    cases hget
    rw [hr1.hasFastClock, hr1.tckFreq, hfast] at h
    have hmoved := emits_slowCommands (IoFtdi.ticks freq usec) io1 u io' h
    constructor
    · intro hcommand
      refine .inr (Classical.byContradiction (fun hout => ?_))
      have hlost := expect_slowCommands hr1.expect (IoFtdi.ticks_lt freq usec) hout
      rw [hmoved.link] at hcommand
      exact hlost hcommand
    · intro hin
      rcases hin.resolve_left hlong with hbad | hnone | hpaced
      · cases hbad
      · rw [hmoved.link, hnone]
        exact hr1.expect
      · exact hready (fun _ => ⟨IoFtdi.ticks_lt freq usec, fun _ => hpaced⟩)

/-- A chip with a slow clock, and nothing behind it but the port. -/
def slowCable : IoFtdi (Chip Tap) := ⟨⟨⟨⟨false, true, .runTestIdle⟩, 0, .command⟩, [], [], []⟩, [], [], false, 1000000⟩

/-- Sixteen clocks, and the chip waits for a byte. -/
theorem usleep_in_step_iff_sixteen : ∃ io', (IoFtdi.usleep 16).run slowCable = .ok () io' ∧ io'.link.engine.expect ≠ .command := by
  have hready : Ready false 1000000 slowCable := ⟨rfl, rfl, rfl⟩
  have hreturns : returns (fun _ _ => true) ((IoFtdi.usleep 16).run slowCable) = true := by
    decide +kernel
  obtain ⟨u, io', hrun, -⟩ := ok_of_returns hreturns
  refine ⟨io', hrun, fun hcommand => ?_⟩
  have hin := (usleep_in_step_iff hready hrun).1 hcommand
  revert hin
  unfold InStep
  decide

end Xc3s
end Fpga
