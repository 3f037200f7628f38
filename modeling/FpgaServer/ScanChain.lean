import FpgaServer.Bits
import FpgaServer.Tap
/-!
# ScanChain — devices one after the other behind a port

The devices of a chain share TCK and TMS, so they are all in the same state, and TDO of each is TDI of the next.  A device has an
instruction register and, by the instruction in it, a data register; the instruction of all ones selects a register of one bit,
and a reset the identification.  What else an instruction does is up to the `Circuit`.

While the chain shifts, its registers are one queue (`queue`): what goes in and what was there come out in order (`run_others`).
So the bits before and after those of one device pass through the others (`run_around`).
-/
namespace Base

/-- What is behind a port: the bits an instruction register captures, the data register that is selected, what becomes of a bit
shifted into it, and what an update, an instruction, a clock at rest and a reset do. -/
class Circuit (δ : Type) where
  status : δ → Nat → Bool
  capture : δ → List Bool
  shift : δ → Bool → δ
  update : δ → List Bool → δ
  load : δ → List Bool → δ
  idle : δ → δ
  reset : δ → δ

/-- A device of a chain, with the instruction loaded since the last reset, and the register between its TDI and TDO. -/
structure Member (δ : Type) where
  irlen : Nat
  idcode : UInt32
  instruction : Option (List Bool)
  register : List Bool
  circuit : δ
  deriving DecidableEq, Repr

/-- The instruction `BYPASS`. -/
def bypass (irlen : Nat) : List Bool := List.replicate irlen true

variable {δ : Type} [Circuit δ]

namespace Member

omit [Circuit δ] in
/-- What a device is built with. -/
def static (p : Member δ) : Nat × UInt32 := (p.irlen, p.idcode)

omit [Circuit δ] in
/-- The data register is one of the circuit. -/
def selects (p : Member δ) : Bool :=
  match p.instruction with
  | none => false
  | some i => decide (i ≠ bypass p.irlen)

/-- The instruction register as it is captured. -/
def status (p : Member δ) : List Bool := (List.range p.irlen).map (Circuit.status p.circuit)

/-- The data register as it is captured. -/
def captured (p : Member δ) : List Bool :=
  match p.instruction with
  | none => bits 32 p.idcode.toNat
  | some i => if i = bypass p.irlen then [false] else Circuit.capture p.circuit

/-- An instruction in the register takes effect. -/
def load (p : Member δ) (i : List Bool) : Member δ :=
  { p with register := i, instruction := some i, circuit := Circuit.load p.circuit i }

def updateIR (p : Member δ) : Member δ := p.load p.register

def updateDR (p : Member δ) : Member δ :=
  if p.selects then { p with circuit := Circuit.update p.circuit p.register } else p

/-- What a scan captures, and what its end does. -/
def capture (dr : Bool) (p : Member δ) : Member δ := { p with register := if dr then p.captured else p.status }

def finish (dr : Bool) (p : Member δ) : Member δ := if dr then p.updateDR else p.updateIR

def idle (p : Member δ) : Member δ := { p with circuit := Circuit.idle p.circuit }

def reset (p : Member δ) : Member δ := { p with instruction := none, circuit := Circuit.reset p.circuit }

/-- Some bits shifted in, in a data register or not. -/
def shifted (dr : Bool) (p : Member δ) (bs : List Bool) : Member δ :=
  { p with
    register := (p.register ++ bs).drop bs.length
    circuit := if dr && p.selects then bs.foldl Circuit.shift p.circuit else p.circuit }

/-- A device that shifts. -/
def line (dr : Bool) : Transducer Bool (Member δ) Bool where
  step p b := (p.shifted dr [b], [p.register.headD b])

@[simp] theorem selects_shifted (dr : Bool) (p : Member δ) (bs : List Bool) : (p.shifted dr bs).selects = p.selects := rfl

theorem shifted_nil (dr : Bool) (p : Member δ) : p.shifted dr [] = p := by
  simp [shifted]

theorem shifted_cons (dr : Bool) (p : Member δ) (b : Bool) (bs : List Bool) :
    (p.shifted dr [b]).shifted dr bs = p.shifted dr (b :: bs) := by
  have hselects := selects_shifted dr p [b]
  have hregister : ((p.register ++ [b]).drop [b].length ++ bs).drop bs.length = (p.register ++ b :: bs).drop (b :: bs).length := by
    cases p.register <;> simp
  unfold shifted at hselects ⊢
  rw [hselects, hregister]
  cases dr && p.selects <;> rfl

/-- The bits that come out are those of the register, and then those that went in. -/
theorem run_line (dr : Bool) (p : Member δ) (bs : List Bool) :
    (line dr).run p bs = (p.shifted dr bs, (p.register ++ bs).take bs.length) := by
  induction bs generalizing p with
  | nil => rw [Transducer.run_nil, shifted_nil, List.length_nil, List.take_zero]
  | cons b bs ih =>
    have hout : p.register.headD b :: ((p.register ++ [b]).drop 1 ++ bs).take bs.length =
        (p.register ++ b :: bs).take (bs.length + 1) := by
      cases p.register <;> simp
    rw [Transducer.run_cons, ← shifted_cons, List.length_cons, ← hout]
    have hrest := ih (p.shifted dr [b])
    have hstep : (line dr).step p b = (p.shifted dr [b], [p.register.headD b]) := rfl
    rw [hstep, hrest]
    rfl

end Member

/-! ## The cascade -/

/-- A bit on its way through the devices, TDO of each on TDI of the next. -/
def pass (dr : Bool) : List (Member δ) → Bool → List (Member δ) × Bool
  | [], b => ([], b)
  | p :: ps, b => (p.shifted dr [b] :: (pass dr ps (p.register.headD b)).1, (pass dr ps (p.register.headD b)).2)

def cascade (dr : Bool) : Transducer Bool (List (Member δ)) Bool where
  step ps b := ((pass dr ps b).1, [(pass dr ps b).2])

theorem run_cascade_nil (dr : Bool) (bs : List Bool) : (cascade dr).run ([] : List (Member δ)) bs = ([], bs) := by
  induction bs with
  | nil => rfl
  | cons b bs ih =>
    rw [Transducer.run_cons]
    have hstep : (cascade dr).step ([] : List (Member δ)) b = ([], [b]) := rfl
    rw [hstep, ih]
    rfl

/-- What a device lets out is what the others take in. -/
theorem run_cascade_cons (dr : Bool) (p : Member δ) (ps : List (Member δ)) (bs : List Bool) :
    (cascade dr).run (p :: ps) bs = (((Member.line dr).run p bs).1 :: ((cascade dr).run ps ((Member.line dr).run p bs).2).1,
      ((cascade dr).run ps ((Member.line dr).run p bs).2).2) := by
  induction bs generalizing p ps with
  | nil => rfl
  | cons b bs ih =>
    rw [Transducer.run_cons, Transducer.run_cons]
    have hstep : (cascade dr).step (p :: ps) b =
        (p.shifted dr [b] :: (pass dr ps (p.register.headD b)).1, [(pass dr ps (p.register.headD b)).2]) := rfl
    rw [hstep, ih]
    rfl

theorem run_cascade_append (dr : Bool) (ps qs : List (Member δ)) (bs : List Bool) :
    (cascade dr).run (ps ++ qs) bs = (((cascade dr).run ps bs).1 ++ ((cascade dr).run qs ((cascade dr).run ps bs).2).1,
      ((cascade dr).run qs ((cascade dr).run ps bs).2).2) := by
  induction ps generalizing bs with
  | nil =>
    rw [run_cascade_nil]
    rfl
  | cons p ps ih =>
    rw [List.cons_append, run_cascade_cons, run_cascade_cons, ih]
    rfl

theorem length_cascade (dr : Bool) (ps : List (Member δ)) (bs : List Bool) :
    ((cascade dr).run ps bs).2.length = bs.length := by
  induction bs generalizing ps with
  | nil => rfl
  | cons b bs ih =>
    rw [Transducer.run_cons, List.length_append, ih, List.length_cons]
    exact Nat.add_comm _ _

omit [Circuit δ] in
/-- The registers of a chain, from TDO on. -/
def queue : List (Member δ) → List Bool
  | [] => []
  | p :: ps => queue ps ++ p.register

/-- The same device, with something else in a register of the same length. -/
def Kept (p p' : Member δ) : Prop := p' = { p with register := p'.register } ∧ p'.register.length = p.register.length

omit [Circuit δ] in
theorem static_kept {ps ps' : List (Member δ)} (h : List.Forall₂ Kept ps ps') : ps'.map Member.static = ps.map Member.static := by
  induction h with
  | nil => rfl
  | cons hp _ ih =>
    rw [List.map_cons, List.map_cons, ih, hp.1]
    rfl

omit [Circuit δ] in
theorem selects_kept {ps ps' : List (Member δ)} (h : List.Forall₂ Kept ps ps') (hps : ∀ p ∈ ps, p.selects = false) :
    ∀ p ∈ ps', p.selects = false := by
  induction h with
  | nil => exact hps
  | cons hp hrest ih =>
    rename_i p p' ps ps'
    intro q hq
    rcases List.mem_cons.1 hq with heq | hq
    · rw [heq, hp.1]
      exact hps p List.mem_cons_self
    · exact ih (fun r hr => hps r (List.mem_cons_of_mem _ hr)) q hq

omit [Circuit δ] in
/-- A queue of equal bits fills every register with them. -/
theorem registers_replicate {ps : List (Member δ)} {b : Bool} (h : ∀ c ∈ queue ps, c = b) :
    ∀ p ∈ ps, p.register = List.replicate p.register.length b := by
  induction ps with
  | nil =>
    intro p hp
    cases hp
  | cons q ps ih =>
    intro p hp
    rcases List.mem_cons.1 hp with rfl | hp
    · exact List.eq_replicate_iff.2 ⟨rfl, fun c hc => h c (List.mem_append_right _ hc)⟩
    · exact ih (fun c hc => h c (List.mem_append_left _ hc)) p hp

/-- **Registers that shift are a queue**: those of instructions, and those of one bit or of an identification. -/
theorem run_others (dr : Bool) {ps : List (Member δ)} (h : dr = true → ∀ p ∈ ps, p.selects = false) (bs : List Bool) :
    ∃ ps', (cascade dr).run ps bs = (ps', (queue ps ++ bs).take bs.length) ∧
      queue ps' = (queue ps ++ bs).drop bs.length ∧ List.Forall₂ Kept ps ps' := by
  induction ps generalizing bs with
  | nil =>
    refine ⟨[], ?_, ?_, List.Forall₂.nil⟩
    · rw [run_cascade_nil, queue, List.nil_append, List.take_length]
    · rw [queue, List.nil_append, List.drop_length]
  | cons p ps ih =>
    obtain ⟨ps', hrun, hqueue, hkept⟩ := ih (fun hdr q hq => h hdr q (List.mem_cons_of_mem p hq)) ((p.register ++ bs).take bs.length)
    have hlen : ((p.register ++ bs).take bs.length).length = bs.length := by
      rw [List.length_take, List.length_append]
      omega
    have hsplit : queue (p :: ps) ++ bs =
        (queue ps ++ (p.register ++ bs).take bs.length) ++ (p.register ++ bs).drop bs.length := by
      rw [List.append_assoc, List.take_append_drop, queue, List.append_assoc]
    rw [hlen] at hrun hqueue
    have hle : bs.length ≤ (queue ps ++ (p.register ++ bs).take bs.length).length := by
      rw [List.length_append, hlen]
      exact Nat.le_add_left _ _
    refine ⟨p.shifted dr bs :: ps', ?_, ?_, List.Forall₂.cons ⟨?_, ?_⟩ hkept⟩
    · rw [run_cascade_cons, Member.run_line, hrun, hsplit, List.take_append_of_le_length hle]
    · rw [hsplit, List.drop_append_of_le_length hle, queue, hqueue]
      rfl
    · have hcircuit : (dr && p.selects) = false := by
        cases dr with
        | false => rfl
        | true => exact h rfl p List.mem_cons_self
      simp only [Member.shifted, hcircuit, Bool.false_eq_true, if_false]
    · simp only [Member.shifted, List.length_drop, List.length_append]
      omega

/-- **One device among others**: the bits that go in after those for the devices behind it, and before those for the devices ahead
of it, are in its register, and the others hold the rest.  What comes out with them is what was in its register. -/
theorem run_around (dr : Bool) {before after : List (Member δ)} (p : Member δ) (xs mid : List Bool) {ys : List Bool}
    (hbefore : dr = true → ∀ q ∈ before, q.selects = false) (hafter : dr = true → ∀ q ∈ after, q.selects = false)
    (hys : ys.length = (queue before).length) :
    ∃ before' after', ((cascade dr).run (before ++ p :: after) (xs ++ mid ++ ys)).1 =
        before' ++ p.shifted dr (queue before ++ xs ++ mid) :: after' ∧
      List.Forall₂ Kept before before' ∧ List.Forall₂ Kept after after' ∧ queue before' = ys ∧
      (xs.length = (queue after).length →
        (((cascade dr).run (before ++ p :: after) (xs ++ mid ++ ys)).2.drop xs.length).take mid.length =
            (p.register ++ queue before ++ xs ++ mid).take mid.length ∧
          (mid.length = p.register.length → queue after' = xs)) := by
  obtain ⟨before', hrun, hqueue, hkept⟩ := run_others dr hbefore (xs ++ mid ++ ys)
  have hlen : (xs ++ mid ++ ys).length = (queue before ++ xs ++ mid).length := by
    simp only [List.length_append]
    omega
  have hcut : queue before ++ (xs ++ mid ++ ys) = (queue before ++ xs ++ mid) ++ ys := by
    simp only [List.append_assoc]
  rw [hlen, hcut, List.take_left] at hrun
  rw [hlen, hcut, List.drop_left] at hqueue
  have hline := Member.run_line dr p (queue before ++ xs ++ mid)
  generalize hout : (p.register ++ (queue before ++ xs ++ mid)).take (queue before ++ xs ++ mid).length = out at hline
  have houtlen : out.length = (queue before ++ xs ++ mid).length := by
    rw [← hout]
    apply List.length_take_of_le
    simp only [List.length_append]
    omega
  obtain ⟨after', hrun', hqueue', hkept'⟩ := run_others dr hafter out
  refine ⟨before', after', ?_, hkept, hkept', hqueue, fun hxs => ⟨?_, fun hexact => ?_⟩⟩
  · rw [run_cascade_append, hrun, run_cascade_cons, hline, hrun']
  · have hmid : mid.length ≤ out.length - xs.length := by
      rw [houtlen]
      simp only [List.length_append]
      omega
    have hall : mid.length ≤ (queue before ++ xs ++ mid).length := by
      rw [List.length_append]
      exact Nat.le_add_left _ _
    rw [run_cascade_append, hrun, run_cascade_cons, hline, hrun', List.drop_take, List.take_take, Nat.min_eq_left hmid, hxs,
      List.drop_left, ← hout, List.take_take, Nat.min_eq_left hall]
    simp only [List.append_assoc]
  · have houtsplit : out = (p.register ++ queue before) ++ xs := by
      rw [← hout, ← List.append_assoc, ← List.append_assoc]
      exact List.take_left' (by simp only [List.length_append]; omega)
    have hqlen : out.length = (queue after ++ (p.register ++ queue before)).length := by
      rw [houtlen]
      simp only [List.length_append]
      omega
    have hassoc : queue after ++ (p.register ++ queue before ++ xs) = (queue after ++ (p.register ++ queue before)) ++ xs :=
      (List.append_assoc _ _ _).symm
    rw [hqueue', hqlen, houtsplit, hassoc, List.drop_left]

/-! ## The chain as a target -/

structure Chain (δ : Type) where
  tap : Tap
  members : List (Member δ)

namespace Chain

/-- The rising edge of a clock in a state: what becomes of the devices, with TDI at a level, and the level TDO has had. -/
def rise (t : Tap) (tdi : Bool) (ps : List (Member δ)) : List (Member δ) × Bool :=
  match t with
  | .runTestIdle => (ps.map Member.idle, true)
  | .captureDR => (ps.map (Member.capture true), true)
  | .captureIR => (ps.map (Member.capture false), true)
  | .shiftDR => pass true ps tdi
  | .shiftIR => pass false ps tdi
  | _ => (ps, true)

/-- The falling edge, in the state the clock has led to. -/
def fall (t : Tap) (ps : List (Member δ)) : List (Member δ) :=
  match t with
  | .testLogicReset => ps.map Member.reset
  | .updateDR => ps.map (Member.finish true)
  | .updateIR => ps.map (Member.finish false)
  | _ => ps

instance : Target (Chain δ) where
  tap ch := ch.tap
  clock ch c := (⟨ch.tap.next c.tms, fall (ch.tap.next c.tms) (rise ch.tap c.tdi ch.members).1⟩, (rise ch.tap c.tdi ch.members).2)
  tap_clock _ _ := rfl

end Chain

/-! ## Scans -/

/-- The kinds of scans: of the data registers or the instruction registers. -/
def shiftState (dr : Bool) : Tap := if dr then .shiftDR else .shiftIR

def exitState (dr : Bool) : Tap := if dr then .exit1DR else .exit1IR

theorem clock_shift (dr tms b : Bool) (ps : List (Member δ)) :
    Target.clock (⟨shiftState dr, ps⟩ : Chain δ) ⟨tms, b⟩ =
      (⟨if tms then exitState dr else shiftState dr, (pass dr ps b).1⟩, (pass dr ps b).2) := by
  cases dr <;> cases tms <;> rfl

/-- Bits shifted go through the chain. -/
theorem scan_chain (dr : Bool) (last : Bool) (bs : List Bool) : ∀ {q : Pins (Chain δ)} {ps : List (Member δ)}, q.tms = false →
    q.target = ⟨shiftState dr, ps⟩ → (q.clocked (scan q.tms last bs)).target =
        ⟨if last && !bs.isEmpty then exitState dr else shiftState dr, ((cascade dr).run ps bs).1⟩ ∧
      q.shown (scan q.tms last bs) = ((cascade dr).run ps bs).2 := by
  induction bs with
  | nil =>
    intro q ps _ htarget
    rw [scan, Pins.clocked_nil, Pins.shown_nil, htarget, List.isEmpty_nil, Bool.not_true, Bool.and_false]
    exact ⟨rfl, rfl⟩
  | cons b bs ih =>
    intro q ps htms htarget
    have hclock := fun tms => clock_shift dr tms b ps
    cases bs with
    | nil =>
      rw [scan, Pins.clocked_cons, Pins.shown_cons, Pins.clocked_nil, Pins.shown_nil, Pins.clock, htarget, htms, Bool.or_false,
        hclock]
      exact ⟨by rw [List.isEmpty_cons, Bool.not_false, Bool.and_true]; rfl, rfl⟩
    | cons c bs =>
      have hfirst : (q.clock ⟨q.tms, b⟩).1.target = ⟨shiftState dr, (pass dr ps b).1⟩ := by
        rw [Pins.clock, htarget, htms, hclock]
        rfl
      have hshown : (q.clock ⟨q.tms, b⟩).2 = (pass dr ps b).2 := by
        rw [Pins.clock, htarget, htms, hclock]
      have hheld : (q.clock ⟨q.tms, b⟩).1.tms = q.tms := rfl
      obtain ⟨htarget', hshown'⟩ := ih (hheld.trans htms) hfirst
      rw [hheld] at htarget' hshown'
      rw [scan, Pins.clocked_cons, Pins.shown_cons, htarget', hshown', hshown]
      exact ⟨rfl, rfl⟩

/-- The way from rest to a scan, and the way back from its last bit. -/
def enterLevels (dr : Bool) : List Bool := if dr then [true, false, false] else [true, true, false, false]

def leaveLevels : List Bool := [true, false]

/-- The clock that leaves the state at rest counts as one at rest. -/
theorem clocked_enter (dr : Bool) {q : Pins (Chain δ)} {ps : List (Member δ)} (h : q.target = ⟨.runTestIdle, ps⟩) :
    (q.clocked (tmsClocks true (enterLevels dr))).target = ⟨shiftState dr, ps.map (fun p => p.idle.capture dr)⟩ := by
  obtain ⟨tms, tdi, target⟩ := q
  subst h
  have hmap : (ps.map Member.idle).map (Member.capture dr) = ps.map (fun p => p.idle.capture dr) := List.map_map
  rw [← hmap]
  cases dr <;> rfl

theorem clocked_leave (dr : Bool) {q : Pins (Chain δ)} {ps : List (Member δ)} (h : q.target = ⟨exitState dr, ps⟩) :
    (q.clocked (tmsClocks true leaveLevels)).target = ⟨.runTestIdle, ps.map (Member.finish dr)⟩ := by
  obtain ⟨tms, tdi, target⟩ := q
  subst h
  cases dr <;> rfl

/-- A device after some clocks in the state at rest, or in reset. -/
def Member.still (reset : Bool) : Nat → Member δ → Member δ
  | 0, p => p
  | n + 1, p => Member.still reset n (if reset then p.reset else p.idle)

/-- The states the clock is cycled in. -/
def stillState (reset : Bool) : Tap := if reset then .testLogicReset else .runTestIdle

theorem clocked_still (reset : Bool) (bs : List Bool) : ∀ {q : Pins (Chain δ)} {ps : List (Member δ)},
    q.target = ⟨stillState reset, ps⟩ →
      (q.clocked (dataClocks reset bs)).target = ⟨stillState reset, ps.map (Member.still reset bs.length)⟩ := by
  induction bs with
  | nil =>
    intro q ps h
    have hid : ps.map (Member.still reset 0) = ps := List.map_id ps
    rw [List.length_nil, hid]
    exact h
  | cons b bs ih =>
    intro q ps h
    have hstep : (q.clock ⟨reset, b⟩).1.target = ⟨stillState reset, ps.map (Member.still reset 1)⟩ := by
      rw [Pins.clock, h]
      cases reset <;> rfl
    have hmap : (ps.map (Member.still reset 1)).map (Member.still reset bs.length) = ps.map (Member.still reset (bs.length + 1)) :=
      List.map_map
    rw [List.length_cons, ← hmap]
    exact ih hstep

/-- The three shifts of a scan are one: before, with and after the bits of one device. -/
theorem scan_pieces (dr : Bool) {q : Pins (Chain δ)} {ps : List (Member δ)} (htms : q.tms = false)
    (htarget : q.target = ⟨shiftState dr, ps⟩) (xs : List Bool) {mid ys : List Bool} (hne : mid ≠ [] ∨ ys ≠ []) :
    ∃ q1 q2 q3, q.clocked (scan q.tms false xs) = q1 ∧ q1.clocked (scan q1.tms ys.isEmpty mid) = q2 ∧
      q2.clocked (scan q2.tms true ys) = q3 ∧ q3.target = ⟨exitState dr, ((cascade dr).run ps (xs ++ mid ++ ys)).1⟩ ∧
      q1.shown (scan q1.tms ys.isEmpty mid) = (((cascade dr).run ps (xs ++ mid ++ ys)).2.drop xs.length).take mid.length := by
  obtain ⟨htarget1, -⟩ := scan_chain dr false xs htms htarget
  have htms1 : (q.clocked (scan q.tms false xs)).tms = false := by
    rw [scan_false]
    exact (tms_holding q xs).trans htms
  obtain ⟨htarget2, hshown⟩ := scan_chain dr ys.isEmpty mid htms1 htarget1
  generalize q.clocked (scan q.tms false xs) = q1 at htms1 htarget2 hshown
  refine ⟨q1, _, _, rfl, rfl, rfl, ?_, ?_⟩
  · cases ys with
    | nil =>
      have hmid : mid.isEmpty = false := List.isEmpty_eq_false_iff.2 (hne.resolve_right (fun h => h rfl))
      rw [List.isEmpty_nil, hmid] at htarget2
      rw [scan, Pins.clocked_nil, List.append_nil, Transducer.run_append]
      exact htarget2
    | cons y ys =>
      have htms2 : (q1.clocked (scan q1.tms false mid)).tms = false := by
        rw [scan_false]
        exact (tms_holding q1 mid).trans htms1
      obtain ⟨htarget3, -⟩ := scan_chain dr true (y :: ys) htms2 htarget2
      rw [List.isEmpty_cons, htarget3, Transducer.run_append, Transducer.run_append]
      rfl
  · have hrest : ∀ ps' : List (Member δ),
        (((cascade dr).run ps' mid).2 ++ ((cascade dr).run ((cascade dr).run ps' mid).1 ys).2).take mid.length =
        ((cascade dr).run ps' mid).2 := fun ps' => List.take_left' (length_cascade dr ps' mid)
    rw [hshown, List.append_assoc, Transducer.run_append, List.drop_left' (length_cascade dr ps xs), Transducer.run_append, hrest]

/-- A device after a scan, from rest to rest. -/
def Member.scanned (dr : Bool) (p : Member δ) (bs : List Bool) : Member δ := ((p.idle.capture dr).shifted dr bs).finish dr

@[simp] theorem Member.length_status (p : Member δ) : p.status.length = p.irlen := by
  rw [status, List.length_map, List.length_range]

/-- The last bits, as many as the instruction register has, are the instruction. -/
theorem Member.scanned_instruction (p : Member δ) (past : List Bool) {i : List Bool} (h : i.length = p.irlen) :
    p.scanned false (past ++ i) = p.idle.load i := by
  have hlen : p.idle.status.length = i.length := by
    rw [Member.length_status, h]
    rfl
  have hregister : ((p.idle.capture false).shifted false (past ++ i)).register = i := by
    have hcapture : (p.idle.capture false).register = p.idle.status := rfl
    have hpast : (past ++ i).length = (p.idle.status ++ past).length := by
      rw [List.length_append, List.length_append, hlen, Nat.add_comm]
    rw [shifted, hcapture, hpast, ← List.append_assoc, List.drop_left]
  have hkeep : ((p.idle.capture false).shifted false (past ++ i)).finish false =
      p.idle.load ((p.idle.capture false).shifted false (past ++ i)).register := rfl
  rw [scanned, hkeep, hregister]

/-- Every device has the instruction `BYPASS`. -/
def Bypassed (ps : List (Member δ)) : Prop := ∀ p ∈ ps, p.instruction = some (bypass p.irlen)

/-- The same device after a clock at rest, with anything in its register. -/
def Waited (p p' : Member δ) : Prop := p' = { p.idle with register := p'.register }

theorem selects_captured {ps : List (Member δ)} (h : Bypassed ps) :
    ∀ q ∈ ps.map (fun p => p.idle.capture true), q.selects = false := by
  intro q hq
  obtain ⟨p, hp, rfl⟩ := List.mem_map.1 hq
  have hinstruction : (p.idle.capture true).instruction = some (bypass p.irlen) := h p hp
  rw [Member.selects, hinstruction]
  exact decide_eq_false (fun hne => hne rfl)

/-- A device that is bypassed holds a zero. -/
theorem queue_captured {ps : List (Member δ)} (h : Bypassed ps) :
    queue (ps.map (fun p => p.idle.capture true)) = List.replicate ps.length false := by
  induction ps with
  | nil => rfl
  | cons p ps ih =>
    have hinstruction : p.idle.instruction = some (bypass p.irlen) := h p List.mem_cons_self
    have hregister : (p.idle.capture true).register = [false] := by
      have hcapture : (p.idle.capture true).register = p.idle.captured := rfl
      rw [hcapture, Member.captured, hinstruction]
      exact if_pos rfl
    rw [List.map_cons, queue, ih (fun q hq => h q (List.mem_cons_of_mem p hq)), hregister, List.length_cons,
      List.replicate_succ']

theorem length_queue_status (ps : List (Member δ)) :
    (queue (ps.map (fun p => p.idle.capture false))).length = (ps.map Member.irlen).sum := by
  induction ps with
  | nil => rfl
  | cons p ps ih =>
    have hregister : (p.idle.capture false).register = p.idle.status := rfl
    rw [List.map_cons, queue, List.length_append, ih, List.map_cons, List.sum_cons, hregister, Member.length_status, Nat.add_comm]
    rfl

/-- Bypassed devices wait out a scan of the data registers. -/
theorem waited_of_kept {ps ps' : List (Member δ)} (h : Bypassed ps)
    (hkept : List.Forall₂ Kept (ps.map (fun p => p.idle.capture true)) ps') :
    List.Forall₂ Waited ps (ps'.map (Member.finish true)) := by
  induction ps generalizing ps' with
  | nil =>
    cases hkept
    exact List.Forall₂.nil
  | cons p ps ih =>
    cases hkept with
    | cons hp hrest =>
      rename_i p' ps'
      refine List.Forall₂.cons ?_ (ih (fun q hq => h q (List.mem_cons_of_mem p hq)) hrest)
      have hbefore : (p.idle.capture true).selects = false := selects_captured h _ List.mem_cons_self
      have hselects : p'.selects = false := by
        rw [hp.1]
        exact hbefore
      have hfinish : p'.finish true = p' := by
        rw [Member.finish, if_pos rfl, Member.updateDR, hselects]
        rfl
      rw [hfinish]
      exact hp.1

/-- Devices left with ones after a scan of the instruction registers are bypassed. -/
theorem loaded_of_kept {ps ps' : List (Member δ)} (hkept : List.Forall₂ Kept (ps.map (fun p => p.idle.capture false)) ps')
    (hones : ∀ b ∈ queue ps', b = true) :
    ps'.map (Member.finish false) = ps.map (fun p => p.idle.load (bypass p.irlen)) := by
  have hregisters := registers_replicate hones
  induction ps generalizing ps' with
  | nil =>
    cases hkept
    rfl
  | cons p ps ih =>
    cases hkept with
    | cons hp hrest =>
      rename_i p' ps'
      have htail : ∀ b ∈ queue ps', b = true := fun b hb => hones b (List.mem_append_left _ hb)
      have hlen : p'.register.length = p.irlen := hp.2.trans p.idle.length_status
      have hregister := hregisters p' List.mem_cons_self
      rw [hlen] at hregister
      have hfinish : p'.finish false = p.idle.load (bypass p.irlen) := by
        have hload : p'.finish false = p'.load p'.register := rfl
        rw [hload, hregister, hp.1]
        rfl
      rw [List.map_cons, List.map_cons, hfinish, ih hrest htail (fun q hq => hregisters q (List.mem_cons_of_mem _ hq))]

/-! ## What never changes -/

namespace Member

theorem static_finish (dr : Bool) (p : Member δ) : (p.finish dr).static = p.static := by
  unfold finish updateDR
  cases dr with
  | false => rfl
  | true =>
    rw [if_pos rfl]
    split <;> rfl

theorem static_scanned (dr : Bool) (p : Member δ) (bs : List Bool) : (p.scanned dr bs).static = p.static :=
  static_finish dr _

theorem static_still (reset : Bool) (n : Nat) (p : Member δ) : (p.still reset n).static = p.static := by
  induction n generalizing p with
  | zero => rfl
  | succ n ih =>
    rw [still, ih]
    cases reset <;> rfl

end Member

theorem static_pass (dr : Bool) (ps : List (Member δ)) (b : Bool) : (pass dr ps b).1.map Member.static = ps.map Member.static := by
  induction ps generalizing b with
  | nil => rfl
  | cons p ps ih =>
    rw [pass, List.map_cons, ih, List.map_cons]
    rfl

theorem Chain.static_rise (t : Tap) (b : Bool) (ps : List (Member δ)) :
    (rise t b ps).1.map Member.static = ps.map Member.static := by
  have hmap : ∀ f : Member δ → Member δ, (∀ p, (f p).static = p.static) → (ps.map f).map Member.static = ps.map Member.static := by
    intro f hf
    rw [List.map_map]
    exact List.map_congr_left (fun p _ => hf p)
  cases t with
  | runTestIdle => exact hmap _ (fun _ => rfl)
  | captureDR => exact hmap _ (fun _ => rfl)
  | captureIR => exact hmap _ (fun _ => rfl)
  | shiftDR => exact static_pass true ps b
  | shiftIR => exact static_pass false ps b
  | _ => rfl

theorem Chain.static_fall (t : Tap) (ps : List (Member δ)) : (fall t ps).map Member.static = ps.map Member.static := by
  have hmap : ∀ f : Member δ → Member δ, (∀ p, (f p).static = p.static) → (ps.map f).map Member.static = ps.map Member.static := by
    intro f hf
    rw [List.map_map]
    exact List.map_congr_left (fun p _ => hf p)
  cases t with
  | testLogicReset => exact hmap _ (fun _ => rfl)
  | updateDR => exact hmap _ (fun p => p.static_finish true)
  | updateIR => exact hmap _ (fun p => p.static_finish false)
  | _ => rfl

/-- Clocks leave the devices what they are. -/
theorem static_clocked (cs : List Clock) (q : Pins (Chain δ)) :
    (q.clocked cs).target.members.map Member.static = q.target.members.map Member.static := by
  induction cs generalizing q with
  | nil => rfl
  | cons c cs ih =>
    rw [Pins.clocked_cons, ih]
    exact (Chain.static_fall _ _).trans (Chain.static_rise _ _ _)

/-- **Five clocks with TMS high reset every device**, whatever the chain was doing. -/
theorem clocked_reset (q : Pins (Chain δ)) : ∃ ps : List (Member δ), (q.clocked (tmsClocks true (List.replicate 5 true))).target =
    ⟨.testLogicReset, ps.map Member.reset⟩ ∧ ps.map Member.static = q.target.members.map Member.static := by
  have hsplit : tmsClocks true (List.replicate 5 true) = tmsClocks true (List.replicate 4 true) ++ [⟨true, true⟩] := rfl
  have htap := (q.clocked (tmsClocks true (List.replicate 4 true))).tap_clocked [⟨true, true⟩]
  have hfive : ((q.clocked (tmsClocks true (List.replicate 4 true))).tap).next true = .testLogicReset := by
    rw [Pins.tap_clocked]
    exact Tap.five_ones q.tap
  have hstatic := static_clocked (tmsClocks true (List.replicate 4 true)) q
  rw [hsplit, Pins.clocked_append]
  generalize q.clocked (tmsClocks true (List.replicate 4 true)) = q4 at hfive hstatic
  refine ⟨(Chain.rise q4.target.tap true q4.target.members).1, ?_, (Chain.static_rise _ _ _).trans hstatic⟩
  have hclock : (q4.clocked [⟨true, true⟩]).target = ⟨q4.target.tap.next true,
      Chain.fall (q4.target.tap.next true) (Chain.rise q4.target.tap true q4.target.members).1⟩ := rfl
  have hnext : q4.target.tap.next true = .testLogicReset := hfive
  rw [hclock, hnext]
  rfl

end Base
