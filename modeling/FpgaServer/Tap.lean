import FpgaServer.Bits
import FpgaServer.Transducer
/-!
# Tap — test access ports and the chains behind them

The sixteen states of a test access port and how a clock moves it, as IEEE 1149.1 draws them.  A `Target` is any machine with
such a port: it is clocked with TMS and TDI and shows TDO.  `Pins` adds what the three lines hold between clocks, and `wire` is
the machine that reads clocks.
-/
namespace Base

inductive Tap where
  | testLogicReset
  | runTestIdle
  | selectDRScan
  | captureDR
  | shiftDR
  | exit1DR
  | pauseDR
  | exit2DR
  | updateDR
  | selectIRScan
  | captureIR
  | shiftIR
  | exit1IR
  | pauseIR
  | exit2IR
  | updateIR
  deriving DecidableEq, Repr

/-- What one clock is given: the levels of TMS and TDI. -/
structure Clock where
  tms : Bool
  tdi : Bool
  deriving DecidableEq, Repr

namespace Tap

def next : Tap → Bool → Tap
  | testLogicReset, tms => if tms then testLogicReset else runTestIdle
  | runTestIdle, tms => if tms then selectDRScan else runTestIdle
  | selectDRScan, tms => if tms then selectIRScan else captureDR
  | captureDR, tms => if tms then exit1DR else shiftDR
  | shiftDR, tms => if tms then exit1DR else shiftDR
  | exit1DR, tms => if tms then updateDR else pauseDR
  | pauseDR, tms => if tms then exit2DR else pauseDR
  | exit2DR, tms => if tms then updateDR else shiftDR
  | updateDR, tms => if tms then selectDRScan else runTestIdle
  | selectIRScan, tms => if tms then testLogicReset else captureIR
  | captureIR, tms => if tms then exit1IR else shiftIR
  | shiftIR, tms => if tms then exit1IR else shiftIR
  | exit1IR, tms => if tms then updateIR else pauseIR
  | pauseIR, tms => if tms then exit2IR else pauseIR
  | exit2IR, tms => if tms then updateIR else shiftIR
  | updateIR, tms => if tms then selectDRScan else runTestIdle

/-- The state after some clocks. -/
def after (t : Tap) (cs : List Clock) : Tap := cs.foldl (fun t c => t.next c.tms) t

@[simp] theorem after_nil (t : Tap) : t.after [] = t := rfl

@[simp] theorem after_cons (t : Tap) (c : Clock) (cs : List Clock) : t.after (c :: cs) = (t.next c.tms).after cs := rfl

theorem after_append (t : Tap) (cs ds : List Clock) : t.after (cs ++ ds) = (t.after cs).after ds := List.foldl_append

/-- The states a port stays in while TMS keeps the level that led into them. -/
def stable : Tap → Bool
  | testLogicReset | runTestIdle | shiftDR | pauseDR | shiftIR | pauseIR => true
  | _ => false

/-- **Five clocks with TMS high reset a port**, whatever it was doing. -/
theorem five_ones (t : Tap) : ((((t.next true).next true).next true).next true).next true = testLogicReset := by
  cases t <;> rfl

/-- A stable state lasts as long as TMS stays what it was on the way in. -/
theorem next_of_stable (t : Tap) (tms : Bool) : (t.next tms).stable = true → (t.next tms).next tms = t.next tms := by
  cases t <;> cases tms <;> decide

end Tap

/-! ## Targets -/

/-- A machine with a test access port: a clock moves it and shows the level TDO has had. -/
class Target (σ : Type) where
  tap : σ → Tap
  clock : σ → Clock → σ × Bool
  tap_clock : ∀ s c, tap (clock s c).1 = (tap s).next c.tms

/-- A port with nothing behind it. -/
instance : Target Tap where
  tap t := t
  clock t c := (t.next c.tms, false)
  tap_clock _ _ := rfl

/-- The lines as they are held, and the target they lead to. -/
structure Pins (σ : Type) where
  tms : Bool
  tdi : Bool
  target : σ

section
variable {σ : Type} [Target σ]

def Pins.clock (p : Pins σ) (c : Clock) : Pins σ × Bool :=
  (⟨c.tms, c.tdi, (Target.clock p.target c).1⟩, (Target.clock p.target c).2)

/-- The lines as a machine that reads clocks and shows TDO. -/
def wire (σ : Type) [Target σ] : Transducer Clock (Pins σ) Bool where
  step p c := ((p.clock c).1, [(p.clock c).2])

/-- The lines after some clocks. -/
def Pins.clocked (p : Pins σ) (cs : List Clock) : Pins σ := ((wire σ).run p cs).1

/-- What TDO showed at each of some clocks. -/
def Pins.shown (p : Pins σ) (cs : List Clock) : List Bool := ((wire σ).run p cs).2

def Pins.tap (p : Pins σ) : Tap := Target.tap p.target

@[simp] theorem Pins.clocked_nil (p : Pins σ) : p.clocked [] = p := rfl

@[simp] theorem Pins.shown_nil (p : Pins σ) : p.shown [] = [] := rfl

theorem Pins.clocked_cons (p : Pins σ) (c : Clock) (cs : List Clock) : p.clocked (c :: cs) = (p.clock c).1.clocked cs := rfl

theorem Pins.shown_cons (p : Pins σ) (c : Clock) (cs : List Clock) :
    p.shown (c :: cs) = (p.clock c).2 :: (p.clock c).1.shown cs := rfl

theorem Pins.clocked_append (p : Pins σ) (cs ds : List Clock) : p.clocked (cs ++ ds) = (p.clocked cs).clocked ds := by
  rw [clocked, Transducer.run_append]
  rfl

theorem Pins.shown_append (p : Pins σ) (cs ds : List Clock) :
    p.shown (cs ++ ds) = p.shown cs ++ (p.clocked cs).shown ds := by
  rw [shown, Transducer.run_append]
  rfl

@[simp] theorem Pins.length_shown (p : Pins σ) (cs : List Clock) : (p.shown cs).length = cs.length := by
  induction cs generalizing p with
  | nil => rfl
  | cons c cs ih => rw [shown_cons, List.length_cons, ih, List.length_cons]

/-- **The port follows the clocks**, whatever the machine behind it. -/
theorem Pins.tap_clocked (p : Pins σ) (cs : List Clock) : (p.clocked cs).tap = p.tap.after cs := by
  induction cs generalizing p with
  | nil => rfl
  | cons c cs ih =>
    rw [clocked_cons, ih, Tap.after_cons]
    congr 1
    exact Target.tap_clock p.target c

/-- A state that lasts will last with TMS as it is held. -/
def Pins.Held (p : Pins σ) : Prop := p.tap.stable = true → p.tap.next p.tms = p.tap

theorem Pins.held_clock (p : Pins σ) (c : Clock) : (p.clock c).1.Held := by
  have htap : (p.clock c).1.tap = p.tap.next c.tms := Target.tap_clock p.target c
  unfold Held
  rw [htap]
  exact Tap.next_of_stable p.tap c.tms

/-- So it is after any clock. -/
theorem Pins.held_clocked {p : Pins σ} {cs : List Clock} (h : p.Held ∨ cs ≠ []) : (p.clocked cs).Held := by
  induction cs generalizing p with
  | nil => exact h.resolve_right (fun hne => hne rfl)
  | cons c cs ih => exact ih (.inl (p.held_clock c))

theorem Pins.tms_clocked (p : Pins σ) (cs : List Clock) : (p.clocked cs).tms = (cs.getLast?.map (·.tms)).getD p.tms := by
  induction cs generalizing p with
  | nil => rfl
  | cons c cs ih =>
    rw [clocked_cons, ih]
    cases cs <;> rfl

/-- In a state that shifts, TMS is held low. -/
theorem Pins.Held.tms_low {p : Pins σ} (h : p.Held) (hshift : p.tap = .shiftDR ∨ p.tap = .shiftIR) : p.tms = false := by
  unfold Held at h
  rcases hshift with hs | hs
  all_goals
    rw [hs] at h
    have hstays := h rfl
    cases htms : p.tms with
    | false => rfl
    | true =>
      rw [htms] at hstays
      cases hstays

theorem Pins.tdi_clocked (p : Pins σ) (cs : List Clock) : (p.clocked cs).tdi = (cs.getLast?.map (·.tdi)).getD p.tdi := by
  induction cs generalizing p with
  | nil => rfl
  | cons c cs ih =>
    rw [clocked_cons, ih]
    cases cs <;> rfl

end

/-! ## Kinds of clocks -/

/-- Bits on TMS, with TDI at a level. -/
def tmsClocks (tdi : Bool) (bs : List Bool) : List Clock := bs.map (fun b => ⟨b, tdi⟩)

/-- Bits on TDI, with TMS at a level. -/
def dataClocks (tms : Bool) (bs : List Bool) : List Clock := bs.map (fun b => ⟨tms, b⟩)

/-- Bits on TDI, with TMS at a level, and high with the last bit where `last` says so. -/
def scan (tms last : Bool) : List Bool → List Clock
  | [] => []
  | [b] => [⟨last || tms, b⟩]
  | b :: c :: bs => ⟨tms, b⟩ :: scan tms last (c :: bs)

@[simp] theorem length_dataClocks (tms : Bool) (bs : List Bool) : (dataClocks tms bs).length = bs.length := List.length_map _

theorem tmsClocks_append (tdi : Bool) (as bs : List Bool) : tmsClocks tdi (as ++ bs) = tmsClocks tdi as ++ tmsClocks tdi bs :=
  List.map_append

theorem dataClocks_append (tms : Bool) (as bs : List Bool) :
    dataClocks tms (as ++ bs) = dataClocks tms as ++ dataClocks tms bs := List.map_append

theorem scan_false (tms : Bool) : ∀ bs : List Bool, scan tms false bs = dataClocks tms bs
  | [] => rfl
  | [b] => by rw [scan, Bool.false_or]; rfl
  | b :: c :: bs => by
    rw [scan, scan_false tms (c :: bs)]
    rfl

theorem scan_true (tms b : Bool) : ∀ bs : List Bool, scan tms true (bs ++ [b]) = dataClocks tms bs ++ [⟨true, b⟩]
  | [] => by rw [List.nil_append, scan, Bool.true_or]; rfl
  | [c] => by rw [List.singleton_append, scan, scan, Bool.true_or]; rfl
  | c :: d :: bs => by
    rw [List.cons_append, List.cons_append, scan, ← List.cons_append, scan_true tms b (d :: bs)]
    rfl

theorem scan_append (tms : Bool) {last : Bool} {bs : List Bool} (h : last = true → bs ≠ []) (as : List Bool) :
    scan tms last (as ++ bs) = dataClocks tms as ++ scan tms last bs := by
  cases last with
  | false => rw [scan_false, scan_false, dataClocks_append]
  | true =>
    obtain ⟨cs, c, rfl⟩ := (List.eq_nil_or_concat bs).resolve_left (h rfl)
    rw [List.concat_eq_append, ← List.append_assoc, scan_true, scan_true, dataClocks_append, List.append_assoc]

/-- Data leave a port in a state that lasts with the level of TMS. -/
theorem Tap.after_dataClocks {t : Tap} {tms : Bool} (h : t.next tms = t) (bs : List Bool) : t.after (dataClocks tms bs) = t := by
  induction bs with
  | nil => rfl
  | cons b bs ih => exact (congrArg (Tap.after · (dataClocks tms bs)) h).trans ih

/-- A shift of no bits moves nothing, whatever `last` says; any other leaves with the last bit. -/
theorem Tap.after_scan {t : Tap} {tms : Bool} (h : t.next tms = t) (last : Bool) {bs : List Bool} (hne : bs ≠ []) :
    t.after (scan tms last bs) = if last then t.next true else t := by
  obtain ⟨as, b, rfl⟩ := (List.eq_nil_or_concat bs).resolve_left hne
  cases last with
  | false => rw [scan_false, Tap.after_dataClocks h, if_neg Bool.false_ne_true]
  | true =>
    rw [List.concat_eq_append, scan_true, Tap.after_append, Tap.after_dataClocks h, if_pos rfl]
    rfl

@[simp] theorem length_scan (tms last : Bool) : ∀ bs : List Bool, (scan tms last bs).length = bs.length
  | [] => rfl
  | [_] => rfl
  | _ :: c :: bs => congrArg (· + 1) (length_scan tms last (c :: bs))

section
variable {σ : Type} [Target σ]

/-- Data on TDI, with TMS as it is held. -/
def Pins.holding (p : Pins σ) (bs : List Bool) : List Clock := dataClocks p.tms bs

omit [Target σ] in
@[simp] theorem length_holding (p : Pins σ) (bs : List Bool) : (p.holding bs).length = bs.length := length_dataClocks _ _

omit [Target σ] in
theorem holding_append (p : Pins σ) (as bs : List Bool) : p.holding (as ++ bs) = p.holding as ++ p.holding bs :=
  dataClocks_append _ _ _

/-- TMS is still held after data. -/
theorem tms_holding (p : Pins σ) (bs : List Bool) : (p.clocked (p.holding bs)).tms = p.tms := by
  induction bs generalizing p with
  | nil => rfl
  | cons b bs ih => exact ih (p.clock ⟨p.tms, b⟩).1

theorem holding_holding (p : Pins σ) (as bs : List Bool) : (p.clocked (p.holding as)).holding bs = p.holding bs := by
  have hheld := tms_holding p as
  unfold Pins.holding at hheld ⊢
  rw [hheld]

end
end Base
