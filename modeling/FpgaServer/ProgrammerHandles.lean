import FpgaServer.DeviceProgrammer
import FpgaServer.ManagerReady
/-!
# ProgrammerHandles — what `reprogramDevice` leaves behind

`DeviceManager::reprogramDevice` on devices whose programmer is the one of `DeviceProgrammer.lean`, and what the process holds
for programmers after it.  `Programmed` says for every way a call can end what it leaves: nothing, the context on interface B
of an `IOFtdi` whose constructor throws after it has opened the device, or the bitfile, which is never closed once it is open.
-/
namespace Fpga

open Base (Within Unmoved final)

variable {ε α : Type}

/-! ## The device as the manager sees it -/

namespace Holding

instance [Ftdi ε] : Ftdi (Holding ε) where
  ftdiNew := lift Ftdi.ftdiNew
  usbOpenDev i claimed h := h.lift (Ftdi.usbOpenDev i (claimed ++ h.claimed))
  usbPurgeBuffers := lift Ftdi.usbPurgeBuffers
  usbReset := lift Ftdi.usbReset
  setBitmode mask mode := lift (Ftdi.setBitmode mask mode)
  setLatencyTimer t := lift (Ftdi.setLatencyTimer t)
  writeData bytes := lift (Ftdi.writeData bytes)
  readData size := lift (Ftdi.readData size)
  writeData_le bytes h := Ftdi.writeData_le bytes h.usb
  readData_le size h := Ftdi.readData_le size h.usb

/-- How a call ends, and what it leaves. -/
def answer : EStateM.Result String (Holding ε) Unit → Option String × Holding ε
  | .ok _ h => (none, h)
  | .error what h => (some what, h)

@[simp] theorem answer_snd (r : EStateM.Result String (Holding ε) Unit) : (answer r).2 = final r := by
  cases r <;> rfl

/-- The constructor and the one use of the local `programmer`, which is destroyed after it. -/
instance [Ftdi ε] [Xc3sprog ε] : Programmer (Holding ε) where
  construct h := answer ((do
    let p ← construct
    modify (fun h : Holding ε => { h with programmer := some p })).run h)
  program fname h :=
    match h.programmer with
    | none => (none, h)
    | some p => answer ((finish p fname).run { h with programmer := none })

/-! ## Contexts -/

def withUsb (h : Holding ε) (e : ε) : Holding ε := { h with usb := e }

theorem run_onUsb (h : Holding ε) (x : JtagM ε α) : (onUsb x).run h = match x.run h.usb with
    | .ok r e => .ok r (h.withUsb e)
    | .error what e => .error what (h.withUsb e) := by
  rw [onUsb, Base.run_zoom]
  cases x.run h.usb <;> rfl

variable {h : Holding ε} {a : Nat} {i : Interface} {o : Bool} {cs : List Context}

theorem update_newest (hs : h.contexts = ⟨a, i, o⟩ :: cs) (hc : ∀ c ∈ cs, c.id ≠ a) (f : Context → Interface × Bool) :
    (h.update a f).contexts = ⟨a, (f ⟨a, i, o⟩).1, (f ⟨a, i, o⟩).2⟩ :: cs := by
  have hmap : (h.update a f).contexts = h.contexts.map (fun c => if c.id = a then ⟨a, (f c).1, (f c).2⟩ else c) := rfl
  rw [hmap, hs, List.map_cons, if_pos rfl]
  exact congrArg _ (Device.map_update_of_fresh hc (fun c => ⟨a, (f c).1, (f c).2⟩))

theorem free_newest (hs : h.contexts = ⟨a, i, o⟩ :: cs) (hc : ∀ c ∈ cs, c.id ≠ a) : (h.free a).contexts = cs := by
  have hfilter : (h.free a).contexts = h.contexts.filter (fun c => c.id ≠ a) := rfl
  rw [hfilter, hs, List.filter_cons_of_neg (by simp), Device.filter_of_fresh hc]

theorem claimed_of_closed (hs : h.contexts = ⟨a, i, false⟩ :: cs) :
    h.claimed = (cs.filter (·.opened)).map (·.interface) := by
  rw [claimed, hs]
  rfl

end Holding

/-! ## The initialisation of interface B -/

/-! The calls of `IOFtdi::Init` from the open device on, each in the state the calls before it leave. -/

namespace IOFtdi

/-- One call of the initialisation: it succeeds and the rest goes on, or the initialisation returns its error. -/
theorem run_call (f : ε → Option String × ε) (k : JtagM ε Bool) (e : ε) :
    (do
      if (← modifyGet f).isSome then
        return false
      k).run e = if (f e).1 = none then k.run (f e).2 else .ok false (f e).2 := by
  rw [EStateM.run_bind]
  simp only [EStateM.run_modifyGet]
  cases (f e).1 <;> rfl

variable [Ftdi ε] [Xc3sprog ε]

section
omit [Xc3sprog ε]

def reset (e : ε) : Option String × ε := Ftdi.setBitmode 0 .reset e

def purge (e : ε) : Option String × ε := Ftdi.usbPurgeBuffers (reset e).2

def latency (e : ε) : Option String × ε := Ftdi.setLatencyTimer 1 (purge e).2

def mpsse (e : ε) : Option String × ε := Ftdi.setBitmode 0xfb .mpsse (latency e).2

def drained (e : ε) : ε := (Ftdi.readData 5 (mpsse e).2).2

def clock (e : ε) : Int × ε := Ftdi.writeData initCommands (drained e)

def undivided (e : ε) : Int × ε := Ftdi.writeData undividedClock (clock e).2

end

/-- The calls set the device to MPSSE mode, and it takes the commands it is sent. -/
def Configures (e : ε) : Prop :=
  (reset e).1 = none ∧ (purge e).1 = none ∧ (latency e).1 = none ∧ (mpsse e).1 = none ∧
    (clock e).1 = initCommands.length ∧
      (Xc3sprog.hasFastClock (drained e) = true → (undivided e).1 = undividedClock.length)

/-- The device after them. -/
def configured (e : ε) : ε := if Xc3sprog.hasFastClock (drained e) then (undivided e).2 else (clock e).2

theorem run_mpsseSend (commands : List UInt8) (e : ε) : (mpsseSend commands).run e =
    if (Ftdi.writeData commands e).1 = commands.length then .ok () (Ftdi.writeData commands e).2
    else .error (Xc3sprog.ftdiGetErrorString (Ftdi.writeData commands e).2) (Ftdi.writeData commands e).2 := by
  rw [mpsseSend, EStateM.run_bind]
  simp only [EStateM.run_modifyGet]
  by_cases h : (Ftdi.writeData commands e).1 = commands.length
  · rw [if_pos h, if_neg (not_not.2 h)]
    rfl
  · rw [if_neg h, if_pos h]
    rfl

/-- The last part of the initialisation: the commands. -/
theorem commands_result (e : ε) (hfour : (reset e).1 = none ∧ (purge e).1 = none ∧ (latency e).1 = none ∧ (mpsse e).1 = none)
    {x : JtagM ε Bool}
    (hx : x = do
      let _ ← modifyGet (Ftdi.readData 5)
      let fast := Xc3sprog.hasFastClock (← get)
      mpsseSend initCommands
      if fast then
        mpsseSend undividedClock
      return true) :
    (Configures e ∧ x.run (mpsse e).2 = .ok true (configured e)) ∨
      ¬ Configures e ∧ ∃ e' what, x.run (mpsse e).2 = .error what e' := by
  have hrun : x.run (mpsse e).2 = (do
      mpsseSend initCommands
      if Xc3sprog.hasFastClock (drained e) then
        mpsseSend undividedClock
      return true : JtagM ε Bool).run (drained e) := by
    rw [hx]
    rfl
  rw [hrun, EStateM.run_bind, run_mpsseSend]
  by_cases hclock : (clock e).1 = initCommands.length
  · have hclock' : (Ftdi.writeData initCommands (drained e)).1 = initCommands.length := hclock
    rw [if_pos hclock']
    simp only
    cases hfast : Xc3sprog.hasFastClock (drained e) with
    | false =>
      refine .inl ⟨⟨hfour.1, hfour.2.1, hfour.2.2.1, hfour.2.2.2, hclock, fun h => ?_⟩, ?_⟩
      · rw [hfast] at h
        cases h
      · rw [configured, hfast]
        rfl
    | true =>
      simp only [if_true]
      rw [EStateM.run_bind, run_mpsseSend]
      by_cases hundivided : (undivided e).1 = undividedClock.length
      · have hundivided' : (Ftdi.writeData undividedClock (Ftdi.writeData initCommands (drained e)).2).1 =
            undividedClock.length := hundivided
        rw [if_pos hundivided']
        refine .inl ⟨⟨hfour.1, hfour.2.1, hfour.2.2.1, hfour.2.2.2, hclock, fun _ => hundivided⟩, ?_⟩
        rw [configured, hfast]
        rfl
      · have hundivided' : ¬ (Ftdi.writeData undividedClock (Ftdi.writeData initCommands (drained e)).2).1 =
            undividedClock.length := hundivided
        rw [if_neg hundivided']
        exact .inr ⟨fun h => hundivided (h.2.2.2.2.2 hfast), _, _, rfl⟩
  · have hclock' : ¬ (Ftdi.writeData initCommands (drained e)).1 = initCommands.length := hclock
    rw [if_neg hclock']
    exact .inr ⟨fun h => hclock h.2.2.2.2.1, _, _, rfl⟩

/-- **The initialisation goes through or it does not**, and then it returns an error or throws. -/
theorem configure_result (e : ε) : (Configures e ∧ configure.run e = .ok true (configured e)) ∨
    ¬ Configures e ∧ ∃ e', configure.run e = .ok false e' ∨ ∃ what, configure.run e = .error what e' := by
  unfold configure
  rw [run_call]
  split
  · rename_i hreset
    rw [run_call]
    split
    · rename_i hpurge
      rw [run_call]
      split
      · rename_i hlatency
        rw [run_call]
        split
        · rename_i hmpsse
          obtain ⟨hconf, hrun⟩ | ⟨hconf, e', what, hrun⟩ := commands_result e ⟨hreset, hpurge, hlatency, hmpsse⟩ rfl
          · exact .inl ⟨hconf, hrun⟩
          · exact .inr ⟨hconf, e', .inr ⟨what, hrun⟩⟩
        · rename_i hmpsse
          exact .inr ⟨fun h => hmpsse h.2.2.2.1, _, .inl rfl⟩
      · rename_i hlatency
        exact .inr ⟨fun h => hlatency h.2.2.1, _, .inl rfl⟩
    · rename_i hpurge
      exact .inr ⟨fun h => hpurge h.2.1, _, .inl rfl⟩
  · rename_i hreset
    exact .inr ⟨fun h => hreset h.1, _, .inl rfl⟩

end IOFtdi

namespace Holding

open IOFtdi (Configures configured configure_result)

variable [Ftdi ε] [Xc3sprog ε]

/-! ## The constructor -/

section
omit [Xc3sprog ε]

def newB (h : Holding ε) : Bool × ε := Ftdi.ftdiNew h.usb

def openB (h : Holding ε) : Option String × ε := Ftdi.usbOpenDev .B h.claimed h.newB.2

/-- `IOFtdi::Init` gets a context and opens interface B on it. -/
def ClaimsB (h : Holding ε) : Prop := h.newB.1 = true ∧ h.openB.1 = none

end

/-- How `IOFtdi::Init` ends: it holds nothing, or an open context it returns, or an open context it does not return. -/
inductive InitResult (h : Holding ε) : EStateM.Result String (Holding ε) (Option Nat) → Prop where
  | refused (h' : Holding ε) (hb : ¬ h.ClaimsB) (hcontexts : h'.contexts = h.contexts) (hfiles : h'.bitfiles = h.bitfiles) :
    InitResult h (.ok none h')
  | ready (h' : Holding ε) (hb : h.ClaimsB) (hconf : Configures h.openB.2) (husb : h'.usb = configured h.openB.2)
    (hcontexts : h'.contexts = ⟨h.nextContext, .B, true⟩ :: h.contexts) (hfiles : h'.bitfiles = h.bitfiles) :
    InitResult h (.ok (some h.nextContext) h')
  | stuck (r : EStateM.Result String (Holding ε) (Option Nat)) (hb : h.ClaimsB) (hconf : ¬ Configures h.openB.2)
    (hr : ∀ a h', r ≠ .ok (some a) h') (hcontexts : (final r).contexts = ⟨h.nextContext, .B, true⟩ :: h.contexts)
    (hfiles : (final r).bitfiles = h.bitfiles) : InitResult h r

section
omit [Xc3sprog ε]

theorem run_ftdiNew (h : Holding ε) : (ftdiNew : HoldingM ε (Option Nat)).run h =
    if h.newB.1 = true then .ok (some h.nextContext) (h.withUsb h.newB.2).alloc else .ok none (h.withUsb h.newB.2) := by
  rw [ftdiNew, EStateM.run_bind, run_onUsb, EStateM.run_modifyGet, newB]
  simp only
  cases (Ftdi.ftdiNew h.usb).1 <;> rfl

/-- Opening the device on the newest context. -/
theorem run_ftdiUsbOpenDev {h : Holding ε} {a : Nat} {i : Interface} {cs : List Context}
    (hs : h.contexts = ⟨a, i, false⟩ :: cs) (hc : ∀ c ∈ cs, c.id ≠ a) (j : Interface) :
    let opening := Ftdi.usbOpenDev j h.claimed h.usb
    ∃ h', (ftdiUsbOpenDev a j).run h = .ok opening.1 h' ∧ h'.usb = opening.2 ∧
      h'.contexts = ⟨a, i, opening.1.isNone⟩ :: cs ∧ h'.bitfiles = h.bitfiles := by
  intro opening
  have hrun : (ftdiUsbOpenDev a j).run h = (do
      if opening.1 = none then
        modify (·.update a (fun c => (c.interface, true)))
      return opening.1 : HoldingM ε (Option String)).run (h.withUsb opening.2) := rfl
  rw [hrun]
  cases hopening : opening.1 with
  | none => exact ⟨_, rfl, rfl, update_newest (h := h.withUsb opening.2) hs hc _, rfl⟩
  | some what => exact ⟨_, rfl, rfl, hs, rfl⟩

end

/-- **`IOFtdi::Init`.** -/
theorem init_result (h : Holding ε) : InitResult h (init.run h) := by
  have hne : ∀ c ∈ h.contexts, c.id ≠ h.nextContext := fun c hc => Nat.ne_of_lt (h.fresh c hc)
  rw [init, EStateM.run_bind, run_ftdiNew]
  cases hnew : h.newB.1 with
  | false => exact .refused _ (fun hb => by simp [hb.1] at hnew) rfl rfl
  | true =>
    -- the context is the newest one, set to interface B and not yet open
    let h1 := (h.withUsb h.newB.2).alloc.update h.nextContext (fun c => (.B, c.opened))
    have hs1 : h1.contexts = ⟨h.nextContext, .B, false⟩ :: h.contexts := update_newest rfl hne _
    have hclaimed : h1.claimed = h.claimed := claimed_of_closed hs1
    obtain ⟨h2, hopen, husb, hs2, hfiles⟩ := run_ftdiUsbOpenDev hs1 hne .B
    have hopening : Ftdi.usbOpenDev .B h1.claimed h1.usb = h.openB := by
      rw [hclaimed]
      rfl
    rw [hopening] at hopen husb hs2
    have hset : (ftdiSetInterface h.nextContext .B : HoldingM ε Unit).run (h.withUsb h.newB.2).alloc = .ok () h1 := rfl
    simp only [if_true]
    rw [EStateM.run_bind, hset]
    simp only
    rw [EStateM.run_bind, hopen]
    simp only
    cases hb : h.openB.1 with
    | some what =>
      simp only [Option.isSome_some, if_true]
      refine .refused (h2.free h.nextContext) (fun h' => by simp [h'.2] at hb) ?_ hfiles
      exact free_newest hs2 hne
    | none =>
      simp only [Option.isSome_none, Bool.false_eq_true, if_false]
      rw [EStateM.run_bind, run_onUsb, husb]
      rw [hb] at hs2
      obtain ⟨hconf, hrun⟩ | ⟨hconf, e', hrun | ⟨what, hrun⟩⟩ := configure_result h.openB.2
      · rw [hrun]
        exact .ready _ ⟨hnew, hb⟩ hconf rfl hs2 hfiles
      · rw [hrun]
        exact .stuck _ ⟨hnew, hb⟩ hconf (fun a h' hr => by cases hr) hs2 hfiles
      · rw [hrun]
        exact .stuck _ ⟨hnew, hb⟩ hconf (fun a h' hr => by cases hr) hs2 hfiles

/-! ## The destructor -/

/-- The destructor gives the context back. -/
theorem run_deinit {h : Holding ε} {a : Nat} {i : Interface} {o : Bool} {cs : List Context}
    (hs : h.contexts = ⟨a, i, o⟩ :: cs) (hc : ∀ c ∈ cs, c.id ≠ a) :
    ∃ h', (deinit a).run h = .ok () h' ∧ h'.contexts = cs ∧ h'.bitfiles = h.bitfiles := by
  let e := (Ftdi.usbReset (Ftdi.setBitmode 0 .reset (Xc3sprog.loopback h.usb)).2).2
  have hrun : (deinit a).run h = .ok () (((h.withUsb e).update a (fun c => (c.interface, false))).free a) := rfl
  exact ⟨_, hrun, free_newest (update_newest (h := h.withUsb e) hs hc _) hc, rfl⟩

/-- Where the destructor runs on the way out of a block, the exception goes on. -/
theorem run_deinit_throw {h : Holding ε} {a : Nat} {i : Interface} {o : Bool} {cs : List Context}
    (hs : h.contexts = ⟨a, i, o⟩ :: cs) (hc : ∀ c ∈ cs, c.id ≠ a) (what : String) :
    ∃ h', (do deinit a; throw what : HoldingM ε α).run h = .error what h' ∧ h'.contexts = cs ∧ h'.bitfiles = h.bitfiles := by
  obtain ⟨h', hrun, hcontexts, hfiles⟩ := run_deinit hs hc
  exact ⟨h', by rw [EStateM.run_bind, hrun]; rfl, hcontexts, hfiles⟩

/-! ## The bitfile -/

omit [Ftdi ε] in
/-- Whatever `program` ends in, the file stays open if it has been opened. -/
theorem program_leaves (family : Family) (fname : String) (h : Holding ε) :
    (final ((program family fname).run h)).contexts = h.contexts ∧
      (final ((program family fname).run h)).bitfiles =
        if (Xc3sprog.fopen fname h.usb).1.isSome then fname :: h.bitfiles else h.bitfiles := by
  have hopen : (fopen fname : HoldingM ε (Option (List UInt8))).run h =
      .ok (Xc3sprog.fopen fname h.usb).1 { h with
        usb := (Xc3sprog.fopen fname h.usb).2
        bitfiles := if (Xc3sprog.fopen fname h.usb).1.isSome then fname :: h.bitfiles else h.bitfiles } := by
    rw [fopen, EStateM.run_bind, run_onUsb, EStateM.run_modifyGet]
    simp only
    cases (Xc3sprog.fopen fname h.usb).1 <;> rfl
  rw [program, EStateM.run_bind, hopen]
  cases (Xc3sprog.fopen fname h.usb).1 with
  | none => exact ⟨rfl, rfl⟩
  | some bytes =>
    simp only
    cases BitFile.readBitfile bytes with
    | none => exact ⟨rfl, rfl⟩
    | some bitfile =>
      simp only
      rw [run_onUsb]
      split <;> exact ⟨rfl, rfl⟩

/-- The end of the block gives the context back, however the programming ends. -/
theorem finish_leaves {h : Holding ε} {p : DeviceProgrammer} {i : Interface} {o : Bool} {cs : List Context}
    (hs : h.contexts = ⟨p.ftdiHandle, i, o⟩ :: cs) (hc : ∀ c ∈ cs, c.id ≠ p.ftdiHandle) (fname : String) :
    (final ((finish p fname).run h)).contexts = cs ∧ (final ((finish p fname).run h)).bitfiles =
      if (Xc3sprog.fopen fname h.usb).1.isSome then fname :: h.bitfiles else h.bitfiles := by
  obtain ⟨hcontexts, hfiles⟩ := program_leaves p.family fname h
  rw [finish, EStateM.run_bind, run_unwinding]
  cases hrun : (program p.family fname).run h with
  | ok u h1 =>
    rw [hrun, Base.final_ok] at hcontexts hfiles
    obtain ⟨h2, hdeinit, hcontexts2, hfiles2⟩ := run_deinit (hcontexts.trans hs) hc
    simp only
    rw [hdeinit]
    exact ⟨hcontexts2, hfiles2.trans hfiles⟩
  | error what h1 =>
    rw [hrun, Base.final_error] at hcontexts hfiles
    obtain ⟨h2, hdeinit, hcontexts2, hfiles2⟩ := run_deinit_throw (α := Unit) (hcontexts.trans hs) hc what
    simp only
    rw [hdeinit]
    exact ⟨hcontexts2, hfiles2.trans hfiles⟩

/-! ## A programmer from its constructor to its end -/

omit [Ftdi ε] in
/-- The chain is the one the programmer expects, and the bitfile can be opened. -/
def OpensBitfile (fname : String) (e : ε) : Prop :=
  ∃ family e', checkChain.run e = .ok family e' ∧ (Xc3sprog.fopen fname e').1.isSome = true

/-- Where the programmer gets interface B at all, the interface can be initialised, but the programmer does not come to open
the bitfile. -/
def Spares (h : Holding ε) (fname : String) : Prop :=
  h.ClaimsB → Configures h.openB.2 ∧ ¬ OpensBitfile fname (configured h.openB.2)

/-- What a programmer leaves: nothing, the context it failed to initialise, or its bitfile. -/
inductive Programmed (h : Holding ε) (fname : String) (h' : Holding ε) : Prop where
  | spared (hs : h.Spares fname) (hcontexts : h'.contexts = h.contexts) (hfiles : h'.bitfiles = h.bitfiles)
  | stuck (hs : ¬ h.Spares fname) (hcontexts : h'.contexts = ⟨h.nextContext, .B, true⟩ :: h.contexts)
    (hfiles : h'.bitfiles = h.bitfiles)
  | opened (hs : ¬ h.Spares fname) (hcontexts : h'.contexts = h.contexts) (hfiles : h'.bitfiles = fname :: h.bitfiles)

/-- The constructor throws and leaves nothing or the context it failed to initialise, or it returns with its context. -/
theorem construct_result (h : Holding ε) :
    (∃ what h', construct.run h = .error what h' ∧ ∀ fname, Programmed h fname h') ∨
    ∃ family h', construct.run h = .ok ⟨h.nextContext, family⟩ h' ∧ h.ClaimsB ∧ Configures h.openB.2 ∧
      checkChain.run (configured h.openB.2) = .ok family h'.usb ∧
      h'.contexts = ⟨h.nextContext, .B, true⟩ :: h.contexts ∧ h'.bitfiles = h.bitfiles := by
  have hne : ∀ c ∈ h.contexts, c.id ≠ h.nextContext := fun c hc => Nat.ne_of_lt (h.fresh c hc)
  have hinit := init_result h
  rw [construct, EStateM.run_bind, ioFtdi, EStateM.run_bind]
  generalize init.run h = r at hinit
  cases hinit with
  | refused h' hb hcontexts hfiles =>
    exact .inl ⟨_, h', rfl, fun fname => .spared (fun hb' => absurd hb' hb) hcontexts hfiles⟩
  | stuck r hb hconf hr hcontexts hfiles =>
    have hleft : ∀ fname, Programmed h fname (final r) := fun fname => .stuck (fun hs => hconf (hs hb).1) hcontexts hfiles
    cases r with
    | ok a h' =>
      cases a with
      | none => exact .inl ⟨_, h', rfl, hleft⟩
      | some a => exact absurd rfl (hr a h')
    | error what h' => exact .inl ⟨what, h', rfl, hleft⟩
  | ready h1 hb hconf husb hcontexts hfiles =>
    simp only [EStateM.run_pure]
    rw [EStateM.run_bind, run_unwinding, run_onUsb, husb]
    cases hchain : checkChain.run (configured h.openB.2) with
    | ok family e => exact .inr ⟨family, h1.withUsb e, rfl, hb, hconf, rfl, hcontexts, hfiles⟩
    | error what e =>
      -- the members are destroyed: `m_ioftdi` gives the context back
      obtain ⟨h2, hdeinit, hcontexts2, hfiles2⟩ :=
        run_deinit_throw (α := Family) (h := h1.withUsb e) hcontexts hne what
      simp only
      rw [hdeinit]
      refine .inl ⟨what, h2, rfl, fun fname => .spared (fun _ => ⟨hconf, ?_⟩) hcontexts2 (hfiles2.trans hfiles)⟩
      rintro ⟨family, e', hrun, -⟩
      rw [hchain] at hrun
      cases hrun

/-- **What a programmer leaves behind.** -/
theorem programmed_leaves (h : Holding ε) (fname : String) : Programmed h fname (Device.programmed fname h).2 := by
  have hne : ∀ c ∈ h.contexts, c.id ≠ h.nextContext := fun c hc => Nat.ne_of_lt (h.fresh c hc)
  have hconstruct : Programmer.construct h = answer ((do
      let p ← construct
      modify (fun h : Holding ε => { h with programmer := some p })).run h) := rfl
  obtain ⟨what, h', hrun, hleft⟩ | ⟨family, h1, hrun, hb, hconf, hchain, hcontexts, hfiles⟩ := construct_result h
  · have hthrows : Programmer.construct h = (some what, h') := by
      rw [hconstruct, EStateM.run_bind, hrun]
      rfl
    rw [Device.programmed, hthrows]
    exact hleft fname
  · have hreturns : Programmer.construct h = (none, { h1 with programmer := some ⟨h.nextContext, family⟩ }) := by
      rw [hconstruct, EStateM.run_bind, hrun]
      rfl
    have hprogram : Programmer.program fname { h1 with programmer := some ⟨h.nextContext, family⟩ } =
        answer ((finish ⟨h.nextContext, family⟩ fname).run { h1 with programmer := none }) := rfl
    rw [Device.programmed, hreturns]
    simp only
    rw [hprogram, answer_snd]
    obtain ⟨hcontexts2, hfiles2⟩ := finish_leaves (h := { h1 with programmer := none }) (p := ⟨h.nextContext, family⟩)
      hcontexts hne fname
    cases hopen : (Xc3sprog.fopen fname h1.usb).1.isSome with
    | true =>
      refine .opened (fun hs => (hs hb).2 ⟨family, h1.usb, hchain, hopen⟩) hcontexts2 (hfiles2.trans ?_)
      rw [hopen, if_pos rfl, hfiles]
    | false =>
      refine .spared (fun _ => ⟨hconf, ?_⟩) hcontexts2 (hfiles2.trans ?_)
      · rintro ⟨family', e', hrun', hopen'⟩
        cases hchain.symm.trans hrun'
        rw [hopen] at hopen'
        cases hopen'
      · rw [hopen, if_neg Bool.false_ne_true, hfiles]

/-! ## Opening and closing the device -/

/-- The contexts and the bitfiles held for programmers. -/
def held (h : Holding ε) : List Context × List String := (h.contexts, h.bitfiles)

theorem Programmed.of_held {h h' h'' : Holding ε} {fname : String} (hp : Programmed h fname h') (hh : h''.held = h'.held) :
    Programmed h fname h'' := by
  obtain ⟨hcontexts, hfiles⟩ := Prod.mk.inj hh
  cases hp with
  | spared hs hc hf => exact .spared hs (hcontexts.trans hc) (hfiles.trans hf)
  | stuck hs hc hf => exact .stuck hs (hcontexts.trans hc) (hfiles.trans hf)
  | opened hs hc hf => exact .opened hs (hcontexts.trans hc) (hfiles.trans hf)

omit [Xc3sprog ε] in
/-- The device object itself takes no context of a programmer. -/
theorem held_opening : OpeningRules (Unmoved (fun s : DeviceState (Holding ε) View => s.dev.usb.held)) where
  ftdiNew _ := rfl
  usbOpenDev _ _ _ := rfl
  usbPurgeBuffers _ := rfl
  usbReset _ := rfl
  setBitmode _ _ _ := rfl
  setLatencyTimer _ _ := rfl
  keeps _ _ _ _ := rfl

end Holding

namespace DeviceManager

open Holding (Programmed programmed_leaves held_opening)

/-! ## What the process holds -/

section
variable {m : DeviceManager (Holding ε)} {r : Nat} {d : Device (Holding ε) View}

/-- A number for every device, added up. -/
def total (count : Holding ε → Nat) (m : DeviceManager (Holding ε)) : Nat :=
  ((List.range m.nextRef).map (fun r => ((m.objects r).map (fun d => count d.usb)).getD 0)).sum

/-- The bitfiles the process has open. -/
def openBitfiles (m : DeviceManager (Holding ε)) : Nat := total (fun h => h.bitfiles.length) m

/-- The contexts programmers have taken on interface B and not given back. -/
def programmerContexts (m : DeviceManager (Holding ε)) : Nat :=
  total (fun h => (h.contexts.filter (fun c => c.interface = .B)).length) m

/-- As many bitfiles and contexts as before. -/
def KeepsHandles (m m' : DeviceManager (Holding ε)) : Prop :=
  openBitfiles m' = openBitfiles m ∧ programmerContexts m' = programmerContexts m

/-- Changing one summand changes the sum by as much. -/
theorem sum_range_replace {f g : Nat → Nat} {r : Nat} (h : ∀ q, q ≠ r → g q = f q) (n : Nat) (hr : r < n) :
    ((List.range n).map g).sum + f r = ((List.range n).map f).sum + g r := by
  induction n with
  | zero => exact absurd hr (Nat.not_lt_zero r)
  | succ n ih =>
    simp only [List.range_succ, List.map_append, List.sum_append, List.map_cons, List.map_nil, List.sum_cons, List.sum_nil]
    by_cases hlast : r = n
    · have hbelow : (List.range n).map g = (List.range n).map f :=
        List.map_congr_left (fun q hq => h q (by have := List.mem_range.1 hq; omega))
      rw [hlast, hbelow]
      omega
    · have hrest := ih (by omega)
      rw [h n (Ne.symm hlast)]
      omega

theorem total_withObject (count : Holding ε → Nat) (hd : m.objects r = some d) (hr : r < m.nextRef)
    (d' : Device (Holding ε) View) :
    total count (m.withObject r (some d')) + count d.usb = total count m + count d'.usb := by
  have hothers : ∀ q, q ≠ r → (((m.withObject r (some d')).objects q).map (fun d => count d.usb)).getD 0 =
      ((m.objects q).map (fun d => count d.usb)).getD 0 := by
    intro q hq
    have hsame : (m.withObject r (some d')).objects q = m.objects q := Function.update_of_ne hq _ _
    rw [hsame]
  have hsum := sum_range_replace hothers m.nextRef hr
  simp only [withObject_self, hd, Option.map_some, Option.getD_some] at hsum
  exact hsum

/-- What the programmers of one device hold decides what the process holds. -/
theorem keepsHandles_withObject (hd : m.objects r = some d) (hr : r < m.nextRef) (d' : Device (Holding ε) View) :
    KeepsHandles m (m.withObject r (some d')) ↔ d'.usb.bitfiles.length = d.usb.bitfiles.length ∧
      (d'.usb.contexts.filter (fun c => c.interface = .B)).length =
        (d.usb.contexts.filter (fun c => c.interface = .B)).length := by
  have hfiles := total_withObject (fun h => h.bitfiles.length) hd hr d'
  have hcontexts := total_withObject (fun h => (h.contexts.filter (fun c => c.interface = .B)).length) hd hr d'
  rw [KeepsHandles, openBitfiles, openBitfiles, programmerContexts, programmerContexts]
  omega

end

/-! ## One call -/

/-- What is held for the programmers of one device. -/
def heldFor (r : Nat) (m : DeviceManager (Holding ε)) : Option (List Context × List String) :=
  (m.objects r).map (fun d => d.usb.held)

theorem unmoved_onDevice {r : Nat} {x : DeviceM (Holding ε) View α}
    (hx : Within (Unmoved (fun s : DeviceState (Holding ε) View => s.dev.usb.held)) x) :
    Within (Unmoved (heldFor r)) (onDevice r x) := by
  intro m
  cases h : m.objects r with
  | none =>
    rw [run_onDevice_none h]
    exact refl m
  | some d =>
    have hheld := hx ⟨d, ⟨m.notifier, m.getDeviceList⟩⟩
    rw [final_onDevice h, Unmoved, heldFor, heldFor, putBack_self, h, Option.map_some, Option.map_some]
    exact congrArg some hheld

variable [Ftdi ε] [Xc3sprog ε] {m : DeviceManager (Holding ε)} {r : Nat} {d : Device (Holding ε) View} {desc : Description}

/-- **A call of `reprogramDevice`** with something to program leaves what the programmer leaves of the closed device. -/
theorem reprogramDevice_leaves (hd : m.objects r = some d) (hdesc : findDescription d.name m.descriptions = some desc)
    (hfile : desc.fnameBitfile ≠ "") : ∃ d', (final ((reprogramDevice (some r)).run m)).objects r = some d' ∧
      Programmed d.closed.usb desc.fnameBitfile d'.usb := by
  have hopen : Within (Unmoved (heldFor r)) (onDevice r Device.openDevice : ManagerM (Holding ε) Unit) :=
    unmoved_onDevice held_opening.openDevice
  -- neither opening the device again nor the handler that does so takes or gives back anything
  have hrest : ∀ x : ManagerM (Holding ε) Unit, Unmoved (heldFor r) (final (x.run (m.withObject r (some d.closed))))
      (final ((do
        catchException x (fun what => do
          onDevice r Device.openDevice
          raise what)
        onDevice r Device.openDevice
        return true : ManagerM (Holding ε) Bool).run (m.withObject r (some d.closed)))) := by
    intro x
    refine IsTrans.trans _ _ _ (Within.from_handle (fun e y he => ?_) x _)
      (Within.from_bind (fun _ => hopen.bind (fun _ => Within.pure _)) _ _)
    cases e with
    | exception what =>
      cases he
      exact hopen.bind (fun _ => Within.throw _)
    | crash => cases he
    | overrun => cases he
  have hheld := hrest (onDevice r (do
    programmerCall Programmer.construct
    programmerCall (Programmer.program desc.fnameBitfile)))
  have hprogrammed : final ((onDevice r (do
      programmerCall Programmer.construct
      programmerCall (Programmer.program desc.fnameBitfile))).run (m.withObject r (some d.closed))) =
      m.withObject r (some (d.reprogrammed desc.fnameBitfile)) := by
    rw [run_programmer]
    split <;> rfl
  rw [← run_reprogramDevice hd hdesc hfile, hprogrammed, Unmoved, heldFor, heldFor, withObject_self, Option.map_some] at hheld
  obtain ⟨d', hd', hheld⟩ := Option.map_eq_some_iff.1 hheld
  exact ⟨d', hd', (programmed_leaves d.closed.usb desc.fnameBitfile).of_held hheld⟩

/-- The call has nothing to program, or what it has to program is spared. -/
def SparesHandles (m : DeviceManager (Holding ε)) (device : Option Nat) : Prop :=
  ∀ r d desc, device = some r → m.objects r = some d → findDescription d.name m.descriptions = some desc →
    desc.fnameBitfile ≠ "" → d.closed.usb.Spares desc.fnameBitfile

omit [Xc3sprog ε] in
theorem held_closed (d : Device (Holding ε) View) : d.closed.usb.held = d.usb.held := by
  unfold Device.closed
  split <;> rfl

/-- **A call keeps what the process holds if and only if** it has nothing to program or spares it. -/
theorem reprogramDevice_keeps_iff (hm : Ready False m) (device : Option Nat) :
    KeepsHandles m (final ((reprogramDevice device).run m)) ↔ SparesHandles m device := by
  have hsame : KeepsHandles m m := ⟨rfl, rfl⟩
  cases device with
  | none => exact iff_of_true hsame (fun r d desc hr => by cases hr)
  | some r =>
    cases hd : m.objects r with
    | none =>
      rw [reprogramDevice_dangling hd]
      refine iff_of_true hsame (fun r' d desc hr hd' => ?_)
      cases hr
      rw [hd] at hd'
      cases hd'
    | some d =>
      rcases bitfile_cases m d with ⟨desc, hdesc, hfile⟩ | hnone
      · obtain ⟨d', hd', hleft⟩ := reprogramDevice_leaves hd hdesc hfile
        have hspares : SparesHandles m (some r) ↔ d.closed.usb.Spares desc.fnameBitfile := by
          rw [← bitfile_iff hd hdesc hfile (fun d desc => d.closed.usb.Spares desc.fnameBitfile)]
          refine ⟨fun h d' desc' => h r d' desc' rfl, fun h r' d' desc' hr => ?_⟩
          cases hr
          exact h d' desc'
        have hrest : final ((reprogramDevice (some r)).run m) = m.withObject r (some d') := by
          rw [← hd']
          exact (handles_reprogramDevice (r := r) m).rest
        obtain ⟨hcontexts, hfiles⟩ := Prod.mk.inj (held_closed d)
        rw [hrest, keepsHandles_withObject hd (hm.bounded r d hd) d', hspares, ← hcontexts, ← hfiles]
        cases hleft with
        | spared hs hc hf => exact iff_of_true ⟨by rw [hf], by rw [hc]⟩ hs
        | stuck hs hc hf =>
          have hfilter : ∀ cs : List Context, (⟨d.closed.usb.nextContext, .B, true⟩ :: cs).filter (fun c => c.interface = .B) =
              ⟨d.closed.usb.nextContext, .B, true⟩ :: cs.filter (fun c => c.interface = .B) :=
            fun _ => List.filter_cons_of_pos (decide_eq_true rfl)
          refine iff_of_false (fun h => ?_) hs
          rw [hc, hfilter, List.length_cons] at h
          exact Nat.succ_ne_self _ h.2
        | opened hs hc hf =>
          refine iff_of_false (fun h => ?_) hs
          rw [hf, List.length_cons] at h
          exact Nat.succ_ne_self _ h.1
      · rw [reprogramDevice_skips hd hnone]
        refine iff_of_true hsame (fun r' d' desc hr hd' hdesc hfile => ?_)
        cases hr
        exact absurd (no_bitfile hd hnone hd' hdesc) hfile

/-! ## Runs -/

/-- A call of `reprogramDevice` for itself, or a handler of the event loop. -/
inductive Turn (ε : Type) where
  | reprogramDevice (device : Option Nat)
  | handler (a : Action (Holding ε))

/-- The manager after these turns; an exception that leaves one of them is its caller's. -/
def afterTurns (m : DeviceManager (Holding ε)) (turns : List (Turn ε)) : DeviceManager (Holding ε) :=
  turns.foldl (fun m turn => match turn with
    | .reprogramDevice device => final ((DeviceManager.reprogramDevice device).run m)
    | .handler a => final (a.run.run m)) m

/-- The call of `reprogramDevice` a turn makes, with the manager it is made on: a request makes one, and so does bringing up a
device that is to be registered. -/
def Turn.call (m : DeviceManager (Holding ε)) : Turn ε → Option (DeviceManager (Holding ε) × Option Nat)
  | .reprogramDevice device => some (m, device)
  | .handler (.reprogram serial) => some (m, m.getDevice serial)
  | .handler (.usbDeviceAdded dev (.ok serial) usb) =>
    if m.hasDevice dev ∨ m.hasSerial serial ∨ findDescription serial m.descriptions = none then none
    else
      match (makeDevice dev serial usb).run m with
      | .ok r m' => some (m', some r)
      | .error _ _ => none
  | .handler _ => none

/-- The calls of a run: of each turn after the turns before it. -/
def Called (m : DeviceManager (Holding ε)) (turns : List (Turn ε)) (m' : DeviceManager (Holding ε)) (device : Option Nat) : Prop :=
  ∃ before turn, before ++ [turn] <+: turns ∧ turn.call (afterTurns m before) = some (m', device)

omit [Xc3sprog ε] in
theorem ready_call {turn : Turn ε} {m' : DeviceManager (Holding ε)} {device : Option Nat} (hm : Ready False m)
    (hcall : turn.call m = some (m', device)) : Ready False m' := by
  unfold Turn.call at hcall
  split at hcall
  · cases hcall
    exact hm
  · cases hcall
    exact hm
  · rename_i dev serial usb
    split at hcall
    · cases hcall
    · have hmade := (ready_makeDevice hm dev serial usb).1
      split at hcall
      · rename_i r u hrun
        cases hcall
        rwa [hrun] at hmade
      · cases hcall
  · cases hcall

theorem ready_afterTurns (descriptions : List Description) (notifier : Notifier) (turns : List (Turn ε)) :
    Ready False (afterTurns (initial descriptions notifier) turns) := by
  induction turns using List.reverseRecOn with
  | nil => exact ready_initial descriptions notifier
  | append_singleton turns turn ih =>
    rw [afterTurns, List.foldl_append]
    cases turn with
    | reprogramDevice device =>
      cases device with
      | none => exact ih
      | some r => exact ready_reprogram r _ ih
    | handler a => exact ready_rules.action ready_usbDeviceAdded ready_reprogram a _ ih

/-- **The handles of the process over every run**: each call of `reprogramDevice` keeps the number of open bitfiles and of
programmer contexts on interface B if and only if each of them has nothing to program or spares them. -/
theorem handles_kept_iff (descriptions : List Description) (notifier : Notifier) (turns : List (Turn ε)) :
    (∀ m device, Called (initial descriptions notifier) turns m device →
      KeepsHandles m (final ((reprogramDevice device).run m))) ↔
    ∀ m device, Called (initial descriptions notifier) turns m device → SparesHandles m device := by
  refine forall_congr' (fun m => forall_congr' (fun device => imp_congr_right ?_))
  rintro ⟨before, turn, -, hcall⟩
  exact reprogramDevice_keeps_iff (ready_call (ready_afterTurns descriptions notifier before) hcall) device

/-- A board on which every call succeeds, with the words its chain has still to shift out, and a bitfile without data. -/
structure Spartan where
  chain : List UInt32

instance : Ftdi Spartan where
  ftdiNew e := (true, e)
  usbOpenDev _ _ e := (none, e)
  usbPurgeBuffers e := (none, e)
  usbReset e := (none, e)
  setBitmode _ _ e := (none, e)
  setLatencyTimer _ e := (none, e)
  writeData bytes e := (bytes.length, e)
  readData size e := (.ok (List.replicate size.toNat 0), e)
  writeData_le _ _ := le_refl _
  readData_le _ _ _ _ h := by
    cases h
    simp

instance : Xc3sprog Spartan where
  fopen _ e := (some (List.replicate 13 0 ++ [0x65, 0, 0, 0, 0]), e)
  hasFastClock _ := true
  ftdiGetErrorString _ := ""
  tapTestLogicReset _ := (none, ⟨[0x24001093]⟩)
  setTapState _ e := (none, e)
  shiftTDITDO e := (.ok (e.chain.headD 0), ⟨e.chain.tail⟩)
  arrayProgram _ _ e := (none, e)
  loopback e := e

/-- The board is attached, and programmed when it is brought up. -/
def broughtUp : List (Turn Spartan) := [.handler (.usbDeviceAdded 7 (.ok "FPGA0001") (Holding.empty ⟨[]⟩))]

def attachedOnce : DeviceManager (Holding Spartan) :=
  afterTurns (initial [⟨"FPGA", "fpga.bit", []⟩] setNotifier) broughtUp

/-- It is programmed again: the call succeeds, and there is one more open bitfile. -/
theorem bitfile_left_open :
    openBitfiles attachedOnce = 1 ∧
    (∃ m, (reprogramDevice (some 0)).run attachedOnce = .ok true m ∧ openBitfiles m = 2) ∧
    ¬ ∀ (turns : List (Turn Spartan)) (m : DeviceManager (Holding Spartan)) (device : Option Nat),
      Called (initial [⟨"FPGA", "fpga.bit", []⟩] setNotifier) turns m device →
        KeepsHandles m (final ((reprogramDevice device).run m)) := by
  have hbefore : openBitfiles attachedOnce = 1 := by decide +kernel
  have hcall : ∃ m, (reprogramDevice (some 0)).run attachedOnce = .ok true m ∧ openBitfiles m = 2 := by
    have hends : (match (reprogramDevice (some 0)).run attachedOnce with
        | .ok b m => (b, openBitfiles m)
        | .error _ m => (false, openBitfiles m)) = (true, 2) := by decide +kernel
    cases hrun : (reprogramDevice (some 0)).run attachedOnce with
    | ok b m =>
      rw [hrun] at hends
      obtain ⟨rfl, hm⟩ := Prod.mk.inj hends
      exact ⟨m, rfl, hm⟩
    | error e m =>
      rw [hrun] at hends
      cases (Prod.mk.inj hends).1
  refine ⟨hbefore, hcall, fun h => ?_⟩
  obtain ⟨m, hrun, hm⟩ := hcall
  have hcalled : Called (initial [⟨"FPGA", "fpga.bit", []⟩] setNotifier) (broughtUp ++ [.reprogramDevice (some 0)])
      attachedOnce (some 0) := ⟨broughtUp, .reprogramDevice (some 0), List.prefix_refl _, rfl⟩
  have hkept := (h _ _ _ hcalled).1
  rw [hrun, Base.final_ok, hm] at hkept
  exact absurd (hkept.trans hbefore) (by decide)

end DeviceManager
end Fpga
