import FpgaServer.Retraces
import FpgaServer.IoFtdi
import FpgaServer.Line
import FpgaServer.Mpsse
/-!
# Cable — the cable with a chip at its end

`Chip` is the environment of an `IoFtdi` with a serial engine behind the channel: the bytes that reach it go through the engine,
its answers wait to be read, and the scripts of `Line` say how each write and each read goes.  `link` is where the engine stands
once `usbuf` has gone out too, with the answers not yet read; since it does not matter how the stream is cut, a program moves it
by the commands it adds (`Emits`), whenever they are sent.
-/
namespace Fpga
namespace Xc3s

open Base

structure Chip (σ : Type) where
  engine : Engine σ
  pending : List UInt8
  writes : List WriteStep
  reads : List ReadStep

variable {σ α β : Type} [Target σ]

namespace Chip

def receive (c : Chip σ) (bytes : List UInt8) : Chip σ :=
  { c with engine := ((mpsse σ).run c.engine bytes).1, pending := c.pending ++ ((mpsse σ).run c.engine bytes).2 }

def writeData (bytes : List UInt8) (c : Chip σ) : Int × Chip σ :=
  match c.writes with
  | [] => (bytes.length, c.receive bytes)
  | .full :: ws => (bytes.length, { c.receive bytes with writes := ws })
  | .cut k r :: ws => (min r (bytes.length - 1), { c.receive (bytes.take k) with writes := ws })

def readData (size : Int) (c : Chip σ) : Except Int (List UInt8) × Chip σ :=
  match c.reads with
  | [] => (.ok (c.pending.take size.toNat), { c with pending := c.pending.drop size.toNat })
  | .deliver k :: rs => (.ok (c.pending.take (min k size.toNat)),
      { c with pending := c.pending.drop (min k size.toNat), reads := rs })
  | .fail code :: rs => (.error code, { c with reads := rs })

end Chip

instance : Ftdi (Chip σ) where
  ftdiNew c := (true, c)
  usbOpenDev _ _ c := (none, c)
  usbPurgeBuffers c := (none, c)
  usbReset c := (none, c)
  setBitmode _ _ c := (none, c)
  setLatencyTimer _ c := (none, c)
  writeData := Chip.writeData
  readData := Chip.readData
  writeData_le bytes c := by
    unfold Chip.writeData
    split <;> simp only [Int.le_refl]
    omega
  readData_le size c bytes _ h := by
    unfold Chip.readData at h
    split at h
    · cases h
      exact List.length_take_le _ _
    · cases h
      exact (List.length_take_le _ _).trans (Nat.min_le_right _ _)
    · cases h

/-- A write reported as complete is complete. -/
theorem Chip.writeData_full {bytes : List UInt8} {c : Chip σ} (h : (c.writeData bytes).1 = bytes.length) :
    ∃ ws, (c.writeData bytes).2 = { c.receive bytes with writes := ws } := by
  unfold writeData at h ⊢
  split at h
  · exact ⟨c.writes, rfl⟩
  · exact ⟨_, rfl⟩
  · simp only at h
    omega

omit [Target σ] in
/-- A read takes bytes off the front of the waiting ones. -/
theorem Chip.readData_spec (size : Nat) (c : Chip σ) : ∃ pending reads,
    (c.readData size).2 = { c with pending := pending, reads := reads } ∧
      (∀ bytes, (c.readData size).1 = .ok bytes → bytes ++ pending = c.pending ∧ bytes.length ≤ size) ∧
      (∀ code, (c.readData size).1 = .error code → pending = c.pending) := by
  unfold readData
  split
  · refine ⟨_, c.reads, rfl, fun bytes h => ?_, fun code h => by cases h⟩
    cases h
    exact ⟨List.take_append_drop _ _, List.length_take_le _ _⟩
  · refine ⟨_, _, rfl, fun bytes h => ?_, fun code h => by cases h⟩
    cases h
    exact ⟨List.take_append_drop _ _, (List.length_take_le _ _).trans (Nat.min_le_right _ _)⟩
  · refine ⟨c.pending, _, rfl, ?_, fun code h => rfl⟩
    intro bytes h
    cases h

/-! ## The link -/

/-- An engine with the answers not yet read. -/
structure Link (σ : Type) where
  engine : Engine σ
  owed : List UInt8

def Link.fed (l : Link σ) (bytes : List UInt8) : Link σ :=
  ⟨((mpsse σ).run l.engine bytes).1, l.owed ++ ((mpsse σ).run l.engine bytes).2⟩

@[simp] theorem Link.fed_nil (l : Link σ) : l.fed [] = l := by
  simp [fed]

theorem Link.fed_append (l : Link σ) (as bs : List UInt8) : l.fed (as ++ bs) = (l.fed as).fed bs := by
  simp only [fed, Transducer.run_append, List.append_assoc]

namespace IoFtdi

/-- The link once `usbuf` has gone out. -/
def link (io : IoFtdi (Chip σ)) : Link σ := Link.fed ⟨io.usb.engine, io.usb.pending⟩ io.usbuf

/-- From one state to the other the engine is given these bytes; the rest of the object stays. -/
structure Moved (bytes : List UInt8) (io io' : IoFtdi (Chip σ)) : Prop where
  link : io'.link = io.link.fed bytes
  tmsBuf : io'.tmsBuf = io.tmsBuf
  hasFastClock : io'.hasFastClock = io.hasFastClock
  tckFreq : io'.tckFreq = io.tckFreq

theorem Moved.refl (io : IoFtdi (Chip σ)) : Moved [] io io := ⟨(Link.fed_nil _).symm, rfl, rfl, rfl⟩

theorem Moved.trans {as bs : List UInt8} {io io' io'' : IoFtdi (Chip σ)} (h : Moved as io io') (h' : Moved bs io' io'') :
    Moved (as ++ bs) io io'' where
  link := by rw [h'.link, h.link, Link.fed_append]
  tmsBuf := h'.tmsBuf.trans h.tmsBuf
  hasFastClock := h'.hasFastClock.trans h.hasFastClock
  tckFreq := h'.tckFreq.trans h.tckFreq

/-- A run that returns has given the engine these bytes, sent or to be sent. -/
def Emits (bytes : List UInt8) (x : IoM (Chip σ) α) : Prop := ∀ io a io', x.run io = .ok a io' → Moved bytes io io'

theorem Emits.pure (a : α) : Emits [] (pure a : IoM (Chip σ) α) := by
  intro io b io' h
  cases h
  exact Moved.refl io

theorem Emits.bind {as bs : List UInt8} {x : IoM (Chip σ) α} {f : α → IoM (Chip σ) β} (hx : Emits as x)
    (hf : ∀ a, Emits bs (f a)) : Emits (as ++ bs) (x >>= f) := by
  intro io b io' h
  obtain ⟨a, u, hxu, hfu⟩ := bind_ok_iff.1 h
  exact (hx io a u hxu).trans (hf a u b io' hfu)

theorem Emits.forM {γ : Type} {f : γ → IoM (Chip σ) Unit} {bytes : γ → List UInt8} (hf : ∀ c, Emits (bytes c) (f c)) :
    ∀ cs : List γ, Emits (cs.flatMap bytes) (cs.forM f)
  | [] => Emits.pure ()
  | c :: cs => by
    rw [List.flatMap_cons]
    exact (hf c).bind (fun _ => Emits.forM hf cs)

theorem emits_modify (cmd : List UInt8) :
    Emits cmd (modify (fun io => { io with usbuf := io.usbuf ++ cmd }) : IoM (Chip σ) PUnit) := by
  intro io u io' h
  cases h
  exact ⟨Link.fed_append _ _ _, rfl, rfl, rfl⟩

/-- A read has taken bytes off the front of the answers, with nothing left to send. -/
structure Took (bytes : List UInt8) (io io' : IoFtdi (Chip σ)) : Prop where
  engine : io'.link.engine = io.link.engine
  owed : bytes ++ io'.link.owed = io.link.owed
  tmsBuf : io'.tmsBuf = io.tmsBuf
  hasFastClock : io'.hasFastClock = io.hasFastClock
  tckFreq : io'.tckFreq = io.tckFreq
  usbuf : io'.usbuf = []

theorem Took.trans {as bs : List UInt8} {io io' io'' : IoFtdi (Chip σ)} (h : Took as io io') (h' : Took bs io' io'') :
    Took (as ++ bs) io io'' where
  engine := h'.engine.trans h.engine
  owed := by rw [List.append_assoc, h'.owed, h.owed]
  tmsBuf := h'.tmsBuf.trans h.tmsBuf
  hasFastClock := h'.hasFastClock.trans h.hasFastClock
  tckFreq := h'.tckFreq.trans h.tckFreq
  usbuf := h'.usbuf

theorem Took.refl {io : IoFtdi (Chip σ)} (hsent : io.usbuf = []) : Took [] io io := ⟨rfl, rfl, rfl, rfl, rfl, hsent⟩

theorem took_of_pending {io : IoFtdi (Chip σ)} (hsent : io.usbuf = []) {bytes pending : List UInt8} {reads : List ReadStep}
    (h : bytes ++ pending = io.usb.pending) :
    Took bytes io { io with usb := { io.usb with pending := pending, reads := reads } } where
  engine := by simp only [link, hsent, Link.fed_nil]
  owed := by simpa only [link, hsent, Link.fed_nil] using h
  tmsBuf := rfl
  hasFastClock := rfl
  tckFreq := rfl
  usbuf := hsent

variable [Host (Chip σ)]

/-- `mpsse_send` empties `usbuf` and changes nothing else, seen from the other end. -/
theorem mpsseSend_ok {io io' : IoFtdi (Chip σ)} {u : Unit} (h : mpsseSend.run io = .ok u io') :
    Moved [] io io' ∧ io'.usbuf = [] := by
  rw [run_mpsseSend] at h
  by_cases hempty : io.usbuf = []
  · rw [if_pos hempty] at h
    cases h
    exact ⟨Moved.refl io, hempty⟩
  · rw [if_neg hempty] at h
    by_cases hw : (Ftdi.writeData io.usbuf io.usb).1 = io.usbuf.length
    · rw [if_pos hw] at h
      obtain ⟨ws, hchip⟩ := Chip.writeData_full hw
      cases h
      refine ⟨⟨?_, rfl, rfl, rfl⟩, rfl⟩
      have husb : (Ftdi.writeData io.usbuf io.usb).2 = { io.usb.receive io.usbuf with writes := ws } := hchip
      simp only [link, husb, Link.fed_nil]
      rfl
    · rw [if_neg hw] at h
      cases h

theorem emits_mpsseSend : Emits [] (mpsseSend : IoM (Chip σ) Unit) := fun _ _ _ h => (mpsseSend_ok h).1

/-- The commands added, sent before or not. -/
theorem emits_mpsseAddCmd (cmd : List UInt8) : Emits cmd (mpsseAddCmd cmd : IoM (Chip σ) Unit) := by
  intro io u io' h
  rw [run_mpsseAddCmd] at h
  split at h
  · exact emits_mpsseSend.bind (fun _ => emits_modify cmd) io u io' h
  · cases h
    exact ⟨Link.fed_append _ _ _, rfl, rfl, rfl⟩

/-! ## Reading -/

omit [Host (Chip σ)] in
/-- `ftdi_read_data` on the chip. -/
theorem readData_ok {len : Nat} {io io' : IoFtdi (Chip σ)} {r : List UInt8 × Int} (hsent : io.usbuf = [])
    (h : (readData len).run io = .ok r io') : Took r.1 io io' ∧ r.1.length ≤ len := by
  obtain ⟨pending, reads, husb, hok, herror⟩ := Chip.readData_spec len io.usb
  unfold readData at h
  rw [onUsb, EStateM.run_bind, EStateM.run_modifyGet] at h
  have husb' : (Ftdi.readData (len : Int) io.usb).2 = { io.usb with pending := pending, reads := reads } := husb
  have hok' : ∀ bytes, (Ftdi.readData (len : Int) io.usb).1 = .ok bytes → _ := hok
  have herror' : ∀ code, (Ftdi.readData (len : Int) io.usb).1 = .error code → _ := herror
  rw [husb'] at h
  cases hres : (Ftdi.readData (len : Int) io.usb).1 with
  | ok bytes =>
    obtain ⟨hfront, hlen⟩ := hok' bytes hres
    simp only [hres] at h
    cases h
    exact ⟨took_of_pending hsent hfront, hlen⟩
  | error code =>
    have hsame := herror' code hres
    simp only [hres] at h
    cases h
    exact ⟨took_of_pending hsent hsame, Nat.zero_le _⟩

theorem retry_ok {len : Nat} : ∀ (left : Nat) (r : Reading) (io : IoFtdi (Chip σ)) {r' : Reading} {io' : IoFtdi (Chip σ)},
    io.usbuf = [] → r.read.length ≤ len → (retry len left r).run io = .ok r' io' →
      ∃ more, r'.read = r.read ++ more ∧ Took more io io' ∧ r'.read.length ≤ len
  | 0, r, io, r', io', hsent, hr, h => by
    cases h
    exact ⟨[], (List.append_nil _).symm, Took.refl hsent, hr⟩
  | left + 1, r, io, r', io', hsent, hr, h => by
    unfold retry at h
    split at h
    · obtain ⟨got, u, hread, h⟩ := bind_ok_iff.1 h
      obtain ⟨htook, hgot⟩ := readData_ok hsent hread
      obtain ⟨_, _, hget, h⟩ := bind_ok_iff.1 h
      cases hget
      have hlen : (r.read ++ got.1).length ≤ len := by
        rw [List.length_append]
        omega
      obtain ⟨more, hmore, htook', hlen'⟩ := retry_ok left _ u htook.usbuf hlen h
      exact ⟨got.1 ++ more, by rw [hmore, List.append_assoc], htook.trans htook', hlen'⟩
    · cases h
      exact ⟨[], (List.append_nil _).symm, Took.refl hsent, hr⟩

/-- **A read gets the front of the answers**, no more than it wants. -/
theorem readusb_ok {len : Nat} {io io' : IoFtdi (Chip σ)} {bytes : List UInt8} (hready : io.link.engine.expect = .command)
    (h : (readusb len).run io = .ok bytes io') : Took bytes io io' ∧ bytes.length ≤ len := by
  unfold readusb at h
  obtain ⟨_, io1, hadd, h⟩ := bind_ok_iff.1 h
  obtain ⟨_, io2, hsend, h⟩ := bind_ok_iff.1 h
  obtain ⟨got, io3, hread, h⟩ := bind_ok_iff.1 h
  obtain ⟨r, io4, hretry, h⟩ := bind_ok_iff.1 h
  have hmoved : Moved [0x87] io io2 := (emits_mpsseAddCmd [0x87] io _ io1 hadd).trans (mpsseSend_ok hsend).1
  have hlink : io2.link = io.link := by
    rw [hmoved.link, Link.fed, Engine.run_sendImmediate hready, List.append_nil]
  obtain ⟨htook, hgot⟩ := readData_ok (mpsseSend_ok hsend).2 hread
  obtain ⟨more, hmore, htook', hlen⟩ := retry_ok 1000 _ io3 htook.usbuf hgot hretry
  have htaken : Took r.read io io4 := by
    have hall := htook.trans htook'
    rw [← hmore] at hall
    exact ⟨hall.engine.trans (congrArg Link.engine hlink), hall.owed.trans (congrArg Link.owed hlink),
      hall.tmsBuf.trans hmoved.tmsBuf, hall.hasFastClock.trans hmoved.hasFastClock, hall.tckFreq.trans hmoved.tckFreq,
      hall.usbuf⟩
  by_cases hwaited : r.waited = true ∧ r.lastErrno ≠ 0
  · rw [if_pos hwaited] at h
    cases h
  · rw [if_neg hwaited] at h
    by_cases hlast : r.lastRead < 0
    · simp only [if_pos hlast] at h
      cases h
    · simp only [if_neg hlast] at h
      cases h
      exact ⟨htaken, hlen⟩

end IoFtdi
end Xc3s
end Fpga
