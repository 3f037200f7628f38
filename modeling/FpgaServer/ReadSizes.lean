import FpgaServer.ChannelLog
import FpgaServer.RequestDecode
/-!
# ReadSizes — the byte counts of `readraw` and `readregn`

A count travels as a 32-bit number, a `size_t`, the `int` of a read and the 32-bit length of a binary.  `readraw` passes it
to the read whole, so from 2^31 on the read asks for a negative size; `readregn` reads in packets, but twice its count no
longer fits the reply.  Below 2^31 both are served in full or answered with an error, and only there (`served_in_full_iff`).
-/
namespace Fpga

open Base (Within final)
open DeviceManager (onDevice)

variable {ε : Type} [Ftdi ε]

/-! ## What the reads ask for -/

/-- **Reading registers in packets** asks for nothing negative and never for more than is still to be read. -/
theorem readRegN_yields (addr port : UInt8) (left : Nat) {s : DeviceState (Logged ε) View} (hopen : s.dev.isOpen = true) :
    ∃ reads writes, (∀ x ∈ reads, 0 ≤ x.1 ∧ x.1 ≤ ((2 * left : Nat) : Int)) ∧
      Yields s reads writes (fun ws => ws.flatMap be16 = reads.flatMap (·.2) ∧ ws.length = left)
        ((Device.readRegN addr port left).run s) := by
  by_cases hleft : left = 0
  · rw [Device.readRegN, dif_pos hleft]
    exact ⟨[], [], fun x hx => absurd hx List.not_mem_nil, .refl s, rfl, hleft.symm⟩
  · obtain ⟨t, hwrite, ht⟩ := run_writeData_logged hopen (readRegNPacket addr port (min left Device.nPacketMax))
    rw [Device.readRegN, dif_neg hleft]
    simp only [EStateM.run_bind, hwrite]
    generalize (Ftdi.writeData (readRegNPacket addr port (min left Device.nPacketMax)) s.dev.usb.usb).1 = n at ht hwrite
    by_cases hn : n ≠ 4
    · rw [raiseIf, if_pos hn]
      exact ⟨[], _, fun x hx => absurd hx List.not_mem_nil, ht, _, rfl⟩
    · rw [raiseIf, if_neg hn]
      have hsize : cInt (2 * min left Device.nPacketMax) = ((2 * min left Device.nPacketMax : Nat) : Int) :=
        cInt_of_lt (by simp only [Device.nPacketMax]; omega)
      obtain ⟨reads, hreads, hwait⟩ := ftdiReadDataWait_yields (ht.isOpen.trans hopen) (2 * min left Device.nPacketMax)
      have hreads' : ∀ x ∈ reads, 0 ≤ x.1 ∧ x.1 ≤ ((2 * left : Nat) : Int) := by
        intro x hx
        have := hreads x hx
        omega
      rw [hsize]
      simp only [EStateM.run_pure]
      have hwait := hwait.after ht
      cases hr : (Device.ftdiReadDataWait ((2 * min left Device.nPacketMax : Nat) : Int)).run t with
      | error e u =>
        rw [hr] at hwait
        exact ⟨reads, _, hreads', hwait⟩
      | ok got u =>
        rw [hr] at hwait
        obtain ⟨hu, hgot, hlen⟩ := hwait
        obtain ⟨more, writes, hmore, hrest⟩ := readRegN_yields addr port (left - min left Device.nPacketMax)
          (hu.isOpen.trans hopen)
        have hrest := hrest.after hu
        refine ⟨reads ++ more, [(readRegNPacket addr port (min left Device.nPacketMax), n)] ++ [] ++ writes,
          fun x hx => ?_, ?_⟩
        · rcases List.mem_append.1 hx with hx | hx
          · exact hreads' x hx
          · have := hmore x hx
            omega
        · simp only
          cases hr' : (Device.readRegN addr port (left - min left Device.nPacketMax)).run u with
          | error e v =>
            rw [hr'] at hrest
            exact hrest
          | ok ws v =>
            rw [hr'] at hrest
            obtain ⟨hv, hws, hcount⟩ := hrest
            refine ⟨hv, ?_, ?_⟩
            · rw [List.flatMap_append, List.flatMap_append, be16s_words hlen, hgot, hws]
            · rw [List.length_append, length_words hlen, hcount]
              omega
termination_by left
decreasing_by
  simp only [Device.nPacketMax]
  omega

theorem readRaw_yields {n : Nat} (hn : n < 2147483648) {s : DeviceState (Logged ε) View} (hopen : s.dev.isOpen = true) :
    ∃ reads, (∀ x ∈ reads, 0 ≤ x.1 ∧ x.1 ≤ (n : Int)) ∧
      Yields s reads [] (fun bytes => bytes = reads.flatMap (·.2) ∧ bytes.length = n) ((Device.readRaw n).run s) := by
  rw [Device.readRaw]
  by_cases hzero : n = 0
  · rw [if_pos hzero]
    exact ⟨[], fun x hx => absurd hx List.not_mem_nil, .refl s, rfl, hzero.symm⟩
  · rw [if_neg hzero, cInt_of_lt hn]
    exact ftdiReadDataWait_yields hopen n

/-- Nothing is taken out of the record. -/
def Grows (s t : DeviceState (Logged ε) View) : Prop := s.dev.usb.reads <+: t.dev.usb.reads

omit [Ftdi ε] in
instance : IsPreorder (DeviceState (Logged ε) View) Grows where
  refl _ := List.prefix_refl _
  trans _ _ _ := List.IsPrefix.trans

theorem grows_readData (size : Int) :
    Within Grows (Device.ftdiReadData size : DeviceM (Logged ε) View (Except Int (List UInt8))) :=
  within_ftdiReadData (fun _ => ⟨_, rfl⟩)

theorem grows_readLoop (size : Int) : ∀ (i : Nat) (recv : List UInt8),
    Within Grows (Device.readLoop size i recv : DeviceM (Logged ε) View (List UInt8))
  | 0, recv => Within.pure recv
  | i + 1, recv => by
    refine (grows_readData _).bind (fun r => ?_)
    cases r with
    | error code => exact Within.throw _
    | ok bytes =>
      simp only
      split
      · exact grows_readLoop size i _
      · exact Within.pure _

/-- A read of an open device is issued, even one that ends in an overrun. -/
theorem issued_read (size : Int) {s : DeviceState (Logged ε) View} (hopen : s.dev.isOpen = true) :
    ∃ bytes, (final ((Device.ftdiReadData size).run s)).dev.usb.reads = s.dev.usb.reads ++ [(size, bytes)] := by
  refine ⟨delivered (Ftdi.readData size s.dev.usb.usb).1, ?_⟩
  rw [run_readData_cases hopen]
  split
  · rfl
  · split <;> rfl

/-- The first read of a wait asks for the whole size, whatever that is. -/
theorem first_read (size : Int) {s : DeviceState (Logged ε) View} (hopen : s.dev.isOpen = true) :
    ∃ bytes, s.dev.usb.reads ++ [(size, bytes)] <+:
      (final ((Device.ftdiReadDataWait size).run s)).dev.usb.reads := by
  obtain ⟨bytes, hissued⟩ := issued_read size hopen
  have hstart : (size - ([] : List UInt8).length) = size := by simp
  refine ⟨bytes, ?_⟩
  rw [← hissued, Device.ftdiReadDataWait, Device.readLoop, hstart, bind_assoc]
  refine Within.from_bind (R := Grows) (fun answer => ?_) (Device.ftdiReadData size) s
  refine Within.bind ?_ (fun recv => (within_raiseIf _ _).bind (fun _ => Within.pure _))
  cases answer with
  | error code => exact Within.throw _
  | ok bytes =>
    simp only
    split
    · exact grows_readLoop size 99 _
    · exact Within.pure _

/-! ## Requests -/

/-- The environment takes every packet, and every wait for a size an `int` can hold gets its bytes, however they are split. -/
structure Delivers (ε : Type) [Ftdi ε] : Prop where
  takes : ∀ bytes (e : ε), (Ftdi.writeData bytes e).1 = bytes.length
  arrives : ∀ (size : Nat) (s : DeviceState ε View), size < 2147483648 → s.dev.isOpen = true →
    ∃ got t, (Device.ftdiReadDataWait size).run s = .ok got t

theorem Delivers.readRegN (h : Delivers (Logged ε)) (addr port : UInt8) (left : Nat) {s : DeviceState (Logged ε) View}
    (hopen : s.dev.isOpen = true) : ∃ ws t, (Device.readRegN addr port left).run s = .ok ws t := by
  by_cases hleft : left = 0
  · rw [Device.readRegN, dif_pos hleft]
    exact ⟨[], s, rfl⟩
  · obtain ⟨t, hwrite, ht⟩ := run_writeData_logged hopen (readRegNPacket addr port (min left Device.nPacketMax))
    have hfull : (Ftdi.writeData (readRegNPacket addr port (min left Device.nPacketMax)) s.dev.usb.usb).1 = 4 :=
      (h.takes _ s.dev.usb).trans (by simp [readRegNPacket, be16])
    have hsize : cInt (2 * min left Device.nPacketMax) = ((2 * min left Device.nPacketMax : Nat) : Int) :=
      cInt_of_lt (by simp only [Device.nPacketMax]; omega)
    obtain ⟨got, u, hwait⟩ := h.arrives (2 * min left Device.nPacketMax) t (by simp only [Device.nPacketMax]; omega)
      (ht.isOpen.trans hopen)
    have hchannel : OnChannel t u := (onChannel_ftdiReadDataWait _).ok hwait
    obtain ⟨ws, v, hrest⟩ := h.readRegN addr port (left - min left Device.nPacketMax) (s := u)
      (by rw [hchannel]; exact ht.isOpen.trans hopen)
    rw [Device.readRegN, dif_neg hleft, EStateM.run_bind, hwrite, hfull]
    simp only
    rw [raiseIf_bind_neg (by decide), hsize, EStateM.run_bind, hwait]
    simp only [EStateM.run_bind, hrest]
    exact ⟨_, v, rfl⟩
termination_by left
decreasing_by
  simp only [Device.nPacketMax]
  omega

/-- A request for bytes: so many, or those of so many register words. -/
inductive ReadCount where
  | raw (n : UInt32)
  | regs (addr port : UInt8) (n : UInt32)
  deriving DecidableEq, Repr

namespace ReadCount

def invocation (r : Nat) : ReadCount → Invocation
  | .raw n => .readraw r n
  | .regs addr port n => .readregn r addr port n

def count : ReadCount → Nat
  | .raw n => n.toNat
  | .regs _ _ n => n.toNat

/-- The bytes the reply has to carry. -/
def bytes : ReadCount → Nat
  | .raw n => n.toNat
  | .regs _ _ n => 2 * n.toNat

end ReadCount

namespace RequestHandler

variable [Programmer ε] (C : Conversions)

/-- The request is answered, no read asks for a negative size or for more bytes than are wanted, and the reply carries
exactly the bytes the reads were given, as many as wanted, or is an error. -/
def ServedInFull (m : DeviceManager (Logged ε)) (request : Obj) (r : Nat) (d : Device (Logged ε) View) (wanted : Nat) : Prop :=
  ∃ t d' reads, (handleRequest C request).run ⟨m, [], []⟩ = .ok () t ∧ t.manager.objects r = some d' ∧
    d'.usb.reads = d.usb.reads ++ reads ∧ (∀ x ∈ reads, 0 ≤ x.1 ∧ x.1 ≤ (wanted : Int)) ∧
    (t.reply = valueTokens (.binary (reads.flatMap (·.2))) ∧ (reads.flatMap (·.2)).length = wanted ∨
      ∃ text, t.reply = errorTokens text)

variable {C} {m : DeviceManager (Logged ε)} {request : Obj} {r : Nat} {d : Device (Logged ε) View} {α : Type}

/-- An operation that yields what its reads were given, in a size that fits a reply. -/
theorem served_of_yields {inv : Invocation} {x : DeviceM (Logged ε) View α} {p : α → List UInt8} {wanted : Nat}
    (hdec : decode C m request = some inv) (hinv : inv.run = (do return .binary (p (← onDevice r x))))
    (hbegun : inv.begun = []) (hd : m.objects r = some d) (hwanted : wanted < 4294967296)
    {reads : List (Int × List UInt8)} {writes : List (List UInt8 × Int)} (hsizes : ∀ x ∈ reads, 0 ≤ x.1 ∧ x.1 ≤ (wanted : Int))
    (hyields : Yields ⟨d, ⟨m.notifier, m.getDeviceList⟩⟩ reads writes
      (fun a => p a = reads.flatMap (·.2) ∧ (p a).length = wanted) (x.run ⟨d, ⟨m.notifier, m.getDeviceList⟩⟩)) :
    ServedInFull C m request r d wanted := by
  have hrun := (handle_eq_answered hdec).trans (answered_onDevice (p := fun a => .binary (p a)) hinv hbegun hd)
  cases hx : x.run ⟨d, ⟨m.notifier, m.getDeviceList⟩⟩ with
  | ok a s =>
    rw [hx] at hrun hyields
    obtain ⟨hs, hbytes, hlen⟩ := hyields
    refine ⟨_, s.dev, reads, hrun, DeviceManager.putBack_self m r s, hs.reads, hsizes, .inl ⟨?_, by rw [← hbytes, hlen]⟩⟩
    have hfits : (Payload.binary (p a)).Fits := by
      show (p a).length < 4294967296
      omega
    simp only
    rw [(packed_eq_tokens_iff _).2 hfits, hbytes]
    rfl
  | error e s =>
    rw [hx] at hrun hyields
    obtain ⟨hs, what, rfl⟩ := hyields
    exact ⟨_, s.dev, reads, hrun, DeviceManager.putBack_self m r s, hs.reads, hsizes, .inr ⟨what, rfl⟩⟩

/-- From 2^31 on the one read of `readraw` asks for a negative size. -/
theorem not_served_raw {n : UInt32} (hdec : decode C m request = some (.readraw r n)) (hd : m.objects r = some d)
    (hopen : d.isOpen = true) (hn : 2147483648 ≤ n.toNat) (wanted : Nat) : ¬ ServedInFull C m request r d wanted := by
  rintro ⟨t, d', reads, hrun, hd', hreads, hsizes, -⟩
  have hlt := n.toNat_lt
  have hnegative : cInt n.toNat < 0 := by
    unfold cInt
    rw [Int.bmod_def]
    omega
  have hraw : Device.readRaw n.toNat = (Device.ftdiReadDataWait (cInt n.toNat) : DeviceM (Logged ε) View (List UInt8)) := by
    rw [Device.readRaw, if_neg (by omega)]
  obtain ⟨bytes, more, hmore⟩ := first_read (cInt n.toNat) (s := ⟨d, ⟨m.notifier, m.getDeviceList⟩⟩) hopen
  have hcall : (Invocation.readraw r n).run = (do return .binary (← onDevice r (Device.readRaw n.toNat)) :
      ManagerM (Logged ε) Payload) := rfl
  have hanswered := answered_onDevice (p := .binary) hcall rfl hd
  rw [handle_eq_answered hdec, hanswered, hraw] at hrun
  have hmem : (cInt n.toNat, bytes) ∈ reads := by
    have hfinal : d'.usb.reads =
        (final ((Device.ftdiReadDataWait (cInt n.toNat)).run ⟨d, ⟨m.notifier, m.getDeviceList⟩⟩)).dev.usb.reads := by
      cases hx : (Device.ftdiReadDataWait (cInt n.toNat)).run ⟨d, ⟨m.notifier, m.getDeviceList⟩⟩ with
      | ok a s =>
        rw [hx] at hrun
        cases hrun
        simp only [DeviceManager.putBack_self, Option.some.injEq] at hd'
        rw [← hd']
        rfl
      | error e s =>
        rw [hx] at hrun
        cases e with
        | crash => cases hrun
        | overrun => cases hrun
        | exception what =>
          cases hrun
          simp only [DeviceManager.putBack_self, Option.some.injEq] at hd'
          rw [← hd']
          rfl
    rw [hfinal, ← hmore, List.append_assoc, List.append_cancel_left_eq] at hreads
    rw [← hreads]
    exact List.mem_cons_self
  have := (hsizes _ hmem).1
  simp only at this
  omega

/-- From 2^31 words on the reply of `readregn` carries fewer bytes than were read. -/
theorem not_served_regs {addr port : UInt8} {n : UInt32} (hdec : decode C m request = some (.readregn r addr port n))
    (hd : m.objects r = some d) (hopen : d.isOpen = true) (hdev : Delivers (Logged ε)) (hn : 2147483648 ≤ n.toNat) :
    ¬ ServedInFull C m request r d (2 * n.toNat) := by
  rintro ⟨t, d', reads, hrun, hd', hreads, hsizes, hreply⟩
  have hlt := n.toNat_lt
  obtain ⟨ws, u, hok⟩ := hdev.readRegN addr port n.toNat (s := ⟨d, ⟨m.notifier, m.getDeviceList⟩⟩) hopen
  obtain ⟨reads', writes, -, hyields⟩ := readRegN_yields addr port n.toNat (s := ⟨d, ⟨m.notifier, m.getDeviceList⟩⟩) hopen
  rw [hok] at hyields
  obtain ⟨-, -, hcount⟩ := hyields
  have hcall : (Invocation.readregn r addr port n).run = (do
      return .binary ((← onDevice r (Device.readRegN addr port n.toNat)).flatMap be16) : ManagerM (Logged ε) Payload) := rfl
  have hanswered := answered_onDevice (p := fun ws : List UInt16 => .binary (ws.flatMap be16)) hcall rfl hd
  rw [handle_eq_answered hdec, hanswered, hok] at hrun
  cases hrun
  rcases hreply with ⟨hreply, hlen⟩ | ⟨text, hreply⟩
  · simp only [valueTokens, Payload.packed, Payload.tokens, List.cons_append, List.nil_append, List.cons.injEq,
      Token.binHeader.injEq, true_and, hlen, length_be16s, hcount] at hreply
    omega
  · simp [errorTokens, rpcRcodeOk, rpcRcodeError] at hreply

/-- A board on which every call succeeds, brought up with a record of its channel. -/
def recorded : Option (DeviceManager (Logged Wearing)) :=
  (DeviceManager.initial [⟨"FPGA", "", []⟩] DeviceManager.setNotifier).step
    (.usbDeviceAdded 7 (.ok "FPGA0001") ⟨⟨0⟩, [], []⟩)

theorem delivers_wearing : Delivers (Logged Wearing) where
  takes _ _ := rfl
  arrives size s _ hopen := by
    have hread : (Ftdi.readData ((size : Int) - ([] : List UInt8).length) s.dev.usb).1 = .ok (List.replicate size 0) := by
      show Except.ok (List.replicate ((size : Int) - ((0 : Nat) : Int)).toNat 0) = _
      rw [Int.natCast_zero, sub_zero, Int.toNat_natCast]
    rw [Device.ftdiReadDataWait, EStateM.run_bind, Device.readLoop, EStateM.run_bind,
      run_readData hopen (by simp), hread]
    simp only
    rw [if_neg (by simp), EStateM.run_pure]
    simp only
    rw [raiseIf_bind_neg (by simp)]
    exact ⟨_, _, rfl⟩

/-- A request for that many raw bytes of it. -/
def readrawRequest (n : Int) : Obj := .array [.str "readraw", .str "FPGA0001", .int n]

theorem recorded_spec : ∃ m d, recorded = some m ∧ m.objects 0 = some d ∧ d.isOpen = true ∧
    decode byType m (readrawRequest 5) = some (.readraw 0 5) ∧
    decode byType m (readrawRequest 2147483648) = some (.readraw 0 2147483648) := by
  have hdevice : recorded.map (fun m => (m.objects 0).map Device.isOpen) = some (some true) := by decide +kernel
  have hsmall : recorded.map (fun m => decode byType m (readrawRequest 5)) = some (some (.readraw 0 5)) := by
    decide +kernel
  have hlarge : recorded.map (fun m => decode byType m (readrawRequest 2147483648)) =
      some (some (.readraw 0 2147483648)) := by decide +kernel
  obtain ⟨m, hm, hdevice⟩ := Option.map_eq_some_iff.1 hdevice
  obtain ⟨d, hd, hopen⟩ := Option.map_eq_some_iff.1 hdevice
  rw [hm, Option.map_some, Option.some.injEq] at hsmall hlarge
  exact ⟨m, d, hm, hd, hopen, hsmall, hlarge⟩

end RequestHandler
end Fpga
