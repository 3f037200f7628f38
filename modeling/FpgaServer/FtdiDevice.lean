import FpgaServer.FtdiData
import FpgaServer.ChannelLog
import FpgaServer.Retraces
/-!
# FtdiDevice — a device on the channel of `libftdi/ftdi.c`

The environment of a device once more, with `ftdi_read_data` and `ftdi_write_data` as libftdi has them.  The context is that of
interface A, the one a device reads and writes; the calls that move no data are those of the bus, and a reset or a new opening empties
`readbuffer`.  It is closed only with the device, which then reads nothing.  `Traced` keeps what the reads have returned, what the writes
were given, and whether a call has failed.

Every request on a device is made of such reads and writes.  So over any run of requests and polls that the process survives, whether
they return or time out, what the device has read and sent is what the packets carry, in order (`turns_in_order`), and a read that
returns has got the next bytes of it (`readRaw_next`).
-/
namespace Fpga
namespace Libftdi

open Base

/-- The calls of libftdi that move no data, and the packet size `ftdi_usb_open_dev` finds. -/
class Bus (ε : Type) extends Usb ε where
  ftdiNew : ε → Bool × ε
  usbOpenDev : Interface → List Interface → ε → Option String × ε
  usbPurgeBuffers : ε → Option String × ε
  usbReset : ε → Option String × ε
  setBitmode : UInt8 → BitMode → ε → Option String × ε
  setLatencyTimer : UInt8 → ε → Option String × ε
  maxPacketSize : ε → Nat

structure Traced (ε : Type) where
  context : FtdiContext ε
  got : List UInt8
  given : List UInt8
  failed : Bool

variable {ε α : Type}

/-- `readbuffer` emptied. -/
def FtdiContext.emptied (c : FtdiContext ε) : FtdiContext ε := { c with readbufferOffset := 0, readbufferRemaining := 0 }

/-- A call that moves no data. -/
def Traced.below (f : ε → α × ε) (t : Traced ε) : α × Traced ε :=
  ((f t.context.usb).1, { t with context := { t.context with usb := (f t.context.usb).2 } })

def Traced.usbOpenDev [Bus ε] (i : Interface) (claimed : List Interface) (t : Traced ε) : Option String × Traced ε :=
  match t.below (Bus.usbOpenDev i claimed) with
  | (none, t) =>
    -- the context on interface B is another one, and is not read
    if i = .A then
      (none, { t with context := { t.context.emptied with usbDev := true, maxPacketSize := Bus.maxPacketSize t.context.usb } })
    else
      (none, t)
  | (some errorstr, t) => (some errorstr, t)

def Traced.usbReset [Bus ε] (t : Traced ε) : Option String × Traced ε :=
  match t.below Bus.usbReset with
  | (none, t) => (none, { t with context := t.context.emptied })
  | (some errorstr, t) => (some errorstr, t)

/-- What a device sees of a failure.  An overflow counts as a failed call, and nothing is said of a device after it. -/
def Failure.told : Failure → Int
  | .code ret => ret
  | .overflow => -127

/-- The result of a write. -/
def written : Except Failure Nat → Int
  | .ok n => n
  | .error failure => failure.told

section

variable [Usb ε]

def Traced.writeData (bytes : List UInt8) (t : Traced ε) : Int × Traced ε :=
  let r := Libftdi.writeData bytes t.context
  (written r.1, { t with context := r.2, given := t.given ++ bytes, failed := t.failed || !r.1.toBool })

/-- Of a negative size only the checks before the copy: what `readbuffer` has is then enough, and `Device.ftdiReadData` has the copy. -/
def Traced.readData (size : Int) (t : Traced ε) : Except Int (List UInt8) × Traced ε :=
  let r := Libftdi.readData size.toNat t.context
  (r.1.mapError Failure.told,
    { t with context := r.2, got := t.got ++ delivered (r.1.mapError Failure.told), failed := t.failed || !r.1.toBool })

omit [Usb ε] in
theorem ok_of_mapError {result : Except Failure α} {a : α} (h : result.mapError Failure.told = .ok a) : result = .ok a := by
  cases result with
  | ok b => exact congrArg Except.ok (Except.ok.inj h)
  | error failure => cases h

theorem readLoop_length_le (size offset : Nat) (got : List UInt8) (c : FtdiContext ε) : got.length = offset →
    ∀ {r c'}, readLoop size offset got c = (.ok r, c') → r.length ≤ size := by
  fun_induction readLoop size offset got c with
  | case1 | case2 | case6 | case8 =>
    intro hgot r c' hrun
    cases hrun
  | case3 =>
    rename_i hexact
    intro hgot r c' hrun
    cases hrun
    rw [List.length_append, length_region, hgot, hexact]
  | case4 =>
    rename_i ih
    intro hgot r c' hrun
    refine ih ?_ hrun
    rw [List.length_append, length_region, hgot]
  | case5 =>
    intro hgot r c' hrun
    cases hrun
    rw [List.length_append, length_region, hgot]
    omega
  | case7 =>
    rename_i hless _ _ _ _ _
    intro hgot r c' hrun
    cases hrun
    exact hgot ▸ Nat.le_of_lt hless

theorem readData_length_le {size : Nat} {c c' : FtdiContext ε} {r : List UInt8} (h : readData size c = (.ok r, c')) :
    r.length ≤ size := by
  unfold readData at h
  split at h
  · cases h
  · split at h
    · cases h
    · split at h
      · cases h
        exact Nat.le_of_eq (length_region _ _ _)
      · exact readLoop_length_le size _ _ c (length_region _ _ _) h

theorem writeLoop_told (buf : List UInt8) (offset : Nat) (c : FtdiContext ε) :
    ∀ {failure c'}, writeLoop buf offset c = (.error failure, c') → failure.told < 0 := by
  fun_induction writeLoop buf offset c with
  | case1 | case2 =>
    intro failure c' hrun
    cases hrun
    decide
  | case3 offset c h hint n usb hwrite ih => exact ih
  | case4 =>
    intro failure c' hrun
    cases hrun

theorem writeData_le (bytes : List UInt8) (c : FtdiContext ε) : written (writeData bytes c).1 ≤ bytes.length := by
  cases hwrite : writeData bytes c with
  | mk result c' =>
    cases result with
    | ok n => exact Int.ofNat_le.2 (Nat.le_of_eq (writeData_all hwrite).1)
    | error failure =>
      have htold : failure.told < 0 := by
        unfold writeData at hwrite
        split at hwrite
        · cases hwrite
          decide
        · exact writeLoop_told bytes 0 c hwrite
      exact Int.le_trans (Int.le_of_lt htold) (Int.natCast_nonneg _)

end

instance [Bus ε] : Ftdi (Traced ε) where
  ftdiNew := Traced.below Bus.ftdiNew
  usbOpenDev := Traced.usbOpenDev
  usbPurgeBuffers := Traced.below Bus.usbPurgeBuffers
  usbReset := Traced.usbReset
  setBitmode mask mode := Traced.below (Bus.setBitmode mask mode)
  setLatencyTimer t := Traced.below (Bus.setLatencyTimer t)
  writeData := Traced.writeData
  readData := Traced.readData
  writeData_le bytes t := Libftdi.writeData_le bytes t.context
  readData_le _ _ _ _ h := readData_length_le (Prod.ext (ok_of_mapError h) rfl)

/-! ## One call -/

section

variable [Usb ε]

/-- What the device has read and sent in between is what the packets carry. -/
structure InOrder (s t : Traced ε) (ts : List (List UInt8)) (out : List UInt8) : Prop where
  traffic : Traffic s.context.usb ts out t.context.usb
  given : t.given = s.given ++ out
  got : t.got ++ t.context.buffered = s.got ++ s.context.buffered ++ ts.flatMap (payload 2 s.context.maxPacketSize)
  sound : t.context.Sound
  maxPacketSize : t.context.maxPacketSize = s.context.maxPacketSize

theorem InOrder.refl {s : Traced ε} (h : s.context.Sound) : InOrder s s [] [] where
  traffic := .done _
  given := (List.append_nil _).symm
  got := by rw [List.flatMap_nil, List.append_nil]
  sound := h
  maxPacketSize := rfl

theorem InOrder.trans {s t u : Traced ε} {ts us : List (List UInt8)} {out more : List UInt8} (h : InOrder s t ts out)
    (h' : InOrder t u us more) : InOrder s u (ts ++ us) (out ++ more) where
  traffic := h.traffic.trans h'.traffic
  given := by rw [h'.given, h.given, List.append_assoc]
  got := by rw [h'.got, h.got, h.maxPacketSize, List.flatMap_append, List.append_assoc]
  sound := h'.sound
  maxPacketSize := h'.maxPacketSize.trans h.maxPacketSize

/-- Unless a call has failed, all is in order. -/
def Carries (s t : DeviceState (Traced ε) View) : Prop :=
  t.dev.usb.failed = false → s.dev.usb.failed = false ∧
    (s.dev.usb.context.Sound → ∃ ts out, InOrder s.dev.usb t.dev.usb ts out)

theorem Carries.of_usb {s t : DeviceState (Traced ε) View} (h : t.dev.usb = s.dev.usb) : Carries s t := by
  intro hok
  rw [h] at hok ⊢
  exact ⟨hok, fun hs => ⟨[], [], .refl hs⟩⟩

instance : IsPreorder (DeviceState (Traced ε) View) Carries where
  refl _ := Carries.of_usb rfl
  trans s t u h h' := by
    intro hok
    obtain ⟨ht, hrest⟩ := h' hok
    obtain ⟨hs, hfirst⟩ := h ht
    refine ⟨hs, fun hsound => ?_⟩
    obtain ⟨ts, out, hst⟩ := hfirst hsound
    obtain ⟨us, more, htu⟩ := hrest hst.sound
    exact ⟨ts ++ us, out ++ more, hst.trans htu⟩

theorem carries_writeData (bytes : List UInt8) :
    Within Carries (Device.usbCall (Traced.writeData bytes) : DeviceM (Traced ε) View Int) := by
  intro s hok
  have hsplit : (s.dev.usb.failed || !(writeData bytes s.dev.usb.context).1.toBool) = false := hok
  rw [Bool.or_eq_false_iff] at hsplit
  refine ⟨hsplit.1, fun hs => ?_⟩
  cases hresult : (writeData bytes s.dev.usb.context).1 with
  | error failure =>
    rw [hresult] at hsplit
    cases hsplit.2
  | ok n =>
    obtain ⟨hgone, hbuffered, hsound, hpacket⟩ := writeData_ok hs (Prod.ext hresult rfl : writeData bytes s.dev.usb.context = (.ok n, _))
    refine ⟨[], bytes, hgone, rfl, ?_, hsound, hpacket⟩
    rw [List.flatMap_nil, List.append_nil]
    exact congrArg (s.dev.usb.got ++ ·) hbuffered

/-- A read that has not failed. -/
theorem inOrder_readData {s : Traced ε} (hs : s.context.Sound) {size : Int} {bytes : List UInt8}
    (h : (s.readData size).1 = .ok bytes) :
    (∃ ts, InOrder s (s.readData size).2 ts []) ∧ (s.readData size).2.got = s.got ++ bytes := by
  obtain ⟨ts, hts⟩ := readData_ok hs (Prod.ext (ok_of_mapError h) rfl : readData size.toNat s.context = (.ok bytes, _))
  have hgot : (s.readData size).2.got = s.got ++ bytes := by
    have hdelivered : (s.readData size).2.got = s.got ++ delivered (s.readData size).1 := rfl
    rw [hdelivered, h]
    rfl
  refine ⟨⟨ts, hts.traffic, (List.append_nil _).symm, ?_, hts.sound, hts.maxPacketSize⟩, hgot⟩
  rw [hgot, List.append_assoc, List.append_assoc]
  exact congrArg (s.got ++ ·) hts.stream

theorem carries_readData (size : Int) :
    Within Carries (Device.usbCall (Traced.readData size) : DeviceM (Traced ε) View (Except Int (List UInt8))) := by
  intro s hok
  have hsplit : (s.dev.usb.failed || !(readData size.toNat s.dev.usb.context).1.toBool) = false := hok
  rw [Bool.or_eq_false_iff] at hsplit
  refine ⟨hsplit.1, fun hs => ?_⟩
  cases hresult : (readData size.toNat s.dev.usb.context).1 with
  | error failure =>
    rw [hresult] at hsplit
    cases hsplit.2
  | ok bytes =>
    have hreturned : (s.dev.usb.readData size).1 = .ok bytes := congrArg (Except.mapError Failure.told) hresult
    obtain ⟨ts, hin⟩ := (inOrder_readData hs hreturned).1
    exact ⟨ts, [], hin⟩

end

/-! ## Requests -/

variable [Bus ε]

theorem carries_rules : OperationRules (fun α (x : DeviceM (Traced ε) View α) => Within Carries x) where
  pure := Within.pure
  raise _ := Within.throw _
  get := Within.get
  bind := Within.bind
  ftdiWriteData bytes := by
    refine Within.get.bind (fun s => ?_)
    split
    · exact Within.pure _
    · exact carries_writeData bytes
  ftdiReadData size := within_ftdiReadData (carries_readData size)
  storeResult k value := by
    refine Within.get.bind (fun s => ?_)
    split
    · exact Within.pure _
    · refine Within.bind (fun _ => Carries.of_usb rfl) (fun _ => ?_)
      split
      · refine Within.get.bind (fun t => ?_)
        split
        · exact Within.pure _
        · exact Within.zoom (Q := fun _ _ => True) (fun _ => trivial) (fun _ _ _ => Carries.of_usb rfl)
      · exact Within.pure _

/-- A request on a device, or a poll of its tracked registers. -/
inductive Turn where
  | request (op : DeviceManager.DeviceOp)
  | poll

def Turn.run : Turn → DeviceM (Traced ε) View Unit
  | .request op => op.run
  | .poll => Device.updateTrackedRegs

/-- Turns one after the other, whether they return or throw; none where one of them ends the process. -/
def afterTurns : List Turn → DeviceState (Traced ε) View → Option (DeviceState (Traced ε) View)
  | [], s => some s
  | turn :: turns, s =>
    match turn.run.run s with
    | .ok _ t | .error (.exception _) t => afterTurns turns t
    | .error .crash _ | .error .overrun _ => none

theorem carries_turns (turns : List Turn) : ∀ {s t : DeviceState (Traced ε) View}, afterTurns turns s = some t → Carries s t := by
  induction turns with
  | nil =>
    intro s t h
    cases h
    exact Carries.of_usb rfl
  | cons turn turns ih =>
    intro s t h
    have hfirst : Within Carries (turn.run : DeviceM (Traced ε) View Unit) := by
      cases turn with
      | request op => exact carries_rules.deviceOp op
      | poll => exact carries_rules.transfers.updateTrackedRegs
    unfold afterTurns at h
    split at h
    · rename_i u hrun
      exact IsTrans.trans _ _ _ (hfirst.ok hrun) (ih h)
    · rename_i what u hrun
      exact IsTrans.trans _ _ _ (hfirst.error hrun) (ih h)
    · cases h
    · cases h

/-- **The requests of a device read and send in order.**  Over any run of requests and polls that the process survives, whether they
return, time out or throw, and whatever is in the packets and however the transfers are cut: unless a call of libftdi has failed, what
the device has read and what is still in `readbuffer` is what was there and the payload of all packets that came, and what it has sent
is what has gone out. -/
theorem turns_in_order (turns : List Turn) {s t : DeviceState (Traced ε) View} (hs : s.dev.usb.context.Sound)
    (h : afterTurns turns s = some t) (hok : t.dev.usb.failed = false) : ∃ ts out, InOrder s.dev.usb t.dev.usb ts out :=
  (carries_turns turns h hok).2 hs

/-! ## What a read returns -/

/-- A call of `ftdi_read_data` that has returned. -/
theorem run_ftdiReadData {s t : DeviceState (Traced ε) View} {size : Int} {result : Except Int (List UInt8)}
    (h : (Device.ftdiReadData size).run s = .ok result t) :
    (s.dev.usb.readData size).1 = result ∧ t.dev.usb = (s.dev.usb.readData size).2 := by
  obtain ⟨hresult, ht, -⟩ := ftdiReadData_ok h
  exact ⟨hresult, by rw [ht]; rfl⟩

theorem run_readLoop (size : Int) : ∀ (i : Nat) (recv : List UInt8) {s t : DeviceState (Traced ε) View} {r : List UInt8},
    s.dev.usb.context.Sound → (Device.readLoop size i recv).run s = .ok r t →
    ∃ more ts, r = recv ++ more ∧ InOrder s.dev.usb t.dev.usb ts [] ∧ t.dev.usb.got = s.dev.usb.got ++ more
  | 0, recv, s, t, r, hs, h => by
    cases h
    exact ⟨[], [], (List.append_nil _).symm, .refl hs, (List.append_nil _).symm⟩
  | i + 1, recv, s, t, r, hs, h => by
    obtain ⟨result, u, hread, hrest⟩ := bind_ok_iff.1 h
    obtain ⟨hresult, hu⟩ := run_ftdiReadData hread
    cases result with
    | error code => cases hrest
    | ok bytes =>
      obtain ⟨⟨ts, hin⟩, hgot⟩ := inOrder_readData hs hresult
      rw [← hu] at hin hgot
      simp only at hrest
      split at hrest
      · obtain ⟨more, us, hr, hin', hgot'⟩ := run_readLoop size i (recv ++ bytes) hin.sound hrest
        refine ⟨bytes ++ more, ts ++ us, ?_, hin.trans hin', ?_⟩
        · rw [hr, List.append_assoc]
        · rw [hgot', hgot, List.append_assoc]
      · cases hrest
        exact ⟨bytes, ts, rfl, hin, hgot⟩

/-- **`Device::readRaw` returns the next bytes** of what the packets carry, just as many as were asked for, however many calls and
transfers that takes; what came with them stays in `readbuffer`, and nothing is sent. -/
theorem readRaw_next {s t : DeviceState (Traced ε) View} {n : Nat} (hn : n < 2147483648) (hs : s.dev.usb.context.Sound)
    {r : List UInt8} (h : (Device.readRaw n).run s = .ok r t) :
    r.length = n ∧ ∃ ts, Traffic s.dev.usb.context.usb ts [] t.dev.usb.context.usb ∧
      r ++ t.dev.usb.context.buffered = s.dev.usb.context.buffered ++ ts.flatMap (payload 2 s.dev.usb.context.maxPacketSize) := by
  unfold Device.readRaw at h
  by_cases hzero : n = 0
  · rw [if_pos hzero] at h
    cases h
    exact ⟨hzero.symm, [], .done _, by rw [List.flatMap_nil, List.append_nil]; rfl⟩
  · rw [if_neg hzero, cInt_of_lt hn] at h
    obtain ⟨got, u, hloop, hrest⟩ := bind_ok_iff.1 h
    obtain ⟨more, ts, hr, hin, hgot⟩ := run_readLoop n 100 [] hs hloop
    by_cases hshort : (got.length : Int) ≠ n
    · rw [raiseIf_bind_pos hshort] at hrest
      cases hrest
    · rw [raiseIf_bind_neg hshort] at hrest
      cases hrest
      refine ⟨Int.ofNat_inj.1 (Decidable.not_not.1 hshort), ts, hin.traffic, ?_⟩
      have hstream := hin.got
      rw [hgot, List.append_assoc, List.append_assoc] at hstream
      rw [hr, List.nil_append]
      exact List.append_cancel_left hstream

instance : Bus Transfers where
  ftdiNew e := (true, e)
  usbOpenDev _ _ e := (none, e)
  usbPurgeBuffers e := (none, e)
  usbReset e := (none, e)
  setBitmode _ _ e := (none, e)
  setLatencyTimer _ e := (none, e)
  maxPacketSize _ := 64

/-- An open device whose channel has a register value and three bytes more to come, in two transfers. -/
def reading : DeviceState (Traced Transfers) View where
  dev := ⟨"A", 7, some 0, .empty, none, [⟨0, .A, true⟩], 1,
    ⟨{ halves with usb := ⟨[[1, 96, 0x12, 0x34, 9], [1, 96, 8, 7]], []⟩ }, [], [], false⟩⟩
  out := ⟨⟨none, none, none, []⟩, []⟩

theorem turns_in_order_reading : ∃ (t : DeviceState (Traced Transfers) View) (ts : List (List UInt8)),
    afterTurns [.request (.readReg 1 2), .request (.writeReg 1 2 5), .poll, .request (.readRaw 2)] reading = some t ∧
      InOrder reading.dev.usb t.dev.usb ts [0x10, 0x42, 0x20, 0x42, 0, 5] ∧ t.dev.usb.got = [0x12, 0x34, 9, 8] := by
  have hruns : (afterTurns [.request (.readReg 1 2), .request (.writeReg 1 2 5), .poll, .request (.readRaw 2)] reading).map
      (fun t => (t.dev.usb.failed, t.dev.usb.given, t.dev.usb.got)) =
        some (false, [0x10, 0x42, 0x20, 0x42, 0, 5], [0x12, 0x34, 9, 8]) := by
    decide +kernel
  have hsound : reading.dev.usb.context.Sound := ⟨by decide, by decide⟩
  obtain ⟨t, hrun, heq⟩ := Option.map_eq_some_iff.1 hruns
  obtain ⟨hok, hlogs⟩ := Prod.mk.inj heq
  obtain ⟨hgiven, hgot⟩ := Prod.mk.inj hlogs
  obtain ⟨ts, out, hin⟩ := turns_in_order _ hsound hrun hok
  have hout : out = [0x10, 0x42, 0x20, 0x42, 0, 5] := by
    have hall := hin.given
    rw [show reading.dev.usb.given = [] from rfl, List.nil_append] at hall
    exact hall.symm.trans hgiven
  rw [← hout]
  exact ⟨t, ts, hrun, hin, hgot⟩

theorem readRaw_next_reading : ∃ (t : DeviceState (Traced Transfers) View) (ts : List (List UInt8)),
    (Device.readRaw 4).run reading = .ok [0x12, 0x34, 9, 8] t ∧
      [0x12, 0x34, 9, 8] ++ t.dev.usb.context.buffered = ts.flatMap (payload 2 64) := by
  have hreturns : returns (fun r _ => decide (r = [0x12, 0x34, 9, 8])) ((Device.readRaw 4).run reading) = true := by
    decide +kernel
  have hsound : reading.dev.usb.context.Sound := ⟨by decide, by decide⟩
  obtain ⟨r, t, hrun, hr⟩ := ok_of_returns hreturns
  obtain rfl := of_decide_eq_true hr
  obtain ⟨-, ts, -, hstream⟩ := readRaw_next (by decide) hsound hrun
  exact ⟨t, ts, hrun, hstream⟩

end Libftdi
end Fpga
