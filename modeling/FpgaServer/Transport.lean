import FpgaServer.Device
/-!
# Transport — what moving bytes leaves alone

Writing a packet and waiting for an answer move nothing but the channel of the device, however they end and whatever its
callback acts on.
-/
namespace Fpga

open Base (Within)

variable {ε ω α : Type}

/-- Nothing but the channel moves. -/
def OnChannel (s t : DeviceState ε ω) : Prop := t = { s with dev := { s.dev with usb := t.dev.usb } }

instance : IsPreorder (DeviceState ε ω) OnChannel where
  refl _ := rfl
  trans s t u h h' := by
    unfold OnChannel at *
    rw [h'.trans (by rw [h])]

theorem OnChannel.out {s t : DeviceState ε ω} (h : OnChannel s t) : t.out = s.out := by rw [h]

theorem OnChannel.trackedRegs {s t : DeviceState ε ω} (h : OnChannel s t) : t.dev.trackedRegs = s.dev.trackedRegs := by rw [h]

theorem OnChannel.regChangedCb {s t : DeviceState ε ω} (h : OnChannel s t) : t.dev.regChangedCb = s.dev.regChangedCb := by rw [h]

theorem onChannel_usbCall (f : ε → α × ε) : Within OnChannel (Device.usbCall f : DeviceM ε ω α) := fun _ => rfl

theorem onChannel_raiseIf (c : Prop) [Decidable c] (what : String) :
    Within OnChannel (raiseIf c what : DeviceM ε ω Unit) := within_raiseIf c what

variable [Ftdi ε]

theorem onChannel_ftdiWriteData (bytes : List UInt8) : Within OnChannel (Device.ftdiWriteData bytes : DeviceM ε ω Int) := by
  refine Within.get.bind (fun s => ?_)
  split
  · exact Within.pure _
  · exact onChannel_usbCall _

/-- Whether a read ends in an overrun or not, the call is all that moves. -/
theorem within_ftdiReadData {R : DeviceState ε ω → DeviceState ε ω → Prop} [IsPreorder (DeviceState ε ω) R] {size : Int}
    (hcall : Within R (Device.usbCall (Ftdi.readData size) : DeviceM ε ω (Except Int (List UInt8)))) :
    Within R (Device.ftdiReadData size : DeviceM ε ω (Except Int (List UInt8))) := by
  refine Within.get.bind (fun s => ?_)
  split
  · exact Within.throw _
  · refine hcall.bind (fun r => ?_)
    unfold Device.copyOut
    split
    · exact Within.pure _
    · split
      · exact Within.throw _
      · exact Within.pure _

theorem onChannel_ftdiReadData (size : Int) :
    Within OnChannel (Device.ftdiReadData size : DeviceM ε ω (Except Int (List UInt8))) :=
  within_ftdiReadData (onChannel_usbCall _)

theorem onChannel_readLoop (size : Int) : ∀ (i : Nat) (recv : List UInt8),
    Within OnChannel (Device.readLoop size i recv : DeviceM ε ω (List UInt8))
  | 0, recv => Within.pure recv
  | i + 1, recv => by
    refine (onChannel_ftdiReadData _).bind (fun r => ?_)
    cases r with
    | error code => exact Within.throw _
    | ok bytes =>
      simp only
      split
      · exact onChannel_readLoop size i _
      · exact Within.pure _

theorem onChannel_ftdiReadDataWait (size : Int) :
    Within OnChannel (Device.ftdiReadDataWait size : DeviceM ε ω (List UInt8)) :=
  (onChannel_readLoop size 100 []).bind (fun _ => (onChannel_raiseIf _ _).bind (fun _ => Within.pure _))

/-! ## An open device -/

variable {s : DeviceState ε ω}

theorem run_writeData (hopen : s.dev.isOpen = true) (bytes : List UInt8) :
    (Device.ftdiWriteData bytes).run s = .ok (Ftdi.writeData bytes s.dev.usb).1
      { s with dev := { s.dev with usb := (Ftdi.writeData bytes s.dev.usb).2 } } := by
  obtain ⟨a, ha⟩ := Option.isSome_iff_exists.1 hopen
  simp only [Device.ftdiWriteData, EStateM.run_bind, EStateM.run_get, ha]
  rw [← ha]
  rfl

/-- Whatever the size, the call is made; one of a negative size that nothing stops is an overrun. -/
theorem run_readData_cases (hopen : s.dev.isOpen = true) (size : Int) :
    (Device.ftdiReadData size).run s = match (Ftdi.readData size s.dev.usb).1 with
      | .error code => .ok (.error code) { s with dev := { s.dev with usb := (Ftdi.readData size s.dev.usb).2 } }
      | .ok bytes =>
        if size < 0 then .error .overrun { s with dev := { s.dev with usb := (Ftdi.readData size s.dev.usb).2 } }
        else .ok (.ok bytes) { s with dev := { s.dev with usb := (Ftdi.readData size s.dev.usb).2 } } := by
  obtain ⟨a, ha⟩ := Option.isSome_iff_exists.1 hopen
  have hcall : (Device.usbCall (Ftdi.readData size) : DeviceM ε ω (Except Int (List UInt8))).run s =
      .ok (Ftdi.readData size s.dev.usb).1 { s with dev := { s.dev with usb := (Ftdi.readData size s.dev.usb).2 } } := rfl
  simp only [Device.ftdiReadData, EStateM.run_bind, EStateM.run_get, ha, hcall]
  cases (Ftdi.readData size s.dev.usb).1 with
  | error code => rfl
  | ok bytes =>
    rw [Device.copyOut]
    split <;> rfl

theorem run_readData (hopen : s.dev.isOpen = true) {size : Int} (hsize : 0 ≤ size) :
    (Device.ftdiReadData size).run s = .ok (Ftdi.readData size s.dev.usb).1
      { s with dev := { s.dev with usb := (Ftdi.readData size s.dev.usb).2 } } := by
  rw [run_readData_cases hopen]
  cases (Ftdi.readData size s.dev.usb).1 with
  | error code => rfl
  | ok bytes => exact if_neg (not_lt.2 hsize)

/-- A read that has returned: the device was open, and only an error comes of a negative size. -/
theorem ftdiReadData_ok {s t : DeviceState ε ω} {size : Int} {result : Except Int (List UInt8)}
    (h : (Device.ftdiReadData size).run s = .ok result t) :
    (Ftdi.readData size s.dev.usb).1 = result ∧
      t = { s with dev := { s.dev with usb := (Ftdi.readData size s.dev.usb).2 } } ∧ ∀ bytes, result = .ok bytes → 0 ≤ size := by
  by_cases hopen : s.dev.isOpen = true
  · rw [run_readData_cases hopen] at h
    cases hr : (Ftdi.readData size s.dev.usb).1 with
    | error code =>
      rw [hr] at h
      cases h
      exact ⟨rfl, rfl, fun bytes hbytes => by cases hbytes⟩
    | ok bytes =>
      rw [hr] at h
      simp only at h
      split at h
      · cases h
      · rename_i hsize
        cases h
        exact ⟨rfl, rfl, fun _ _ => not_lt.1 hsize⟩
  · have hnone : s.dev.ftdi = none := by simpa [Device.isOpen] using hopen
    simp only [Device.ftdiReadData, EStateM.run_bind, EStateM.run_get, hnone] at h
    cases h

/-- A loop that has received no more than it is to read does not overrun. -/
theorem readLoop_no_overrun (size : Int) : ∀ (i : Nat) (recv : List UInt8) {s t : DeviceState ε ω}, (recv.length : Int) ≤ size →
    (Device.readLoop size i recv).run s ≠ .error .overrun t
  | 0, recv, s, t, _, h => by cases h
  | i + 1, recv, s, t, hle, h => by
    by_cases hopen : s.dev.isOpen = true
    · rw [Device.readLoop, EStateM.run_bind, run_readData hopen (by omega)] at h
      simp only at h
      cases hr : (Ftdi.readData (size - recv.length) s.dev.usb).1 with
      | error code =>
        rw [hr] at h
        cases h
      | ok bytes =>
        have hbytes := Ftdi.readData_le _ _ _ (by omega) hr
        rw [hr] at h
        simp only at h
        split at h
        · refine readLoop_no_overrun size i (recv ++ bytes) ?_ h
          rw [List.length_append]
          omega
        · cases h
    · have hnone : s.dev.ftdi = none := by simpa [Device.isOpen] using hopen
      simp only [Device.readLoop, Device.ftdiReadData, EStateM.run_bind, EStateM.run_get, hnone] at h
      cases h

theorem ftdiReadDataWait_no_overrun (size : Nat) {s t : DeviceState ε ω} :
    (Device.ftdiReadDataWait size).run s ≠ .error .overrun t := by
  intro h
  rcases Base.bind_error_iff.1 h with h | ⟨recv, u, -, h⟩
  · exact readLoop_no_overrun size 100 [] (Int.natCast_nonneg _) h
  · rcases Base.bind_error_iff.1 h with h | ⟨_, v, -, h⟩
    · unfold raiseIf at h
      split at h <;> cases h
    · cases h

theorem run_writeData_closed (hclosed : s.dev.isOpen = false) (bytes : List UInt8) :
    (Device.ftdiWriteData bytes).run s = .ok (-666) s := by
  have hnone : s.dev.ftdi = none := by simpa [Device.isOpen] using hclosed
  simp only [Device.ftdiWriteData, EStateM.run_bind, EStateM.run_get, hnone]
  rfl

end Fpga
