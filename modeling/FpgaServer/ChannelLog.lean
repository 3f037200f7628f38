import FpgaServer.Transport
import FpgaServer.ManagerStep
/-!
# ChannelLog — a channel that keeps every call made on it

`Logged ε` is the environment `ε` with a record of the reads and writes issued to it: the size a read asks for with the bytes
it is given, the bytes a write offers with its result.  What an operation makes of the channel is a statement about the part
it adds to the record.
-/
namespace Fpga

open Base (Within final)

structure Logged (ε : Type) where
  usb : ε
  reads : List (Int × List UInt8)
  writes : List (List UInt8 × Int)

/-- The bytes of a read that has not failed. -/
def delivered : Except Int (List UInt8) → List UInt8
  | .ok bytes => bytes
  | .error _ => []

variable {ε ω α : Type}

namespace Logged

/-- A call that is neither a read nor a write. -/
def lift (f : ε → α × ε) (l : Logged ε) : α × Logged ε := ((f l.usb).1, { l with usb := (f l.usb).2 })

instance [Ftdi ε] : Ftdi (Logged ε) where
  ftdiNew := lift Ftdi.ftdiNew
  usbOpenDev i claimed := lift (Ftdi.usbOpenDev i claimed)
  usbPurgeBuffers := lift Ftdi.usbPurgeBuffers
  usbReset := lift Ftdi.usbReset
  setBitmode mask mode := lift (Ftdi.setBitmode mask mode)
  setLatencyTimer t := lift (Ftdi.setLatencyTimer t)
  writeData bytes l :=
    let r := Ftdi.writeData bytes l.usb
    (r.1, { l with usb := r.2, writes := l.writes ++ [(bytes, r.1)] })
  readData size l :=
    let r := Ftdi.readData size l.usb
    (r.1, { l with usb := r.2, reads := l.reads ++ [(size, delivered r.1)] })
  writeData_le bytes l := Ftdi.writeData_le bytes l.usb
  readData_le size l := Ftdi.readData_le size l.usb

instance [Programmer ε] : Programmer (Logged ε) where
  construct := lift Programmer.construct
  program fname := lift (Programmer.program fname)

end Logged

/-! ## Reading -/

/-- From `s` to `t` nothing but the channel moves, and these reads and writes are issued. -/
structure Issues (s t : DeviceState (Logged ε) ω) (reads : List (Int × List UInt8)) (writes : List (List UInt8 × Int)) :
    Prop where
  channel : OnChannel s t
  reads : t.dev.usb.reads = s.dev.usb.reads ++ reads
  writes : t.dev.usb.writes = s.dev.usb.writes ++ writes

theorem Issues.refl (s : DeviceState (Logged ε) ω) : Issues s s [] [] := ⟨Eq.refl s, by simp, by simp⟩

theorem Issues.trans {s t u : DeviceState (Logged ε) ω} {reads reads' : List (Int × List UInt8)}
    {writes writes' : List (List UInt8 × Int)} (h : Issues s t reads writes) (h' : Issues t u reads' writes') :
    Issues s u (reads ++ reads') (writes ++ writes') where
  channel := IsTrans.trans _ _ _ h.channel h'.channel
  reads := by rw [h'.reads, h.reads, List.append_assoc]
  writes := by rw [h'.writes, h.writes, List.append_assoc]

theorem Issues.isOpen {s t : DeviceState (Logged ε) ω} {reads : List (Int × List UInt8)}
    {writes : List (List UInt8 × Int)} (h : Issues s t reads writes) : t.dev.isOpen = s.dev.isOpen := by rw [h.channel]; rfl

variable [Ftdi ε] {s : DeviceState (Logged ε) ω}

theorem run_writeData_logged (hopen : s.dev.isOpen = true) (bytes : List UInt8) :
    ∃ t, (Device.ftdiWriteData bytes).run s = .ok (Ftdi.writeData bytes s.dev.usb.usb).1 t ∧
      Issues s t [] [(bytes, (Ftdi.writeData bytes s.dev.usb.usb).1)] :=
  ⟨_, run_writeData hopen bytes, rfl, (List.append_nil _).symm, rfl⟩

theorem run_readData_logged (hopen : s.dev.isOpen = true) {size : Int} (hsize : 0 ≤ size) :
    ∃ t, (Device.ftdiReadData size).run s = .ok (Ftdi.readData size s.dev.usb.usb).1 t ∧
      Issues s t [(size, delivered (Ftdi.readData size s.dev.usb.usb).1)] [] :=
  ⟨_, run_readData hopen hsize, rfl, rfl, (List.append_nil _).symm⟩

/-- A run that issues these reads and writes and returns such a value, or throws an exception. -/
def Yields (s : DeviceState (Logged ε) ω) (reads : List (Int × List UInt8)) (writes : List (List UInt8 × Int))
    (P : α → Prop) : EStateM.Result Fault (DeviceState (Logged ε) ω) α → Prop
  | .ok a t => Issues s t reads writes ∧ P a
  | .error e t => Issues s t reads writes ∧ ∃ what, e = .exception what

section
variable {reads more : List (Int × List UInt8)} {writes writes' : List (List UInt8 × Int)} {P Q : α → Prop}
  {r : EStateM.Result Fault (DeviceState (Logged ε) ω) α}

omit [Ftdi ε] in
theorem Yields.after {t : DeviceState (Logged ε) ω} (h : Yields t more writes' P r) (ht : Issues s t reads writes) :
    Yields s (reads ++ more) (writes ++ writes') P r := by
  cases r with
  | ok a u => exact ⟨ht.trans h.1, h.2⟩
  | error e u => exact ⟨ht.trans h.1, h.2⟩

omit [Ftdi ε] in
theorem Yields.imp (h : Yields s reads writes P r) (hPQ : ∀ a, P a → Q a) : Yields s reads writes Q r := by
  cases r with
  | ok a u => exact ⟨h.1, hPQ a h.2⟩
  | error e u => exact h

end

/-- Every read of the loop asks for no more than is missing, and what it returns is what the reads were given. -/
theorem readLoop_yields (size : Int) : ∀ (i : Nat) (recv : List UInt8) {s : DeviceState (Logged ε) ω},
    s.dev.isOpen = true → (recv.length : Int) ≤ size →
    ∃ reads, (∀ x ∈ reads, 0 ≤ x.1 ∧ x.1 ≤ size - recv.length) ∧
      Yields s reads [] (fun got => got = recv ++ reads.flatMap (·.2)) ((Device.readLoop size i recv).run s)
  | 0, recv, s, _, hle => ⟨[], fun x hx => absurd hx List.not_mem_nil, .refl s, by simp⟩
  | i + 1, recv, s, hopen, hle => by
    have hsize : 0 ≤ size - (recv.length : Int) := by omega
    obtain ⟨t, hread, hissues⟩ := run_readData_logged hopen hsize
    have hfirst : ∀ x ∈ [(size - (recv.length : Int), delivered (Ftdi.readData (size - recv.length) s.dev.usb.usb).1)],
        0 ≤ x.1 ∧ x.1 ≤ size - recv.length := by
      intro x hx
      rw [List.mem_singleton.1 hx]
      simp only
      omega
    rw [Device.readLoop, EStateM.run_bind, hread]
    simp only
    cases hr : (Ftdi.readData (size - recv.length) s.dev.usb.usb).1 with
    | error code =>
      rw [hr] at hissues hfirst
      exact ⟨_, hfirst, hissues, _, rfl⟩
    | ok bytes =>
      rw [hr] at hissues hfirst
      have hbytes := Ftdi.readData_le _ _ _ hsize hr
      simp only
      by_cases hshort : ((recv ++ bytes).length : Int) ≠ size
      · rw [if_pos hshort]
        obtain ⟨reads, hsizes, hrest⟩ := readLoop_yields size i (recv ++ bytes) (hissues.isOpen.trans hopen) (by
          rw [List.length_append]
          omega)
        refine ⟨(size - (recv.length : Int), bytes) :: reads, fun x hx => ?_, ?_⟩
        · rcases List.mem_cons.1 hx with rfl | hx
          · exact hfirst _ List.mem_cons_self
          · have := hsizes x hx
            rw [List.length_append] at this
            omega
        · exact (hrest.after hissues).imp (fun got hgot => by rw [hgot, List.append_assoc]; rfl)
      · rw [if_neg hshort]
        exact ⟨_, hfirst, hissues, by simp [delivered]⟩

/-- **A wait for a size that is not negative** asks for nothing negative and for no more than the size, and returns just
what its reads were given. -/
theorem ftdiReadDataWait_yields (hopen : s.dev.isOpen = true) (size : Nat) :
    ∃ reads, (∀ x ∈ reads, 0 ≤ x.1 ∧ x.1 ≤ (size : Int)) ∧
      Yields s reads [] (fun got => got = reads.flatMap (·.2) ∧ got.length = size) ((Device.ftdiReadDataWait size).run s) := by
  obtain ⟨reads, hsizes, hloop⟩ := readLoop_yields (size : Int) 100 [] hopen (by simp)
  refine ⟨reads, fun x hx => by simpa using hsizes x hx, ?_⟩
  rw [Device.ftdiReadDataWait, EStateM.run_bind]
  cases hr : (Device.readLoop size 100 []).run s with
  | error e t =>
    rw [hr] at hloop
    exact hloop
  | ok got t =>
    rw [hr] at hloop
    simp only
    by_cases hlen : (got.length : Int) ≠ size
    · rw [raiseIf_bind_pos hlen]
      exact ⟨hloop.1, _, rfl⟩
    · rw [raiseIf_bind_neg hlen]
      exact ⟨hloop.1, hloop.2, by omega⟩

end Fpga
