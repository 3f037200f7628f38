import FpgaServer.RequestDecode
/-!
# WritePayload — what `writeregn` sends of a payload

The handler counts the words of the payload by an integer division, so an odd last byte is dropped without notice.  The
words it keeps are sent in packets, all of them or none of the later ones; `sent_whole_iff` says when the payload is sent
whole or turned away.  A write that fails may have reached the device with part of its packet: what has reached it is told
apart from the result.
-/
namespace Fpga

open Base (final)
open DeviceManager (onDevice)

/-- How much of a packet `ftdi_write_data` gets to the device; its result, if it is not an error, says so. -/
class Sending (ε : Type) [Ftdi ε] where
  reached : List UInt8 → ε → Nat
  reached_le : ∀ bytes e, reached bytes e ≤ bytes.length
  reached_eq : ∀ bytes e, 0 ≤ (Ftdi.writeData bytes e).1 → (reached bytes e : Int) = (Ftdi.writeData bytes e).1

/-- A channel with the packets written to it, and how much of each has reached the device. -/
structure Dispatched (ε : Type) where
  usb : ε
  packets : List (List UInt8 × Nat)

variable {ε : Type} [Ftdi ε]

namespace Dispatched

/-- A call that writes nothing. -/
def lift {α : Type} (f : ε → α × ε) (l : Dispatched ε) : α × Dispatched ε := ((f l.usb).1, { l with usb := (f l.usb).2 })

instance [Sending ε] : Ftdi (Dispatched ε) where
  ftdiNew := lift Ftdi.ftdiNew
  usbOpenDev i claimed := lift (Ftdi.usbOpenDev i claimed)
  usbPurgeBuffers := lift Ftdi.usbPurgeBuffers
  usbReset := lift Ftdi.usbReset
  setBitmode mask mode := lift (Ftdi.setBitmode mask mode)
  setLatencyTimer t := lift (Ftdi.setLatencyTimer t)
  writeData bytes l :=
    ((Ftdi.writeData bytes l.usb).1,
      { l with usb := (Ftdi.writeData bytes l.usb).2, packets := l.packets ++ [(bytes, Sending.reached bytes l.usb)] })
  readData size := lift (Ftdi.readData size)
  writeData_le bytes l := Ftdi.writeData_le bytes l.usb
  readData_le size l := Ftdi.readData_le size l.usb

instance [Programmer ε] : Programmer (Dispatched ε) where
  construct := lift Programmer.construct
  program fname := lift (Programmer.program fname)

end Dispatched

/-- The payload bytes that have reached the device: what follows the header and the count of a packet. -/
def payload (packets : List (List UInt8 × Nat)) : List UInt8 := packets.flatMap (fun w => (w.1.take w.2).drop 4)

omit [Ftdi ε] in
@[simp] theorem payload_append (v w : List (List UInt8 × Nat)) : payload (v ++ w) = payload v ++ payload w := by
  simp [payload]

theorem writeRegNPacket_eq (addr port : UInt8) (data : List UInt16) :
    ∃ head, head.length = 4 ∧ writeRegNPacket addr port data = head ++ data.flatMap be16 :=
  ⟨be16 (header cmdWriteRegN addr port) ++ be16 (UInt16.ofNat data.length), rfl, rfl⟩

/-- The first packet of a bulk write. -/
def firstPacket (addr port : UInt8) (data : List UInt16) : List UInt8 :=
  writeRegNPacket addr port (data.take Device.nPacketMax)

theorem length_firstPacket (addr port : UInt8) {ws : List UInt16} (h : ws ≠ []) : 4 < (firstPacket addr port ws).length := by
  obtain ⟨head, hlen, heq⟩ := writeRegNPacket_eq addr port (ws.take Device.nPacketMax)
  have := List.length_pos_iff.2 h
  rw [firstPacket, heq, List.length_append, length_be16s, List.length_take, hlen, Device.nPacketMax]
  omega

variable [Sending ε]

/-- No byte of the payload in the packet reaches the device: it is closed, or gets the header at most. -/
def Rejects {ω : Type} (d : Device (Dispatched ε) ω) (packet : List UInt8) : Prop :=
  d.isOpen = false ∨ Sending.reached packet d.usb.usb ≤ 4

omit [Sending ε] in
theorem writeRegN_eq {ω : Type} (addr port : UInt8) {ws : List UInt16} (h : ws ≠ []) :
    (Device.writeRegN addr port ws : DeviceM ε ω Unit) = (do
      let n ← Device.ftdiWriteData (firstPacket addr port ws)
      raiseIf (n ≤ 0) "FTDI write error"
      raiseIf (n < (firstPacket addr port ws).length) "FTDI unhandled partial write"
      Device.writeRegN addr port (ws.drop Device.nPacketMax)) := by
  rw [Device.writeRegN, dif_neg h]
  rfl

omit [Ftdi ε] [Sending ε] in
/-- A packet that reaches the device in full is payload but for its first four bytes. -/
theorem payload_full (addr port : UInt8) (ws : List UInt16) :
    payload [(firstPacket addr port ws, (firstPacket addr port ws).length)] = (ws.take Device.nPacketMax).flatMap be16 := by
  obtain ⟨head, hlen, heq⟩ := writeRegNPacket_eq addr port (ws.take Device.nPacketMax)
  rw [firstPacket, heq]
  simp only [payload, List.flatMap_cons, List.flatMap_nil, List.append_nil, List.take_length]
  rw [← hlen, List.drop_left]

omit [Ftdi ε] [Sending ε] in
/-- Of a packet there is payload that has reached the device just where more than its header has. -/
theorem payload_eq_nil_iff {packet : List UInt8} {n : Nat} (hn : n ≤ packet.length) : payload [(packet, n)] = [] ↔ n ≤ 4 := by
  simp only [payload, List.flatMap_cons, List.flatMap_nil, List.append_nil, List.drop_eq_nil_iff, List.length_take]
  omega

/-- How a bulk write to an open device ends: it throws at a packet that is not taken in full, the first or a later one, or
returns with all packets taken. -/
theorem writeRegN_sends (addr port : UInt8) (ws : List UInt16) {s : DeviceState (Dispatched ε) View} (hopen : s.dev.isOpen = true) :
    ∃ packets, (final ((Device.writeRegN addr port ws).run s)).dev.usb.packets = s.dev.usb.packets ++ packets ∧
      (ws ≠ [] → ∃ rest, packets = (firstPacket addr port ws, Sending.reached (firstPacket addr port ws) s.dev.usb.usb) :: rest ∧
        (Sending.reached (firstPacket addr port ws) s.dev.usb.usb < (firstPacket addr port ws).length →
          rest = [] ∧ ∃ what t, (Device.writeRegN addr port ws).run s = .error (.exception what) t)) ∧
      ((∃ t, (Device.writeRegN addr port ws).run s = .ok () t ∧ payload packets = ws.flatMap be16) ∨
        ∃ what t, (Device.writeRegN addr port ws).run s = .error (.exception what) t ∧ ws ≠ []) := by
  by_cases hws : ws = []
  · rw [Device.writeRegN, dif_pos hws, hws]
    exact ⟨[], (List.append_nil _).symm, fun h => absurd rfl h, .inl ⟨s, rfl, rfl⟩⟩
  · have hwrite := run_writeData hopen (firstPacket addr port ws)
    have hresult : (Ftdi.writeData (firstPacket addr port ws) s.dev.usb).1 =
        (Ftdi.writeData (firstPacket addr port ws) s.dev.usb.usb).1 := rfl
    have hreached := Sending.reached_eq (firstPacket addr port ws) s.dev.usb.usb
    have hmost := Ftdi.writeData_le (firstPacket addr port ws) s.dev.usb.usb
    have hlong := length_firstPacket addr port hws
    rw [hresult] at hwrite
    rw [writeRegN_eq addr port hws, EStateM.run_bind, hwrite]
    simp only
    generalize hn : (Ftdi.writeData (firstPacket addr port ws) s.dev.usb.usb).1 = n at hreached hmost
    by_cases hfail : n ≤ 0
    · rw [raiseIf_bind_pos hfail]
      exact ⟨_, rfl, fun _ => ⟨[], rfl, fun _ => ⟨rfl, _, _, rfl⟩⟩, .inr ⟨_, _, rfl, hws⟩⟩
    · rw [raiseIf_bind_neg hfail]
      by_cases hshort : n < ((firstPacket addr port ws).length : Int)
      · rw [raiseIf_bind_pos hshort]
        exact ⟨_, rfl, fun _ => ⟨[], rfl, fun _ => ⟨rfl, _, _, rfl⟩⟩, .inr ⟨_, _, rfl, hws⟩⟩
      · rw [raiseIf_bind_neg hshort]
        have hall : Sending.reached (firstPacket addr port ws) s.dev.usb.usb = (firstPacket addr port ws).length := by omega
        obtain ⟨packets, hpackets, -, hends⟩ := writeRegN_sends addr port (ws.drop Device.nPacketMax)
          (s := { s with dev := { s.dev with usb := (Ftdi.writeData (firstPacket addr port ws) s.dev.usb).2 } }) hopen
        refine ⟨(firstPacket addr port ws, Sending.reached (firstPacket addr port ws) s.dev.usb.usb) :: packets, ?_,
          fun _ => ⟨packets, rfl, fun hpart => by omega⟩, ?_⟩
        · refine hpackets.trans ?_
          show (s.dev.usb.packets ++ [_]) ++ packets = _
          rw [List.append_assoc]
          rfl
        · rcases hends with ⟨t, hok, hpayload⟩ | ⟨what, t, herror, -⟩
          · refine .inl ⟨t, hok, ?_⟩
            rw [← List.singleton_append, payload_append, hall, payload_full, hpayload, ← List.flatMap_append, List.take_append_drop]
          · exact .inr ⟨what, t, herror, hws⟩
termination_by ws.length
decreasing_by
  have := List.length_pos_iff.2 hws
  simp only [List.length_drop, Device.nPacketMax]
  omega

/-- How a bulk write ends, and what of its words reaches the device: nothing if the first packet is rejected, and then it
throws. -/
theorem writeRegN_summary (addr port : UInt8) (ws : List UInt16) (s : DeviceState (Dispatched ε) View) : ∃ packets,
    (final ((Device.writeRegN addr port ws).run s)).dev.usb.packets = s.dev.usb.packets ++ packets ∧
    ((∃ t, (Device.writeRegN addr port ws).run s = .ok () t ∧ payload packets = ws.flatMap be16) ∨
      ∃ what t, (Device.writeRegN addr port ws).run s = .error (.exception what) t ∧ ws ≠ []) ∧
    (ws ≠ [] → Rejects s.dev (firstPacket addr port ws) →
      payload packets = [] ∧ ∃ what t, (Device.writeRegN addr port ws).run s = .error (.exception what) t) ∧
    (ws ≠ [] → ¬ Rejects s.dev (firstPacket addr port ws) → payload packets ≠ []) := by
  cases hopen : s.dev.isOpen with
  | false =>
    by_cases hws : ws = []
    · rw [Device.writeRegN, dif_pos hws, hws]
      exact ⟨[], (List.append_nil _).symm, .inl ⟨s, rfl, rfl⟩, fun h => absurd rfl h, fun h => absurd rfl h⟩
    · have hrun : (Device.writeRegN addr port ws).run s = .error (.exception "FTDI write error") s := by
        rw [writeRegN_eq addr port hws, EStateM.run_bind, run_writeData_closed hopen]
        rfl
      rw [hrun]
      exact ⟨[], (List.append_nil _).symm, .inr ⟨_, s, rfl, hws⟩, fun _ _ => ⟨rfl, _, s, rfl⟩,
        fun _ h => absurd (.inl hopen) h⟩
  | true =>
    obtain ⟨packets, hpackets, hfirst, hends⟩ := writeRegN_sends addr port ws hopen
    have hle := Sending.reached_le (firstPacket addr port ws) s.dev.usb.usb
    refine ⟨packets, hpackets, hends, fun hws hrejects => ?_, fun hws hnot => ?_⟩
    · have hreached : Sending.reached (firstPacket addr port ws) s.dev.usb.usb ≤ 4 := by
        rcases hrejects with h | h
        · rw [hopen] at h
          cases h
        · exact h
      have hlong := length_firstPacket addr port hws
      obtain ⟨rest, rfl, hpart⟩ := hfirst hws
      obtain ⟨rfl, hthrows⟩ := hpart (by omega)
      exact ⟨(payload_eq_nil_iff hle).2 hreached, hthrows⟩
    · obtain ⟨rest, rfl, -⟩ := hfirst hws
      rw [← List.singleton_append, payload_append]
      intro hnil
      exact hnot (.inr ((payload_eq_nil_iff hle).1 (List.append_eq_nil_iff.1 hnil).1))

theorem words_eq_nil_iff : ∀ {bytes : List UInt8}, words bytes = [] ↔ bytes.length ≤ 1
  | [] => by simp [words]
  | [b] => by simp [words]
  | b :: c :: bytes => by simp [words]

/-! ## Requests -/

namespace RequestHandler

variable [Programmer ε] (C : Conversions)

/-- The payload a device has been sent between two states of the manager. -/
def sentTo (r : Nat) (m m' : DeviceManager (Dispatched ε)) : List UInt8 :=
  match m.objects r, m'.objects r with
  | some d, some d' => payload (d'.usb.packets.drop d.usb.packets.length)
  | _, _ => []

/-- A reply with the code 0 means that the device named got the payload whole; a payload of no whole number of words is
answered with an error, and nothing is sent. -/
def SentWhole (m : DeviceManager (Dispatched ε)) (request : Obj) (args : List Obj) (data : List UInt8) : Prop :=
  ∃ t, (handleRequest C request).run ⟨m, [], []⟩ = .ok () t ∧
    (∀ p, t.reply = valueTokens p → ∃ r, named C m args = some r ∧ sentTo r m t.manager = data) ∧
    (¬ Even data.length → (∃ text, t.reply = errorTokens text) ∧ ∀ r, sentTo r m t.manager = [])

variable {C} {m : DeviceManager (Dispatched ε)} {request : Obj} {args : List Obj} {data : List UInt8}

omit [Ftdi ε] [Sending ε] [Programmer ε] in
theorem sentTo_self (r : Nat) (m : DeviceManager (Dispatched ε)) : sentTo r m m = [] := by
  rw [sentTo]
  cases m.objects r with
  | none => rfl
  | some d => simp [payload]

omit [Ftdi ε] [Sending ε] [Programmer ε] in
theorem sentTo_putBack {r : Nat} {d : Device (Dispatched ε) View} (hd : m.objects r = some d)
    {s : DeviceState (Dispatched ε) View} {packets : List (List UInt8 × Nat)} (hp : s.dev.usb.packets = d.usb.packets ++ packets) :
    sentTo r m (m.putBack r s) = payload packets ∧ ∀ q, q ≠ r → sentTo q m (m.putBack r s) = [] := by
  constructor
  · rw [sentTo, hd, DeviceManager.putBack_self]
    simp only
    rw [hp, List.drop_left]
  · intro q hq
    have hsame : (m.putBack r s).objects q = m.objects q := Function.update_of_ne hq _ _
    rw [sentTo, hsame]
    cases m.objects q with
    | none => rfl
    | some d => simp [payload]

omit [Ftdi ε] [Sending ε] [Programmer ε] in
theorem decodeCall_writeregn (hdata : args[4]? = some (.bin data)) {inv : Invocation}
    (h : decodeCall C m "writeregn" args = some inv) :
    ∃ r addr port, named C m args = some r ∧ inv = .writeregn r addr port data := by
  have hbinary : operand args 4 binary = some data := by
    rw [operand, hdata]
    rfl
  simp only [decodeCall, Option.bind_eq_bind, hbinary] at h
  obtain ⟨r, hr, h⟩ := Option.bind_eq_some_iff.1 h
  obtain ⟨addr, -, h⟩ := Option.bind_eq_some_iff.1 h
  obtain ⟨port, -, h⟩ := Option.bind_eq_some_iff.1 h
  cases h
  exact ⟨r, addr, port, hr, rfl⟩

/-- Answered with an error, the payload must be a whole number of words, or none of it sent. -/
theorem sentWhole_error_iff {t : RequestState (Dispatched ε)} {text : String}
    (h : (handleRequest C request).run ⟨m, [], []⟩ = .ok () t) (ht : t.reply = errorTokens text) :
    SentWhole C m request args data ↔ Even data.length ∨ ∀ r, sentTo r m t.manager = [] := by
  constructor
  · rintro ⟨t', ht', -, hodd⟩
    cases h.symm.trans ht'
    by_cases heven : Even data.length
    · exact .inl heven
    · exact .inr (hodd heven).2
  · intro hsent
    refine ⟨t, h, fun p hp => ?_, fun hodd => ⟨⟨text, ht⟩, hsent.resolve_left hodd⟩⟩
    rw [ht] at hp
    simp [errorTokens, valueTokens, rpcRcodeOk, rpcRcodeError] at hp

/-- Answered with the code 0, it must be a whole number of words: these have been sent. -/
theorem sentWhole_value_iff {t : RequestState (Dispatched ε)} {r : Nat} {p : Payload}
    (h : (handleRequest C request).run ⟨m, [], []⟩ = .ok () t) (ht : t.reply = valueTokens p) (hnamed : named C m args = some r)
    (hsent : sentTo r m t.manager = (words data).flatMap be16) : SentWhole C m request args data ↔ Even data.length := by
  constructor
  · rintro ⟨t', ht', -, hodd⟩
    by_contra hnot
    obtain ⟨⟨text, htext⟩, -⟩ := hodd hnot
    cases h.symm.trans ht'
    rw [ht] at htext
    simp [errorTokens, valueTokens, rpcRcodeOk, rpcRcodeError] at htext
  · rintro ⟨n, hn⟩
    exact ⟨t, h, fun _ _ => ⟨r, hnamed, hsent.trans (be16s_words (n := n) (by omega))⟩, fun hodd => absurd ⟨n, hn⟩ hodd⟩

/-- **The payload is sent whole or turned away exactly** if it is a whole number of words, or the request is not valid, or
the device takes nothing of the first packet. -/
theorem sent_whole_iff {descriptions : List Description} {notifier : Notifier}
    (hm : DeviceManager.Reachable descriptions notifier m) (hp : parse C request = some ("writeregn", args))
    (hdata : args[4]? = some (.bin data)) :
    SentWhole C m request args data ↔ Even data.length ∨ decode C m request = none ∨
      3 ≤ data.length ∧ ∃ r d addr port, decode C m request = some (.writeregn r addr port data) ∧
        m.objects r = some d ∧ Rejects d (firstPacket addr port (words data)) := by
  have hdecode : decode C m request = decodeCall C m "writeregn" args := by rw [decode_eq, hp, Option.bind_some]
  cases hinv : decode C m request with
  | none =>
    obtain ⟨text, hrun⟩ := handle_refused hinv
    exact iff_of_true ((sentWhole_error_iff hrun rfl).2 (.inr (fun r => sentTo_self r m))) (.inr (.inl rfl))
  | some inv =>
    obtain ⟨r, addr, port, hnamed, rfl⟩ := decodeCall_writeregn hdata (hdecode.symm.trans hinv)
    obtain ⟨serial, -, hserial⟩ := Option.bind_eq_some_iff.1 hnamed
    obtain ⟨d, hd⟩ := (DeviceManager.ready_of_reachable hm).known serial r hserial
    have hrun := (handle_eq_answered hinv).trans (answered_onDevice
      (x := Device.writeRegN addr port (words data)) (p := fun _ => .int 0) rfl rfl hd)
    obtain ⟨packets, hpackets, hends, hrejected, htaken⟩ :=
      writeRegN_summary addr port (words data) ⟨d, ⟨m.notifier, m.getDeviceList⟩⟩
    rcases hends with ⟨t, hok, hpayload⟩ | ⟨what, t, herror, hne⟩
    · rw [hok] at hrun hpackets
      rw [sentWhole_value_iff (p := .int 0) hrun rfl hnamed ((sentTo_putBack hd hpackets).1.trans hpayload)]
      refine ⟨.inl, ?_⟩
      rintro (heven | hnone | ⟨h3, r', d', addr', port', hinv', hd', hrejects⟩)
      · exact heven
      · cases hnone
      · -- a first packet that is rejected is not followed by a return
        cases hinv'
        cases hd.symm.trans hd'
        have hwords : words data ≠ [] := by
          intro hnil
          have hshort := words_eq_nil_iff.1 hnil
          omega
        obtain ⟨-, what, u, hthrows⟩ := hrejected hwords hrejects
        cases hok.symm.trans hthrows
    · rw [herror] at hrun hpackets
      obtain ⟨hself, hothers⟩ := sentTo_putBack hd hpackets
      rw [sentWhole_error_iff hrun rfl]
      constructor
      · rintro (heven | hnothing)
        · exact .inl heven
        · by_cases heven : Even data.length
          · exact .inl heven
          · refine .inr (.inr ⟨?_, r, d, addr, port, rfl, hd, ?_⟩)
            · have hlong : ¬ data.length ≤ 1 := fun h => hne (words_eq_nil_iff.2 h)
              have htwo : data.length ≠ 2 := fun h => heven ⟨1, h⟩
              omega
            · by_contra hrejects
              exact htaken hne hrejects (hself.symm.trans (hnothing r))
      · rintro (heven | hnone | ⟨h3, r', d', addr', port', hinv', hd', hrejects⟩)
        · exact .inl heven
        · cases hnone
        · cases hinv'
          cases hd.symm.trans hd'
          refine .inr (fun q => ?_)
          by_cases hq : q = r
          · rw [hq]
            exact hself.trans (hrejected hne hrejects).1
          · exact hothers q hq

instance : Sending Wearing where
  reached bytes _ := bytes.length
  reached_le _ _ := Nat.le_refl _
  reached_eq _ _ _ := rfl

/-- A board on which every call succeeds, brought up with a record of what is sent to it. -/
def sending : Option (DeviceManager (Dispatched Wearing)) :=
  (DeviceManager.initial [⟨"FPGA", "", []⟩] DeviceManager.setNotifier).step
    (.usbDeviceAdded 7 (.ok "FPGA0001") ⟨⟨0⟩, []⟩)

/-- A bulk write to it. -/
def writeregnArgs (data : List UInt8) : List Obj := [.str "writeregn", .str "FPGA0001", .int 1, .int 2, .bin data]

/-- Four bytes are sent whole. -/
theorem four_bytes_sent : ∃ m, sending = some m ∧
    SentWhole byType m (.array (writeregnArgs [1, 2, 3, 4])) (writeregnArgs [1, 2, 3, 4]) [1, 2, 3, 4] := by
  have hm : sending.isSome = true := by decide +kernel
  obtain ⟨m, hm⟩ := Option.isSome_iff_exists.1 hm
  exact ⟨m, hm, (sent_whole_iff (.step _ .initial hm) rfl rfl).2 (.inl ⟨2, rfl⟩)⟩

/-- Of three bytes two are sent, and the reply has the code 0. -/
theorem three_bytes_cut : ∃ m, sending = some m ∧
    (final ((handleRequest byType (.array (writeregnArgs [1, 2, 3]))).run ⟨m, [], []⟩)).reply = valueTokens (.int 0) ∧
    sentTo 0 m (final ((handleRequest byType (.array (writeregnArgs [1, 2, 3]))).run ⟨m, [], []⟩)).manager = [1, 2] ∧
    ¬ SentWhole byType m (.array (writeregnArgs [1, 2, 3])) (writeregnArgs [1, 2, 3]) [1, 2, 3] := by
  have hreply : sending.map (fun m =>
      ((final ((handleRequest byType (.array (writeregnArgs [1, 2, 3]))).run ⟨m, [], []⟩)).reply,
        sentTo 0 m (final ((handleRequest byType (.array (writeregnArgs [1, 2, 3]))).run ⟨m, [], []⟩)).manager)) =
      some (valueTokens (.int 0), [1, 2]) := by decide +kernel
  obtain ⟨m, hm, hreply⟩ := Option.map_eq_some_iff.1 hreply
  obtain ⟨hvalue, hsent⟩ := Prod.mk.inj hreply
  refine ⟨m, hm, hvalue, hsent, ?_⟩
  rintro ⟨t, ht, -, hodd⟩
  obtain ⟨⟨text, htext⟩, -⟩ := hodd (by decide)
  rw [ht, Base.final_ok, htext] at hvalue
  simp [errorTokens, valueTokens, rpcRcodeOk, rpcRcodeError] at hvalue

end RequestHandler
end Fpga
