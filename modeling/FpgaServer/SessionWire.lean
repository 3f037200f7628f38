import FpgaServer.Session
/-!
# SessionWire — what the device makes of a session

The packets of every call are read back by the reference parser as the call's own commands (`reads_packets`), so while all
writes succeed the stream of a session decodes to its calls in order (`session_decodes`); a bulk read whose wait fails
has sent only its first packets.  Where writes can be cut, a call is parsed as itself as long as it starts at a command
boundary, and then nothing is stored that no caller supplied (`session_parsed`).
-/
namespace Fpga

open Base (OrdMap Transducer Within final chunksOf countsOf)

/-- The events of each packet of the call. -/
def Call.events (keys : List AddrPort) : Call → List (List Event)
  | .writeReg addr port value => [[.store (Reg.of addr port) value, .command (.writeReg (Reg.of addr port) value)]]
  | .readReg addr port => [[.command (.readReg (Reg.of addr port))]]
  | .writeRegN addr port data => (chunksOf Device.nPacketMax data).map (fun c =>
      c.map (Event.store (Reg.of addr port)) ++ [.command (.writeRegN (Reg.of addr port) c)])
  | .readRegN addr port n => (countsOf Device.nPacketMax n).map (fun k => [.command (.readRegN (Reg.of addr port) k)])
  | .updateTrackedRegs => if keys = [] then [] else [keys.map (fun k => .command (.readReg k.reg))]

theorem reads_poll (keys : List AddrPort) : commandParser.Reads boundary (Device.readRegPackets keys)
    (keys.map (fun k => .command (.readReg k.reg))) := by
  induction keys with
  | nil => exact Transducer.Reads.nil boundary
  | cons k keys ih => exact (reads_readRegPacket k.addr k.port).append ih

/-- **Every packet is read back as its events**, from a command boundary to a command boundary. -/
theorem reads_packets (keys : List AddrPort) (c : Call) :
    List.Forall₂ (commandParser.Reads boundary) (c.packets keys) (c.events keys) := by
  cases c with
  | writeReg addr port value => exact .cons (reads_writeRegPacket addr port value) .nil
  | readReg addr port => exact .cons (reads_readRegPacket addr port) .nil
  | writeRegN addr port data =>
    refine List.forall₂_map_left_iff.2 (List.forall₂_map_right_iff.2 (List.forall₂_same.2 (fun c hc => ?_)))
    obtain ⟨hne, hle⟩ := Base.mem_chunksOf hc
    exact reads_writeRegNPacket addr port hne (Nat.lt_succ_of_le hle)
  | readRegN addr port n =>
    refine List.forall₂_map_left_iff.2 (List.forall₂_map_right_iff.2 (List.forall₂_same.2 (fun k hk => ?_)))
    exact reads_readRegNPacket addr port (Nat.lt_succ_of_le (Base.mem_countsOf hk).2)
  | updateTrackedRegs =>
    by_cases h : keys = []
    · rw [Call.packets, Call.events, if_pos h, if_pos h]
      exact .nil
    · rw [Call.packets, Call.events, if_neg h, if_neg h]
      exact .cons (reads_poll keys) .nil

theorem filterMap_command_map {α : Type} (f : α → Command) (l : List α) :
    (l.map (fun a => Event.command (f a))).filterMap Event.command? = l.map f := by
  rw [List.filterMap_map]
  exact congrFun (List.filterMap_eq_map (f := f)) l

theorem filterMap_command_store (r : Reg) (ws : List UInt16) :
    (ws.map (Event.store r)).filterMap Event.command? = [] := by
  rw [List.filterMap_map]
  exact List.filterMap_eq_nil_iff.2 (fun _ _ => rfl)

/-- The commands among the events of the packets are the call's commands. -/
theorem commands_events (keys : List AddrPort) (c : Call) :
    (c.events keys).flatten.filterMap Event.command? = c.commands keys := by
  cases c with
  | writeReg addr port value => rfl
  | readReg addr port => rfl
  | writeRegN addr port data =>
    rw [Call.events, Call.commands, List.filterMap_flatten, List.map_map]
    induction chunksOf Device.nPacketMax data with
    | nil => rfl
    | cons d ds ih =>
      rw [List.map_cons, List.flatten_cons, ih, List.map_cons, Function.comp_apply, List.filterMap_append,
        filterMap_command_store]
      rfl
  | readRegN addr port n =>
    rw [Call.events, Call.commands, ← List.flatMap_def, ← List.map_eq_flatMap, filterMap_command_map]
  | updateTrackedRegs =>
    by_cases h : keys = []
    · rw [Call.events, Call.commands, if_pos h, h]
      rfl
    · rw [Call.events, Call.commands, if_neg h, List.flatten_singleton, filterMap_command_map]

/-- The whole call is read back from where it starts: where nothing is sent there is nothing to read. -/
theorem run_packets {keys : List AddrPort} {c : Call} {p : ParserState} (hstart : c.packets keys ≠ [] → p = boundary) :
    commandParser.run p (c.packets keys).flatten = (p, (c.events keys).flatten) := by
  have hreads := reads_packets keys c
  by_cases hp : c.packets keys = []
  · rw [hp] at hreads ⊢
    rw [List.forall₂_nil_left_iff.1 hreads]
    rfl
  · rw [hstart hp]
    exact Transducer.Reads.flatten hreads

variable {δ ω : Type} [Fabric δ]

/-! ## A session whose writes succeed -/

/-- The commands of a byte stream; none if something is left over or an opcode is unknown. -/
def decode (bytes : List UInt8) : Option (List Command) :=
  if (commandParser.run boundary bytes).1 = boundary then
    some ((commandParser.run boundary bytes).2.filterMap Event.command?)
  else none

/-- What a call should look like on the wire: a bulk transfer as the fewest packets whose count fits its field, a poll as
one read of each tracked register. -/
def Call.DecodesTo (keys : List AddrPort) : Call → List Command → Prop
  | .writeReg addr port value, cmds => cmds = [.writeReg (Reg.of addr port) value]
  | .readReg addr port, cmds => cmds = [.readReg (Reg.of addr port)]
  | .writeRegN addr port data, cmds => ∃ payloads : List (List UInt16),
      cmds = payloads.map (Command.writeRegN (Reg.of addr port)) ∧ payloads.length = (data.length + 65534) / 65535 ∧
      (∀ p ∈ payloads, 1 ≤ p.length ∧ p.length ≤ 65535) ∧ payloads.flatten = data
  | .readRegN addr port n, cmds => ∃ counts : List Nat,
      cmds = counts.map (Command.readRegN (Reg.of addr port)) ∧ counts.length = (n + 65534) / 65535 ∧
      (∀ k ∈ counts, 1 ≤ k ∧ k ≤ 65535) ∧ counts.sum = n
  | .updateTrackedRegs, cmds => cmds = keys.map (fun k => .readReg (Reg.of k.addr k.port))

/-- The fewest packets that hold so many words. -/
theorem packets_needed (n : Nat) : (n + Device.nPacketMax - 1) / Device.nPacketMax = (n + 65534) / 65535 := by
  rw [Device.nPacketMax]
  omega

theorem decodesTo_commands (keys : List AddrPort) (c : Call) : c.DecodesTo keys (c.commands keys) := by
  cases c with
  | writeReg addr port value => rfl
  | readReg addr port => rfl
  | writeRegN addr port data =>
    refine ⟨_, rfl, (Base.length_chunksOf (by decide) data).trans (packets_needed data.length), fun p hp => ?_,
      Base.flatten_chunksOf (by decide) data⟩
    obtain ⟨hne, hle⟩ := Base.mem_chunksOf hp
    exact ⟨List.length_pos_iff.2 hne, hle⟩
  | readRegN addr port n =>
    exact ⟨_, rfl, (Base.length_countsOf (by decide) n).trans (packets_needed n), fun k hk => Base.mem_countsOf hk,
      Base.sum_countsOf (by decide) n⟩
  | updateTrackedRegs => rfl

variable {keys : List AddrPort}

/-- The call returned, or it is not one that waits for an answer between its packets. -/
def Call.SendsAll (c : Call) (s : DeviceState (Line δ) ω) : Prop :=
  (∃ ws t, c.run.run s = .ok ws t) ∨ ∀ addr port n, c ≠ .readRegN addr port n

theorem Sends.sent {s s' : DeviceState (Line δ) ω} {bytes : List UInt8} (h : Sends s s' bytes) :
    s'.dev.usb.board.sent = s.dev.usb.board.sent ++ bytes := by
  rw [h.board]
  rfl

/-- What of its commands a call has put on the wire: the first of them, and all of them where `SendsAll`. -/
structure Call.Decoded (c : Call) (s : DeviceState (Line δ) ω) (part cmds : List Command) : Prop where
  isPrefix : part <+: cmds
  all : c.SendsAll s → part = cmds
  first : cmds ≠ [] → part ≠ []

/-- The first packets of a bulk read are read back as the first of its commands. -/
theorem commands_take_readRegN (addr port : UInt8) (n j : Nat) :
    (((Call.readRegN addr port n).events keys).take j).flatten.filterMap Event.command? =
      ((Call.readRegN addr port n).commands keys).take j := by
  rw [Call.events, Call.commands, ← List.map_take, ← List.map_take, ← List.flatMap_def, ← List.map_eq_flatMap,
    filterMap_command_map]

/-- One call of the session: whole packets, read back as its commands. -/
theorem call_decodes (hkeys : keys.length ≤ 65536) (c : Call) {s : DeviceState (Line δ) ω} (hs : Ready keys s)
    (hall : s.dev.usb.WritesSucceed) :
    ∃ bytes es, Sends s (final (c.run.run s)) bytes ∧ commandParser.Reads boundary bytes es ∧
      c.Decoded s (es.filterMap Event.command?) (c.commands keys) := by
  obtain ⟨bytes, h⟩ := transmits_call hkeys c s hs
  obtain ⟨j, hsure, hle, hj⟩ := h.whole hall
  have hreads : commandParser.Reads boundary (c.packets keys).flatten (c.events keys).flatten :=
    Transducer.Reads.flatten (reads_packets keys c)
  by_cases hc : bytes = (c.packets keys).flatten
  · refine ⟨bytes, _, h.sends, hc ▸ hreads, ?_⟩
    rw [commands_events]
    exact ⟨List.prefix_refl _, fun _ => rfl, id⟩
  · -- only a bulk read that has not returned stops between two packets
    have hN : ∃ addr port n, c = .readRegN addr port n := by
      refine Classical.byContradiction (fun hN => hc ?_)
      rw [hj, List.take_of_length_le]
      cases c <;> first | exact hsure | exact absurd ⟨_, _, _, rfl⟩ hN
    obtain ⟨addr, port, n, rfl⟩ := hN
    refine ⟨bytes, _, h.sends, hj ▸ Transducer.Reads.flatten (List.forall₂_take j (reads_packets keys _)), ?_⟩
    rw [commands_take_readRegN]
    refine ⟨List.take_prefix j _, fun hall => ?_, fun hne => ?_⟩
    · rcases hall with ⟨ws, t, hret⟩ | hN
      · exact absurd (h.returned ws t hret) hc
      · exact absurd rfl (hN addr port n)
    · have hn : n ≠ 0 := fun hn => hne (by rw [Call.commands, hn, Base.countsOf_zero]; rfl)
      have hj1 : 1 ≤ j := by
        rw [Call.atLeast] at hsure
        omega
      rw [Ne, List.take_eq_nil_iff]
      exact fun h => h.elim (by omega) hne

/-- The session on the wire, with the commands of each call. -/
theorem session_reads (hkeys : keys.length ≤ 65536) : ∀ (calls : List Call) (s : DeviceState (Line δ) ω), Ready keys s →
    s.dev.usb.WritesSucceed → ∃ bytes es parts, (session s calls).dev.usb.board.sent = s.dev.usb.board.sent ++ bytes ∧
      commandParser.Reads boundary bytes es ∧ es.filterMap Event.command? = parts.flatten ∧
      List.Forall₂ (fun x part => x.1.Decoded x.2 part (x.1.commands keys)) (starts s calls) parts
  | [], s, _, _ => ⟨[], [], [], (List.append_nil _).symm, Transducer.Reads.nil _, rfl, .nil⟩
  | c :: calls, s, hs, hall => by
    obtain ⟨v, es, hsend, hreads, hpart⟩ := call_decodes hkeys c hs hall
    obtain ⟨w, fs, parts, hsent, hreads', hparts, hrel⟩ :=
      session_reads hkeys calls (final (c.run.run s)) (hs.sends hsend) (hsend.writes hall)
    refine ⟨v ++ w, es ++ fs, es.filterMap Event.command? :: parts, ?_, hreads.append hreads', ?_, .cons hpart hrel⟩
    · rw [← List.append_assoc, ← hsend.sent]
      exact hsent
    · rw [List.filterMap_append, hparts, List.flatten_cons]

/-- **The stream of a session decodes to its calls in order.**  Nothing is left over; a bulk read that does not return has
sent the first of its packets only. -/
theorem session_decodes (calls : List Call) (s : DeviceState (Line δ) ω) (hopen : s.dev.isOpen = true)
    (hwrites : s.dev.usb.WritesSucceed) :
    ∃ bytes parts, (session s calls).dev.usb.board.sent = s.dev.usb.board.sent ++ bytes ∧
      decode bytes = some parts.flatten ∧
      List.Forall₂ (fun x part => ∃ cmds, x.1.DecodesTo s.dev.trackedRegs.keys cmds ∧ x.1.Decoded x.2 part cmds)
        (starts s calls) parts := by
  obtain ⟨bytes, es, parts, hsent, hreads, hparts, hrel⟩ :=
    session_reads (length_keys_le s.dev.trackedRegs) calls s ⟨hopen, rfl⟩ hwrites
  refine ⟨bytes, parts, hsent, ?_, hrel.imp (fun x part h => ⟨_, decodesTo_commands _ x.1, h⟩)⟩
  rw [decode, hreads]
  simp only [if_true, hparts]

theorem session_decodes_three : ∃ bytes parts,
    (session (onRegisterFile (fun _ => 0) (OrdMap.empty.insert ⟨8, 0⟩ 0) [] [])
      [.writeRegN 1 2 [3, 4], .readReg 200 100, .updateTrackedRegs]).dev.usb.board.sent = [] ++ bytes ∧
    decode bytes = some parts.flatten ∧
    List.Forall₂ (fun x part => ∃ cmds, x.1.DecodesTo [⟨8, 0⟩] cmds ∧ x.1.Decoded x.2 part cmds)
      (starts (onRegisterFile (fun _ => 0) (OrdMap.empty.insert ⟨8, 0⟩ 0) [] [])
        [.writeRegN 1 2 [3, 4], .readReg 200 100, .updateTrackedRegs]) parts :=
  session_decodes _ _ rfl (fun _ h => absurd h List.not_mem_nil)

theorem sent_failed_readRegN : (session (onRegisterFile (fun _ => 0) OrdMap.empty [] [.fail (-1)])
    [.readRegN 0 0 65536]).dev.usb.board.sent = readRegNPacket 0 0 65535 := by
  rw [session, List.foldl_cons, List.foldl_nil, Call.run, Device.readRegN, dif_neg (by decide)]
  rfl

/-- A bulk read whose first wait fails has asked for 65535 words of 65536. -/
theorem failed_readRegN_is_cut : ¬ ∀ (calls : List Call) (s : DeviceState (Line RegisterFile) Unit),
    s.dev.isOpen = true → s.dev.usb.WritesSucceed → ∃ bytes parts,
      (session s calls).dev.usb.board.sent = s.dev.usb.board.sent ++ bytes ∧ decode bytes = some parts.flatten ∧
      List.Forall₂ (fun c part => c.DecodesTo s.dev.trackedRegs.keys part) calls parts := by
  intro h
  obtain ⟨bytes, parts, hsent, hdecode, hrel⟩ := h [.readRegN 0 0 65536]
    (onRegisterFile (fun _ => 0) OrdMap.empty [] [.fail (-1)]) rfl (fun _ h => absurd h List.not_mem_nil)
  rw [sent_failed_readRegN] at hsent
  have hbytes : bytes = readRegNPacket 0 0 65535 := hsent.symm
  have hdec : decode (readRegNPacket 0 0 65535) = some [.readRegN ⟨0, 0⟩ 65535] := by decide
  obtain ⟨part, rest, hpart, hrest, rfl⟩ := List.forall₂_cons_left_iff.1 hrel
  cases hrest
  rw [hbytes, hdec, List.flatten_singleton, Option.some.injEq] at hdecode
  obtain ⟨counts, hcounts, -, -, hsum⟩ := hpart
  rw [← hdecode] at hcounts
  cases counts with
  | nil => cases hcounts
  | cons k ks =>
    obtain ⟨hk, hks⟩ := List.cons.inj hcounts
    have : ks = [] := List.map_eq_nil_iff.1 hks.symm
    cases hk
    subst this
    exact absurd hsum (by decide)

/-! ## A session whose writes can be cut -/

/-- The device read the call as its own commands, and is back where it was. -/
def Call.Parsed (keys : List AddrPort) (c : Call) (s t : DeviceState (Line δ) ω) : Prop :=
  t.dev.usb.board.parser = s.dev.usb.board.parser ∧ ∃ es,
    t.dev.usb.board.events = s.dev.usb.board.events ++ es ∧ c.DecodesTo keys (es.filterMap Event.command?)

/-- A call that sends anything starts at a command boundary: no earlier write was cut inside a command. -/
def Call.StartsAligned (keys : List AddrPort) (c : Call) (s : DeviceState (Line δ) ω) : Prop :=
  c.packets keys ≠ [] → s.dev.usb.board.parser = boundary

/-- Everything a call's own packets store, the call supplies. -/
theorem supplied_of_store (keys : List AddrPort) {c : Call} {r : Reg} {w : UInt16} (h : Event.store r w ∈ (c.events keys).flatten) :
    (r, w) ∈ c.supplied := by
  cases c with
  | writeReg addr port value => simpa [Call.events, Call.supplied] using h
  | readReg addr port => simp [Call.events] at h
  | writeRegN addr port data =>
    obtain ⟨es, hes, hin⟩ := List.mem_flatten.1 h
    obtain ⟨p, hp, rfl⟩ := List.mem_map.1 hes
    have hstore : Event.store r w ∈ p.map (Event.store (Reg.of addr port)) := by
      simpa using hin
    obtain ⟨v, hv, heq⟩ := List.mem_map.1 hstore
    cases heq
    have hdata : w ∈ data := by
      rw [← Base.flatten_chunksOf (m := Device.nPacketMax) (by decide) data]
      exact List.mem_flatten_of_mem hp hv
    exact List.mem_map.2 ⟨w, hdata, rfl⟩
  | readRegN addr port n => simp [Call.events] at h
  | updateTrackedRegs =>
    rw [Call.events] at h
    split at h <;> simp at h

/-- One call of the session. -/
theorem call_parsed (hkeys : keys.length ≤ 65536) (c : Call) {s : DeviceState (Line δ) ω} (hs : Ready keys s)
    (hstart : c.StartsAligned keys s) :
    Ready keys (final (c.run.run s)) ∧ (∀ ws t, c.run.run s = .ok ws t → c.Parsed keys s t) ∧
      ∃ es, (final (c.run.run s)).dev.usb.board.events = s.dev.usb.board.events ++ es ∧
        ∀ r w, Event.store r w ∈ es → (r, w) ∈ c.supplied := by
  obtain ⟨bytes, h⟩ := transmits_call hkeys c s hs
  have hrun := run_packets hstart
  refine ⟨hs.sends h.sends, fun ws t hret => ?_, (commandParser.run s.dev.usb.board.parser bytes).2, ?_, ?_⟩
  · have hboard := h.sends.board
    rw [hret, Base.final_ok, h.returned ws t hret] at hboard
    rw [Call.Parsed, hboard, Board.events_receive, hrun]
    refine ⟨by rw [Board.receive, hrun], _, rfl, ?_⟩
    rw [commands_events]
    exact decodesTo_commands keys c
  · rw [h.sends.board, Board.events_receive]
  · intro r w hstore
    obtain ⟨rest, hrest⟩ := h.isPrefix
    rw [← hrest, Transducer.run_append] at hrun
    refine supplied_of_store keys ?_
    rw [← (Prod.mk.inj hrun).2]
    exact List.mem_append_left _ hstore

theorem session_aligned (hkeys : keys.length ≤ 65536) : ∀ (calls : List Call) (s : DeviceState (Line δ) ω), Ready keys s →
    (∀ x ∈ starts s calls, x.1.StartsAligned keys x.2) →
    (∀ x ∈ starts s calls, ∀ ws t, x.1.run.run x.2 = .ok ws t → x.1.Parsed keys x.2 t) ∧
      ∃ es, (session s calls).dev.usb.board.events = s.dev.usb.board.events ++ es ∧
        ∀ r w, Event.store r w ∈ es → ∃ c ∈ calls, (r, w) ∈ c.supplied
  | [], s, _, _ => ⟨fun x hx => absurd hx List.not_mem_nil, [], (List.append_nil _).symm,
      fun r w h => absurd h List.not_mem_nil⟩
  | c :: calls, s, hs, hstarts => by
    obtain ⟨hs', hparsed, es, hes, hstore⟩ := call_parsed hkeys c hs (hstarts _ List.mem_cons_self)
    obtain ⟨hrest, fs, hfs, hstores⟩ := session_aligned hkeys calls (final (c.run.run s)) hs'
      (fun x hx => hstarts x (List.mem_cons_of_mem _ hx))
    refine ⟨fun x hx => ?_, es ++ fs, ?_, fun r w hrw => ?_⟩
    · rcases List.mem_cons.1 hx with rfl | hx
      · exact hparsed
      · exact hrest x hx
    · rw [← List.append_assoc, ← hes]
      exact hfs
    · rcases List.mem_append.1 hrw with hrw | hrw
      · exact ⟨c, List.mem_cons_self, hstore r w hrw⟩
      · obtain ⟨d, hd, hsup⟩ := hstores r w hrw
        exact ⟨d, List.mem_cons_of_mem _ hd, hsup⟩

/-- **Calls that start aligned are read as themselves**, however the writes of the session go: each that returns is parsed
as its own commands, and only supplied words are stored. -/
theorem session_parsed (calls : List Call) (s : DeviceState (Line δ) ω) (hopen : s.dev.isOpen = true)
    (hstarts : ∀ x ∈ starts s calls, x.1.StartsAligned s.dev.trackedRegs.keys x.2) :
    (∀ x ∈ starts s calls, ∀ ws t, x.1.run.run x.2 = .ok ws t → x.1.Parsed s.dev.trackedRegs.keys x.2 t) ∧
      ∃ es, (session s calls).dev.usb.board.events = s.dev.usb.board.events ++ es ∧
        ∀ r w, Event.store r w ∈ es → ∃ c ∈ calls, (r, w) ∈ c.supplied :=
  session_aligned (length_keys_le s.dev.trackedRegs) calls s ⟨hopen, rfl⟩ hstarts

/-- The first write fails before any byte of it reaches the device. -/
theorem session_parsed_two :
    (∀ x ∈ starts (onRegisterFile (fun _ => 0) OrdMap.empty [.cut 0 (-1)] []) [.writeReg 1 2 3, .writeReg 1 2 4],
      ∀ ws t, x.1.run.run x.2 = .ok ws t → x.1.Parsed [] x.2 t) ∧
    ∃ es, (session (onRegisterFile (fun _ => 0) OrdMap.empty [.cut 0 (-1)] []) [.writeReg 1 2 3, .writeReg 1 2 4]
      ).dev.usb.board.events = [] ++ es ∧
      ∀ r w, Event.store r w ∈ es → ∃ c ∈ [Call.writeReg 1 2 3, .writeReg 1 2 4], (r, w) ∈ c.supplied := by
  refine session_parsed _ _ rfl (fun x hx _ => ?_)
  rcases List.mem_cons.1 hx with rfl | hx
  · rfl
  · rcases List.mem_cons.1 hx with rfl | hx
    · rfl
    · exact absurd hx List.not_mem_nil

/-- A write cut after its header leaves the device waiting for a value: it takes the next header for it. -/
theorem cut_write_stores_header : ¬ ∀ (calls : List Call) (s : DeviceState (Line RegisterFile) Unit),
    s.dev.isOpen = true → s.dev.usb.board.parser = boundary →
    (∀ x ∈ starts s calls, ∀ ws t, x.1.run.run x.2 = .ok ws t → x.1.Parsed s.dev.trackedRegs.keys x.2 t) ∧
      ∃ es, (session s calls).dev.usb.board.events = s.dev.usb.board.events ++ es ∧
        ∀ r w, Event.store r w ∈ es → ∃ c ∈ calls, (r, w) ∈ c.supplied := by
  intro h
  obtain ⟨-, es, hes, hstores⟩ := h [.writeReg 1 2 0x1234, .writeReg 3 4 0x5678]
    (onRegisterFile (fun _ => 0) OrdMap.empty [.cut 2 (-1)] []) rfl rfl
  have hevents : es = [.store ⟨1, 2⟩ (header cmdWriteReg 3 4), .command (.writeReg ⟨1, 2⟩ (header cmdWriteReg 3 4))] :=
    hes.symm.trans (by decide)
  obtain ⟨c, hc, hsup⟩ := hstores ⟨1, 2⟩ (header cmdWriteReg 3 4) (by rw [hevents]; exact List.mem_cons_self)
  revert hsup
  revert c
  decide

end Fpga
