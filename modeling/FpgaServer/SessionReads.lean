import FpgaServer.SessionWire
/-!
# SessionReads — which words a read returns

A response carries no mark of the command it answers: a read takes as many bytes as it asked for off the front of the
waiting ones.  From a clean channel (a command boundary, nothing waiting) one exchange either fails or returns exactly the
words produced for its own commands and leaves the channel clean (`exchange_cases`); the operations are exchanges
followed by stores into the cache, so a session whose calls start clean delivers the right words (`session_delivers`).
-/
namespace Fpga

open Base (OrdMap Transducer Within final countsOf)

/-- The register whose words the event asks for. -/
def Event.asked? : Event → Option Reg
  | .command (.readReg r) => some r
  | .command (.readRegN r _) => some r
  | _ => none

/-- The device has produced the word for the register. -/
def Produced (log : List (Event × List UInt16)) (r : Reg) (w : UInt16) : Prop :=
  ∃ x ∈ log, x.1.asked? = some r ∧ w ∈ x.2

theorem Produced.mono {log log' : List (Event × List UInt16)} {r : Reg} {w : UInt16} (h : Produced log r w)
    (hsub : log ⊆ log') : Produced log' r w := by
  obtain ⟨x, hx, hr, hw⟩ := h
  exact ⟨x, hsub hx, hr, hw⟩

variable {δ ω α : Type} {keys : List AddrPort}

/-- Everything the device has produced, with the events it was produced for. -/
def DeviceState.log (s : DeviceState (Line δ) ω) : List (Event × List UInt16) := s.dev.usb.board.log

/-! ## Two frames -/

/-- Nothing but the channel and what is behind it moves. -/
structure Channel (s t : DeviceState (Line δ) ω) : Prop where
  dev : t.dev = { s.dev with usb := t.dev.usb }
  log : s.log <+: t.log

instance : IsPreorder (DeviceState (Line δ) ω) Channel where
  refl s := ⟨rfl, List.prefix_refl _⟩
  trans s t u h h' := ⟨by rw [h'.dev, h.dev], h.log.trans h'.log⟩

/-- Every value that enters the cache was produced for its register. -/
structure Caches (s t : DeviceState (Line δ) ω) : Prop where
  log : s.log <+: t.log
  cache : ∀ k v, t.dev.trackedRegs.find? k = some v → s.dev.trackedRegs.find? k = some v ∨ Produced t.log k.reg v

instance : IsPreorder (DeviceState (Line δ) ω) Caches where
  refl s := ⟨List.prefix_refl _, fun _ _ h => Or.inl h⟩
  trans s t u h h' := by
    refine ⟨h.log.trans h'.log, fun k v hv => ?_⟩
    rcases h'.cache k v hv with hv | hp
    · exact (h.cache k v hv).imp_right (fun hp => hp.mono h'.log.subset)
    · exact Or.inr hp

theorem Channel.caches {s t : DeviceState (Line δ) ω} (h : Channel s t) : Caches s t :=
  ⟨h.log, fun k v hv => Or.inl (by rw [h.dev] at hv; exact hv)⟩

theorem Waits.channel {s t : DeviceState (Line δ) ω} (h : Waits s t) : Channel s t := by
  obtain ⟨p, r, rfl⟩ := h
  exact ⟨rfl, List.prefix_refl _⟩

/-- The words are the ones the device produced, from `s` to `t`, for exactly these events, as many as each requests. -/
structure Answered (s t : DeviceState (Line δ) ω) (events : List Event) (ws : List UInt16)
    (added : List (Event × List UInt16)) : Prop where
  log : t.log = s.log ++ added
  events : added.map (·.1) = events
  words : added.flatMap (·.2) = ws
  lengths : ∀ x ∈ added, x.2.length = x.1.requested

theorem Answered.append {s t u : DeviceState (Line δ) ω} {es fs : List Event} {ws vs : List UInt16}
    {added more : List (Event × List UInt16)} (h : Answered s t es ws added) (h' : Answered t u fs vs more) :
    Answered s u (es ++ fs) (ws ++ vs) (added ++ more) where
  log := by rw [h'.log, h.log, List.append_assoc]
  events := by rw [List.map_append, h.events, h'.events]
  words := by rw [List.flatMap_append, h.words, h'.words]
  lengths x hx := (List.mem_append.1 hx).elim (h.lengths x) (h'.lengths x)

theorem Answered.of_log {s t u : DeviceState (Line δ) ω} {es : List Event} {ws : List UInt16}
    {added : List (Event × List UInt16)} (h : Answered s t es ws added) (hlog : u.log = t.log) :
    Answered s u es ws added := ⟨hlog.trans h.log, h.events, h.words, h.lengths⟩

theorem Answered.subset {s t : DeviceState (Line δ) ω} {es : List Event} {ws : List UInt16}
    {added : List (Event × List UInt16)} (h : Answered s t es ws added) : added ⊆ t.log := by
  rw [h.log]
  exact List.subset_append_right _ _

/-! ## Storing what was read -/

theorem dev_regChanged (addr port : UInt8) (value : UInt16) (s : DeviceState (Line δ) ω) :
    (final ((Device.regChanged addr port value).run s)).dev = s.dev := by
  simp only [Device.regChanged, EStateM.run_bind, EStateM.run_get]
  split
  · rfl
  · rw [Base.run_zoom]
    split <;> rfl

/-- Storing sets the cache at one key: the callback has no hold on the object. -/
theorem dev_storeResult (k : AddrPort) (v : UInt16) (s : DeviceState (Line δ) ω) :
    (final ((Device.storeResult k v).run s)).dev = { s.dev with trackedRegs := s.dev.trackedRegs.set k v } := by
  simp only [Device.storeResult, EStateM.run_bind, EStateM.run_get]
  split
  · rename_i hk
    rw [OrdMap.set_of_absent hk]
    rfl
  · simp only [Device.modifyDev, EStateM.run_bind, EStateM.run_modify]
    split
    · rw [dev_regChanged]
    · rfl

theorem caches_of_set {s t : DeviceState (Line δ) ω} {k : AddrPort} {v : UInt16}
    (h : t.dev = { s.dev with trackedRegs := s.dev.trackedRegs.set k v }) (hp : Produced s.log k.reg v) : Caches s t := by
  have hlog : t.log = s.log := by rw [DeviceState.log, h, DeviceState.log]
  refine ⟨by simp [hlog], fun q w hw => ?_⟩
  rw [h, OrdMap.find?_set] at hw
  split at hw
  · rename_i hq
    cases hf : s.dev.trackedRegs.find? k with
    | none => rw [hf] at hw; cases hw
    | some old =>
      rw [hf] at hw
      cases hw
      exact Or.inr (by rw [hlog, hq]; exact hp)
  · exact Or.inl hw

theorem caches_storeResult {k : AddrPort} {v : UInt16} {s : DeviceState (Line δ) ω} (hp : Produced s.log k.reg v) :
    Caches s (final ((Device.storeResult k v).run s)) := caches_of_set (dev_storeResult k v s) hp

/-- A list of stores: the log stays, the keys stay, the cache takes only produced values, and where all are done and no key
comes twice, each key holds its value. -/
theorem storeResults_spec : ∀ (kvs : List (AddrPort × UInt16)) (s : DeviceState (Line δ) ω),
    (∀ kv ∈ kvs, Produced s.log kv.1.reg kv.2) →
    Caches s (final ((Device.storeResults kvs).run s)) ∧
      (final ((Device.storeResults kvs).run s)).log = s.log ∧
      ((kvs.map Prod.fst).Nodup → (∀ kv ∈ kvs, kv.1 ∈ s.dev.trackedRegs.keys) →
        ∀ t, (Device.storeResults kvs).run s = .ok () t → (∀ kv ∈ kvs, t.dev.trackedRegs.find? kv.1 = some kv.2) ∧
          ∀ k, k ∉ kvs.map Prod.fst → t.dev.trackedRegs.find? k = s.dev.trackedRegs.find? k)
  | [], s, _ => ⟨refl s, rfl, fun _ _ t ht => by
      cases ht
      exact ⟨fun kv h => absurd h List.not_mem_nil, fun _ _ => rfl⟩⟩
  | kv :: kvs, s, hp => by
    have hdev := dev_storeResult kv.1 kv.2 s
    have hhead := caches_storeResult (hp kv List.mem_cons_self)
    simp only [Device.storeResults, EStateM.run_bind]
    cases hr : (Device.storeResult kv.1 kv.2).run s with
    | error e t =>
      rw [hr, Base.final_error] at hdev hhead
      refine ⟨hhead, ?_, fun _ _ u hu => by cases hu⟩
      rw [Base.final_error, DeviceState.log, hdev]
      rfl
    | ok a t =>
      rw [hr, Base.final_ok] at hdev hhead
      have hlog : t.log = s.log := by rw [DeviceState.log, hdev, DeviceState.log]
      obtain ⟨hcaches, hlog', hset⟩ := storeResults_spec kvs t (fun x hx => by
        rw [hlog]
        exact hp x (List.mem_cons_of_mem _ hx))
      refine ⟨IsTrans.trans _ _ _ hhead hcaches, hlog'.trans hlog, fun hnd hin u hu => ?_⟩
      rw [List.map_cons, List.nodup_cons] at hnd
      obtain ⟨hvals, hframe⟩ := hset hnd.2 (fun x hx => by
        rw [hdev, OrdMap.keys_set]
        exact hin x (List.mem_cons_of_mem _ hx)) u hu
      have hkv : t.dev.trackedRegs.find? kv.1 = some kv.2 := by
        obtain ⟨old, hold⟩ := OrdMap.mem_keys_iff.1 (hin kv List.mem_cons_self)
        rw [hdev, OrdMap.find?_set, if_pos rfl, hold]
        rfl
      refine ⟨fun x hx => ?_, fun k hk => ?_⟩
      · rcases List.mem_cons.1 hx with rfl | hx
        · rw [hframe _ hnd.1, hkv]
        · exact hvals x hx
      · rw [List.map_cons, List.mem_cons, not_or] at hk
        rw [hframe k hk.2, hdev, OrdMap.find?_set, if_neg hk.1]

/-! ## One exchange -/

variable [Fabric δ]

theorem channel_ftdiWriteData (packet : List UInt8) :
    Within Channel (Device.ftdiWriteData packet : DeviceM (Line δ) ω Int) := by
  intro s
  by_cases h : s.dev.isOpen = true
  · obtain ⟨reached, -, hboard, -⟩ := s.dev.usb.writeData_spec packet
    rw [run_ftdiWriteData h]
    refine ⟨rfl, ?_⟩
    show s.dev.usb.board.log <+: (s.dev.usb.writeData packet).2.board.log
    rw [hboard]
    exact List.prefix_append _ _
  · simp only [Device.ftdiWriteData, EStateM.run_bind, EStateM.run_get]
    split
    · exact refl s
    · rename_i hn
      simp [Device.isOpen, hn] at h

/-- The wait returns as many bytes as it asked for, off the front of the waiting ones. -/
theorem readLoop_ok (size : Int) : ∀ (i : Nat) (recv : List UInt8) {s t : DeviceState (Line δ) ω} {got : List UInt8},
    (Device.readLoop size i recv).run s = .ok got t →
      ∃ more, got = recv ++ more ∧ more ++ t.dev.usb.pending = s.dev.usb.pending
  | 0, recv, s, t, got, h => by
    cases h
    exact ⟨[], (List.append_nil _).symm, rfl⟩
  | i + 1, recv, s, t, got, h => by
    obtain ⟨r, u, hread, h⟩ := Base.bind_ok_iff.1 h
    obtain ⟨hresult, hu, -⟩ := ftdiReadData_ok hread
    obtain ⟨pending, reads, hline, hbytes⟩ := s.dev.usb.readData_spec (size - recv.length)
    cases r with
    | error code => cases h
    | ok bytes =>
      have hpending : bytes ++ u.dev.usb.pending = s.dev.usb.pending := by
        have hl : u.dev.usb = { s.dev.usb with pending := pending, reads := reads } := by
          rw [hu]
          exact hline
        rw [hl]
        exact hbytes bytes hresult
      simp only at h
      split at h
      · obtain ⟨more, hgot, hmore⟩ := readLoop_ok size i _ h
        exact ⟨bytes ++ more, by rw [hgot, List.append_assoc], by rw [List.append_assoc, hmore]; exact hpending⟩
      · cases h
        exact ⟨bytes, rfl, hpending⟩

theorem ftdiReadDataWait_ok {size : Int} {s t : DeviceState (Line δ) ω} {got : List UInt8}
    (h : (Device.ftdiReadDataWait size).run s = .ok got t) :
    (got.length : Int) = size ∧ got ++ t.dev.usb.pending = s.dev.usb.pending := by
  obtain ⟨recv, u, hloop, h⟩ := Base.bind_ok_iff.1 h
  obtain ⟨more, hrecv, hmore⟩ := readLoop_ok size 100 [] hloop
  by_cases hne : (recv.length : Int) ≠ size
  · rw [raiseIf_bind_pos hne] at h
    cases h
  · rw [raiseIf_bind_neg hne] at h
    cases h
    exact ⟨not_not.1 hne, by rw [hrecv]; exact hmore⟩

/-- The channel between two calls: the device at a command boundary, every answer read. -/
structure Clean (keys : List AddrPort) (s : DeviceState (Line δ) ω) : Prop where
  ready : Ready keys s
  parser : s.dev.usb.board.parser = boundary
  pending : s.dev.usb.pending = []

theorem length_answers {added : List (Event × List UInt16)} (h : ∀ x ∈ added, x.2.length = x.1.requested) :
    (added.flatMap (·.2)).length = ((added.map (·.1)).map Event.requested).sum := by
  rw [List.length_flatMap, List.map_map]
  exact congrArg List.sum (List.map_congr_left h)

/-- **One exchange from a clean channel** fails, or goes on with the words produced for its own events, the channel clean
again. -/
theorem exchange_cases {s : DeviceState (Line δ) ω} (hs : Clean keys s) {packet : List UInt8} {events : List Event}
    (hreads : commandParser.Reads boundary packet events) (size : Int)
    (hsize : size = 2 * ((events.map Event.requested).sum : Nat)) (what : String)
    (f : List UInt8 → DeviceM (Line δ) ω α) :
    (∃ e t, (do
        let n ← Device.ftdiWriteData packet
        raiseIf (n ≠ packet.length) what
        let recv ← Device.ftdiReadDataWait size
        f recv).run s = .error e t ∧ Channel s t) ∨
      ∃ ws t, (do
        let n ← Device.ftdiWriteData packet
        raiseIf (n ≠ packet.length) what
        let recv ← Device.ftdiReadDataWait size
        f recv).run s = (f (ws.flatMap be16)).run t ∧ Clean keys t ∧ Channel s t ∧ ∃ added, Answered s t events ws added := by
  obtain ⟨reached, -, hboard, hpend, hfull⟩ := s.dev.usb.writeData_spec packet
  have hwrite := run_ftdiWriteData hs.ready.isOpen packet
  have hchannel : Channel s { s with dev := { s.dev with usb := (s.dev.usb.writeData packet).2 } } :=
    (channel_ftdiWriteData packet).ok hwrite
  rw [EStateM.run_bind, hwrite]
  simp only
  by_cases hn : (s.dev.usb.writeData packet).1 ≠ packet.length
  · rw [raiseIf_bind_pos hn]
    exact Or.inl ⟨_, _, rfl, hchannel⟩
  · rw [raiseIf_bind_neg hn]
    rw [hfull (not_not.1 hn)] at hboard hpend
    rw [EStateM.run_bind]
    cases hwait : (Device.ftdiReadDataWait size).run
        { s with dev := { s.dev with usb := (s.dev.usb.writeData packet).2 } } with
    | error e t =>
      exact Or.inl ⟨e, t, rfl, IsTrans.trans _ _ _ hchannel ((waits_ftdiReadDataWait size).error hwait).channel⟩
    | ok got t =>
      obtain ⟨hlen, hgot⟩ := ftdiReadDataWait_ok hwait
      have hwaits := (waits_ftdiReadDataWait size).ok hwait
      have hboard' : t.dev.usb.board = s.dev.usb.board.receive packet := by
        obtain ⟨p, r, rfl⟩ := hwaits
        exact hboard
      have hevents : (s.dev.usb.board.reaction packet).map (·.1) = events := by
        rw [Board.reaction, hs.parser, hreads]
        exact fabric_run_fst _ _
      -- the bytes waiting are those of the answers to this packet, and as many as asked for
      have hall : got ++ t.dev.usb.pending = ((s.dev.usb.board.reaction packet).flatMap (·.2)).flatMap be16 := by
        refine hgot.trans (hpend.trans ?_)
        simp only [Line.receive, hs.pending, List.nil_append, List.flatMap_assoc]
      have hlengths : ∀ x ∈ s.dev.usb.board.reaction packet, x.2.length = x.1.requested := fun x => length_of_mem_run
      have hcount := length_answers hlengths
      rw [hevents] at hcount
      have hlen' := congrArg List.length hall
      rw [List.length_append, length_be16s, hcount] at hlen'
      have hempty : t.dev.usb.pending = [] := List.eq_nil_of_length_eq_zero (by omega)
      rw [hempty, List.append_nil] at hall
      refine Or.inr ⟨(s.dev.usb.board.reaction packet).flatMap (·.2), t, by rw [hall], ⟨?_, ?_, hempty⟩,
        IsTrans.trans _ _ _ hchannel hwaits.channel, s.dev.usb.board.reaction packet, ?_, hevents, rfl, hlengths⟩
      · obtain ⟨p, r, rfl⟩ := hwaits
        exact ⟨hs.ready.isOpen, hs.ready.keys⟩
      · rw [hboard', Board.receive, hs.parser, hreads]
      · show t.dev.usb.board.log = _
        rw [hboard']
        rfl

/-! ## The operations from a clean channel -/

/-- One word for each read command, and each word is for the register of its own command. -/
theorem zip_answers : ∀ (keys : List AddrPort) (added : List (Event × List UInt16)),
    added.map (·.1) = keys.map (fun k => Event.command (.readReg k.reg)) →
    (∀ x ∈ added, x.2.length = x.1.requested) → (added.flatMap (·.2)).length = keys.length ∧
      ∀ kv ∈ keys.zip (added.flatMap (·.2)), Produced added kv.1.reg kv.2
  | [], added, h, _ => by
    rw [List.map_eq_nil_iff.1 h]
    exact ⟨rfl, fun kv hkv => absurd hkv List.not_mem_nil⟩
  | k :: keys, added, h, hlen => by
    obtain ⟨x, rest, rfl, hx, hrest⟩ := List.map_eq_cons_iff.1 h
    obtain ⟨hcount, hzip⟩ := zip_answers keys rest hrest (fun y hy => hlen y (List.mem_cons_of_mem _ hy))
    have hx1 : x.2.length = 1 := by rw [hlen x List.mem_cons_self, hx]; rfl
    obtain ⟨w, hw⟩ := List.length_eq_one_iff.1 hx1
    rw [List.flatMap_cons, hw, List.singleton_append]
    refine ⟨by rw [List.length_cons, List.length_cons, hcount], fun kv hkv => ?_⟩
    rw [List.zip_cons_cons] at hkv
    rcases List.mem_cons.1 hkv with rfl | hkv
    · refine ⟨x, List.mem_cons_self, by rw [hx]; rfl, by rw [hw]; exact List.mem_cons_self⟩
    · obtain ⟨y, hy, hreg, hwy⟩ := hzip kv hkv
      exact ⟨y, List.mem_cons_of_mem _ hy, hreg, hwy⟩

/-- What a call leaves behind, however it ends. -/
structure Served (s : DeviceState (Line δ) ω) (r : EStateM.Result Fault (DeviceState (Line δ) ω) (List UInt16))
    (events : List Event) : Prop where
  returned : ∀ ws t, r = .ok ws t → ∃ added, Answered s t events ws added
  caches : Caches s (final r)

omit [Fabric δ] in
theorem served_nil (s : DeviceState (Line δ) ω) : Served s (.ok [] s) [] := by
  refine ⟨fun ws t h => ?_, refl s⟩
  cases h
  exact ⟨[], (List.append_nil _).symm, rfl, rfl, fun x hx => absurd hx List.not_mem_nil⟩

theorem served_readReg {s : DeviceState (Line δ) ω} (hs : Clean keys s) (addr port : UInt8) :
    Served s ((Call.readReg addr port).run.run s) [.command (.readReg (Reg.of addr port))] := by
  have hrun : (Call.readReg addr port).run.run s = (Device.readReg addr port >>= fun v => pure [v]).run s := rfl
  rw [hrun, EStateM.run_bind]
  rcases exchange_cases hs (reads_readRegPacket addr port) 2 rfl "FTDI write error" (fun recv => do
    Device.storeResult ⟨addr, port⟩ ((words recv).headD 0)
    return (words recv).headD 0) with ⟨e, t, herr, hchannel⟩ | ⟨ws, t, hok, -, hchannel, added, hadded⟩
  · have herr' : (Device.readReg addr port).run s = .error e t := herr
    rw [herr']
    exact ⟨fun ws t h => (by cases h), hchannel.caches⟩
  · obtain ⟨hlen, hzip⟩ := zip_answers [⟨addr, port⟩] added hadded.events hadded.lengths
    rw [hadded.words] at hlen hzip
    obtain ⟨w, rfl⟩ := List.length_eq_one_iff.1 hlen
    have hproduced : Produced t.log (AddrPort.reg ⟨addr, port⟩) w :=
      (hzip (⟨addr, port⟩, w) List.mem_cons_self).mono hadded.subset
    have hcaches := IsTrans.trans _ _ _ hchannel.caches (caches_storeResult hproduced)
    have hdev := dev_storeResult ⟨addr, port⟩ w t
    have hok' : (Device.readReg addr port).run s = (Device.storeResult ⟨addr, port⟩ w >>= fun _ => pure w).run t := by
      refine Eq.trans hok ?_
      rw [words_be16s, List.headD_cons]
    rw [hok', EStateM.run_bind]
    cases hr : (Device.storeResult ⟨addr, port⟩ w).run t with
    | error e u =>
      rw [hr] at hcaches
      exact ⟨fun ws t h => (by cases h), hcaches⟩
    | ok a u =>
      rw [hr] at hcaches hdev
      refine ⟨fun ws v h => ?_, hcaches⟩
      cases h
      refine ⟨added, hadded.of_log ?_⟩
      rw [DeviceState.log, Base.final_ok] at *
      rw [hdev]
      rfl

theorem readRegN_spec (addr port : UInt8) (left : Nat) {s : DeviceState (Line δ) ω} (hs : Clean keys s) :
    Channel s (final ((Device.readRegN addr port left).run s)) ∧
      ∀ ws t, (Device.readRegN addr port left).run s = .ok ws t → ∃ added, Answered s t
        ((countsOf Device.nPacketMax left).map (fun k => .command (.readRegN (Reg.of addr port) k))) ws added := by
  by_cases h : left = 0
  · subst h
    rw [Device.readRegN, dif_pos rfl, Base.countsOf_zero]
    refine ⟨refl s, fun ws t ht => ?_⟩
    cases ht
    exact ⟨[], (List.append_nil _).symm, rfl, rfl, fun x hx => absurd hx List.not_mem_nil⟩
  · have hrun : (Device.readRegN addr port left).run s = (do
        let n ← Device.ftdiWriteData (readRegNPacket addr port (min left Device.nPacketMax))
        raiseIf (n ≠ (readRegNPacket addr port (min left Device.nPacketMax)).length) "FTDI write error"
        let recv ← Device.ftdiReadDataWait (cInt (2 * min left Device.nPacketMax))
        let more ← Device.readRegN addr port (left - min left Device.nPacketMax)
        return words recv ++ more).run s := by
      rw [Device.readRegN, dif_neg h]
      rfl
    rw [hrun, Base.countsOf_pos (by decide) h, List.map_cons]
    have hmin : min left Device.nPacketMax < 65536 := by
      have : Device.nPacketMax = 65535 := rfl
      omega
    have hsize : cInt (2 * min left Device.nPacketMax) =
        2 * (([Event.command (.readRegN (Reg.of addr port) (min left Device.nPacketMax))].map Event.requested).sum : Nat) := by
      rw [cInt_of_lt (by omega)]
      rfl
    rcases exchange_cases hs (reads_readRegNPacket addr port hmin) _ hsize "FTDI write error" (fun recv => do
      let more ← Device.readRegN addr port (left - min left Device.nPacketMax)
      return words recv ++ more) with ⟨e, t, herr, hchannel⟩ | ⟨vs, t, hok, hclean, hchannel, added, hadded⟩
    · rw [herr]
      exact ⟨hchannel, fun ws u hu => by cases hu⟩
    · obtain ⟨hrest, hreturned⟩ := readRegN_spec addr port (left - min left Device.nPacketMax) hclean
      rw [hok, words_be16s, EStateM.run_bind]
      cases hr : (Device.readRegN addr port (left - min left Device.nPacketMax)).run t with
      | error e u =>
        rw [hr] at hrest
        exact ⟨IsTrans.trans _ _ _ hchannel hrest, fun ws v hv => by cases hv⟩
      | ok more u =>
        rw [hr] at hrest
        refine ⟨IsTrans.trans _ _ _ hchannel hrest, fun ws v hv => ?_⟩
        cases hv
        obtain ⟨added', hadded'⟩ := hreturned more u hr
        exact ⟨added ++ added', hadded.append hadded'⟩
termination_by left
decreasing_by
  simp only [Device.nPacketMax]
  omega

/-- Two lists of values that agree with one lookup are one. -/
theorem values_eq {f : AddrPort → Option UInt16} : ∀ (l : List (AddrPort × UInt16)) (ws : List UInt16),
    ws.length = l.length → (∀ e ∈ l, f e.1 = some e.2) → (∀ kv ∈ (l.map Prod.fst).zip ws, f kv.1 = some kv.2) →
    l.map Prod.snd = ws
  | [], [], _, _, _ => rfl
  | e :: l, w :: ws, hlen, hl, hz => by
    have hew : f e.1 = some w := hz (e.1, w) List.mem_cons_self
    rw [hl e List.mem_cons_self, Option.some.injEq] at hew
    rw [List.map_cons, hew, values_eq l ws (Nat.succ.inj hlen) (fun x hx => hl x (List.mem_cons_of_mem _ hx))
      (fun x hx => hz x (List.mem_cons_of_mem _ hx))]

/-- A cache whose keys hold these words lists them. -/
theorem values_of_find? {m : OrdMap AddrPort UInt16} {ws : List UInt16} (hlen : ws.length = m.keys.length)
    (h : ∀ kv ∈ m.keys.zip ws, m.find? kv.1 = some kv.2) : m.entries.map Prod.snd = ws :=
  values_eq m.entries ws (by rw [hlen, OrdMap.keys, List.length_map]) (fun _ he => OrdMap.mem_entries_iff.1 he) h

/-- The cache after a poll lists the words of the poll. -/
theorem storeResults_values {t u : DeviceState (Line δ) ω} {ws : List UInt16} (hkeys : t.dev.trackedRegs.keys = keys)
    (hlen : ws.length = keys.length) (hp : ∀ kv ∈ keys.zip ws, Produced t.log kv.1.reg kv.2)
    (hr : (Device.storeResults (keys.zip ws)).run t = .ok () u) : u.dev.trackedRegs.entries.map Prod.snd = ws := by
  have hfst : (keys.zip ws).map Prod.fst = keys := List.map_fst_zip (by omega)
  have hukeys : u.dev.trackedRegs.keys = keys := ((quiet_storeResults (keys.zip ws)).ok hr).keys.trans hkeys
  have hnodup : ((keys.zip ws).map Prod.fst).Nodup := by
    rw [hfst, ← hkeys]
    exact OrdMap.keys_nodup _
  have hin : ∀ kv ∈ keys.zip ws, kv.1 ∈ t.dev.trackedRegs.keys := by
    intro kv hkv
    rw [hkeys]
    exact (List.of_mem_zip hkv).1
  have hvals := ((storeResults_spec (keys.zip ws) t hp).2.2 hnodup hin u hr).1
  exact values_of_find? (by rw [hukeys, hlen]) (by rw [hukeys]; exact hvals)

theorem run_updateTrackedRegs_nil {s : DeviceState (Line δ) ω} (h : s.dev.trackedRegs.keys = []) :
    Call.updateTrackedRegs.run.run s = .ok [] s := by
  have hentries : s.dev.trackedRegs.entries = [] := List.map_eq_nil_iff.1 h
  have hupdate : (Device.updateTrackedRegs : DeviceM (Line δ) ω Unit).run s = .ok () s := by
    simp only [Device.updateTrackedRegs, EStateM.run_bind, EStateM.run_get, if_pos h]
    rfl
  simp only [Call.run, EStateM.run_bind, hupdate, EStateM.run_get, hentries]
  rfl

theorem run_updateTrackedRegs {s : DeviceState (Line δ) ω} (hkeys : s.dev.trackedRegs.keys = keys) (hne : keys ≠ [])
    (hlen : keys.length ≤ 65536) : (Device.updateTrackedRegs : DeviceM (Line δ) ω Unit).run s = (do
      let n ← Device.ftdiWriteData (Device.readRegPackets keys)
      raiseIf (n ≠ (Device.readRegPackets keys).length) "FTDI write error"
      let recv ← Device.ftdiReadDataWait (cInt (2 * keys.length))
      Device.storeResults (keys.zip (words recv))).run s := by
  have hsize : cInt (2 * keys.length) = (Device.readRegPackets keys).length := by
    rw [length_readRegPackets, cInt_of_lt (by omega)]
  subst hkeys
  rw [← hsize, Device.updateTrackedRegs, EStateM.run_bind, EStateM.run_get]
  simp only [if_neg hne]

theorem served_updateTrackedRegs {s : DeviceState (Line δ) ω} (hs : Clean keys s) (hne : keys ≠ [])
    (hkeys : keys.length ≤ 65536) :
    Served s (Call.updateTrackedRegs.run.run s) (keys.map (fun k => .command (.readReg k.reg))) := by
  have hsize : cInt (2 * keys.length) =
      2 * (((keys.map (fun k => Event.command (.readReg k.reg))).map Event.requested).sum : Nat) := by
    have hones : (keys.map (fun k => Event.command (.readReg k.reg))).map Event.requested = keys.map (fun _ => 1) := by
      rw [List.map_map]
      rfl
    rw [cInt_of_lt (by omega), hones, List.map_const', List.sum_replicate_nat]
    omega
  have hrun : Call.updateTrackedRegs.run.run s = (Device.updateTrackedRegs >>= fun _ => do
      let s : DeviceState (Line δ) ω ← get
      return s.dev.trackedRegs.entries.map Prod.snd).run s := rfl
  rw [hrun, EStateM.run_bind, run_updateTrackedRegs hs.ready.keys hne hkeys]
  rcases exchange_cases hs (reads_poll keys) _ hsize "FTDI write error"
    (fun recv => Device.storeResults (keys.zip (words recv))) with
    ⟨e, t, herr, hchannel⟩ | ⟨ws, t, hok, hclean, hchannel, added, hadded⟩
  · rw [herr]
    exact ⟨fun ws t h => (by cases h), hchannel.caches⟩
  · rw [hok, words_be16s]
    obtain ⟨hlen, hzip⟩ := zip_answers keys added hadded.events hadded.lengths
    rw [hadded.words] at hlen hzip
    have hproduced : ∀ kv ∈ keys.zip ws, Produced t.log kv.1.reg kv.2 := fun kv hkv => (hzip kv hkv).mono hadded.subset
    obtain ⟨hstored, hlog, -⟩ := storeResults_spec (keys.zip ws) t hproduced
    have hcaches := IsTrans.trans _ _ _ hchannel.caches hstored
    cases hr : (Device.storeResults (keys.zip ws)).run t with
    | error e u =>
      rw [hr] at hcaches
      exact ⟨fun ws t h => (by cases h), hcaches⟩
    | ok a u =>
      rw [hr] at hcaches hlog
      refine ⟨fun vs v h => ?_, hcaches⟩
      have hvalues := storeResults_values hclean.ready.keys hlen hproduced hr
      cases h
      refine ⟨added, ?_⟩
      rw [hvalues]
      exact hadded.of_log hlog

theorem channel_writeReg (addr port : UInt8) (value : UInt16) :
    Within Channel (Device.writeReg addr port value : DeviceM (Line δ) ω Unit) :=
  (channel_ftdiWriteData _).bind (fun _ => within_raiseIf _ _)

theorem channel_writeRegN (addr port : UInt8) (rest : List UInt16) :
    Within Channel (Device.writeRegN addr port rest : DeviceM (Line δ) ω Unit) := by
  by_cases h : rest = []
  · rw [Device.writeRegN, dif_pos h]
    exact Within.pure _
  · rw [Device.writeRegN, dif_neg h]
    exact (channel_ftdiWriteData _).bind (fun _ => (within_raiseIf _ _).bind (fun _ => (within_raiseIf _ _).bind (fun _ =>
      channel_writeRegN addr port (rest.drop Device.nPacketMax))))
termination_by rest.length
decreasing_by
  have := List.length_pos_iff.2 h
  simp only [List.length_drop, Device.nPacketMax]
  omega

/-- A call that returns no words and whose commands ask for none. -/
theorem served_write (hkeys : keys.length ≤ 65536) {c : Call} {s : DeviceState (Line δ) ω} (hs : Ready keys s)
    (hstart : c.StartsAligned keys s) (hnone : ∀ e ∈ (c.events keys).flatten, e.requested = 0)
    (hret : ∀ ws t, c.run.run s = .ok ws t → ws = []) (hchannel : Within Channel (c.run : DeviceM (Line δ) ω (List UInt16))) :
    Served s (c.run.run s) (c.events keys).flatten := by
  obtain ⟨bytes, hsent⟩ := transmits_call hkeys c s hs
  refine ⟨fun ws t h => ?_, (hchannel s).caches⟩
  have hboard := hsent.sends.board
  rw [h, Base.final_ok, hsent.returned ws t h] at hboard
  have hevents : (s.dev.usb.board.reaction (c.packets keys).flatten).map (·.1) = (c.events keys).flatten := by
    rw [Board.reaction, run_packets hstart]
    exact fabric_run_fst _ _
  have hlengths : ∀ x ∈ s.dev.usb.board.reaction (c.packets keys).flatten, x.2.length = x.1.requested :=
    fun x => length_of_mem_run
  refine ⟨_, ?_, hevents, ?_, hlengths⟩
  · rw [DeviceState.log, hboard]
    rfl
  · rw [hret ws t h, List.flatMap_eq_nil_iff]
    intro x hx
    refine List.eq_nil_of_length_eq_zero ((hlengths x hx).trans (hnone x.1 ?_))
    rw [← hevents]
    exact List.mem_map_of_mem hx

/-! ## Sessions -/

/-- A call that sends anything starts at a command boundary with no unread byte: no earlier write was cut inside a command
and no earlier wait left part of an answer to come. -/
def Call.StartsClean (keys : List AddrPort) (c : Call) (s : DeviceState (Line δ) ω) : Prop :=
  c.packets keys ≠ [] → s.dev.usb.board.parser = boundary ∧ s.dev.usb.pending = []

theorem call_served (hkeys : keys.length ≤ 65536) (c : Call) {s : DeviceState (Line δ) ω} (hs : Ready keys s)
    (hstart : c.StartsClean keys s) : Served s (c.run.run s) (c.events keys).flatten := by
  have hclean : c.packets keys ≠ [] → Clean keys s := fun hp => ⟨hs, (hstart hp).1, (hstart hp).2⟩
  have haligned : c.StartsAligned keys s := fun hp => (hstart hp).1
  cases c with
  | writeReg addr port value =>
    refine served_write hkeys hs haligned (fun e he => ?_) (fun ws t h => ?_)
      ((channel_writeReg addr port value).bind (fun _ => Within.pure _))
    · rcases List.mem_cons.1 he with rfl | he
      · rfl
      · rw [List.mem_singleton.1 he]
        rfl
    · obtain ⟨a, u, -, hpure⟩ := Base.bind_ok_iff.1 h
      cases hpure
      rfl
  | readReg addr port => exact served_readReg (hclean (List.cons_ne_nil _ _)) addr port
  | writeRegN addr port data =>
    refine served_write hkeys hs haligned (fun e he => ?_) (fun ws t h => ?_)
      ((channel_writeRegN addr port data).bind (fun _ => Within.pure _))
    · obtain ⟨es, hes, hin⟩ := List.mem_flatten.1 he
      obtain ⟨p, -, rfl⟩ := List.mem_map.1 hes
      rcases List.mem_append.1 hin with hin | hin
      · obtain ⟨w, -, rfl⟩ := List.mem_map.1 hin
        rfl
      · rw [List.mem_singleton.1 hin]
        rfl
    · obtain ⟨a, u, -, hpure⟩ := Base.bind_ok_iff.1 h
      cases hpure
      rfl
  | readRegN addr port n =>
    by_cases hn : n = 0
    · have hrun : (Call.readRegN addr port n).run.run s = .ok [] s := by
        rw [Call.run, Device.readRegN, dif_pos hn]
        rfl
      rw [hrun, Call.events, hn, Base.countsOf_zero]
      exact served_nil s
    · have hp : (Call.readRegN addr port n).packets keys ≠ [] := by
        rw [Call.packets, Base.countsOf_pos (by decide) hn]
        exact List.cons_ne_nil _ _
      obtain ⟨hchannel, hreturned⟩ := readRegN_spec addr port n (hclean hp)
      rw [Call.events, ← List.flatMap_def, ← List.map_eq_flatMap]
      exact ⟨hreturned, hchannel.caches⟩
  | updateTrackedRegs =>
    by_cases hne : keys = []
    · rw [run_updateTrackedRegs_nil (hs.keys.trans hne), Call.events, if_pos hne]
      exact served_nil s
    · rw [Call.events, if_neg hne, List.flatten_singleton]
      exact served_updateTrackedRegs (hclean (by rw [Call.packets, if_neg hne]; exact List.cons_ne_nil _ _)) hne hkeys

theorem session_clean (hkeys : keys.length ≤ 65536) : ∀ (calls : List Call) (s : DeviceState (Line δ) ω), Ready keys s →
    (∀ x ∈ starts s calls, x.1.StartsClean keys x.2) →
    (∀ x ∈ starts s calls, ∀ ws t, x.1.run.run x.2 = .ok ws t →
      ∃ added, Answered x.2 t (x.1.events keys).flatten ws added) ∧ Caches s (session s calls)
  | [], s, _, _ => ⟨fun x hx => absurd hx List.not_mem_nil, refl s⟩
  | c :: calls, s, hs, hstarts => by
    obtain ⟨bytes, hsent⟩ := transmits_call hkeys c s hs
    have hserved := call_served hkeys c hs (hstarts _ List.mem_cons_self)
    obtain ⟨hrest, hcaches⟩ := session_clean hkeys calls (final (c.run.run s)) (hs.sends hsent.sends)
      (fun x hx => hstarts x (List.mem_cons_of_mem _ hx))
    refine ⟨fun x hx => ?_, IsTrans.trans _ _ _ hserved.caches hcaches⟩
    rcases List.mem_cons.1 hx with rfl | hx
    · exact hserved.returned
    · exact hrest x hx

/-- **Calls that start clean get their own words**: each that returns delivers exactly the words the device produced for the
commands of that call, and the cache holds what it held or what was produced for the register. -/
theorem session_delivers (calls : List Call) (s : DeviceState (Line δ) ω) (hopen : s.dev.isOpen = true)
    (hstarts : ∀ x ∈ starts s calls, x.1.StartsClean s.dev.trackedRegs.keys x.2) :
    (∀ x ∈ starts s calls, ∀ ws t, x.1.run.run x.2 = .ok ws t →
      ∃ added, Answered x.2 t (x.1.events s.dev.trackedRegs.keys).flatten ws added) ∧
    ∀ k v, (session s calls).dev.trackedRegs.find? k = some v →
      s.dev.trackedRegs.find? k = some v ∨ Produced (session s calls).log k.reg v := by
  obtain ⟨hdelivered, hcaches⟩ := session_clean (length_keys_le s.dev.trackedRegs) calls s ⟨hopen, rfl⟩ hstarts
  exact ⟨hdelivered, hcaches.cache⟩

/-- Two reads of a device whose registers hold their own address. -/
def twoReads (reads : List ReadStep) : DeviceState (Line RegisterFile) Unit :=
  onRegisterFile (fun r => UInt16.ofNat r.addr) (OrdMap.empty.insert ⟨2, 0⟩ 0) [] reads

theorem session_delivers_two :
    (∀ x ∈ starts (twoReads []) [.readReg 1 0, .readReg 2 0], ∀ ws t, x.1.run.run x.2 = .ok ws t →
      ∃ added, Answered x.2 t (x.1.events [⟨2, 0⟩]).flatten ws added) ∧
    ∀ k v, (session (twoReads []) [.readReg 1 0, .readReg 2 0]).dev.trackedRegs.find? k = some v →
      (twoReads []).dev.trackedRegs.find? k = some v ∨
        Produced (session (twoReads []) [.readReg 1 0, .readReg 2 0]).log k.reg v := by
  refine session_delivers _ _ rfl (fun x hx _ => ?_)
  rcases List.mem_cons.1 hx with rfl | hx
  · exact ⟨rfl, rfl⟩
  · rw [List.mem_singleton.1 hx]
    exact ⟨rfl, rfl⟩

/-- The wait of the first read fails, its answer stays, and the second read returns it. -/
theorem failed_wait_shifts_answers : ¬ ∀ (calls : List Call) (s : DeviceState (Line RegisterFile) Unit),
    s.dev.isOpen = true → s.dev.usb.board.parser = boundary → s.dev.usb.pending = [] → s.dev.usb.WritesSucceed →
    (∀ x ∈ starts s calls, ∀ ws t, x.1.run.run x.2 = .ok ws t →
      ∃ added, Answered x.2 t (x.1.events s.dev.trackedRegs.keys).flatten ws added) ∧
    ∀ k v, (session s calls).dev.trackedRegs.find? k = some v →
      s.dev.trackedRegs.find? k = some v ∨ Produced (session s calls).log k.reg v := by
  intro h
  obtain ⟨-, hcache⟩ := h [.readReg 1 0, .readReg 2 0] (twoReads [.fail (-1)]) rfl rfl rfl
    (fun _ h => absurd h List.not_mem_nil)
  have hstale : (session (twoReads [.fail (-1)]) [.readReg 1 0, .readReg 2 0]).dev.trackedRegs.find? ⟨2, 0⟩ = some 1 := by
    decide
  have hlog : (session (twoReads [.fail (-1)]) [.readReg 1 0, .readReg 2 0]).log =
      [(.command (.readReg ⟨1, 0⟩), [1]), (.command (.readReg ⟨2, 0⟩), [2])] := by
    decide
  rcases hcache ⟨2, 0⟩ 1 hstale with hold | ⟨x, hx, hreg, hw⟩
  · exact absurd hold (by decide)
  · rw [hlog] at hx
    rcases List.mem_cons.1 hx with rfl | hx
    · exact absurd hreg (by decide)
    · rw [List.mem_singleton.1 hx] at hw
      exact absurd hw (by decide)

end Fpga
