import FpgaServer.Changes
import FpgaServer.Transport
/-!
# TrackedHistory — what the callback of a device reports about a tracked register

A call on a device reads first and then stores: `reads` is the part before anything is cached, and gives each observed value
its key.  A history keeps, for each register since it became tracked, what was observed and what was reported; along every
run the two and the cache go together as `Base.Follows` says.  The callback is called from the loop that stores, so an
exception of its own ends a pass at the value it was told of; the later words of the pass are lost.
-/
namespace Fpga

open Base (OrdMap Within Follows final zoom)

variable {ε ω : Type}

/-- The world of a callback, and every invocation of it. -/
structure Recorder (ω : Type) where
  reports : List (AddrPort × UInt16)
  world : ω

/-- A callback that is recorded. -/
def recording (cb : String → UInt8 → UInt8 → UInt16 → EStateM Fault ω Unit) (name : String) (addr port : UInt8)
    (value : UInt16) : EStateM Fault (Recorder ω) Unit := do
  modify (fun r => { r with reports := r.reports ++ [(⟨addr, port⟩, value)] })
  zoom (·.world) (fun w r => { r with world := w }) (cb name addr port value)

inductive TrackCall where
  | trackReg (addr port : UInt8) (enabled : Bool)
  | updateTrackedRegs
  | readReg (addr port : UInt8)
  deriving DecidableEq, Repr

namespace TrackCall

variable [Ftdi ε]

def run : TrackCall → DeviceM ε ω Unit
  | .trackReg addr port true => Device.trackReg addr port
  | .trackReg addr port false => Device.untrackReg addr port
  | .updateTrackedRegs => Device.updateTrackedRegs
  | .readReg addr port => do let _ ← Device.readReg addr port

/-- The values a call has read when it begins to store, with their keys. -/
def reads : TrackCall → DeviceM ε ω (List (AddrPort × UInt16))
  | .trackReg _ _ _ => pure []
  | .updateTrackedRegs => do
    let s ← get
    let keys := s.dev.trackedRegs.keys
    if keys = [] then
      return []
    let n ← Device.ftdiWriteData (Device.readRegPackets keys)
    raiseIf (n ≠ cInt (2 * keys.length)) "FTDI write error"
    let recv ← Device.ftdiReadDataWait (cInt (2 * keys.length))
    return keys.zip (words recv)
  | .readReg addr port => do
    let n ← Device.ftdiWriteData (readRegPacket addr port)
    raiseIf (n ≠ 2) "FTDI write error"
    let recv ← Device.ftdiReadDataWait 2
    return [(⟨addr, port⟩, (words recv).headD 0)]

/-- The values up to the one that was reported last. -/
def upTo (last : Option (AddrPort × UInt16)) (kvs : List (AddrPort × UInt16)) : List (AddrPort × UInt16) :=
  kvs.take (kvs.findIdx (fun kv => some kv = last) + 1)

/-- The values a call observes: all it has read, or, if it throws after that, those up to its last report. -/
def observed (c : TrackCall) (s : DeviceState ε (Recorder ω)) : List (AddrPort × UInt16) :=
  match c.reads.run s with
  | .error _ _ => []
  | .ok kvs _ =>
    match c.run.run s with
    | .ok _ _ => kvs
    | .error _ t => upTo t.out.reports.getLast? kvs

omit [Ftdi ε] in
/-- The call makes the register a tracked one. -/
def Starts (c : TrackCall) (s : DeviceState ε ω) (k : AddrPort) : Prop :=
  c = .trackReg k.addr k.port true ∧ k ∉ s.dev.trackedRegs.keys

instance (c : TrackCall) (s : DeviceState ε ω) (k : AddrPort) : Decidable (c.Starts s k) :=
  inferInstanceAs (Decidable (_ ∧ _))

end TrackCall

/-- The values of one register. -/
def valuesOf (k : AddrPort) (kvs : List (AddrPort × UInt16)) : List UInt16 :=
  (kvs.filter (fun kv => kv.1 = k)).map Prod.snd

/-- A device with what was observed and reported of each register since it became tracked. -/
structure Tracking (ε ω : Type) where
  state : DeviceState ε (Recorder ω)
  observed : AddrPort → List UInt16
  reported : AddrPort → List UInt16

namespace Tracking

/-- A device that begins to track these registers, with a callback installed. -/
def start (d : Device ε (Recorder ω)) (watchlist : List AddrPort)
    (cb : String → UInt8 → UInt8 → UInt16 → EStateM Fault ω Unit) (w : ω) : Tracking ε ω where
  state := {
    dev := { d with
      trackedRegs := watchlist.foldl (fun regs k => regs.insert k 0) OrdMap.empty
      regChangedCb := some (recording cb) }
    out := ⟨[], w⟩ }
  observed _ := []
  reported _ := []

/-- One call, returning or throwing. -/
def step [Ftdi ε] (t : Tracking ε ω) (c : TrackCall) : Tracking ε ω :=
  let s := final (c.run.run t.state)
  { state := s
    observed := fun k => if c.Starts t.state k then [] else t.observed k ++ valuesOf k (c.observed t.state)
    reported := fun k => if c.Starts t.state k then []
      else t.reported k ++ valuesOf k (s.out.reports.drop t.state.out.reports.length) }

end Tracking

@[simp] theorem valuesOf_nil (k : AddrPort) : valuesOf k [] = [] := rfl

@[simp] theorem valuesOf_append (k : AddrPort) (kvs more : List (AddrPort × UInt16)) :
    valuesOf k (kvs ++ more) = valuesOf k kvs ++ valuesOf k more := by
  simp [valuesOf]

theorem valuesOf_singleton (k : AddrPort) (kv : AddrPort × UInt16) :
    valuesOf k [kv] = if kv.1 = k then [kv.2] else [] := by
  by_cases h : kv.1 = k <;> simp [valuesOf, h]

/-! ## Storing -/

/-- The cached values are those of an observer with these records. -/
def Faithful (observed reported : AddrPort → List UInt16) (regs : OrdMap AddrPort UInt16) : Prop :=
  ∀ k v, regs.find? k = some v → Follows 0 (observed k) (reported k) v

/-- From `s` to `t` these values are stored, and these of them reported. -/
structure Stores (s t : DeviceState ε (Recorder ω)) (kvs new : List (AddrPort × UInt16)) : Prop where
  dev : t.dev = { s.dev with usb := t.dev.usb, trackedRegs := t.dev.trackedRegs }
  reports : t.out.reports = s.out.reports ++ new
  faithful : ∀ observed reported, Faithful observed reported s.dev.trackedRegs →
    Faithful (fun k => observed k ++ valuesOf k kvs) (fun k => reported k ++ valuesOf k new) t.dev.trackedRegs

/-- Moving bytes stores nothing. -/
theorem OnChannel.stores {s t : DeviceState ε (Recorder ω)} (h : OnChannel s t) : Stores s t [] [] := by
  refine ⟨by rw [h], by rw [h, List.append_nil], fun observed reported hf k v hv => ?_⟩
  rw [h.trackedRegs] at hv
  simpa using hf k v hv

theorem Stores.append {s t u : DeviceState ε (Recorder ω)} {kvs new kvs' new' : List (AddrPort × UInt16)}
    (h : Stores s t kvs new) (h' : Stores t u kvs' new') : Stores s u (kvs ++ kvs') (new ++ new') where
  dev := by rw [h'.dev, h.dev]
  reports := by rw [h'.reports, h.reports, List.append_assoc]
  faithful observed reported hf k v hv := by
    have := h'.faithful _ _ (h.faithful observed reported hf) k v hv
    simpa only [valuesOf_append, List.append_assoc] using this

/-- The report a new value calls for. -/
def due (k : AddrPort) (old v : UInt16) : List (AddrPort × UInt16) := if v ≠ old then [(k, v)] else []

theorem valuesOf_due (k : AddrPort) (old v : UInt16) : valuesOf k (due k old v) = if v ≠ old then [v] else [] := by
  unfold due
  split
  · rw [valuesOf_singleton, if_pos rfl]
  · rfl

theorem valuesOf_due_of_ne {k q : AddrPort} (h : k ≠ q) (old v : UInt16) : valuesOf q (due k old v) = [] := by
  unfold due
  split
  · rw [valuesOf_singleton, if_neg h]
  · rfl

/-- Setting the cache at one key, with the report that is due. -/
theorem stores_set (s : DeviceState ε (Recorder ω)) {k : AddrPort} {old : UInt16}
    (hk : s.dev.trackedRegs.find? k = some old) (v : UInt16) (w : ω) :
    Stores s ⟨{ s.dev with trackedRegs := s.dev.trackedRegs.set k v }, ⟨s.out.reports ++ due k old v, w⟩⟩ [(k, v)]
      (due k old v) := by
  refine ⟨rfl, rfl, fun observed reported hf q x hx => ?_⟩
  simp only [OrdMap.find?_set] at hx
  by_cases hq : q = k
  · subst hq
    rw [if_pos rfl, hk, Option.map_some, Option.some.injEq] at hx
    subst hx
    simp only [valuesOf_singleton, if_true, valuesOf_due]
    exact (hf q old hk).observe v
  · rw [if_neg hq] at hx
    simp only [valuesOf_singleton, if_neg (Ne.symm hq), valuesOf_due_of_ne (Ne.symm hq), List.append_nil]
    exact hf q x hx

theorem stores_absent (s : DeviceState ε (Recorder ω)) {k : AddrPort} (hk : s.dev.trackedRegs.find? k = none)
    (v : UInt16) : Stores s s [(k, v)] [] := by
  refine ⟨rfl, (List.append_nil _).symm, fun observed reported hf q x hx => ?_⟩
  have hne : k ≠ q := by
    rintro rfl
    rw [hk] at hx
    cases hx
  simp only [valuesOf_singleton, if_neg hne, valuesOf_nil, List.append_nil]
  exact hf q x hx

section
variable {cb : String → UInt8 → UInt8 → UInt16 → EStateM Fault ω Unit}

/-- One value is stored, and its report made if one is due; what is thrown is thrown by the callback. -/
theorem run_storeResult_cases {s : DeviceState ε (Recorder ω)} (hcb : s.dev.regChangedCb = some (recording cb))
    (k : AddrPort) (v : UInt16) :
    (∃ t new, (Device.storeResult k v).run s = .ok () t ∧ Stores s t [(k, v)] new) ∨
      ∃ e t w w', (Device.storeResult k v).run s = .error e t ∧ Stores s t [(k, v)] [(k, v)] ∧
        (cb s.dev.name k.addr k.port v).run w = .error e w' := by
  simp only [Device.storeResult, EStateM.run_bind, EStateM.run_get]
  cases hk : s.dev.trackedRegs.find? k with
  | none => exact .inl ⟨s, [], rfl, stores_absent s hk v⟩
  | some old =>
    have hset := stores_set s hk v
    simp only [Device.modifyDev, EStateM.run_bind, EStateM.run_modify]
    by_cases hv : v ≠ old
    · simp only [due, if_pos hv] at hset
      have hrun : (Device.regChanged k.addr k.port v).run
          { s with dev := { s.dev with trackedRegs := s.dev.trackedRegs.set k v } } =
          match (cb s.dev.name k.addr k.port v).run s.out.world with
          | .ok () w => .ok () ⟨{ s.dev with trackedRegs := s.dev.trackedRegs.set k v }, ⟨s.out.reports ++ [(k, v)], w⟩⟩
          | .error e w =>
            .error e ⟨{ s.dev with trackedRegs := s.dev.trackedRegs.set k v }, ⟨s.out.reports ++ [(k, v)], w⟩⟩ := by
        simp only [Device.regChanged, EStateM.run_bind, EStateM.run_get, hcb, Base.run_zoom, recording, EStateM.run_modify]
        cases (cb s.dev.name k.addr k.port v).run s.out.world <;> rfl
      rw [if_pos hv, hrun]
      cases hw : (cb s.dev.name k.addr k.port v).run s.out.world with
      | ok a w => exact .inl ⟨_, _, rfl, hset w⟩
      | error e w => exact .inr ⟨e, _, _, w, rfl, hset w, hw⟩
    · rw [if_neg hv]
      have := hset s.out.world
      simp only [due, if_neg hv, List.append_nil] at this
      exact .inl ⟨_, _, rfl, this⟩

/-- **The loop that stores** stores all, or ends at the value whose report the callback throws on. -/
theorem run_storeResults_cases : ∀ (kvs : List (AddrPort × UInt16)) {s : DeviceState ε (Recorder ω)},
    s.dev.regChangedCb = some (recording cb) →
    (∃ t new, (Device.storeResults kvs).run s = .ok () t ∧ Stores s t kvs new) ∨
      ∃ e t before kv after new w w', (Device.storeResults kvs).run s = .error e t ∧ kvs = before ++ kv :: after ∧
        Stores s t (before ++ [kv]) (new ++ [kv]) ∧ (cb s.dev.name kv.1.addr kv.1.port kv.2).run w = .error e w'
  | [], s, _ => .inl ⟨s, [], rfl, (refl s : OnChannel s s).stores⟩
  | kv :: kvs, s, hcb => by
    rw [Device.storeResults, EStateM.run_bind]
    rcases run_storeResult_cases hcb kv.1 kv.2 with ⟨t, new, hrun, hstores⟩ | ⟨e, t, w, w', hrun, hstores, hthrow⟩
    · rw [hrun]
      have hcb' : t.dev.regChangedCb = some (recording cb) := by rw [hstores.dev]; exact hcb
      rcases run_storeResults_cases kvs hcb' with
        ⟨u, more, hrest, hmore⟩ | ⟨e, u, before, kv', after, more, w, w', hrest, hkvs, hmore, hthrow⟩
      · exact .inl ⟨u, new ++ more, hrest, hstores.append hmore⟩
      · rw [hstores.dev] at hthrow
        refine .inr ⟨e, u, kv :: before, kv', after, new ++ more, w, w', hrest, by rw [hkvs]; rfl, ?_, hthrow⟩
        have := hstores.append hmore
        rwa [List.append_assoc]
    · rw [hrun]
      exact .inr ⟨e, t, [], kv, kvs, [], w, w', rfl, rfl, hstores, hthrow⟩

end

/-! ## One call -/

theorem upTo_eq {kv : AddrPort × UInt16} (after : List (AddrPort × UInt16)) : ∀ {before : List (AddrPort × UInt16)},
    kv ∉ before → TrackCall.upTo (some kv) (before ++ kv :: after) = before ++ [kv]
  | [], _ => by simp [TrackCall.upTo, List.findIdx_cons]
  | x :: before, h => by
    rw [List.mem_cons, not_or] at h
    have ih := upTo_eq after h.2
    have hx : ¬ x = kv := fun hx => h.1 hx.symm
    simpa [TrackCall.upTo, List.findIdx_cons, hx] using ih

namespace TrackCall

variable [Ftdi ε] {cb : String → UInt8 → UInt8 → UInt16 → EStateM Fault ω Unit}

theorem onChannel_reads (c : TrackCall) : Within OnChannel (c.reads : DeviceM ε ω (List (AddrPort × UInt16))) := by
  cases c with
  | trackReg addr port enabled => exact Within.pure _
  | updateTrackedRegs =>
    refine Within.get.bind (fun s => ?_)
    simp only
    split
    · exact Within.pure _
    · refine (onChannel_ftdiWriteData _).bind (fun _ => (onChannel_raiseIf _ _).bind (fun _ => ?_))
      exact (onChannel_ftdiReadDataWait _).bind (fun _ => Within.pure _)
  | readReg addr port =>
    refine (onChannel_ftdiWriteData _).bind (fun _ => (onChannel_raiseIf _ _).bind (fun _ => ?_))
    exact (onChannel_ftdiReadDataWait _).bind (fun _ => Within.pure _)

/-- A call that is not about tracking reads, and then stores what it has read. -/
theorem run_eq (c : TrackCall) (hc : ∀ addr port enabled, c ≠ .trackReg addr port enabled) :
    (c.run : DeviceM ε ω Unit) = (do Device.storeResults (← c.reads)) := by
  cases c with
  | trackReg addr port enabled => exact absurd rfl (hc addr port enabled)
  | updateTrackedRegs =>
    simp only [run, reads, Device.updateTrackedRegs, bind_assoc]
    congr 1
    funext s
    split
    · rw [pure_bind]
      rfl
    · simp only [bind_assoc, pure_bind]
  | readReg addr port =>
    simp only [run, reads, Device.readReg, Device.storeResults, bind_assoc, pure_bind]

/-- No key comes twice. -/
theorem nodup_reads (c : TrackCall) {s t : DeviceState ε ω} {kvs : List (AddrPort × UInt16)}
    (h : c.reads.run s = .ok kvs t) : (kvs.map Prod.fst).Nodup := by
  cases c with
  | trackReg addr port enabled =>
    cases h
    exact List.nodup_nil
  | updateTrackedRegs =>
    obtain ⟨s', u, hget, h⟩ := Base.bind_ok_iff.1 h
    cases hget
    simp only at h
    split at h
    · cases h
      exact List.nodup_nil
    · obtain ⟨_, _, -, h⟩ := Base.bind_ok_iff.1 h
      obtain ⟨_, _, -, h⟩ := Base.bind_ok_iff.1 h
      obtain ⟨_, _, -, h⟩ := Base.bind_ok_iff.1 h
      cases h
      rw [List.zip_eq_zip_take_min, List.map_fst_zip (by simp)]
      exact s.dev.trackedRegs.keys_nodup.sublist (List.take_sublist _ _)
  | readReg addr port =>
    obtain ⟨_, _, -, h⟩ := Base.bind_ok_iff.1 h
    obtain ⟨_, _, -, h⟩ := Base.bind_ok_iff.1 h
    obtain ⟨_, _, -, h⟩ := Base.bind_ok_iff.1 h
    cases h
    exact List.nodup_singleton _

/-- How a call ends that is not about tracking: it has stored what it observes, or has thrown before that, or has stored it
and the callback has thrown on the last report. -/
theorem run_cases (c : TrackCall) (hc : ∀ addr port enabled, c ≠ .trackReg addr port enabled)
    {s : DeviceState ε (Recorder ω)} (hcb : s.dev.regChangedCb = some (recording cb)) :
    (∃ t new, c.run.run s = .ok () t ∧ Stores s t (c.observed s) new) ∨
      (∃ e t, c.run.run s = .error e t ∧ Stores s t (c.observed s) [] ∧ OnChannel s t) ∨
      ∃ e t new kv w w', c.run.run s = .error e t ∧ Stores s t (c.observed s) (new ++ [kv]) ∧
        (cb s.dev.name kv.1.addr kv.1.port kv.2).run w = .error e w' := by
  have hrun : c.run.run s = (do Device.storeResults (← c.reads) : DeviceM ε (Recorder ω) Unit).run s := by
    rw [run_eq c hc]
  rw [EStateM.run_bind] at hrun
  cases hreads : c.reads.run s with
  | error e t =>
    have hchannel := c.onChannel_reads.error hreads
    simp only [hreads] at hrun
    refine .inr (.inl ⟨e, t, hrun, ?_, hchannel⟩)
    simp only [observed, hreads]
    exact hchannel.stores
  | ok kvs u =>
    have hchannel := c.onChannel_reads.ok hreads
    simp only [hreads] at hrun
    rcases run_storeResults_cases kvs (hchannel.regChangedCb.trans hcb) with
      ⟨t, new, hstore, hstores⟩ | ⟨e, t, before, kv, after, new, w, w', hstore, hkvs, hstores, hthrow⟩
    · rw [hstore] at hrun
      refine .inl ⟨t, new, hrun, ?_⟩
      simp only [observed, hreads, hrun]
      exact hchannel.stores.append hstores
    · rw [hstore] at hrun
      have hlast : t.out.reports.getLast? = some kv := by
        rw [hstores.reports, ← List.append_assoc, List.getLast?_concat]
      have hnot : kv ∉ before := by
        have hnd := (c.nodup_reads hreads).of_map
        rw [hkvs] at hnd
        exact fun hmem => (List.nodup_append.1 hnd).2.2 kv hmem kv List.mem_cons_self rfl
      have hname : u.dev.name = s.dev.name := by rw [hchannel]
      rw [hname] at hthrow
      refine .inr (.inr ⟨e, t, new, kv, w, w', hrun, ?_, hthrow⟩)
      simp only [observed, hreads, hrun]
      rw [hlast, hkvs, upTo_eq after hnot]
      exact hchannel.stores.append hstores

end TrackCall

/-! ## Runs -/

namespace Tracking

variable [Ftdi ε] {cb : String → UInt8 → UInt8 → UInt16 → EStateM Fault ω Unit}

/-- The callback is in place, and every tracked register is followed. -/
structure Followed (cb : String → UInt8 → UInt8 → UInt16 → EStateM Fault ω Unit) (t : Tracking ε ω) : Prop where
  callback : t.state.dev.regChangedCb = some (recording cb)
  faithful : Faithful t.observed t.reported t.state.dev.trackedRegs

omit [Ftdi ε] in
theorem followed_start (d : Device ε (Recorder ω)) (watchlist : List AddrPort) (w : ω) :
    Followed cb (start d watchlist cb w) := by
  refine ⟨rfl, fun k v hv => ?_⟩
  have hzero : ∀ (l : List AddrPort) (regs : OrdMap AddrPort UInt16), (∀ k v, regs.find? k = some v → v = 0) →
      ∀ k v, (l.foldl (fun regs k => regs.insert k 0) regs).find? k = some v → v = 0 := by
    intro l
    induction l with
    | nil => exact fun _ h => h
    | cons q l ih =>
      intro regs h
      refine ih _ (fun k v hk => ?_)
      rw [OrdMap.find?_insert] at hk
      split at hk
      · cases hq : regs.find? q with
        | none =>
          rw [hq] at hk
          cases hk
          rfl
        | some x =>
          rw [hq] at hk
          cases hk
          exact h q x hq
      · exact h k v hk
  rw [hzero watchlist OrdMap.empty (fun k v h => by cases h) k v hv]
  exact .start 0

/-- A call that stores what it observes and reports what is due. -/
theorem Followed.stores {t : Tracking ε ω} (h : Followed cb t) (c : TrackCall)
    (hc : ∀ addr port enabled, c ≠ .trackReg addr port enabled) {new : List (AddrPort × UInt16)}
    (hs : Stores t.state (final (c.run.run t.state)) (c.observed t.state) new) : Followed cb (t.step c) := by
  refine ⟨(congrArg Device.regChangedCb hs.dev).trans h.callback, fun k v hv => ?_⟩
  have hstarts : ¬ c.Starts t.state k := fun hk => hc _ _ _ hk.1
  have hnew : (final (c.run.run t.state)).out.reports.drop t.state.out.reports.length = new := by
    rw [hs.reports, List.drop_left]
  simp only [step, if_neg hstarts, hnew]
  exact hs.faithful _ _ h.faithful k v hv

omit [Ftdi ε] in
theorem run_trackReg_of_mem {s : DeviceState ε ω} {addr port : UInt8} (h : ⟨addr, port⟩ ∈ s.dev.trackedRegs.keys) :
    (Device.trackReg addr port).run s = .ok () s := by
  have hset : { s.dev with trackedRegs := s.dev.trackedRegs.insert ⟨addr, port⟩ 0 } = s.dev := by
    rw [OrdMap.insert_of_mem h]
  show EStateM.Result.ok () { s with dev := { s.dev with trackedRegs := s.dev.trackedRegs.insert ⟨addr, port⟩ 0 } } = _
  rw [hset]

theorem Followed.step {t : Tracking ε ω} (h : Followed cb t) (c : TrackCall) : Followed cb (t.step c) := by
  by_cases hc : ∀ addr port enabled, c ≠ .trackReg addr port enabled
  · rcases c.run_cases hc h.callback with ⟨s, new, hrun, hs⟩ | ⟨e, s, hrun, hs, -⟩ | ⟨e, s, new, kv, w, w', hrun, hs, -⟩
    · exact h.stores c hc (by rw [hrun]; exact hs)
    · exact h.stores c hc (by rw [hrun]; exact hs)
    · exact h.stores c hc (by rw [hrun]; exact hs)
  · obtain ⟨addr, port, enabled, rfl⟩ : ∃ addr port enabled, c = .trackReg addr port enabled := by
      by_contra hno
      exact hc (fun addr port enabled h => hno ⟨addr, port, enabled, h⟩)
    have hobserved : (TrackCall.trackReg addr port enabled).observed t.state = [] := by
      cases enabled <;> rfl
    cases enabled with
    | false =>
      refine ⟨h.callback, fun k v hv => ?_⟩
      have hstarts : ¬ (TrackCall.trackReg addr port false).Starts t.state k := fun hk => by cases hk.1
      have hfind : (t.state.dev.trackedRegs.erase ⟨addr, port⟩).find? k = some v := hv
      rw [OrdMap.find?_erase] at hfind
      split at hfind
      · cases hfind
      · simp only [Tracking.step, if_neg hstarts, hobserved]
        simpa [TrackCall.run, Device.untrackReg, Device.modifyDev] using h.faithful k v hfind
    | true =>
      refine ⟨h.callback, fun k v hv => ?_⟩
      have hfind : (t.state.dev.trackedRegs.insert ⟨addr, port⟩ 0).find? k = some v := hv
      have hdrop : (final ((TrackCall.trackReg addr port true).run.run t.state)).out.reports.drop
          t.state.out.reports.length = [] := List.drop_length
      simp only [Tracking.step, hobserved, hdrop, valuesOf_nil, List.append_nil]
      rw [OrdMap.find?_insert] at hfind
      by_cases hk : k = ⟨addr, port⟩ ∧ k ∉ t.state.dev.trackedRegs.keys
      · obtain ⟨rfl, hnew⟩ := hk
        rw [if_pos rfl, OrdMap.find?_eq_none_iff.2 hnew, Option.getD_none, Option.some.injEq] at hfind
        have hstarts : (TrackCall.trackReg addr port true).Starts t.state ⟨addr, port⟩ := ⟨rfl, hnew⟩
        rw [if_pos hstarts, if_pos hstarts, ← hfind]
        exact .start 0
      · have hstarts : ¬ (TrackCall.trackReg addr port true).Starts t.state k := by
          rintro ⟨hcall, hnew⟩
          simp only [TrackCall.trackReg.injEq, and_true] at hcall
          exact hk ⟨by rw [hcall.1, hcall.2], hnew⟩
        rw [if_neg hstarts, if_neg hstarts]
        split at hfind
        · rename_i heq
          subst heq
          have hmem : (⟨addr, port⟩ : AddrPort) ∈ t.state.dev.trackedRegs.keys := by
            by_contra hnot
            exact hk ⟨rfl, hnot⟩
          obtain ⟨x, hx⟩ := OrdMap.mem_keys_iff.1 hmem
          rw [hx, Option.getD_some, Option.some.injEq] at hfind
          subst hfind
          exact h.faithful _ _ hx
        · exact h.faithful k v hfind

theorem Followed.run {t : Tracking ε ω} (h : Followed cb t) : ∀ (calls : List TrackCall),
    Followed cb (calls.foldl Tracking.step t) := by
  intro calls
  induction calls generalizing t with
  | nil => exact h
  | cons c calls ih => exact ih (h.step c)

/-- **The reports are the changes of what was observed**, in every run: since a register is tracked its reports are the
observed values without repetitions, from 0 on, and replaying them yields the cached value.  Tracking it once more changes
nothing.  A call that throws leaves cache and reports alone, unless it is the callback that throws, on the last report. -/
theorem reports_changes (d : Device ε (Recorder ω)) (watchlist : List AddrPort)
    (cb : String → UInt8 → UInt8 → UInt16 → EStateM Fault ω Unit) (w : ω) (calls : List TrackCall) :
    let t := calls.foldl Tracking.step (start d watchlist cb w)
    (∀ k v, t.state.dev.trackedRegs.find? k = some v → 0 :: t.reported k = (t.observed k).destutter' (· ≠ ·) 0 ∧
        (t.reported k).getLastD 0 = v ∧ (0 :: t.reported k).IsChain (· ≠ ·)) ∧
      (∀ addr port, ⟨addr, port⟩ ∈ t.state.dev.trackedRegs.keys →
        (TrackCall.trackReg addr port true).run.run t.state = .ok () t.state) ∧
      ∀ c e s, (TrackCall.run c).run t.state = .error e s →
        s.dev.trackedRegs = t.state.dev.trackedRegs ∧ s.out.reports = t.state.out.reports ∨
          ∃ new k v w w', s.out.reports = t.state.out.reports ++ (new ++ [(k, v)]) ∧
            (cb t.state.dev.name k.addr k.port v).run w = .error e w' := by
  intro t
  have ht : Followed cb t := (followed_start d watchlist w).run calls
  refine ⟨fun k v hv => ?_, fun addr port hk => run_trackReg_of_mem hk, fun c e s hthrows => ?_⟩
  · have h := ht.faithful k v hv
    exact ⟨h.changes, h.replay, h.chain⟩
  · by_cases hc : ∀ addr port enabled, c ≠ .trackReg addr port enabled
    · rcases c.run_cases hc ht.callback with ⟨s', new, hrun, -⟩ | ⟨e', s', hrun, -, hchannel⟩ | ⟨e', s', new, kv, w, w', hrun, hs, hcb⟩
      · rw [hrun] at hthrows
        cases hthrows
      · rw [hrun] at hthrows
        cases hthrows
        exact .inl ⟨hchannel.trackedRegs, congrArg Recorder.reports hchannel.out⟩
      · rw [hrun] at hthrows
        cases hthrows
        exact .inr ⟨new, kv.1, kv.2, w, w', hs.reports, hcb⟩
    · obtain ⟨addr, port, enabled, rfl⟩ : ∃ addr port enabled, c = .trackReg addr port enabled := by
        by_contra hno
        exact hc (fun addr port enabled h => hno ⟨addr, port, enabled, h⟩)
      cases enabled <;> cases hthrows

end Tracking

/-- A device that takes every write and answers every read with one byte. -/
structure Constant where
  byte : UInt8

instance : Ftdi Constant where
  ftdiNew e := (true, e)
  usbOpenDev _ _ e := (none, e)
  usbPurgeBuffers e := (none, e)
  usbReset e := (none, e)
  setBitmode _ _ e := (none, e)
  setLatencyTimer _ e := (none, e)
  writeData bytes e := (bytes.length, e)
  readData size e := (.ok (List.replicate size.toNat e.byte), e)
  writeData_le _ _ := Int.le_refl _
  readData_le _ _ bytes _ h := by
    cases h
    simp

/-- Two tracked registers, and a callback that throws. -/
def Tracking.throwing : Tracking Constant Unit :=
  .start ⟨"FPGA0001", 7, some 0, OrdMap.empty, none, [], 1, ⟨1⟩⟩ [⟨1, 2⟩, ⟨3, 4⟩] (fun _ _ _ _ => raise "no memory") ()

/-- The pass throws, and yet the first register is cached and reported; the second has been read in vain. -/
theorem thrown_pass_caches : Tracking.throwing.state.dev.trackedRegs.find? ⟨1, 2⟩ = some 0 ∧
    Tracking.throwing.state.out.reports = [] ∧
    ∃ s, TrackCall.updateTrackedRegs.run.run Tracking.throwing.state = .error (.exception "no memory") s ∧
      s.dev.trackedRegs.find? ⟨1, 2⟩ = some 257 ∧ s.dev.trackedRegs.find? ⟨3, 4⟩ = some 0 ∧
      s.out.reports = [(⟨1, 2⟩, 257)] := by
  refine ⟨by decide, by decide, ?_⟩
  have hrun : (match TrackCall.updateTrackedRegs.run.run Tracking.throwing.state with
      | .ok _ _ => none
      | .error e s => some (e, s.dev.trackedRegs.find? ⟨1, 2⟩, s.dev.trackedRegs.find? ⟨3, 4⟩, s.out.reports)) =
      some (.exception "no memory", some 257, some 0, [(⟨1, 2⟩, 257)]) := by decide +kernel
  cases h : TrackCall.updateTrackedRegs.run.run Tracking.throwing.state with
  | ok a s =>
    rw [h] at hrun
    cases hrun
  | error e s =>
    rw [h] at hrun
    simp only [Option.some.injEq, Prod.mk.injEq] at hrun
    obtain ⟨rfl, hfirst, hsecond, hreports⟩ := hrun
    exact ⟨s, rfl, hfirst, hsecond, hreports⟩

end Fpga
