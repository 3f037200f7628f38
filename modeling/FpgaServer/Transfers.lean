import FpgaServer.Shifts
/-!
# Transfers — the cable and the lines agree

Every call of `IOBase` on a cable that works, seen from the target: from a state where the engine expects a command, a call that
returns leaves the engine there, and where nothing is owed after it, nothing was owed before, and the target has been clocked as
the same call of `Wires` clocks it, with the same result (`retraces_shiftTDITDO` and its siblings).
-/
namespace Fpga
namespace Xc3s

open Base

variable {σ : Type}

/-! ## The bits of a shift in pieces -/

section
variable {held : Bool} {tdi : Option (List UInt8)}

theorem tdiBits_none {n : Nat} (hn : 0 < n) : tdiBits held none n true = List.replicate (n - 1) held ++ [false] := by
  have hlen : (List.replicate (n - 1) held ++ [false]).length ≤ n := by
    rw [List.length_append, List.length_replicate, List.length_singleton]
    omega
  exact List.take_of_length_le hlen

theorem tdiBits_whole {w n : Nat} {last : Bool} (hlast : last = true → 0 < n) :
    tdiBits held tdi (8 * w + n) last = IoFtdi.wholeBits held tdi w ++ tdiBits held (tdi.map (·.drop w)) n last := by
  cases tdi with
  | some bytes =>
    rw [tdiBits, IoFtdi.wholeBits, Option.map_some, tdiBits, List.take_add, take_bytesBits, drop_bytesBits]
  | none =>
    cases last with
    | false => exact List.replicate_add (8 * w) n held
    | true =>
      have hn := hlast rfl
      rw [Option.map_none, tdiBits_none (by omega), tdiBits_none hn, Nat.add_sub_assoc hn, List.replicate_add,
        List.append_assoc]
      rfl

theorem tdiBits_open {n : Nat} : tdiBits held tdi n false = IoFtdi.restBits held tdi n := by
  cases tdi <;> rfl

theorem tdiBits_last {n : Nat} (hn : n < 8) (hlen : ∀ bytes ∈ tdi, 0 < bytes.length) :
    tdiBits held tdi (n + 1) true = IoFtdi.restBits held tdi n ++ [IoFtdi.lastBit tdi n] := by
  cases tdi with
  | some bytes =>
    cases bytes with
    | nil => exact absurd (hlen [] rfl) (Nat.lt_irrefl 0)
    | cons b bytes =>
      have hbit : (bytesBits (b :: bytes))[n]? = some (b.toNat.testBit n) := by
        rw [bytesBits_cons, List.getElem?_append_left (by simpa using hn), byteBits, getElem?_bits 8 _ n hn]
      rw [tdiBits, List.take_add_one, hbit]
      rfl
  | none => exact tdiBits_none (Nat.succ_pos n)

theorem length_wholeBits {w : Nat} (hlen : ∀ bytes ∈ tdi, w ≤ bytes.length) :
    (IoFtdi.wholeBits held tdi w).length = 8 * w := by
  cases tdi with
  | some bytes => rw [IoFtdi.wholeBits, length_bytesBits, List.length_take, Nat.min_eq_left (hlen bytes rfl)]
  | none => exact List.length_replicate

theorem length_restBits {n : Nat} (hlen : ∀ bytes ∈ tdi, n ≤ 8 * bytes.length) :
    (IoFtdi.restBits held tdi n).length = n := by
  cases tdi with
  | some bytes => rw [IoFtdi.restBits, List.length_take, length_bytesBits, Nat.min_eq_left (hlen bytes rfl)]
  | none => exact List.length_replicate

end

/-! ## Buffers -/

theorem length_store {buf bytes : List UInt8} {pos : Nat} (h : pos + bytes.length ≤ buf.length) :
    (store buf pos bytes).length = buf.length := by
  simp only [store, List.length_append, List.length_take, List.length_drop]
  omega

theorem store_store {buf as bs : List UInt8} {pos : Nat} (h : pos ≤ buf.length) :
    store (store buf pos as) (pos + as.length) bs = store buf pos (as ++ bs) := by
  have hfront : (buf.take pos ++ as).length = pos + as.length := by
    rw [List.length_append, List.length_take, Nat.min_eq_left h]
  have hback : (buf.take pos ++ as ++ buf.drop (pos + as.length)).drop (pos + as.length + bs.length) =
      buf.drop (pos + (as ++ bs).length) := by
    rw [← hfront, List.drop_length_add_append, List.drop_drop, hfront, List.length_append, Nat.add_assoc]
  unfold store
  rw [hback, ← hfront, List.take_left, List.append_assoc (buf.take pos)]

theorem modify_store {buf bytes : List UInt8} {pos : Nat} (b : UInt8) (f : UInt8 → UInt8) (h : pos ≤ buf.length) :
    (store buf pos (bytes ++ [b])).modify (pos + (bytes.length + 1) - 1) f = store buf pos (bytes ++ [f b]) := by
  have hfront : (buf.take pos ++ bytes).length = pos + (bytes.length + 1) - 1 := by
    rw [List.length_append, List.length_take, Nat.min_eq_left h]
    omega
  have hsplit (x : UInt8) (rest : List UInt8) :
      buf.take pos ++ (bytes ++ [x]) ++ rest = (buf.take pos ++ bytes) ++ x :: rest := by
    simp only [List.append_assoc, List.singleton_append]
  have hlen : (bytes ++ [f b]).length = (bytes ++ [b]).length := by
    rw [List.length_append, List.length_append, List.length_singleton, List.length_singleton]
  rw [store, store, hlen, hsplit, hsplit, List.modify_eq_take_drop, ← hfront, List.take_left, List.drop_left]
  rfl

/-! ## Transfers -/

variable [Target σ]

/-- What a call has done to the engine, with answers, and the bytes it has read. -/
structure Transfer (cs : List Clock) (answers got : List UInt8) (io io' : IoFtdi (Chip σ)) : Prop where
  engine : io'.link.engine = io.link.engine.cycle cs
  owed : got ++ io'.link.owed = io.link.owed ++ answers
  length_le : got.length ≤ answers.length
  tmsBuf : io'.tmsBuf = io.tmsBuf
  hasFastClock : io'.hasFastClock = io.hasFastClock
  tckFreq : io'.tckFreq = io.tckFreq

namespace Transfer

variable {cs ds : List Clock} {as bs got got' : List UInt8} {io io' io'' : IoFtdi (Chip σ)}

theorem refl (io : IoFtdi (Chip σ)) : Transfer [] [] [] io io := ⟨rfl, by simp, Nat.le_refl _, rfl, rfl, rfl⟩

theorem trans (h : Transfer cs as got io io') (h' : Transfer ds bs got' io' io'') :
    Transfer (cs ++ ds) (as ++ bs) (got ++ got') io io'' where
  engine := by rw [h'.engine, h.engine, Engine.cycle_append]
  owed := by rw [List.append_assoc, h'.owed, ← List.append_assoc, h.owed, List.append_assoc]
  length_le := by
    have := h.length_le
    have := h'.length_le
    simp only [List.length_append]
    omega
  tmsBuf := h'.tmsBuf.trans h.tmsBuf
  hasFastClock := h'.hasFastClock.trans h.hasFastClock
  tckFreq := h'.tckFreq.trans h.tckFreq

/-- **Where nothing is owed at the end, nothing was at the start, and what was read are the answers.** -/
theorem settled (h : Transfer cs as got io io') (hend : io'.link.owed = []) : io.link.owed = [] ∧ got = as := by
  have howed := h.owed
  have hle := h.length_le
  rw [hend, List.append_nil] at howed
  have hlen := congrArg List.length howed
  rw [List.length_append] at hlen
  have hstart : io.link.owed = [] := List.length_eq_zero_iff.1 (by omega)
  rw [hstart, List.nil_append] at howed
  exact ⟨hstart, howed⟩

/-- Bytes added that come to a cycle and some answers. -/
theorem of_moved {bytes : List UInt8} (h : IoFtdi.Moved bytes io io') (hfed : io.link.fed bytes = io.link.cycled cs as) :
    Transfer cs as [] io io' where
  engine := by rw [h.link, hfed]; rfl
  owed := by rw [h.link, hfed]; rfl
  length_le := Nat.zero_le _
  tmsBuf := h.tmsBuf
  hasFastClock := h.hasFastClock
  tckFreq := h.tckFreq

/-- A read after some cycles. -/
theorem took (h : Transfer cs as [] io io') (h' : IoFtdi.Took got io' io'') (hle : got.length ≤ as.length) :
    Transfer cs as got io io'' where
  engine := h'.engine.trans h.engine
  owed := h'.owed.trans h.owed
  length_le := hle
  tmsBuf := h'.tmsBuf.trans h.tmsBuf
  hasFastClock := h'.hasFastClock.trans h.hasFastClock
  tckFreq := h'.tckFreq.trans h.tckFreq

theorem expect (h : Transfer cs as got io io') (hready : io.link.engine.expect = .command) :
    io'.link.engine.expect = .command := by
  rw [h.engine]
  exact hready

theorem pins (h : Transfer cs as got io io') : io'.link.engine.pins = io.link.engine.pins.clocked cs := by
  rw [h.engine]
  rfl

end Transfer

/-- A shift can go on from here: the engine expects a command, there is TDI to send or TDO to read, and data and buffers have
the bits that are left. -/
structure Shiftable (held : Bool) (tdi tdo : Option (List UInt8)) (pos rem : Nat) (io : IoFtdi (Chip σ)) : Prop where
  ready : io.link.engine.expect = .command
  any : tdi.isSome = true ∨ tdo.isSome = true
  holds : tdi = none → io.link.engine.pins.tdi = held
  data : ∀ bytes ∈ tdi, rem ≤ 8 * bytes.length
  room : ∀ buf ∈ tdo, 8 * pos + rem ≤ 8 * buf.length

/-- A shift of some clocks, seen from the lines: the target has been clocked, and where nothing is owed after it, nothing was
owed before and the buffer for TDO holds the bits. -/
structure Shifted (cs : List Clock) (tdo : Option (List UInt8)) (pos : Nat) (r : Option (List UInt8))
    (io io' : IoFtdi (Chip σ)) : Prop where
  ready : io'.link.engine.expect = .command
  pins : io'.link.engine.pins = io.link.engine.pins.clocked cs
  tmsBuf : io'.tmsBuf = io.tmsBuf
  hasFastClock : io'.hasFastClock = io.hasFastClock
  tckFreq : io'.tckFreq = io.tckFreq
  lengths : r.map List.length = tdo.map List.length
  settled : io'.link.owed = [] → io.link.owed = [] ∧
    r = tdo.map (fun buf => store buf pos (packBits (io.link.engine.pins.shown cs)))

theorem Transfer.shifted {cs : List Clock} {as got : List UInt8} {tdo r : Option (List UInt8)} {pos : Nat}
    {io io' : IoFtdi (Chip σ)} (h : Transfer cs as got io io') (hready : io'.link.engine.expect = .command)
    (hlengths : r.map List.length = tdo.map List.length)
    (hr : got = as → r = tdo.map (fun buf => store buf pos (packBits (io.link.engine.pins.shown cs)))) :
    Shifted cs tdo pos r io io' where
  ready := hready
  pins := h.pins
  tmsBuf := h.tmsBuf
  hasFastClock := h.hasFastClock
  tckFreq := h.tckFreq
  lengths := hlengths
  settled hend := ⟨(h.settled hend).1, hr (h.settled hend).2⟩

/-- What is answered to some clocks that are read. -/
def answersTo (p : Pins σ) (tdo : Option (List UInt8)) (cs : List Clock) : List UInt8 :=
  if tdo.isSome then packBits (p.shown cs) else []

theorem tdi_holding_replicate (p : Pins σ) (n : Nat) : (p.clocked (p.holding (List.replicate n p.tdi))).tdi = p.tdi := by
  induction n generalizing p with
  | zero => rfl
  | succ n ih => exact ih (p.clock ⟨p.tms, p.tdi⟩).1

namespace Shiftable

variable {held : Bool} {tdi tdo : Option (List UInt8)} {pos rem : Nat} {io : IoFtdi (Chip σ)}

theorem wholeBits_eq (h : Shiftable held tdi tdo pos rem io) (w : Nat) :
    IoFtdi.wholeBits io.link.engine.pins.tdi tdi w = IoFtdi.wholeBits held tdi w := by
  cases tdi with
  | some bytes => rfl
  | none => rw [h.holds rfl]

theorem restBits_eq (h : Shiftable held tdi tdo pos rem io) (n : Nat) :
    IoFtdi.restBits io.link.engine.pins.tdi tdi n = IoFtdi.restBits held tdi n := by
  cases tdi with
  | some bytes => rfl
  | none => rw [h.holds rfl]

theorem length_whole (h : Shiftable held tdi tdo pos rem io) {w : Nat} (hw : 8 * w ≤ rem) :
    (IoFtdi.wholeBits held tdi w).length = 8 * w := by
  apply length_wholeBits
  intro bytes hbytes
  have := h.data bytes hbytes
  omega

/-- The clocks of a shift that begins with some whole bytes. -/
theorem scan_whole {w n : Nat} {last : Bool} (h : Shiftable held tdi tdo pos (8 * w + n) io) (hlast : last = true → 0 < n) :
    scan io.link.engine.pins.tms last (tdiBits held tdi (8 * w + n) last) =
      io.link.engine.pins.holding (IoFtdi.wholeBits held tdi w) ++
        scan io.link.engine.pins.tms last (tdiBits held (tdi.map (·.drop w)) n last) := by
  have hne : last = true → tdiBits held (tdi.map (·.drop w)) n last ≠ [] := by
    intro hlast' hnil
    have hn := hlast hlast'
    have hall : (tdiBits held tdi (8 * w + n) last).length = 8 * w + n := length_tdiBits h.data
    rw [tdiBits_whole hlast, hnil, List.append_nil, h.length_whole (by omega)] at hall
    omega
  rw [tdiBits_whole hlast, scan_append _ hne]
  rfl

/-- After some bytes the shift can go on with the rest. -/
theorem after {io' : IoFtdi (Chip σ)} {answers got : List UInt8} {tdo' : Option (List UInt8)} {w : Nat} (hw : 8 * w ≤ rem)
    (h : Shiftable held tdi tdo pos rem io)
    (ht : Transfer (io.link.engine.pins.holding (IoFtdi.wholeBits held tdi w)) answers got io io')
    (hgot : got.length ≤ w) (htdo : tdo' = tdo.map (fun buf => store buf pos got)) :
    Shiftable held (tdi.map (·.drop w)) tdo' (pos + w) (rem - 8 * w) io' where
  ready := ht.expect h.ready
  any := by
    rw [htdo, Option.isSome_map, Option.isSome_map]
    exact h.any
  holds := by
    intro hnone
    have htdi : tdi = none := Option.map_eq_none_iff.1 hnone
    subst htdi
    have hheld := h.holds rfl
    have hkept := tdi_holding_replicate io.link.engine.pins (8 * w)
    rw [ht.pins, ← hheld]
    exact hkept
  data := by
    intro bytes hbytes
    obtain ⟨all, hall, rfl⟩ := Option.map_eq_some_iff.1 hbytes
    have := h.data all hall
    rw [List.length_drop]
    omega
  room := by
    intro buf hbuf
    rw [htdo] at hbuf
    obtain ⟨all, hall, rfl⟩ := Option.map_eq_some_iff.1 hbuf
    have := h.room all hall
    rw [length_store (by omega)]
    omega

end Shiftable

theorem length_answersTo {p : Pins σ} {tdo : Option (List UInt8)} {cs : List Clock} {n : Nat} (h : cs.length = 8 * n) :
    (answersTo p tdo cs).length = if tdo.isSome then n else 0 := by
  unfold answersTo
  split
  · exact length_packBits (by rw [Pins.length_shown, h])
  · rfl

/-- A shift that begins with some whole bytes, read before the rest. -/
theorem Shifted.prepend {held last : Bool} {tdi tdo tdo' r : Option (List UInt8)} {pos w n : Nat} {got : List UInt8}
    {io io' io'' : IoFtdi (Chip σ)} (hgot : got.length ≤ w) (hs : Shiftable held tdi tdo pos (8 * w + n) io) (hlast : last = true → 0 < n)
    (ht : Transfer (io.link.engine.pins.holding (IoFtdi.wholeBits held tdi w))
      (answersTo io.link.engine.pins tdo (io.link.engine.pins.holding (IoFtdi.wholeBits held tdi w))) got io io')
    (htdo : tdo' = tdo.map (fun buf => store buf pos got))
    (h : Shifted (scan io.link.engine.pins.tms last (tdiBits held (tdi.map (·.drop w)) n last)) tdo' (pos + w) r io' io'') :
    Shifted (scan io.link.engine.pins.tms last (tdiBits held tdi (8 * w + n) last)) tdo pos r io io'' := by
  have hlen : (io.link.engine.pins.holding (IoFtdi.wholeBits held tdi w)).length = 8 * w := by
    rw [length_holding, hs.length_whole (by omega)]
  rw [hs.scan_whole hlast]
  refine ⟨h.ready, ?_, h.tmsBuf.trans ht.tmsBuf, h.hasFastClock.trans ht.hasFastClock, h.tckFreq.trans ht.tckFreq, ?_, ?_⟩
  · rw [h.pins, ht.pins, Pins.clocked_append]
  · rw [h.lengths, htdo]
    cases tdo with
    | none => rfl
    | some buf =>
      have hroom := hs.room buf rfl
      exact congrArg some (length_store (by omega))
  · intro hend
    obtain ⟨hmid, hr⟩ := h.settled hend
    obtain ⟨hstart, hgot⟩ := ht.settled hmid
    refine ⟨hstart, ?_⟩
    rw [hr, htdo, Option.map_map]
    cases tdo with
    | none => rfl
    | some buf =>
      have hgot' : got = packBits (io.link.engine.pins.shown (io.link.engine.pins.holding (IoFtdi.wholeBits held tdi w))) := hgot
      have hw : got.length = w := by
        rw [hgot', length_packBits (by rw [Pins.length_shown, hlen])]
      have hroom := hs.room buf rfl
      have hpos : pos ≤ buf.length := by omega
      have hstore := @store_store buf got (packBits (io'.link.engine.pins.shown
        (scan io.link.engine.pins.tms last (tdiBits held (tdi.map (·.drop w)) n last)))) pos hpos
      rw [hw] at hstore
      rw [Option.map_some, Option.map_some, Pins.shown_append, packBits_append (by rw [Pins.length_shown, hlen]), ← ht.pins,
        ← hgot', ← hstore]
      rfl

variable [Host (Chip σ)]

namespace IoFtdi

variable {held : Bool} {tdi tdo tdi' tdo' : Option (List UInt8)} {pos rem pos' rem' : Nat} {io io' io'' : IoFtdi (Chip σ)}

/-- The commands for whole bytes. -/
theorem txBytes_ok (hs : Shiftable held tdi tdo pos rem io) {w : Nat} (hpos : 0 < w) (hn : w ≤ 65536) (hw : 8 * w ≤ rem)
    {u : Unit} (h : (txBytes tdi tdo.isSome w).run io = .ok u io') :
    Transfer (io.link.engine.pins.holding (wholeBits held tdi w))
      (answersTo io.link.engine.pins tdo (io.link.engine.pins.holding (wholeBits held tdi w))) [] io io' := by
  have hlen : ∀ bytes ∈ tdi, w ≤ bytes.length := by
    intro bytes hbytes
    have := hs.data bytes hbytes
    omega
  have hfed := fed_bytesCommand hs.ready hs.any hpos hn hlen
  rw [hs.wholeBits_eq] at hfed
  exact .of_moved (emits_txBytes tdi tdo.isSome w io u io' h) hfed

/-- A read of TDO into its buffer, where no more answers are waiting than it wants. -/
theorem readTdo_ok {cs : List Clock} {answers : List UInt8} {n : Nat} (hready : io.link.engine.expect = .command)
    (hsent : Transfer cs answers [] io io') (hn : answers.length = if tdo.isSome then n else 0)
    (h : (readTdo tdo pos n).run io' = .ok tdo' io'') :
    ∃ got, Transfer cs answers got io io'' ∧ got.length ≤ n ∧ tdo' = tdo.map (fun buf => store buf pos got) := by
  unfold readTdo at h
  cases tdo with
  | none =>
    cases h
    exact ⟨[], hsent, Nat.zero_le _, rfl⟩
  | some buf =>
    obtain ⟨bytes, u, hread, h⟩ := bind_ok_iff.1 h
    cases h
    obtain ⟨htook, hle⟩ := readusb_ok (hsent.expect hready) hread
    exact ⟨bytes, hsent.took htook (by rw [hn]; exact hle), hle, rfl⟩

/-! ## The end of a shift -/

/-- The bits after the last whole byte: their clocks, and the register they are answered with. -/
theorem txBits_ok {n : Nat} (hs : Shiftable held tdi tdo pos rem io) (hn : n < 8) (hrem : n ≤ rem) {u : Unit}
    (h : (if n ≠ 0 then txBits tdi tdo.isSome n else pure () : IoM (Chip σ) Unit).run io = .ok u io') :
    Transfer (io.link.engine.pins.holding (restBits held tdi n))
      (if n ≠ 0 then (io.link.engine.cycle (io.link.engine.pins.holding (restBits held tdi n))).answer tdo.isSome else [])
      [] io io' := by
  by_cases h0 : n = 0
  · subst h0
    have hnil : restBits held tdi 0 = [] := by cases tdi <;> rfl
    rw [hnil]
    cases h
    exact Transfer.refl io
  · rw [if_pos h0] at h ⊢
    have hpos : 0 < n := Nat.pos_of_ne_zero h0
    have hlen : ∀ bytes ∈ tdi, 0 < bytes.length := by
      intro bytes hbytes
      have := hs.data bytes hbytes
      omega
    have hfed := fed_bitsCommand hs.ready hs.any hpos (Nat.le_of_lt hn) hlen
    rw [hs.restBits_eq] at hfed
    exact .of_moved (emits_txBits tdi tdo.isSome n io u io' h) hfed

theorem txLast_ok {n : Nat} {last : Bool} (hready : io.link.engine.expect = .command) {u : Unit}
    (h : (if last then txLast tdi tdo.isSome n else pure () : IoM (Chip σ) Unit).run io = .ok u io') :
    Transfer (if last then [⟨true, lastBit tdi n⟩] else [])
      (if last then (io.link.engine.cycle [⟨true, lastBit tdi n⟩]).answer tdo.isSome else []) [] io io' := by
  cases last with
  | false =>
    cases h
    exact Transfer.refl io
  | true => exact .of_moved (emits_txLast tdi tdo.isSome n io u io' h) (fed_lastCommand hready tdi tdo.isSome n)

end IoFtdi

/-! ## What is made of the bytes read at the end -/

section
variable {as bs : List Bool} {u : Nat}

theorem length_shiftedDown (buf : List UInt8) (pos buflen n : Nat) : (IoFtdi.shiftedDown buf pos buflen n).length = buf.length := by
  unfold IoFtdi.shiftedDown
  split
  · exact List.length_modify _ _ _
  · rfl

theorem length_lastInPlace {rbuf : List UInt8} {n : Nat} (h : rbuf.length = u + (if n ≠ 0 then 1 else 0) + 1) :
    (IoFtdi.lastInPlace rbuf n).length = u + 1 := by
  unfold IoFtdi.lastInPlace
  by_cases h0 : n = 0
  · rw [if_neg (Decidable.not_not.2 h0)] at h
    rw [if_pos h0, List.length_append, List.length_dropLast, h]
    rfl
  · rw [if_pos h0] at h
    rw [if_neg h0, List.length_append, List.length_dropLast, List.length_dropLast, h]
    rfl

theorem lastInPlace_alone (front : List UInt8) (rx : UInt8) (c : Bool) :
    IoFtdi.lastInPlace (front ++ [shiftIn rx c]) 0 = front ++ packBits [c] := by
  have hbit : (if shiftIn rx c &&& 0x80 ≠ 0 then 1 else 0 : UInt8) = byteOf [c] := by
    rw [shiftIn_top]
    cases c <;> rfl
  rw [IoFtdi.lastInPlace, if_pos rfl, List.getLastD_concat, List.dropLast_concat, hbit,
    packBits_short (List.cons_ne_nil c []) (by simp)]

theorem lastInPlace_bits (front : List UInt8) (rx : UInt8) (hpos : 0 < bs.length) (hlt : bs.length < 8) (c : Bool) :
    IoFtdi.lastInPlace (front ++ [bs.foldl shiftIn rx] ++ [shiftIn (bs.foldl shiftIn rx) c]) bs.length =
      front ++ packBits (bs ++ [c]) := by
  have hne : bs ++ [c] ≠ [] := List.append_ne_nil_of_right_ne_nil bs (List.cons_ne_nil c [])
  rw [IoFtdi.lastInPlace, if_neg (Nat.ne_of_gt hpos), List.getLastD_concat, List.dropLast_concat, List.getLastD_concat,
    List.dropLast_concat, shiftIns_shiftRight hpos (Nat.le_of_lt hlt), byteOf_or_top hlt,
    packBits_short hne (by rw [List.length_append, List.length_singleton]; omega)]

/-- Whole bytes, the register after some more bits, and the register after the last one: the last bit goes on top. -/
theorem lastInPlace_eq (has : as.length = 8 * u) (hbs : bs.length < 8) (rx : UInt8) (c : Bool) :
    IoFtdi.lastInPlace (packBits as ++ (if bs.length ≠ 0 then [bs.foldl shiftIn rx] else []) ++
      [shiftIn (bs.foldl shiftIn rx) c]) bs.length = packBits (as ++ (bs ++ [c])) := by
  rw [packBits_append has]
  by_cases h0 : bs.length = 0
  · have hnil := List.length_eq_zero_iff.1 h0
    subst hnil
    have halone := lastInPlace_alone (packBits as) rx c
    simpa using halone
  · rw [if_pos h0]
    exact lastInPlace_bits _ rx (Nat.pos_of_ne_zero h0) hbs c

/-- Without a last bit, the register is shifted down where it lies in the buffer. -/
theorem shiftedDown_eq {buf : List UInt8} {pos : Nat} (hpos : pos ≤ buf.length) (has : as.length = 8 * u)
    (hbs : bs.length < 8) (rx : UInt8) :
    IoFtdi.shiftedDown (store buf pos (packBits as ++ (if bs.length ≠ 0 then [bs.foldl shiftIn rx] else []))) pos
      (u + (if bs.length ≠ 0 then 1 else 0)) bs.length = store buf pos (packBits (as ++ bs)) := by
  unfold IoFtdi.shiftedDown
  rw [packBits_append has]
  by_cases h0 : bs.length = 0
  · have hnil := List.length_eq_zero_iff.1 h0
    subst hnil
    simp
  · have hne : bs ≠ [] := fun hnil => h0 (by rw [hnil]; rfl)
    have hmod := @modify_store buf (packBits as) pos (bs.foldl shiftIn rx) (· >>> UInt8.ofNat (8 - bs.length)) hpos
    rw [length_packBits has] at hmod
    rw [if_pos h0, if_pos h0, if_pos h0, hmod, shiftIns_shiftRight (Nat.pos_of_ne_zero h0) (Nat.le_of_lt hbs),
      packBits_short hne (Nat.le_of_lt hbs)]

end

namespace IoFtdi

variable {held : Bool} {tdi tdo tdi' tdo' : Option (List UInt8)} {pos rem pos' rem' : Nat} {io io' io'' : IoFtdi (Chip σ)}

omit [Target σ] in
theorem length_onStack (e : Chip σ) {buflen : Nat} {bytes : List UInt8} (h : bytes.length ≤ buflen) :
    (onStack e buflen bytes).length = buflen := by
  rw [onStack, List.length_append, List.length_map, List.length_range, Nat.add_sub_cancel' h]

omit [Target σ] in
theorem onStack_full (e : Chip σ) {buflen : Nat} {bytes : List UInt8} (h : bytes.length = buflen) :
    onStack e buflen bytes = bytes := by
  rw [onStack, h, Nat.sub_self, List.range_zero, List.map_nil, List.append_nil]

/-- **The end of a shift**, after whole bytes that have been clocked and not yet read. -/
theorem txrxTail_ok {cs : List Clock} {u n : Nat} {last : Bool} {r : Option (List UInt8)} (hn : n < 8) (hcs : cs.length = 8 * u)
    (hsent : Transfer cs (answersTo io.link.engine.pins tdo cs) [] io io')
    (hs : Shiftable held tdi tdo (pos + u) (n + last.toNat) io')
    (h : (txrxTail tdi tdo pos u n last).run io' = .ok r io'') :
    Shifted (cs ++ scan io'.link.engine.pins.tms last (tdiBits held tdi (n + last.toNat) last)) tdo pos r io io'' := by
  unfold txrxTail at h
  obtain ⟨io1, hbits, h⟩ := ok_of_if h
  obtain ⟨io2, hlast, h⟩ := ok_of_if h
  have hb := txBits_ok hs hn (Nat.le_add_right _ _) hbits
  have hl := txLast_ok (hb.expect hs.ready) hlast
  have hlenB : (restBits held tdi n).length = n := by
    apply length_restBits
    intro bytes hbytes
    have := hs.data bytes hbytes
    omega
  have hclocks : io'.link.engine.pins.holding (restBits held tdi n) ++ (if last then [⟨true, lastBit tdi n⟩] else []) =
      scan io'.link.engine.pins.tms last (tdiBits held tdi (n + last.toNat) last) := by
    cases last with
    | false =>
      rw [scan_false]
      exact (List.append_nil _).trans (congrArg _ tdiBits_open.symm)
    | true =>
      have hdata : ∀ bytes ∈ tdi, 0 < bytes.length := by
        intro bytes hbytes
        have := hs.data bytes hbytes
        simp only [Bool.toNat_true] at this
        omega
      rw [Bool.toNat_true, tdiBits_last hn hdata, scan_true]
      rfl
  rw [hb.engine] at hl
  have hall := (hsent.trans hb).trans hl
  rw [List.append_assoc, hclocks] at hall
  have hready : io2.link.engine.expect = .command := hl.expect (hb.expect hs.ready)
  cases tdo with
  | none =>
    cases h
    exact hall.shifted hready rfl (fun _ => rfl)
  | some buf =>
    obtain ⟨bytes, io3, hread, h⟩ := bind_ok_iff.1 h
    obtain ⟨htook, hle⟩ := readusb_ok hready hread
    have hready3 : io3.link.engine.expect = .command := htook.engine ▸ hready
    have hroom := hs.room buf rfl
    have hlenA : (io.link.engine.pins.shown cs).length = 8 * u := by rw [Pins.length_shown, hcs]
    have hlenS : (io'.link.engine.pins.shown (io'.link.engine.pins.holding (restBits held tdi n))).length = n := by
      rw [Pins.length_shown, length_holding, hlenB]
    have hcount : (packBits (io.link.engine.pins.shown cs)).length = u := length_packBits hlenA
    have hshown : io.link.engine.pins.shown
        (cs ++ scan io'.link.engine.pins.tms last (tdiBits held tdi (n + last.toNat) last)) =
          io.link.engine.pins.shown cs ++ (io'.link.engine.pins.shown (io'.link.engine.pins.holding (restBits held tdi n)) ++
            (io'.link.engine.pins.clocked (io'.link.engine.pins.holding (restBits held tdi n))).shown
              (if last then [⟨true, lastBit tdi n⟩] else [])) := by
      rw [Pins.shown_append, ← hsent.pins, ← hclocks, Pins.shown_append]
    cases last with
    | false =>
      cases h
      have hlen : bytes.length ≤ (answersTo io.link.engine.pins (some buf) cs ++
          (if n ≠ 0 then (io'.link.engine.cycle (io'.link.engine.pins.holding (restBits held tdi n))).answer true else []) ++
            []).length := by
        simp only [List.length_append, answersTo, Option.isSome_some, if_true, hcount]
        refine hle.trans (Nat.le_of_eq ?_)
        split <;> rfl
      have hout : (shiftedDown (store buf pos bytes) pos (u + (if n ≠ 0 then 1 else 0) + 0) n).length = buf.length := by
        rw [length_shiftedDown, length_store]
        simp only [Bool.false_eq_true, if_false] at hle
        simp only [Bool.toNat_false] at hroom
        split at hle <;> omega
      refine (hall.took htook hlen).shifted hready3 (congrArg some hout) (fun hbytes => ?_)
      have hpos : pos ≤ buf.length := by omega
      have hvalue := shiftedDown_eq hpos hlenA (by rw [hlenS]; exact hn)
        io'.link.engine.rx
      rw [hlenS] at hvalue
      rw [hshown, hbytes, Option.map_some]
      simp only [Bool.false_eq_true, if_false, Pins.shown_nil, List.append_nil, Nat.add_zero]
      exact congrArg some hvalue
    | true =>
      obtain ⟨_, _, hget, h⟩ := bind_ok_iff.1 h
      cases hget
      cases h
      have hlen : (answersTo io.link.engine.pins (some buf) cs ++
          (if n ≠ 0 then (io'.link.engine.cycle (io'.link.engine.pins.holding (restBits held tdi n))).answer true else []) ++
            [((io'.link.engine.cycle (io'.link.engine.pins.holding (restBits held tdi n))).cycle
              [⟨true, lastBit tdi n⟩]).rx]).length = u + (if n ≠ 0 then 1 else 0) + 1 := by
        simp only [List.length_append, answersTo, Option.isSome_some, if_true, hcount, List.length_singleton]
        split <;> rfl
      have hout : (store buf pos (lastInPlace (onStack io''.usb (u + (if n ≠ 0 then 1 else 0) + 1) bytes) n)).length =
          buf.length := by
        have hinplace := length_lastInPlace (length_onStack io''.usb hle)
        apply length_store
        simp only [Bool.toNat_true] at hroom
        rw [hinplace]
        omega
      refine (hall.took htook (hle.trans (Nat.le_of_eq hlen.symm))).shifted hready3 (congrArg some hout) (fun hbytes => ?_)
      have hstack : onStack io''.usb (u + (if n ≠ 0 then 1 else 0) + 1) bytes = bytes :=
        onStack_full io''.usb (hbytes ▸ hlen)
      have hvalue := lastInPlace_eq hlenA (by rw [hlenS]; exact hn) io'.link.engine.rx
        ((io'.link.engine.pins.clocked (io'.link.engine.pins.holding (restBits held tdi n))).clock ⟨true, lastBit tdi n⟩).2
      rw [hlenS] at hvalue
      simp only [if_true]
      rw [hshown, hstack, hbytes, Option.map_some]
      exact congrArg (fun bytes => some (store buf pos bytes)) hvalue

theorem whole_ok {w : Nat} (hs : Shiftable held tdi tdo pos rem io) (hn : w ≤ 65536) (hw : 8 * w ≤ rem) {u : Unit}
    (h : (if w ≠ 0 then txBytes tdi tdo.isSome w else pure () : IoM (Chip σ) Unit).run io = .ok u io') :
    Transfer (io.link.engine.pins.holding (wholeBits held tdi w))
      (answersTo io.link.engine.pins tdo (io.link.engine.pins.holding (wholeBits held tdi w))) [] io io' := by
  by_cases h0 : w = 0
  · subst h0
    have hnil : wholeBits held tdi 0 = [] := by cases tdi <;> rfl
    have hnone : answersTo io.link.engine.pins tdo [] = [] := by
      unfold answersTo
      rw [Pins.shown_nil, packBits_nil, ite_self]
    cases h
    rw [hnil]
    exact hnone.symm ▸ Transfer.refl io
  · rw [if_pos h0] at h
    exact txBytes_ok hs (Nat.pos_of_ne_zero h0) hn hw h

/-- **What `txrx_block` does after its loop.** -/
theorem txrxRest_ok {last : Bool} {r : Option (List UInt8)} (hs : Shiftable held tdi tdo pos (rem + last.toNat) io)
    (hrem : rem / 8 ≤ txBuf - 3) (h : (txrxRest tdi tdo pos rem last).run io = .ok r io') :
    Shifted (scan io.link.engine.pins.tms last (tdiBits held tdi (rem + last.toNat) last)) tdo pos r io io' := by
  have hsplit : rem + last.toNat = 8 * (rem / 8) + (rem % 8 + last.toNat) := by omega
  have hlast : last = true → 0 < rem % 8 + last.toNat := by
    intro hl
    rw [hl, Bool.toNat_true]
    omega
  have hn : rem % 8 < 8 := Nat.mod_lt _ (by decide)
  rw [hsplit] at hs ⊢
  unfold txrxRest at h
  obtain ⟨io1, hwhole, h⟩ := ok_of_if h
  have ht := whole_ok hs (hrem.trans (by decide)) (Nat.le_add_right _ _) hwhole
  have hlen : (io.link.engine.pins.holding (wholeBits held tdi (rem / 8))).length = 8 * (rem / 8) := by
    rw [length_holding, hs.length_whole (Nat.le_add_right _ _)]
  split at h
  · obtain ⟨tdo', io2, hread, h⟩ := bind_ok_iff.1 h
    obtain ⟨got, ht', hgot, htdo⟩ := readTdo_ok hs.ready ht (length_answersTo hlen) hread
    have hafter : Shiftable held (tdi.map (·.drop (rem / 8))) tdo' (pos + rem / 8 + 0)
        (8 * (rem / 8) + (rem % 8 + last.toNat) - 8 * (rem / 8)) io2 := hs.after (Nat.le_add_right _ _) ht' hgot htdo
    rw [Nat.add_sub_cancel_left] at hafter
    have hnone : Transfer [] (answersTo io2.link.engine.pins tdo' []) [] io2 io2 := by
      have hnil : answersTo io2.link.engine.pins tdo' [] = [] := by
        unfold answersTo
        rw [Pins.shown_nil, packBits_nil, ite_self]
      exact hnil.symm ▸ Transfer.refl io2
    have htail := txrxTail_ok hn rfl hnone hafter h
    rw [List.nil_append, ht'.pins, tms_holding] at htail
    exact Shifted.prepend hgot hs hlast ht' htdo htail
  · have hkept : tdo = tdo.map (fun buf => store buf pos []) := by
      cases tdo <;> simp [store]
    have hafter := hs.after (Nat.le_add_right _ _) ht (Nat.zero_le _) hkept
    rw [Nat.add_sub_cancel_left] at hafter
    have htail := txrxTail_ok hn hlen ht hafter h
    rw [ht.pins, tms_holding] at htail
    rw [hs.scan_whole hlast]
    exact htail

/-- **The loop of `txrx_block` and what comes after it.** -/
theorem txrxChunks_ok {last : Bool} {r : Option (List UInt8)} (rem : Nat) :
    ∀ {tdi tdo : Option (List UInt8)} {pos : Nat} {io io1 : IoFtdi (Chip σ)}
      {x : Option (List UInt8) × Option (List UInt8) × Nat × Nat}, Shiftable held tdi tdo pos (rem + last.toNat) io →
      (txrxChunks tdi tdo pos rem).run io = .ok x io1 → (txrxRest x.1 x.2.1 x.2.2.1 x.2.2.2 last).run io1 = .ok r io' →
        Shifted (scan io.link.engine.pins.tms last (tdiBits held tdi (rem + last.toNat) last)) tdo pos r io io' := by
  induction rem using Nat.strongRecOn with
  | ind rem ih =>
    intro tdi tdo pos io io1 x hs hchunks hrest
    rw [txrxChunks] at hchunks
    split at hchunks
    · rename_i hfull
      obtain ⟨_, io2, hbytes, hchunks⟩ := bind_ok_iff.1 hchunks
      obtain ⟨tdo', io3, hread, hchunks⟩ := bind_ok_iff.1 hchunks
      simp only [txBuf] at hfull hbytes hread hchunks
      have hsplit : rem + last.toNat = 8 * 4093 + (rem - 4093 * 8 + last.toNat) := by omega
      have hlast : last = true → 0 < rem - 4093 * 8 + last.toNat := by omega
      rw [hsplit] at hs ⊢
      have ht := txBytes_ok hs (w := 4093) (by decide) (by decide) (Nat.le_add_right _ _) hbytes
      have hlen : (io.link.engine.pins.holding (wholeBits held tdi 4093)).length = 8 * 4093 := by
        rw [length_holding, hs.length_whole (Nat.le_add_right _ _)]
      obtain ⟨got, ht', hgot, htdo⟩ := readTdo_ok hs.ready ht (length_answersTo hlen) hread
      have hafter := hs.after (Nat.le_add_right _ _) ht' hgot htdo
      rw [Nat.add_sub_cancel_left] at hafter
      have hgoes := ih (rem - 4093 * 8) (by omega) hafter hchunks hrest
      rw [ht'.pins, tms_holding] at hgoes
      exact Shifted.prepend hgot hs hlast ht' htdo hgoes
    · rename_i hfew
      cases hchunks
      exact txrxRest_ok hs (Nat.le_of_not_lt hfew) hrest

/-- **`txrx_block` on a cable that works.** -/
theorem txrxBlock_ok {length : Nat} {last : Bool} {r : Option (List UInt8)} (hs : Shiftable held tdi tdo 0 length io)
    (hlength : 0 < length) (h : (txrxBlock tdi tdo length last).run io = .ok r io') :
    Shifted (scan io.link.engine.pins.tms last (tdiBits held tdi length last)) tdo 0 r io io' := by
  unfold txrxBlock at h
  obtain ⟨x, io1, hchunks, hrest⟩ := bind_ok_iff.1 h
  have hcount : (if last then length - 1 else length) + last.toNat = length := by
    cases last
    · rfl
    · exact Nat.sub_add_cancel hlength
  rw [← hcount] at hs
  have hall := txrxChunks_ok _ hs hchunks hrest
  rwa [hcount] at hall

end IoFtdi

end Xc3s
end Fpga
