import FpgaServer.Ftdi
import FpgaServer.Packets
/-!
# FtdiData — `ftdi_read_data` and `ftdi_write_data` of `libftdi/ftdi.c`

A bulk read brings packets, each with two status bytes of the modem in front.  `ftdi_read_data` takes these out of `readbuffer` in
place and hands out what is left, from one call to the next.  The calls on the context that move nothing of this, the error texts and
the time-outs are left out; the size of a call is not negative.  Both functions add to an `int` offset, and a sum that an `int` does not
hold ends the call with an outcome of its own, since C says nothing of what happens then.

What the reads of a run return, one after the other, and what is still in `readbuffer` are the payload of all packets that came, and
what the writes were given is what went out, however the calls and the transfers are cut (`run_in_order`).
-/
namespace Fpga
namespace Libftdi

open Base

/-- `libusb_bulk_transfer` on the two endpoints.  A transfer brings at most what there is room for; one that has gone out has moved
something, and no more than it was given. -/
class Usb (ε : Type) where
  bulkRead : Nat → ε → Except Int (List UInt8) × ε
  bulkWrite : List UInt8 → ε → Except Int Nat × ε
  bulkRead_le : ∀ n e bytes, (bulkRead n e).1 = .ok bytes → bytes.length ≤ n
  bulkWrite_le : ∀ bytes e n, (bulkWrite bytes e).1 = .ok n → n ≤ bytes.length
  bulkWrite_pos : ∀ bytes e n, (bulkWrite bytes e).1 = .ok n → bytes ≠ [] → 0 < n

/-- `readbuffer_chunksize` and `writebuffer_chunksize`, as `ftdi_init` sets them. -/
def chunksize : Nat := 4096

/-- How a call ends without a count: with a negative result, or where `offset` overflows. -/
inductive Failure where
  | code (ret : Int)
  | overflow
  deriving DecidableEq, Repr

/-- The context; `usbDev` is whether `usb_dev` is set. -/
structure FtdiContext (ε : Type) where
  usb : ε
  usbDev : Bool
  readbuffer : Nat → UInt8
  readbufferOffset : Nat
  readbufferRemaining : Nat
  maxPacketSize : Nat

/-- The loop that moves the payloads of whole packets, with the packets left. -/
def moveChunks (packetSize : Nat) : Nat → Nat → (Nat → UInt8) → Nat → UInt8
  | 0, _, m => m
  | left + 1, i, m =>
    moveChunks packetSize left (i + 1) (move m (2 + (packetSize - 2) * i) (2 + packetSize * i) (packetSize - 2))

/-- The status bytes taken out of a transfer: the buffer, and `actual_length` after it.  The first two are skipped. -/
def strip (packetSize actualLength : Nat) (m : Nat → UInt8) : (Nat → UInt8) × Nat :=
  if actualLength - 2 > packetSize - 2 then
    let numOfChunks := actualLength / packetSize
    let chunkRemains := actualLength % packetSize
    let m := moveChunks packetSize (numOfChunks - 1) 1 m
    if chunkRemains > 2 then
      (move m (2 + (packetSize - 2) * numOfChunks) (2 + packetSize * numOfChunks) (chunkRemains - 2),
        actualLength - 2 - 2 * numOfChunks)
    else
      (m, actualLength - 2 - (2 * (numOfChunks - 1) + chunkRemains))
  else
    (m, actualLength - 2)

variable {ε : Type} [Usb ε]

/-- The loop of `ftdi_read_data`, with `offset` and the bytes copied so far. -/
def readLoop (size offset : Nat) (got : List UInt8) (c : FtdiContext ε) : Except Failure (List UInt8) × FtdiContext ε :=
  if _h : offset < size then
    match Usb.bulkRead chunksize c.usb with
    | (.error ret, usb) => (.error (.code ret), { c with usb := usb, readbufferOffset := 0, readbufferRemaining := 0 })
    | (.ok bytes, usb) =>
      let m := overwrite c.readbuffer 0 bytes
      if bytes.length > 2 then
        let (m, actualLength) := strip c.maxPacketSize bytes.length m
        let c := { c with usb := usb, readbuffer := m, readbufferOffset := 2, readbufferRemaining := 0 }
        if _hdata : actualLength > 0 then
          if offset + actualLength ≥ 2147483648 then
            (.error .overflow, c)
          else if offset + actualLength ≤ size then
            if offset + actualLength = size then
              (.ok (got ++ region m 2 actualLength), c)
            else
              readLoop size (offset + actualLength) (got ++ region m 2 actualLength) c
          else
            let partSize := size - offset
            (.ok (got ++ region m 2 partSize),
              { c with readbufferOffset := 2 + partSize, readbufferRemaining := actualLength - partSize })
        else
          (.error (.code (-127)), c)
      else
        (.ok got, { c with usb := usb, readbuffer := m, readbufferOffset := 0, readbufferRemaining := 0 })
  else
    (.error (.code (-127)), c)
termination_by size - offset

def readData (size : Nat) (c : FtdiContext ε) : Except Failure (List UInt8) × FtdiContext ε :=
  if c.usbDev = false then
    (.error (.code (-666)), c)
  else if c.maxPacketSize = 0 then
    (.error (.code (-1)), c)
  else if size ≤ c.readbufferRemaining then
    (.ok (region c.readbuffer c.readbufferOffset size),
      { c with
        readbufferOffset := c.readbufferOffset + size
        readbufferRemaining := c.readbufferRemaining - size })
  else
    readLoop size c.readbufferRemaining (region c.readbuffer c.readbufferOffset c.readbufferRemaining) c

/-- The loop of `ftdi_write_data`. -/
def writeLoop (buf : List UInt8) (offset : Nat) (c : FtdiContext ε) : Except Failure Nat × FtdiContext ε :=
  if _h : offset < buf.length then
    -- `offset+write_size > size`
    if offset + chunksize ≥ 2147483648 then
      (.error .overflow, c)
    else
      match _hw : Usb.bulkWrite ((buf.drop offset).take chunksize) c.usb with
      | (.error _, usb) => (.error (.code (-1)), { c with usb := usb })
      | (.ok n, usb) => writeLoop buf (offset + n) { c with usb := usb }
  else
    (.ok offset, c)
termination_by buf.length - offset
decreasing_by
  have hne : (buf.drop offset).take chunksize ≠ [] := by
    intro hnil
    have hlen := congrArg List.length hnil
    rw [List.length_take, List.length_drop, List.length_nil, chunksize] at hlen
    omega
  have hpos := Usb.bulkWrite_pos _ _ n (by rw [_hw]) hne
  omega

def writeData (buf : List UInt8) (c : FtdiContext ε) : Except Failure Nat × FtdiContext ε :=
  if c.usbDev = false then
    (.error (.code (-666)), c)
  else
    writeLoop buf 0 c

/-! ## Status bytes -/

theorem moveChunks_eq (q : Nat) : ∀ (left i : Nat) (m : Nat → UInt8), moveChunks (q + 2) left i m = closeUp 2 q left i m
  | 0, _, _ => rfl
  | left + 1, i, _ => moveChunks_eq q left (i + 1) _

/-- **The status bytes are taken out in place**: what is left, behind the first two, is the payload. -/
theorem region_strip {packetSize actualLength : Nat} (hsize : 2 ≤ packetSize) (m : Nat → UInt8) (h : 2 < actualLength) :
    region (strip packetSize actualLength m).1 2 (strip packetSize actualLength m).2 =
      payload 2 packetSize (region m 0 actualLength) := by
  obtain ⟨q, rfl⟩ : ∃ q, packetSize = q + 2 := ⟨packetSize - 2, by omega⟩
  unfold strip
  by_cases hmore : actualLength - 2 > q + 2 - 2
  · have hk : 0 < actualLength / (q + 2) := Nat.div_pos (by omega) (by omega)
    have hr : actualLength % (q + 2) < q + 2 := Nat.mod_lt _ (by omega)
    have hlen := Nat.div_add_mod actualLength (q + 2)
    generalize actualLength / (q + 2) = k at hk hlen
    generalize actualLength % (q + 2) = r at hr hlen
    have hclosed := region_closeUp m 2 q (k - 1)
    have hall : 1 + (k - 1) = k := by omega
    have hproduct : (q + 2) * k = q * k + 2 * k := Nat.add_mul _ _ _
    have hpayload := payload_region m (Nat.succ_pos (q + 1)) (Nat.le_of_lt hr) k 0
    rw [hall] at hclosed
    rw [if_pos hmore, ← hlen, hpayload, Nat.zero_add]
    simp only [Nat.add_sub_cancel, moveChunks_eq]
    by_cases hrest : r > 2
    · have hcount : (q + 2) * k + r - 2 - 2 * k = q * k + (r - 2) := by omega
      have hsource : 2 + (q + 2) * k = (q + 2) * k + 2 := Nat.add_comm _ _
      rw [if_pos hrest, hcount, region_add, region_move_outside (.inl (Nat.le_refl _)), hclosed.moved, region_move,
        hclosed.rest _ _ (Nat.le_add_left _ _), hsource]
    · have hcount : (q + 2) * k + r - 2 - (2 * (k - 1) + r) = q * k := by omega
      have hnone : r - 2 = 0 := by omega
      rw [if_neg hrest, hcount, hclosed.moved, hnone, region_zero, List.append_nil]
  · have hshort : (region m 0 actualLength).length ≤ q + 2 := by
      rw [length_region]
      omega
    have hdrop := drop_region m 0 2 (actualLength - 2)
    have hall : 2 + (actualLength - 2) = actualLength := by omega
    rw [hall] at hdrop
    rw [if_neg hmore, payload_short hshort, hdrop]

/-- What is left is less than what came, and something where packets have room for it. -/
theorem strip_le {packetSize actualLength : Nat} (hsize : 2 < packetSize) (m : Nat → UInt8) (h : 2 < actualLength) :
    0 < (strip packetSize actualLength m).2 ∧ 2 + (strip packetSize actualLength m).2 ≤ actualLength := by
  unfold strip
  by_cases hmore : actualLength - 2 > packetSize - 2
  · have hk : 0 < actualLength / packetSize := Nat.div_pos (by omega) (by omega)
    have hr : actualLength % packetSize < packetSize := Nat.mod_lt _ (by omega)
    have hlen := Nat.div_add_mod actualLength packetSize
    have hproduct : 3 * (actualLength / packetSize) ≤ packetSize * (actualLength / packetSize) := Nat.mul_le_mul_right _ hsize
    rw [if_pos hmore]
    simp only
    split <;> simp only <;> omega
  · rw [if_neg hmore]
    simp only
    omega

/-! ## One call -/

/-- Transfers one after the other: the bytes of each that has come, and all bytes that have gone out. -/
inductive Traffic : ε → List (List UInt8) → List UInt8 → ε → Prop where
  | done (e : ε) : Traffic e [] [] e
  | read {e e1 e2 : ε} {t : List UInt8} {ts : List (List UInt8)} {out : List UInt8} (h : Usb.bulkRead chunksize e = (.ok t, e1))
    (hrest : Traffic e1 ts out e2) : Traffic e (t :: ts) out e2
  | write {e e1 e2 : ε} {chunk : List UInt8} {n : Nat} {ts : List (List UInt8)} {out : List UInt8}
    (h : Usb.bulkWrite chunk e = (.ok n, e1)) (hrest : Traffic e1 ts out e2) : Traffic e ts (chunk.take n ++ out) e2

theorem Traffic.trans {e e1 e2 : ε} {ts us : List (List UInt8)} {out more : List UInt8} (h : Traffic e ts out e1)
    (h' : Traffic e1 us more e2) : Traffic e (ts ++ us) (out ++ more) e2 := by
  induction h with
  | done e => exact h'
  | read hread _ ih => exact .read hread (ih h')
  | write hwrite _ ih =>
    rw [List.append_assoc]
    exact .write hwrite (ih h')

omit [Usb ε] in
/-- What is still in `readbuffer`. -/
def FtdiContext.buffered (c : FtdiContext ε) : List UInt8 := region c.readbuffer c.readbufferOffset c.readbufferRemaining

omit [Usb ε] in
/-- Packets have room for data, and nothing points outside `readbuffer`. -/
structure FtdiContext.Sound (c : FtdiContext ε) : Prop where
  packet : 2 < c.maxPacketSize
  inside : c.readbufferOffset + c.readbufferRemaining ≤ chunksize

/-- What a read that returns has come to. -/
structure ReadResult (size : Nat) (got : List UInt8) (c : FtdiContext ε) (r : List UInt8) (c' : FtdiContext ε)
    (ts : List (List UInt8)) : Prop where
  traffic : Traffic c.usb ts [] c'.usb
  stream : r ++ c'.buffered = got ++ ts.flatMap (payload 2 c.maxPacketSize)
  length_le : r.length ≤ size
  dry : r.length < size → c'.buffered = [] ∧ ∃ t, ts.getLast? = some t ∧ t.length ≤ 2
  sound : c'.Sound
  maxPacketSize : c'.maxPacketSize = c.maxPacketSize

omit [Usb ε] in
theorem FtdiContext.buffered_nil {c : FtdiContext ε} (h : c.readbufferRemaining = 0) : c.buffered = [] := by
  rw [buffered, h, region_zero]

/-- A transfer with data. -/
theorem stripped {c : FtdiContext ε} (hc : c.Sound) {bytes : List UInt8} {usb : ε}
    (hread : Usb.bulkRead chunksize c.usb = (.ok bytes, usb)) (hbytes : bytes.length > 2) {m : Nat → UInt8} {n : Nat}
    (hstrip : strip c.maxPacketSize bytes.length (overwrite c.readbuffer 0 bytes) = (m, n)) :
    region m 2 n = payload 2 c.maxPacketSize bytes ∧ 0 < n ∧ 2 + n ≤ chunksize := by
  have hregion := region_strip (Nat.le_of_lt hc.packet) (overwrite c.readbuffer 0 bytes) hbytes
  have hle := strip_le hc.packet (overwrite c.readbuffer 0 bytes) hbytes
  have hsize := Usb.bulkRead_le chunksize c.usb bytes (congrArg Prod.fst hread)
  rw [hstrip, region_overwrite] at hregion
  rw [hstrip] at hle
  exact ⟨hregion, hle.1, Nat.le_trans hle.2 hsize⟩

/-- **The loop of `ftdi_read_data`** hands out what comes, keeps what is too much, and ends short only where nothing has come. -/
theorem readLoop_ok (size offset : Nat) (got : List UInt8) (c : FtdiContext ε) : c.Sound → got.length = offset →
    ∀ {r c'}, readLoop size offset got c = (.ok r, c') → ∃ ts, ReadResult size got c r c' ts := by
  fun_induction readLoop size offset got c with
  | case1 offset got c h ret usb hread =>
    intro hc hgot r c' hrun
    cases hrun
  | case2 offset got c h bytes usb hread m0 hbytes m n hstrip c1 hpos hover =>
    intro hc hgot r c' hrun
    cases hrun
  | case3 offset got c h bytes usb hread m0 hbytes m n hstrip c1 hpos hint hfits hexact =>
    intro hc hgot r c' hrun
    obtain ⟨hregion, -, hinside⟩ := stripped hc hread hbytes hstrip
    have hlen : (got ++ region m 2 n).length = size := by
      rw [List.length_append, length_region, hgot, hexact]
    cases hrun
    refine ⟨[bytes], .read hread (.done _), ?_, Nat.le_of_eq hlen, fun hless => absurd hlen (Nat.ne_of_lt hless), ⟨hc.packet, ?_⟩, rfl⟩
    · rw [FtdiContext.buffered_nil rfl, List.append_nil, List.flatMap_singleton, hregion]
    · exact Nat.le_of_add_right_le hinside
  | case4 offset got c h bytes usb hread m0 hbytes m n hstrip c1 hpos hint hfits hmore ih =>
    intro hc hgot r c' hrun
    obtain ⟨hregion, -, hinside⟩ := stripped hc hread hbytes hstrip
    have hsound : c1.Sound := ⟨hc.packet, Nat.le_of_add_right_le hinside⟩
    have hlen : (got ++ region m 2 n).length = offset + n := by
      rw [List.length_append, length_region, hgot]
    obtain ⟨ts, hts⟩ := ih hsound hlen hrun
    refine ⟨bytes :: ts, .read hread hts.traffic, ?_, hts.length_le, fun hless => ?_, hts.sound, hts.maxPacketSize⟩
    · rw [hts.stream, List.flatMap_cons, ← hregion, List.append_assoc]
    · obtain ⟨hnone, t, hlast, ht⟩ := hts.dry hless
      have hend : (bytes :: ts).getLast? = some t := by
        rw [List.getLast?_cons, hlast]
        rfl
      exact ⟨hnone, t, hend, ht⟩
  | case5 offset got c h bytes usb hread m0 hbytes m n hstrip c1 hpos hint hover =>
    intro hc hgot r c' hrun
    obtain ⟨hregion, -, hinside⟩ := stripped hc hread hbytes hstrip
    have hpart : (size - offset) + (n - (size - offset)) = n := Nat.add_sub_of_le (by omega)
    have hlen : (got ++ region m 2 (size - offset)).length = size := by
      rw [List.length_append, length_region, hgot]
      omega
    cases hrun
    refine ⟨[bytes], .read hread (.done _), ?_, Nat.le_of_eq hlen, fun hless => absurd hlen (Nat.ne_of_lt hless), ⟨hc.packet, ?_⟩, rfl⟩
    · have hsplit := region_add m 2 (size - offset) (n - (size - offset))
      rw [hpart] at hsplit
      rw [List.flatMap_singleton, ← hregion, hsplit, List.append_assoc]
      rfl
    · have hin : 2 + (size - offset) + (n - (size - offset)) ≤ chunksize := by omega
      exact hin
  | case6 offset got c h bytes usb hread m0 hbytes m n hstrip c1 hnone =>
    intro hc hgot r c' hrun
    cases hrun
  | case7 offset got c h bytes usb hread m0 hbytes =>
    intro hc hgot r c' hrun
    cases hrun
    have hshort : bytes.length ≤ 2 := Nat.le_of_not_lt hbytes
    have hempty : payload 2 c.maxPacketSize bytes = [] := by
      rw [payload_short (Nat.le_trans hshort (Nat.le_of_lt hc.packet)), List.drop_of_length_le hshort]
    refine ⟨[bytes], .read hread (.done _), ?_, hgot ▸ Nat.le_of_lt h, fun _ => ⟨FtdiContext.buffered_nil rfl, bytes, rfl, hshort⟩,
      ⟨hc.packet, Nat.zero_le _⟩, rfl⟩
    rw [FtdiContext.buffered_nil rfl, List.append_nil, List.flatMap_singleton, hempty, List.append_nil]
  | case8 offset got c h =>
    intro hc hgot r c' hrun
    cases hrun

/-- **`ftdi_read_data`**, from the buffer or from the bus. -/
theorem readData_ok {size : Nat} {c c' : FtdiContext ε} (hc : c.Sound) {r : List UInt8} (h : readData size c = (.ok r, c')) :
    ∃ ts, ReadResult size c.buffered c r c' ts := by
  have hpacket : ¬ c.maxPacketSize = 0 := Nat.ne_of_gt (Nat.lt_trans (by decide) hc.packet)
  have hopen : ¬ c.usbDev = false := by
    intro hclosed
    rw [readData, if_pos hclosed] at h
    cases h
  unfold readData at h
  rw [if_neg hopen, if_neg hpacket] at h
  by_cases henough : size ≤ c.readbufferRemaining
  · rw [if_pos henough] at h
    have hlen := length_region c.readbuffer c.readbufferOffset size
    have hsplit := region_add c.readbuffer c.readbufferOffset size (c.readbufferRemaining - size)
    have hinside := hc.inside
    rw [Nat.add_sub_of_le henough] at hsplit
    cases h
    refine ⟨[], .done _, ?_, Nat.le_of_eq hlen, fun hless => absurd hlen (Nat.ne_of_lt hless), ⟨hc.packet, ?_⟩, rfl⟩
    · rw [List.flatMap_nil, List.append_nil]
      exact hsplit.symm
    · have hin : c.readbufferOffset + size + (c.readbufferRemaining - size) ≤ chunksize := by omega
      exact hin
  · rw [if_neg henough] at h
    exact readLoop_ok size _ _ c hc (length_region _ _ _) h

/-- A write that does not fail has sent everything, in order. -/
theorem writeLoop_ok (buf : List UInt8) (offset : Nat) (c : FtdiContext ε) : offset ≤ buf.length →
    ∀ {n c'}, writeLoop buf offset c = (.ok n, c') →
      n = buf.length ∧ Traffic c.usb [] (buf.drop offset) c'.usb ∧ c' = { c with usb := c'.usb } := by
  fun_induction writeLoop buf offset c with
  | case1 offset c h hover =>
    intro hle n c' hrun
    cases hrun
  | case2 offset c h hint ret usb hwrite =>
    intro hle n c' hrun
    cases hrun
  | case3 offset c h hint k usb hwrite ih =>
    intro hle n c' hrun
    have hk := Usb.bulkWrite_le _ c.usb k (congrArg Prod.fst hwrite)
    have htaken : ((buf.drop offset).take chunksize).take k = (buf.drop offset).take k := by
      rw [List.take_take]
      congr 1
      rw [List.length_take] at hk
      omega
    have hle' : offset + k ≤ buf.length := by
      rw [List.length_take, List.length_drop] at hk
      omega
    obtain ⟨hall, htraffic, hrest⟩ := ih hle' hrun
    refine ⟨hall, ?_, hrest⟩
    have hgone := Traffic.write hwrite htraffic
    rw [htaken, ← List.drop_drop, List.take_append_drop] at hgone
    exact hgone
  | case4 offset c h =>
    intro hle n c' hrun
    have hend : offset = buf.length := Nat.le_antisymm hle (Nat.le_of_not_lt h)
    cases hrun
    rw [hend, List.drop_length]
    exact ⟨rfl, .done _, rfl⟩

theorem writeData_all {buf : List UInt8} {c c' : FtdiContext ε} {n : Nat} (h : writeData buf c = (.ok n, c')) :
    n = buf.length ∧ Traffic c.usb [] buf c'.usb ∧ c' = { c with usb := c'.usb } := by
  unfold writeData at h
  split at h
  · cases h
  · exact writeLoop_ok buf 0 c (Nat.zero_le _) h

/-- **`ftdi_write_data`** leaves what has been read alone. -/
theorem writeData_ok {buf : List UInt8} {c c' : FtdiContext ε} {n : Nat} (hc : c.Sound) (h : writeData buf c = (.ok n, c')) :
    Traffic c.usb [] buf c'.usb ∧ c'.buffered = c.buffered ∧ c'.Sound ∧ c'.maxPacketSize = c.maxPacketSize := by
  obtain ⟨-, hgone, hc'⟩ := writeData_all h
  refine ⟨hgone, ?_⟩
  rw [hc']
  exact ⟨rfl, ⟨hc.packet, hc.inside⟩, rfl⟩

/-! ## Runs -/

/-- A call: a read of so many bytes, or a write of some. -/
inductive Op where
  | read (size : Nat)
  | write (buf : List UInt8)
  deriving DecidableEq, Repr

/-- Calls one after the other, as long as none fails: what each read returns, and what all writes were given. -/
def runOps : List Op → FtdiContext ε → Option (List (List UInt8) × List UInt8 × FtdiContext ε)
  | [], c => some ([], [], c)
  | .read size :: ops, c =>
    match readData size c with
    | (.ok r, c) => (runOps ops c).map (fun (rs, out, c) => (r :: rs, out, c))
    | (.error _, _) => none
  | .write buf :: ops, c =>
    match writeData buf c with
    | (.ok _, c) => (runOps ops c).map (fun (rs, out, c) => (rs, buf ++ out, c))
    | (.error _, _) => none

/-- **Nothing is lost, doubled or moved**, in either direction: over any run of calls that do not fail, with any transfers, what
the reads return one after the other, with what is still in `readbuffer`, is what was there and the payload of all packets that came,
and what the writes were given is what went out. -/
theorem run_in_order (ops : List Op) : ∀ {c c' : FtdiContext ε} {rs : List (List UInt8)} {out : List UInt8}, c.Sound →
    runOps ops c = some (rs, out, c') → ∃ ts, Traffic c.usb ts out c'.usb ∧
      rs.flatten ++ c'.buffered = c.buffered ++ ts.flatMap (payload 2 c.maxPacketSize) ∧ c'.Sound ∧
      c'.maxPacketSize = c.maxPacketSize := by
  induction ops with
  | nil =>
    intro c c' rs out hc h
    cases h
    exact ⟨[], .done _, by rw [List.flatMap_nil, List.append_nil]; rfl, hc, rfl⟩
  | cons op ops ih =>
    intro c c' rs out hc h
    cases op with
    | read size =>
      unfold runOps at h
      cases hread : readData size c with
      | mk result c1 =>
        rw [hread] at h
        cases result with
        | error code => cases h
        | ok r =>
          obtain ⟨⟨rs', out', c2⟩, hrest, heq⟩ := Option.map_eq_some_iff.1 h
          cases heq
          obtain ⟨ts, hts⟩ := readData_ok hc hread
          obtain ⟨us, htraffic, hstream, hsound, hpacket⟩ := ih hts.sound hrest
          refine ⟨ts ++ us, hts.traffic.trans htraffic, ?_, hsound, hpacket.trans hts.maxPacketSize⟩
          rw [List.flatten_cons, List.append_assoc, hstream, hts.maxPacketSize, ← List.append_assoc, hts.stream,
            List.flatMap_append, List.append_assoc]
    | write buf =>
      unfold runOps at h
      cases hwrite : writeData buf c with
      | mk result c1 =>
        rw [hwrite] at h
        cases result with
        | error failure => cases h
        | ok n =>
          obtain ⟨⟨rs', out', c2⟩, hrest, heq⟩ := Option.map_eq_some_iff.1 h
          cases heq
          obtain ⟨hgone, hbuffered, hsound1, hpacket1⟩ := writeData_ok hc hwrite
          obtain ⟨us, htraffic, hstream, hsound, hpacket⟩ := ih hsound1 hrest
          refine ⟨us, hgone.trans htraffic, ?_, hsound, hpacket.trans hpacket1⟩
          rw [hstream, hbuffered, hpacket1]

/-- Transfers that come one after the other, and an endpoint that takes three bytes at a time. -/
structure Transfers where
  incoming : List (List UInt8)
  sent : List UInt8
  deriving DecidableEq, Repr

instance : Usb Transfers where
  bulkRead n e :=
    match e.incoming with
    | [] => (.error (-7), e)
    | t :: ts => (.ok (t.take n), { e with incoming := ts })
  bulkWrite bytes e := (.ok (min 3 bytes.length), { e with sent := e.sent ++ bytes.take 3 })
  bulkRead_le n e bytes h := by
    cases he : e.incoming with
    | nil =>
      rw [he] at h
      cases h
    | cons t ts =>
      rw [he] at h
      cases h
      exact List.length_take_le n t
  bulkWrite_le bytes e n h := by
    cases h
    exact Nat.min_le_right 3 _
  bulkWrite_pos bytes e n h hne := by
    cases h
    exact Nat.lt_min.2 ⟨by decide, List.length_pos_iff.2 hne⟩

/-- Two packets in a transfer, the second of them with two bytes of data, and a transfer without data. -/
def halves : FtdiContext Transfers where
  usb := ⟨[[1, 96] ++ List.replicate 62 5 ++ [1, 96, 7, 8], [1, 96]], []⟩
  usbDev := true
  readbuffer _ := 0
  readbufferOffset := 0
  readbufferRemaining := 0
  maxPacketSize := 64

theorem run_in_order_halves : ∃ c ts, runOps [.read 63, .write [1, 2, 3, 4], .read 9] halves =
      some ([List.replicate 62 5 ++ [7], [8]], [1, 2, 3, 4], c) ∧ Traffic halves.usb ts [1, 2, 3, 4] c.usb ∧
    List.replicate 62 5 ++ [7, 8] ++ c.buffered = ts.flatMap (payload 2 64) := by
  have hruns : (runOps [.read 63, .write [1, 2, 3, 4], .read 9] halves).map (fun r => (r.1, r.2.1)) =
      some ([List.replicate 62 5 ++ [7], [8]], [1, 2, 3, 4]) := by
    decide +kernel
  obtain ⟨⟨rs, out, c⟩, hrun, heq⟩ := Option.map_eq_some_iff.1 hruns
  obtain ⟨rfl, rfl⟩ := Prod.mk.inj heq
  have hsound : halves.Sound := ⟨by decide, by decide⟩
  obtain ⟨ts, htraffic, hstream, -, -⟩ := run_in_order _ hsound hrun
  exact ⟨c, ts, hrun, htraffic, hstream⟩

/-! ## Failures -/

/-- A read that fails has failed in a transfer, and nothing is kept of the transfers before it. -/
structure ReadFailure (c : FtdiContext ε) (code : Int) (c' : FtdiContext ε) (ts : List (List UInt8)) (e : ε) : Prop where
  traffic : Traffic c.usb ts [] e
  transfer : Usb.bulkRead chunksize e = (.error code, c'.usb)
  buffered : c'.buffered = []
  sound : c'.Sound

theorem readLoop_error (size offset : Nat) (got : List UInt8) (c : FtdiContext ε) : c.Sound → offset < size →
    ∀ {code c'}, readLoop size offset got c = (.error (.code code), c') → ∃ ts e, ReadFailure c code c' ts e := by
  fun_induction readLoop size offset got c with
  | case1 offset got c h ret usb hread =>
    intro hc hmissing code c' hrun
    cases hrun
    exact ⟨[], c.usb, .done _, hread, FtdiContext.buffered_nil rfl, ⟨hc.packet, Nat.zero_le _⟩⟩
  | case2 | case3 | case5 | case7 =>
    intro hc hmissing code c' hrun
    cases hrun
  | case4 offset got c h bytes usb hread m0 hbytes m n hstrip c1 hpos hint hfits hmore ih =>
    intro hc hmissing code c' hrun
    obtain ⟨-, -, hinside⟩ := stripped hc hread hbytes hstrip
    have hsound : c1.Sound := ⟨hc.packet, Nat.le_of_add_right_le hinside⟩
    obtain ⟨ts, e, hfailure⟩ := ih hsound (Nat.lt_of_le_of_ne hfits hmore) hrun
    exact ⟨bytes :: ts, e, .read hread hfailure.traffic, hfailure.transfer, hfailure.buffered, hfailure.sound⟩
  | case6 offset got c h bytes usb hread m0 hbytes m n hstrip c1 hnone =>
    -- a transfer with more than the status bytes has data
    intro hc hmissing code c' hrun
    exact absurd (stripped hc hread hbytes hstrip).2.1 hnone
  | case8 offset got c h =>
    intro hc hmissing code c' hrun
    exact absurd hmissing h

/-- **`ftdi_read_data` fails only with a transfer**, on a device that is open and whose packets have room for data: the exit behind
its loop is not reached there. -/
theorem readData_fails {size : Nat} {c c' : FtdiContext ε} (husb : c.usbDev = true) (hc : c.Sound) {code : Int}
    (h : readData size c = (.error (.code code), c')) : ∃ ts e, ReadFailure c code c' ts e := by
  have hopen : ¬ c.usbDev = false := by
    rw [husb]
    decide
  have hpacket : ¬ c.maxPacketSize = 0 := Nat.ne_of_gt (Nat.lt_trans (by decide) hc.packet)
  unfold readData at h
  rw [if_neg hopen, if_neg hpacket] at h
  by_cases henough : size ≤ c.readbufferRemaining
  · rw [if_pos henough] at h
    cases h
  · rw [if_neg henough] at h
    exact readLoop_error size _ _ c hc (Nat.lt_of_not_le henough) h

/-- A device that has gone after one transfer. -/
def unplugged : FtdiContext Transfers := { halves with usb := { incoming := [[1, 96, 7, 8]], sent := [] } }

theorem readData_fails_unplugged :
    ∃ c' ts e, readData 100 unplugged = (.error (.code (-7)), c') ∧ ReadFailure unplugged (-7) c' ts e := by
  have hfails : (match (readData 100 unplugged).1 with
      | .error (.code code) => decide (code = -7)
      | _ => false) = true := by
    decide +kernel
  have hsound : unplugged.Sound := ⟨by decide, by decide⟩
  cases hrun : readData 100 unplugged with
  | mk result c' =>
    rw [hrun] at hfails
    match result with
    | .error (.code code) =>
      obtain rfl := of_decide_eq_true hfails
      obtain ⟨ts, e, hfailure⟩ := readData_fails rfl hsound hrun
      exact ⟨c', ts, e, rfl, hfailure⟩

end Libftdi
end Fpga
