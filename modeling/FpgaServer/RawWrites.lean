import FpgaServer.Line
/-!
# RawWrites — `Device::writeRaw` and the results of its write calls

The loop once more as the source counts it: a `size_t` advanced by what each call took, which leaves the loop only where it
equals the length of the buffer (`writeRawLoop`).  Whatever the calls return, it makes at most one call for each byte, every
call offers just what has not been accepted yet, and it ends as `Device.writeRaw` does (`writeRaw_prefix`).
-/
namespace Fpga

variable {ε ω α : Type}

/-! ## Partial writes -/

/-- What a sequence of write calls has accepted: of each offer as many bytes as its result says. -/
def accepted (writes : List (List α × Int)) : List α := writes.flatMap (fun w => w.1.take w.2.toNat)

/-- Every call offers what the calls before it have left. -/
def Offers (rest : List α) : List (List α × Int) → Prop
  | [] => True
  | (offer, r) :: writes => offer = rest ∧ r ≤ rest.length ∧ Offers (rest.drop r.toNat) writes

theorem accepted_cons (offer : List α) (r : Int) (writes : List (List α × Int)) :
    accepted ((offer, r) :: writes) = offer.take r.toNat ++ accepted writes := rfl

/-- The calls so far have accepted a beginning of the buffer, and the calls to come offer the rest. -/
theorem Offers.split {rest : List α} {made more : List (List α × Int)} (h : Offers rest (made ++ more)) :
    accepted made <+: rest ∧ Offers (rest.drop (accepted made).length) more := by
  induction made generalizing rest with
  | nil => exact ⟨List.nil_prefix, h⟩
  | cons w made ih =>
    obtain ⟨offer, r⟩ := w
    obtain ⟨rfl, hr, hmore⟩ := h
    obtain ⟨⟨missing, hmissing⟩, hoffers⟩ := ih hmore
    have hlen : (offer.take r.toNat).length = r.toNat := by
      rw [List.length_take]
      omega
    rw [accepted_cons]
    refine ⟨⟨missing, ?_⟩, ?_⟩
    · rw [List.append_assoc, hmissing, List.take_append_drop]
    · rwa [List.length_append, hlen, ← List.drop_drop]

namespace Device

variable [Ftdi ε]

/-! ## The loop -/

/-- The loop of `writeRaw`: `n_sent` is advanced by each result until it equals `n`.  False if so many calls have not ended
it. -/
def writeRawLoop (data : List UInt8) (n : UInt64) : Nat → UInt64 → DeviceM ε ω Bool
  | 0, nSent => pure (decide (nSent = n))
  | calls + 1, nSent =>
    if nSent = n then
      pure true
    else do
      let r ← ftdiWriteData ((data.drop nSent.toNat).take (cInt (n - nSent).toNat).toNat)
      if r ≤ 0 then
        raise "FTDI write error"
      else
        writeRawLoop data n calls (nSent + UInt64.ofNat r.toNat)

/-- `Device::writeRaw` with the counter of the source, for so many calls at most. -/
def writeRawCounted (calls : Nat) (data : List UInt8) : DeviceM ε ω Bool :=
  if UInt64.ofNat data.length = 0 then
    pure true
  else
    writeRawLoop data (UInt64.ofNat data.length) calls 0

/-- No write call takes more than it is offered. -/
theorem ftdiWriteData_returns (bytes : List UInt8) (s : DeviceState ε ω) :
    ∃ r t, (ftdiWriteData bytes).run s = .ok r t ∧ r ≤ bytes.length := by
  simp only [ftdiWriteData, EStateM.run_bind, EStateM.run_get]
  split
  · exact ⟨-666, s, rfl, by omega⟩
  · exact ⟨_, _, rfl, Ftdi.writeData_le bytes s.dev.usb⟩

omit [Ftdi ε] in
/-- The counter does not wrap. -/
theorem toNat_advance {nSent : UInt64} {k : Nat} (h : nSent.toNat + k < 2147483648) :
    (nSent + UInt64.ofNat k).toNat = nSent.toNat + k := by
  have hk : k < UInt64.size := Nat.lt_trans (by omega) (by decide : 2147483648 < UInt64.size)
  rw [UInt64.toNat_add, UInt64.toNat_ofNat_of_lt' hk]
  exact Nat.mod_eq_of_lt (Nat.lt_trans h (by decide))

/-- A call for every byte ends the loop: the counter never passes the length, so it is the length where nothing is left. -/
theorem run_writeRawLoop {data : List UInt8} (hn : data.length < 2147483648) : ∀ (calls : Nat) (nSent : UInt64)
    (s : DeviceState ε ω), nSent.toNat ≤ data.length → data.length ≤ nSent.toNat + calls →
    (writeRawLoop data (UInt64.ofNat data.length) calls nSent).run s =
      (do writeRaw (data.drop nSent.toNat); return true).run s := by
  have hlen : (UInt64.ofNat data.length).toNat = data.length := by
    rw [UInt64.toNat_ofNat']
    omega
  have hend : ∀ nSent : UInt64, nSent = UInt64.ofNat data.length ↔ nSent.toNat = data.length := by
    intro nSent
    rw [← UInt64.toNat_inj, hlen]
  intro calls
  induction calls with
  | zero =>
    intro nSent s hle hcalls
    have hdone : nSent.toNat = data.length := by omega
    rw [writeRawLoop, hdone, List.drop_length, writeRaw, dif_pos rfl, decide_eq_true ((hend nSent).2 hdone)]
    rfl
  | succ calls ih =>
    intro nSent s hle hcalls
    rw [writeRawLoop]
    by_cases hdone : nSent.toNat = data.length
    · rw [if_pos ((hend nSent).2 hdone), hdone, List.drop_length, writeRaw, dif_pos rfl]
      rfl
    · have hrest : data.drop nSent.toNat ≠ [] := by
        rw [Ne, List.drop_eq_nil_iff]
        omega
      have hleft : (UInt64.ofNat data.length - nSent).toNat = (data.drop nSent.toNat).length := by
        rw [UInt64.toNat_sub_of_le _ _ (UInt64.le_iff_toNat_le.2 (by omega)), hlen, List.length_drop]
      rw [if_neg (fun h => hdone ((hend nSent).1 h)), writeRaw, dif_neg hrest, hleft]
      obtain ⟨r, t, hwrite, hr⟩ := ftdiWriteData_returns
        ((data.drop nSent.toNat).take (cInt (data.drop nSent.toNat).length).toNat) s
      rw [bind_assoc, EStateM.run_bind, EStateM.run_bind, hwrite]
      simp only
      by_cases hfail : r ≤ 0
      · rw [if_pos hfail, dif_pos hfail]
        rfl
      · have htaken : nSent.toNat + r.toNat ≤ data.length := by
          have hoffer := List.length_take_le' (cInt (data.drop nSent.toNat).length).toNat (data.drop nSent.toNat)
          have hrest : (data.drop nSent.toNat).length = data.length - nSent.toNat := List.length_drop
          omega
        have hnext := toNat_advance (Nat.lt_of_le_of_lt htaken hn)
        rw [if_neg hfail, dif_neg hfail, ih _ t (by rwa [hnext]) (by rw [hnext]; omega), hnext, List.drop_drop]

/-- **The counted write ends as `writeRaw` does**, once it is allowed a call for every byte. -/
theorem run_writeRawCounted {data : List UInt8} (hn : data.length < 2147483648) {calls : Nat} (hcalls : data.length ≤ calls)
    (s : DeviceState ε ω) : (writeRawCounted calls data).run s = (do writeRaw data; return true).run s := by
  unfold writeRawCounted
  split
  · rename_i hempty
    have hzero : data.length = 0 := by
      have h := congrArg UInt64.toNat hempty
      rwa [UInt64.toNat_ofNat_of_lt' (Nat.lt_trans hn (by decide))] at h
    rw [List.length_eq_zero_iff.1 hzero, writeRaw, dif_pos rfl]
    rfl
  · exact run_writeRawLoop hn calls 0 s (Nat.zero_le _) (by simpa using hcalls)

/-! ## The calls of a run -/

/-- The write calls that lead from one state to another, with their results. -/
inductive WriteCalls : DeviceState ε ω → List (List UInt8 × Int) → DeviceState ε ω → Prop where
  | nil (s : DeviceState ε ω) : WriteCalls s [] s
  | cons {s t u : DeviceState ε ω} {offer : List UInt8} {r : Int} {writes : List (List UInt8 × Int)}
    (hcall : (ftdiWriteData offer).run s = .ok r t) (hrest : WriteCalls t writes u) : WriteCalls s ((offer, r) :: writes) u

/-- The calls of a raw write: all of them positive if they have accepted everything, and otherwise all but the last. -/
structure Written (rest : List UInt8) (writes : List (List UInt8 × Int)) : Prop where
  bounded : writes.length ≤ rest.length
  offers : Offers rest writes
  all : accepted writes = rest → ∀ w ∈ writes, 0 < w.2
  cut : accepted writes ≠ rest → ∃ made w, writes = made ++ [w] ∧ (∀ v ∈ made, 0 < v.2) ∧ w.2 ≤ 0

/-- **The calls of a raw write** from the bytes not yet sent on. -/
theorem writeRaw_sends (rest : List UInt8) (hn : rest.length < 2147483648) (s : DeviceState ε ω) :
    ∃ writes t, WriteCalls s writes t ∧ Written rest writes ∧
      (writeRaw rest).run s =
        if accepted writes = rest then .ok () t else .error (.exception "FTDI write error") t := by
  by_cases hrest : rest = []
  · rw [writeRaw, dif_pos hrest, hrest]
    refine ⟨[], s, .nil s, ⟨Nat.le_refl _, trivial, fun _ w hw => absurd hw List.not_mem_nil, fun h => absurd rfl h⟩, rfl⟩
  · have hlen := List.length_pos_iff.2 hrest
    have hoffer : rest.take (cInt rest.length).toNat = rest := by
      rw [cInt_of_lt hn, Int.toNat_natCast, List.take_length]
    obtain ⟨r, t, hwrite, hr⟩ := ftdiWriteData_returns rest s
    rw [writeRaw, dif_neg hrest, hoffer, EStateM.run_bind, hwrite]
    simp only
    by_cases hfail : r ≤ 0
    · have hnone : accepted [(rest, r)] = [] := by
        rw [accepted_cons, Int.toNat_of_nonpos hfail]
        rfl
      rw [dif_pos hfail]
      refine ⟨[(rest, r)], t, .cons hwrite (.nil t), ⟨hlen, ⟨rfl, hr, trivial⟩, fun h => ?_, fun _ => ?_⟩, ?_⟩
      · exact absurd (h.symm.trans hnone) hrest
      · exact ⟨[], (rest, r), rfl, fun v hv => absurd hv List.not_mem_nil, hfail⟩
      · rw [hnone, if_neg (Ne.symm hrest)]
        rfl
    · have hleft : (rest.drop r.toNat).length = rest.length - r.toNat := List.length_drop
      obtain ⟨writes, u, hmade, hw, hrun⟩ := writeRaw_sends (rest.drop r.toNat) (by omega) t
      have hiff : accepted ((rest, r) :: writes) = rest ↔ accepted writes = rest.drop r.toNat := by
        rw [accepted_cons]
        constructor
        · intro h
          exact List.append_cancel_left (h.trans (List.take_append_drop r.toNat rest).symm)
        · intro h
          rw [h, List.take_append_drop]
      rw [dif_neg hfail, hrun]
      refine ⟨(rest, r) :: writes, u, .cons hwrite hmade, ⟨?_, ⟨rfl, hr, hw.offers⟩, fun h => ?_, fun h => ?_⟩, ?_⟩
      · have := hw.bounded
        rw [List.length_cons]
        omega
      · intro w hmem
        rcases List.mem_cons.1 hmem with rfl | hmem
        · exact Int.not_le.1 hfail
        · exact hw.all (hiff.1 h) w hmem
      · obtain ⟨made, w, hwrites, hpos, hlast⟩ := hw.cut (fun h' => h (hiff.2 h'))
        refine ⟨(rest, r) :: made, w, by rw [hwrites, List.cons_append], fun v hv => ?_, hlast⟩
        rcases List.mem_cons.1 hv with rfl | hv
        · exact Int.not_le.1 hfail
        · exact hpos v hv
      · simp only [hiff]
termination_by rest.length
decreasing_by
  omega

/-- **A raw write** of less than 2^31 bytes, whatever its write calls return: there are at most as many calls as bytes, what
they have accepted is at every moment a beginning of the buffer and the next call offers the rest, and the write returns if
and only if all of it is accepted; otherwise it throws at the first result that is not positive. -/
theorem writeRaw_prefix (data : List UInt8) (hn : data.length < 2147483648) (s : DeviceState ε ω) :
    ∃ writes t, WriteCalls s writes t ∧ writes.length ≤ data.length ∧
      (∀ made, made <+: writes → accepted made <+: data) ∧
      (∀ made w, made ++ [w] <+: writes → w.1 = data.drop (accepted made).length) ∧
      (∀ calls, data.length ≤ calls → (writeRawCounted calls data).run s =
        if accepted writes = data then .ok true t else .error (.exception "FTDI write error") t) ∧
      (accepted writes = data → ∀ w ∈ writes, 0 < w.2) ∧
      (accepted writes ≠ data → ∃ made w, writes = made ++ [w] ∧ (∀ v ∈ made, 0 < v.2) ∧ w.2 ≤ 0) := by
  obtain ⟨writes, t, hmade, hw, hrun⟩ := writeRaw_sends data hn s
  refine ⟨writes, t, hmade, hw.bounded, ?_, ?_, fun calls hcalls => ?_, hw.all, hw.cut⟩
  · rintro made ⟨more, rfl⟩
    exact hw.offers.split.1
  · rintro made w ⟨more, rfl⟩
    rw [List.append_assoc] at hw
    exact hw.offers.split.2.1
  · rw [run_writeRawCounted hn hcalls, EStateM.run_bind, hrun]
    by_cases hall : accepted writes = data
    · rw [if_pos hall, if_pos hall]
      rfl
    · rw [if_neg hall, if_neg hall]

/-- A device whose channel takes one byte of the first write, and all of the next. -/
def sipping : DeviceState (Line RegisterFile) Unit where
  dev := {
    name := "FPGA0001", libusbDevice := 7, ftdi := some 0, trackedRegs := Base.OrdMap.empty, regChangedCb := none,
    contexts := [⟨0, .A, true⟩], nextContext := 1,
    usb := ⟨⟨boundary, ⟨fun _ => 0⟩, [], []⟩, [], [.cut 1 1], [], []⟩ }
  out := ()

/-- Three bytes are written, in two calls. -/
theorem three_bytes_written : ∃ writes t, WriteCalls sipping writes t ∧ writes.length ≤ 3 ∧ accepted writes = [1, 2, 3] ∧
    ∀ calls, 3 ≤ calls → (writeRawCounted calls [1, 2, 3]).run sipping = .ok true t := by
  obtain ⟨writes, t, hmade, hbound, -, -, hrun, -, -⟩ := writeRaw_prefix [1, 2, 3] (by decide) sipping
  have hreturns : ∃ u, (writeRawCounted 3 [1, 2, 3]).run sipping = .ok true u := ⟨_, rfl⟩
  have hall : accepted writes = [1, 2, 3] := by
    by_contra hpart
    obtain ⟨u, hu⟩ := hreturns
    rw [hrun 3 (by decide), if_neg hpart] at hu
    cases hu
  exact ⟨writes, t, hmade, hbound, hall, fun calls hcalls => by rw [hrun calls hcalls, if_pos hall]⟩

end Device
end Fpga
