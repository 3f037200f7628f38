import FpgaServer.Chunks
import Mathlib.Data.List.GetD
/-!
# Packets — a memory, and packets with headers moved together in it

`payload h p bytes` is what is left of a stream of packets of `p` bytes, the last of them perhaps shorter, without the first `h`
bytes of each.  `closeUp` makes it in place: it moves the payload of each packet down to that of the one before it.  A source is
never ahead of what has been written, so nothing is lost (`region_closeUp`).
-/
namespace Base

variable {α : Type}

/-- The bytes without the headers. -/
def payload (header size : Nat) (bytes : List α) : List α := (chunksOf size bytes).flatMap (·.drop header)

theorem payload_short {header size : Nat} {bytes : List α} (h : bytes.length ≤ size) :
    payload header size bytes = bytes.drop header := by
  by_cases hempty : bytes = []
  · subst hempty
    rw [payload, chunksOf_nil, List.drop_nil]
    rfl
  · have hsize : 0 < size := Nat.lt_of_lt_of_le (List.length_pos_iff.2 hempty) h
    rw [payload, chunksOf_ne_nil hsize hempty, List.take_of_length_le h, List.drop_of_length_le h, chunksOf_nil]
    exact List.append_nil _

/-- A whole packet in front. -/
theorem payload_append {header size : Nat} (hsize : 0 < size) {packet : List α} (h : packet.length = size) (rest : List α) :
    payload header size (packet ++ rest) = packet.drop header ++ payload header size rest := by
  have hne : packet ++ rest ≠ [] := by
    intro hnil
    rw [(List.append_eq_nil_iff.1 hnil).1] at h
    exact Nat.ne_of_lt hsize h
  rw [payload, chunksOf_ne_nil hsize hne, ← h, List.take_left, List.drop_left]
  rfl

/-! ## Memory -/

/-- Some cells one after the other. -/
def region (m : Nat → α) (start n : Nat) : List α := (List.range n).map (fun i => m (start + i))

@[simp] theorem length_region (m : Nat → α) (start n : Nat) : (region m start n).length = n := by
  rw [region, List.length_map, List.length_range]

theorem region_zero (m : Nat → α) (start : Nat) : region m start 0 = [] := rfl

theorem region_add (m : Nat → α) (start n k : Nat) : region m start (n + k) = region m start n ++ region m (start + n) k := by
  simp only [region, List.range_add, List.map_append, List.map_map, Function.comp_def, Nat.add_assoc]

theorem drop_region (m : Nat → α) (start n k : Nat) : (region m start (n + k)).drop n = region m (start + n) k := by
  rw [region_add]
  exact List.drop_left' (length_region m start n)

/-- Some cells overwritten. -/
def overwrite (m : Nat → α) (start : Nat) (xs : List α) : Nat → α := fun a =>
  if start ≤ a then xs.getD (a - start) (m a) else m a

theorem region_overwrite (m : Nat → α) (start : Nat) (xs : List α) : region (overwrite m start xs) start xs.length = xs := by
  apply List.ext_getElem (length_region _ _ _)
  intro i _ hi
  simp only [region, overwrite, List.getElem_map, List.getElem_range, Nat.add_sub_cancel_left]
  rw [if_pos (Nat.le_add_right start i), List.getD_eq_getElem _ _ hi]

theorem overwrite_outside {m : Nat → α} {start : Nat} {xs : List α} {a : Nat} (h : a < start ∨ start + xs.length ≤ a) :
    overwrite m start xs a = m a := by
  unfold overwrite
  split
  · rw [List.getD_eq_default _ _ (by omega)]
  · rfl

theorem region_overwrite_outside {m : Nat → α} {start : Nat} {xs : List α} {b n : Nat}
    (h : b + n ≤ start ∨ start + xs.length ≤ b) : region (overwrite m start xs) b n = region m b n := by
  apply List.map_congr_left
  intro i hi
  have hlt := List.mem_range.1 hi
  exact overwrite_outside (by omega)

/-- `memmove`. -/
def move (m : Nat → α) (dst src n : Nat) : Nat → α := overwrite m dst (region m src n)

theorem region_move (m : Nat → α) (dst src n : Nat) : region (move m dst src n) dst n = region m src n := by
  have hall := region_overwrite m dst (region m src n)
  rwa [length_region] at hall

theorem region_move_outside {m : Nat → α} {dst src n b k : Nat} (h : b + k ≤ dst ∨ dst + n ≤ b) :
    region (move m dst src n) b k = region m b k := region_overwrite_outside (by rwa [length_region])

/-! ## Closing up -/

/-- The payloads of packets from the `i`-th on moved down, with headers of `h` bytes and payloads of `q`. -/
def closeUp (h q : Nat) : Nat → Nat → (Nat → α) → Nat → α
  | 0, _, m => m
  | left + 1, i, m => closeUp h q left (i + 1) (move m (h + q * i) (h + (q + h) * i) q)

/-- The payloads of the first packets of a memory. -/
def payloads (m : Nat → α) (h q start k : Nat) : List α := (List.range k).flatMap (fun i => region m (start + (q + h) * i + h) q)

theorem payloads_succ (m : Nat → α) (h q start k : Nat) :
    payloads m h q start (k + 1) = payloads m h q start k ++ region m (start + (q + h) * k + h) q := by
  rw [payloads, List.range_succ, List.flatMap_append, List.flatMap_singleton]
  rfl

theorem payloads_cons (m : Nat → α) (h q start k : Nat) :
    payloads m h q start (k + 1) = region m (start + h) q ++ payloads m h q (start + (q + h)) k := by
  have hshift : ∀ i, start + (q + h) * (i + 1) + h = start + (q + h) + (q + h) * i + h := by
    intro i
    rw [Nat.mul_add, Nat.mul_one]
    omega
  rw [payloads, List.range_succ_eq_map, List.flatMap_cons, List.flatMap_map]
  simp only [Nat.mul_zero, Nat.add_zero, hshift]
  rfl

/-- Whole packets in a memory, and a rest. -/
theorem payload_region (m : Nat → α) {h q : Nat} (hsize : 0 < q + h) {r : Nat} (hr : r ≤ q + h) (k : Nat) : ∀ start,
    payload h (q + h) (region m start ((q + h) * k + r)) =
      payloads m h q start k ++ region m (start + (q + h) * k + h) (r - h) := by
  induction k with
  | zero =>
    intro start
    have hshort : (region m start ((q + h) * 0 + r)).length ≤ q + h := by
      rw [length_region, Nat.mul_zero, Nat.zero_add]
      exact hr
    rw [payload_short hshort, Nat.mul_zero, Nat.zero_add, Nat.add_zero, payloads, List.range_zero, List.flatMap_nil,
      List.nil_append]
    by_cases hhead : h ≤ r
    · have hsplit : r = h + (r - h) := by omega
      rw [hsplit, drop_region, Nat.add_sub_cancel_left]
    · have hnone : r - h = 0 := by omega
      rw [hnone, region_zero]
      apply List.drop_of_length_le
      rw [length_region]
      omega
  | succ k ih =>
    intro start
    have hsplit : (q + h) * (k + 1) + r = (q + h) + ((q + h) * k + r) := by
      rw [Nat.mul_add, Nat.mul_one]
      omega
    have hdrop : (region m start (q + h)).drop h = region m (start + h) q := by
      rw [Nat.add_comm q h, drop_region]
    have hrest : start + (q + h) + (q + h) * k + h = start + (q + h) * (k + 1) + h := by
      rw [Nat.mul_add, Nat.mul_one]
      omega
    rw [hsplit, region_add, payload_append hsize (length_region _ _ _), ih, hdrop, payloads_cons, List.append_assoc, hrest]

/-- The payloads of the first `i` packets have been moved together behind a header, and from the next packet on all is as it was. -/
structure ClosedUp (h q i : Nat) (m0 m : Nat → α) : Prop where
  moved : region m h (q * i) = payloads m0 h q 0 i
  rest : ∀ b n, (q + h) * i ≤ b → region m b n = region m0 b n

/-- One move. -/
theorem ClosedUp.move {h q i : Nat} {m0 m : Nat → α} (hc : ClosedUp h q i m0 m) (hpos : 0 < i) :
    ClosedUp h q (i + 1) m0 (move m (h + q * i) (h + (q + h) * i) q) := by
  have hwide : h + q * i ≤ (q + h) * i := by
    rw [Nat.add_mul, Nat.add_comm]
    exact Nat.add_le_add_left (Nat.le_mul_of_pos_right h hpos) _
  have hnext : (q + h) * (i + 1) = (q + h) * i + (q + h) := Nat.mul_succ _ _
  constructor
  · rw [Nat.mul_succ, region_add, region_move_outside (.inl (Nat.le_refl _)), hc.moved, region_move, payloads_succ,
      hc.rest _ _ (Nat.le_add_left _ _), Nat.zero_add, Nat.add_comm h]
  · intro b n hb
    rw [region_move_outside (.inr (by omega)), hc.rest b n (by omega)]

theorem ClosedUp.closeUp {h q : Nat} {m0 : Nat → α} : ∀ {left i : Nat} {m : Nat → α}, 0 < i → ClosedUp h q i m0 m →
    ClosedUp h q (i + left) m0 (closeUp h q left i m)
  | 0, _, _, _, hc => hc
  | left + 1, i, _, hpos, hc => by
    have hrest : ClosedUp h q (i + 1 + left) m0 _ := ClosedUp.closeUp (Nat.succ_pos i) (hc.move hpos)
    rwa [Nat.succ_add_eq_add_succ] at hrest

/-- **Packets are closed up in place**: the first header stays where it was, and all payloads follow it. -/
theorem region_closeUp (m : Nat → α) (h q left : Nat) :
    ClosedUp h q (1 + left) m (Base.closeUp h q left 1 m) := by
  refine ClosedUp.closeUp Nat.one_pos ⟨?_, fun _ _ _ => rfl⟩
  rw [Nat.mul_one, payloads_succ, payloads, List.range_zero, List.flatMap_nil, List.nil_append, Nat.mul_zero, Nat.zero_add]

end Base
