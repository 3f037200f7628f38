import FpgaServer.Chunks
/-!
# Bits — bit strings with the lowest bit first

A number as the list of its binary digits, the lowest first: `bits n x` has the `n` lowest digits of `x`, and `ofBits` adds
them up again.  A byte string is eight bits a byte (`bytesBits`), and `packBits` makes bytes of any bit string, the last one
filled up with zeros.  `shiftIn` is a byte register that takes a bit at its top; what its top bits hold after some shifts does
not depend on what it held before (`shiftIns_shiftRight`).
-/
namespace Base

/-! ## Numbers -/

def ofBits : List Bool → Nat
  | [] => 0
  | b :: bs => b.toNat + 2 * ofBits bs

def bits : Nat → Nat → List Bool
  | 0, _ => []
  | n + 1, x => decide (x % 2 = 1) :: bits n (x / 2)

@[simp] theorem length_bits : ∀ (n x : Nat), (bits n x).length = n
  | 0, _ => rfl
  | n + 1, x => by rw [bits, List.length_cons, length_bits n]

theorem ofBits_lt : ∀ (bs : List Bool), ofBits bs < 2 ^ bs.length
  | [] => Nat.one_pos
  | b :: bs => by
    have ih := ofBits_lt bs
    have hb := b.toNat_lt
    rw [ofBits, List.length_cons, Nat.pow_succ]
    omega

theorem ofBits_bits : ∀ (n x : Nat), ofBits (bits n x) = x % 2 ^ n
  | 0, x => by rw [Nat.pow_zero, Nat.mod_one]; rfl
  | n + 1, x => by
    have hlow : (decide (x % 2 = 1)).toNat = x % 2 := by
      rcases Nat.mod_two_eq_zero_or_one x with h | h <;> simp [h]
    rw [bits, ofBits, ofBits_bits n, hlow, Nat.pow_succ', Nat.mod_mul]

theorem bits_ofBits : ∀ (bs : List Bool), bits bs.length (ofBits bs) = bs
  | [] => rfl
  | b :: bs => by
    have hmod : (b.toNat + 2 * ofBits bs) % 2 = b.toNat := by
      have := b.toNat_lt
      omega
    have hdiv : (b.toNat + 2 * ofBits bs) / 2 = ofBits bs := by
      have := b.toNat_lt
      omega
    rw [List.length_cons, bits, ofBits, hmod, hdiv, bits_ofBits bs]
    cases b <;> rfl

theorem ofBits_append : ∀ (as bs : List Bool), ofBits (as ++ bs) = ofBits as + 2 ^ as.length * ofBits bs
  | [], bs => by simp [ofBits]
  | a :: as, bs => by
    rw [List.cons_append, ofBits, ofBits, ofBits_append as bs, List.length_cons, Nat.pow_succ', Nat.mul_add, Nat.mul_assoc,
      Nat.add_assoc]

theorem ofBits_inj {as bs : List Bool} (hlen : as.length = bs.length) (h : ofBits as = ofBits bs) : as = bs := by
  rw [← bits_ofBits as, ← bits_ofBits bs, hlen, h]

theorem bits_add (m n x : Nat) : bits (m + n) x = bits m x ++ bits n (x / 2 ^ m) := by
  induction m generalizing x with
  | zero => simp [bits]
  | succ m ih => rw [Nat.succ_add, bits, bits, List.cons_append, ih, Nat.div_div_eq_div_mul, Nat.pow_succ']

theorem take_bits {m n : Nat} (h : m ≤ n) (x : Nat) : (bits n x).take m = bits m x := by
  obtain ⟨k, rfl⟩ := Nat.exists_eq_add_of_le h
  rw [bits_add, List.take_append_of_le_length (by simp), List.take_of_length_le (by simp)]

/-- Bit `k` of a number, as a mask finds it. -/
theorem getElem?_bits : ∀ (n x k : Nat), k < n → (bits n x)[k]? = some (x.testBit k)
  | 0, _, _, h => absurd h (Nat.not_lt_zero _)
  | n + 1, x, 0, _ => by
    rw [bits, List.getElem?_cons_zero, Nat.testBit_zero]
  | n + 1, x, k + 1, h => by
    rw [bits, List.getElem?_cons_succ, getElem?_bits n (x / 2) k (Nat.lt_of_succ_lt_succ h), Nat.testBit_succ]

theorem bits_mod (n x : Nat) : bits n (x % 2 ^ n) = bits n x := by
  apply ofBits_inj
  · rw [length_bits, length_bits]
  · rw [ofBits_bits, ofBits_bits, Nat.mod_mod]

/-! ## Bytes -/

def byteBits (b : UInt8) : List Bool := bits 8 b.toNat

def byteOf (bs : List Bool) : UInt8 := UInt8.ofNat (ofBits bs)

@[simp] theorem length_byteBits (b : UInt8) : (byteBits b).length = 8 := length_bits 8 _

theorem byteOf_byteBits (b : UInt8) : byteOf (byteBits b) = b := by
  rw [byteOf, byteBits, ofBits_bits, Nat.mod_eq_of_lt b.toNat_lt, UInt8.ofNat_toNat]

theorem toNat_byteOf {bs : List Bool} (h : bs.length ≤ 8) : (byteOf bs).toNat = ofBits bs := by
  have hlt : ofBits bs < 2 ^ 8 := Nat.lt_of_lt_of_le (ofBits_lt bs) (Nat.pow_le_pow_right (by decide) h)
  rw [byteOf, UInt8.toNat_ofNat_of_lt' hlt]

theorem byteBits_byteOf {bs : List Bool} (h : bs.length = 8) : byteBits (byteOf bs) = bs := by
  rw [byteBits, toNat_byteOf (Nat.le_of_eq h), ← h, bits_ofBits]

/-- The bits of a byte string, byte by byte. -/
def bytesBits (bytes : List UInt8) : List Bool := bytes.flatMap byteBits

@[simp] theorem bytesBits_nil : bytesBits [] = [] := rfl

@[simp] theorem bytesBits_cons (b : UInt8) (bytes : List UInt8) : bytesBits (b :: bytes) = byteBits b ++ bytesBits bytes := rfl

theorem bytesBits_append (as bs : List UInt8) : bytesBits (as ++ bs) = bytesBits as ++ bytesBits bs := List.flatMap_append

@[simp] theorem length_bytesBits (bytes : List UInt8) : (bytesBits bytes).length = 8 * bytes.length := by
  induction bytes with
  | nil => rfl
  | cons b bytes ih =>
    rw [bytesBits_cons, List.length_append, ih, length_byteBits, List.length_cons]
    omega

theorem take_bytesBits (n : Nat) (bytes : List UInt8) : (bytesBits bytes).take (8 * n) = bytesBits (bytes.take n) := by
  induction n generalizing bytes with
  | zero => rfl
  | succ n ih =>
    cases bytes with
    | nil => simp
    | cons b bytes =>
      have hfirst : (byteBits b).length ≤ 8 * (n + 1) := by
        rw [length_byteBits]
        omega
      have hrest : 8 * (n + 1) - 8 = 8 * n := by omega
      rw [bytesBits_cons, List.take_succ_cons, bytesBits_cons, ← ih, List.take_append, length_byteBits,
        List.take_of_length_le hfirst, hrest]

theorem drop_bytesBits (n : Nat) (bytes : List UInt8) : (bytesBits bytes).drop (8 * n) = bytesBits (bytes.drop n) := by
  have hbits : bytesBits bytes = bytesBits (bytes.take n) ++ (bytesBits bytes).drop (8 * n) := by
    rw [← take_bytesBits, List.take_append_drop]
  have hbytes : bytesBits bytes = bytesBits (bytes.take n) ++ bytesBits (bytes.drop n) := by
    rw [← bytesBits_append, List.take_append_drop]
  apply List.append_cancel_left
  rw [← hbits, ← hbytes]

/-- The bits as bytes, eight at a time; the last byte is filled up with zeros. -/
def packBits (bs : List Bool) : List UInt8 := (chunksOf 8 bs).map byteOf

@[simp] theorem packBits_nil : packBits [] = [] := by
  rw [packBits, chunksOf_nil]
  rfl

theorem packBits_append_byte {bs : List Bool} (h : bs.length = 8) (more : List Bool) :
    packBits (bs ++ more) = byteOf bs :: packBits more := by
  have hne : bs ++ more ≠ [] := by
    intro hnil
    rw [List.append_eq_nil_iff] at hnil
    rw [hnil.1] at h
    cases h
  rw [packBits, chunksOf_ne_nil (by decide) hne, List.map_cons, ← h, List.take_left, List.drop_left, h]
  rfl

/-- What is left over makes one more byte. -/
theorem packBits_short {bs : List Bool} (hne : bs ≠ []) (h : bs.length ≤ 8) : packBits bs = [byteOf bs] := by
  rw [packBits, chunksOf_ne_nil (by decide) hne, List.take_of_length_le h, List.drop_eq_nil_of_le h, chunksOf_nil]
  rfl

theorem packBits_bytesBits_append (bytes : List UInt8) (more : List Bool) :
    packBits (bytesBits bytes ++ more) = bytes ++ packBits more := by
  induction bytes with
  | nil => rfl
  | cons b bytes ih =>
    rw [bytesBits_cons, List.append_assoc, packBits_append_byte (length_byteBits b), ih, byteOf_byteBits]
    rfl

/-- A bit string of whole bytes. -/
theorem bytesBits_packBits {n : Nat} : ∀ {bs : List Bool}, bs.length = 8 * n → bytesBits (packBits bs) = bs := by
  induction n with
  | zero =>
    intro bs h
    rw [List.length_eq_zero_iff.1 h, packBits_nil]
    rfl
  | succ n ih =>
    intro bs h
    have htake : (bs.take 8).length = 8 := by
      rw [List.length_take]
      omega
    have hdrop : (bs.drop 8).length = 8 * n := by
      rw [List.length_drop]
      omega
    rw [← List.take_append_drop 8 bs, packBits_append_byte htake, bytesBits_cons, byteBits_byteOf htake, ih hdrop]

theorem length_packBits {n : Nat} {bs : List Bool} (h : bs.length = 8 * n) : (packBits bs).length = n := by
  have hbits := congrArg List.length (bytesBits_packBits h)
  rw [length_bytesBits, h] at hbits
  omega

theorem packBits_append {n : Nat} {bs : List Bool} (h : bs.length = 8 * n) (more : List Bool) :
    packBits (bs ++ more) = packBits bs ++ packBits more := by
  conv => lhs; rw [← bytesBits_packBits h]
  rw [packBits_bytesBits_append]

/-! ## A register that is filled from the top -/

def shiftIn (r : UInt8) (b : Bool) : UInt8 := UInt8.ofNat ((r.toNat + 256 * b.toNat) / 2)

theorem toNat_shiftIn (r : UInt8) (b : Bool) : (shiftIn r b).toNat = (r.toNat + 256 * b.toNat) / 2 := by
  have hr := r.toNat_lt
  have hb := b.toNat_lt
  rw [shiftIn, UInt8.toNat_ofNat_of_lt' (by simp only [UInt8.size]; omega)]

theorem toNat_shiftIns (bs : List Bool) (r : UInt8) :
    (bs.foldl shiftIn r).toNat = (r.toNat + 256 * ofBits bs) / 2 ^ bs.length := by
  induction bs generalizing r with
  | nil => simp [ofBits]
  | cons b bs ih =>
    have hnested : (r.toNat + 256 * b.toNat) / 2 + 256 * ofBits bs = (r.toNat + 256 * ofBits (b :: bs)) / 2 := by
      rw [ofBits]
      omega
    rw [List.foldl_cons, ih, toNat_shiftIn, hnested, List.length_cons, Nat.pow_succ', Nat.div_div_eq_div_mul]

/-- **The bits shifted in are the top bits**, whatever was in the register. -/
theorem shiftIns_shiftRight {bs : List Bool} (hpos : 0 < bs.length) (h : bs.length ≤ 8) (r : UInt8) :
    (bs.foldl shiftIn r) >>> (UInt8.ofNat (8 - bs.length)) = byteOf bs := by
  have hr := r.toNat_lt
  have hamount : (UInt8.ofNat (8 - bs.length)).toNat = 8 - bs.length :=
    UInt8.toNat_ofNat_of_lt' (by simp only [UInt8.size]; omega)
  have hpow : 2 ^ bs.length * 2 ^ (8 - bs.length) = 256 := by
    rw [← Nat.pow_add, Nat.add_sub_cancel' h]
  apply UInt8.toNat_inj.1
  rw [UInt8.toNat_shiftRight, hamount, Nat.mod_eq_of_lt (by omega), Nat.shiftRight_eq_div_pow, toNat_shiftIns,
    toNat_byteOf h, Nat.div_div_eq_div_mul, hpow]
  omega

/-- After eight bits nothing is left of what the register held. -/
theorem shiftIns_byte {bs : List Bool} (h : bs.length = 8) (r : UInt8) : bs.foldl shiftIn r = byteOf bs := by
  have hall := shiftIns_shiftRight (by omega) (Nat.le_of_eq h) r
  have hzero : UInt8.ofNat 0 = 0 := rfl
  rwa [h, Nat.sub_self, hzero, UInt8.shiftRight_zero] at hall

/-- The bit shifted in last is the top bit. -/
theorem shiftIn_top (r : UInt8) (b : Bool) : shiftIn r b &&& 0x80 = if b then 0x80 else 0 := by
  have htop : ((r.toNat + 256 * b.toNat) / 2).testBit 7 = b := by
    rw [← Nat.testBit_succ]
    cases b with
    | false => exact Nat.testBit_lt_two_pow r.toNat_lt
    | true =>
      have hadd : r.toNat + 256 * true.toNat = 2 ^ 8 + r.toNat := Nat.add_comm _ _
      rw [hadd, Nat.testBit_two_pow_add_eq, Nat.testBit_lt_two_pow r.toNat_lt]
      rfl
  have hmask : (r.toNat + 256 * b.toNat) / 2 &&& 2 ^ 7 = if b then 2 ^ 7 else 0 := by
    apply Nat.eq_of_testBit_eq
    intro i
    rw [Nat.testBit_and, Nat.testBit_two_pow]
    by_cases hi : 7 = i
    · subst hi
      rw [htop]
      cases b <;> rfl
    · have hpow : (2 ^ 7).testBit i = false := by
        rw [Nat.testBit_two_pow]
        exact decide_eq_false hi
      rw [decide_eq_false hi, Bool.and_false]
      cases b
      · exact (Nat.zero_testBit i).symm
      · exact hpow.symm
  apply UInt8.toNat_inj.1
  rw [UInt8.toNat_and, toNat_shiftIn]
  exact hmask.trans (by cases b <;> rfl)

/-- A bit taken from the top of the register and put on top of some others. -/
theorem byteOf_or_top {bs : List Bool} (h : bs.length < 8) (r : UInt8) (b : Bool) :
    byteOf bs ||| (shiftIn r b &&& 0x80) >>> UInt8.ofNat (7 - bs.length) = byteOf (bs ++ [b]) := by
  have hamount : (UInt8.ofNat (7 - bs.length)).toNat % 8 = 7 - bs.length := by
    rw [UInt8.toNat_ofNat_of_lt' (by simp only [UInt8.size]; omega)]
    omega
  have hpow : 2 ^ 7 / 2 ^ (7 - bs.length) = 2 ^ bs.length := by
    rw [Nat.pow_div (Nat.sub_le 7 _) (by decide), Nat.sub_sub_self (by omega)]
  have hbit : ((shiftIn r b &&& 0x80) >>> UInt8.ofNat (7 - bs.length)).toNat = 2 ^ bs.length * b.toNat := by
    rw [shiftIn_top, UInt8.toNat_shiftRight, hamount, Nat.shiftRight_eq_div_pow]
    cases b with
    | false => simp
    | true => simpa using hpow
  apply UInt8.toNat_inj.1
  rw [UInt8.toNat_or, hbit, toNat_byteOf (by omega), toNat_byteOf (by simp; omega), ofBits_append, Nat.or_comm,
    ← Nat.two_pow_add_eq_or_of_lt (ofBits_lt bs), Nat.add_comm]
  simp [ofBits]

end Base
