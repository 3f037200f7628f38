import FpgaServer.BitFile
/-!
# BitFormat — what a `.bit` file is

A `.bit` file is a header of 13 bytes, text fields, each with a key and a length of two bytes, and, behind the key `e` and a length of
four bytes, the data.  What follows the data is ignored.  `readBitfile` reads just these files, and of each what is in it: a field
that comes twice goes on where it was (`readBitfile_iff`).
-/
namespace Fpga
namespace BitFile

/-- A length of two bytes, the high one first. -/
def length2 (n : Nat) : List UInt8 := [UInt8.ofNat (n / 256), UInt8.ofNat n]

/-- A length of four bytes. -/
def length4 (n : Nat) : List UInt8 :=
  [UInt8.ofNat (n / 16777216), UInt8.ofNat (n / 65536), UInt8.ofNat (n / 256), UInt8.ofNat n]

structure Field where
  key : UInt8
  text : List UInt8
  key_ne : key ≠ 0x65
  length_lt : text.length < 65536

def Field.bytes (x : Field) : List UInt8 := x.key :: (length2 x.text.length ++ x.text)

structure Layout where
  header : List UInt8
  fields : List Field
  data : List UInt8
  extra : List UInt8
  header_length : header.length = 13
  length_lt : data.length < 4294967296

/-- The key `e`, and the data behind it. -/
def dataBytes (data extra : List UInt8) : List UInt8 := 0x65 :: (length4 data.length ++ (data ++ extra))

def Layout.bytes (l : Layout) : List UInt8 := l.header ++ (l.fields.flatMap Field.bytes ++ dataBytes l.data l.extra)

/-- The text under a key. -/
def textOf (key : UInt8) (fields : List Field) : List UInt8 := (fields.filter (fun x => x.key = key)).flatMap (·.text)

/-- What is in a file: the four texts, and the data with the bits of each byte the other way round. -/
def Layout.content (l : Layout) : BitFile where
  ncdFilename := textOf 0x61 l.fields
  partName := textOf 0x62 l.fields
  date := textOf 0x63 l.fields
  dtime := textOf 0x64 l.fields
  buffer := l.data.map bitRev

/-! ## Lengths -/

theorem fread_iff {n : Nat} {bytes field rest : List UInt8} :
    fread n bytes = some (field, rest) ↔ field.length = n ∧ bytes = field ++ rest := by
  unfold fread
  constructor
  · intro h
    split at h
    · rename_i hn
      cases h
      exact ⟨List.length_take_of_le hn, (List.take_append_drop n bytes).symm⟩
    · cases h
  · rintro ⟨rfl, rfl⟩
    rw [if_pos (by rw [List.length_append]; omega), List.take_left, List.drop_left]

theorem toNat_length2 {n : Nat} (h : n < 65536) :
    (UInt8.ofNat (n / 256)).toNat * 256 + (UInt8.ofNat n).toNat = n := by
  rw [UInt8.toNat_ofNat', UInt8.toNat_ofNat']
  omega

theorem length2_toNat (hi lo : UInt8) : length2 (hi.toNat * 256 + lo.toNat) = [hi, lo] := by
  have hlo := lo.toNat_lt
  have hdiv : (hi.toNat * 256 + lo.toNat) / 256 = hi.toNat := by omega
  rw [length2, hdiv, UInt8.ofNat_toNat]
  congr 2
  apply UInt8.toNat_inj.1
  rw [UInt8.toNat_ofNat']
  omega

theorem toNat_length4 {n : Nat} (h : n < 4294967296) :
    (((UInt8.ofNat (n / 16777216)).toNat * 256 + (UInt8.ofNat (n / 65536)).toNat) * 256 + (UInt8.ofNat (n / 256)).toNat) * 256 +
      (UInt8.ofNat n).toNat = n := by
  simp only [UInt8.toNat_ofNat']
  omega

theorem length4_toNat (a b c d : UInt8) :
    length4 (((a.toNat * 256 + b.toNat) * 256 + c.toNat) * 256 + d.toNat) = [a, b, c, d] := by
  have ha := a.toNat_lt
  have hb := b.toNat_lt
  have hc := c.toNat_lt
  have hd := d.toNat_lt
  simp only [length4, List.cons.injEq, and_true, ← UInt8.toNat_inj, UInt8.toNat_ofNat']
  omega

/-- **A field** is its length and its text. -/
theorem readField_iff {bytes field rest : List UInt8} : readField bytes = some (field, rest) ↔
    field.length < 65536 ∧ bytes = length2 field.length ++ (field ++ rest) := by
  constructor
  · intro h
    unfold readField at h
    split at h
    · rename_i hi lo bytes
      obtain ⟨hlen, rfl⟩ := fread_iff.1 h
      have hhi := hi.toNat_lt
      have hlo := lo.toNat_lt
      refine ⟨by omega, ?_⟩
      rw [hlen, length2_toNat]
      rfl
    · cases h
  · rintro ⟨hlt, rfl⟩
    exact fread_iff.2 ⟨(toNat_length2 hlt).symm, rfl⟩

/-- **The data** are a length, as many bytes, and what follows. -/
theorem processData_iff {bytes buffer : List UInt8} : processData bytes = some buffer ↔
    ∃ data extra, data.length < 4294967296 ∧ bytes = length4 data.length ++ (data ++ extra) ∧ data.map bitRev = buffer := by
  constructor
  · intro h
    unfold processData at h
    split at h
    · rename_i a b c d bytes
      obtain ⟨⟨data, extra⟩, hread, hbuffer⟩ := Option.map_eq_some_iff.1 h
      obtain ⟨hlen, rfl⟩ := fread_iff.1 hread
      have ha := a.toNat_lt
      have hb := b.toNat_lt
      have hc := c.toNat_lt
      have hd := d.toNat_lt
      refine ⟨data, extra, by omega, ?_, hbuffer⟩
      rw [hlen, length4_toNat]
      rfl
    · cases h
  · rintro ⟨data, extra, hlt, rfl, rfl⟩
    exact Option.map_eq_some_iff.2 ⟨(data, extra), fread_iff.2 ⟨(toNat_length4 hlt).symm, rfl⟩, rfl⟩

/-! ## Fields -/

theorem flatMap_bytes_cons (x : Field) (fields : List Field) (rest : List UInt8) : (x :: fields).flatMap Field.bytes ++ rest =
    x.key :: (length2 x.text.length ++ (x.text ++ (fields.flatMap Field.bytes ++ rest))) := by
  rw [List.flatMap_cons, Field.bytes, List.cons_append, List.cons_append, List.append_assoc, List.append_assoc]

/-- The loop goes over the fields and ends with the data. -/
theorem readFields_of (data extra : List UInt8) (hlt : data.length < 4294967296) : ∀ (fields : List Field) (f : BitFile),
    readFields f (fields.flatMap Field.bytes ++ dataBytes data extra) =
      some { fields.foldl (fun f x => f.append x.key x.text) f with buffer := data.map bitRev }
  | [], f => by
    have hdata := processData_iff.2 ⟨data, extra, hlt, rfl, rfl⟩
    rw [List.flatMap_nil, List.nil_append, dataBytes, readFields, if_pos rfl, hdata]
    rfl
  | x :: fields, f => by
    have hfield : readField (length2 x.text.length ++ (x.text ++ (fields.flatMap Field.bytes ++ dataBytes data extra))) =
        some (x.text, fields.flatMap Field.bytes ++ dataBytes data extra) := readField_iff.2 ⟨x.length_lt, rfl⟩
    rw [flatMap_bytes_cons, readFields, if_neg x.key_ne]
    split
    · rename_i hnone
      rw [hfield] at hnone
      cases hnone
    · rename_i field rest hsome
      rw [hfield] at hsome
      cases hsome
      exact readFields_of data extra hlt fields _

/-- A file the loop gets through is made of fields and data. -/
theorem layout_of_readFields (f : BitFile) (bytes : List UInt8) : ∀ {g}, readFields f bytes = some g →
    ∃ (fields : List Field) (data extra : List UInt8), data.length < 4294967296 ∧
      bytes = fields.flatMap Field.bytes ++ dataBytes data extra := by
  fun_induction readFields f bytes with
  | case1 f =>
    intro g h
    cases h
  | case2 f bytes =>
    intro g h
    obtain ⟨buffer, hdata, -⟩ := Option.map_eq_some_iff.1 h
    obtain ⟨data, extra, hlt, rfl, -⟩ := processData_iff.1 hdata
    exact ⟨[], data, extra, hlt, rfl⟩
  | case3 f key bytes hkey hnone =>
    intro g h
    cases h
  | case4 f key bytes hkey field rest hfield ih =>
    intro g h
    obtain ⟨fields, data, extra, hlt, rfl⟩ := ih h
    obtain ⟨hlen, rfl⟩ := readField_iff.1 hfield
    refine ⟨⟨key, field, hkey, hlen⟩ :: fields, data, extra, hlt, ?_⟩
    rw [flatMap_bytes_cons]

theorem textOf_cons (key : UInt8) (x : Field) (fields : List Field) :
    textOf key (x :: fields) = (if x.key = key then x.text else []) ++ textOf key fields := by
  unfold textOf
  by_cases h : x.key = key
  · rw [if_pos h, List.filter_cons_of_pos (by simpa using h), List.flatMap_cons]
  · rw [if_neg h, List.filter_cons_of_neg (by simpa using h), List.nil_append]

/-- Every field goes on with its own text, and with no other. -/
theorem foldl_append (fields : List Field) : ∀ f : BitFile, fields.foldl (fun f x => f.append x.key x.text) f =
    ⟨f.ncdFilename ++ textOf 0x61 fields, f.partName ++ textOf 0x62 fields, f.date ++ textOf 0x63 fields, f.dtime ++ textOf 0x64 fields,
      f.buffer⟩ := by
  induction fields with
  | nil =>
    intro f
    simp only [List.foldl_nil, textOf, List.filter_nil, List.flatMap_nil, List.append_nil]
  | cons x fields ih =>
    intro f
    rw [List.foldl_cons, ih]
    simp only [textOf_cons, append]
    by_cases ha : x.key = 0x61
    · simp [ha]
    · by_cases hb : x.key = 0x62
      · simp [hb]
      · by_cases hc : x.key = 0x63
        · simp [hc]
        · by_cases hd : x.key = 0x64
          · simp [hd]
          · simp [ha, hb, hc, hd]

/-- **`readBitfile` reads the `.bit` files and nothing else**: it returns a result for just the bytes that are laid out as one, and the
result is what is in it. -/
theorem readBitfile_iff (bytes : List UInt8) (f : BitFile) :
    readBitfile bytes = some f ↔ ∃ l : Layout, l.bytes = bytes ∧ l.content = f := by
  constructor
  · intro h
    obtain ⟨⟨header, rest⟩, hheader, hfields⟩ := Option.bind_eq_some_iff.1 h
    obtain ⟨hlen, rfl⟩ := fread_iff.1 hheader
    obtain ⟨fields, data, extra, hlt, rfl⟩ := layout_of_readFields _ _ hfields
    refine ⟨⟨header, fields, data, extra, hlen, hlt⟩, rfl, ?_⟩
    rw [readFields_of data extra hlt, foldl_append] at hfields
    exact Option.some.inj hfields
  · rintro ⟨l, rfl, rfl⟩
    have hheader : fread 13 l.bytes = some (l.header, l.fields.flatMap Field.bytes ++ dataBytes l.data l.extra) :=
      fread_iff.2 ⟨l.header_length, rfl⟩
    refine Option.bind_eq_some_iff.2 ⟨_, hheader, ?_⟩
    rw [readFields_of l.data l.extra l.length_lt, foldl_append]
    rfl

end BitFile
end Fpga
