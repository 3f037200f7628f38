import Mathlib.Data.List.Basic
/-!
# BitFile — `devices/xc3sprog/bitfile.cpp`, reading a `.bit` file

`BitFile::readFile` with the style `STYLE_BIT` on the bytes of a regular file.  A short read sets the end-of-file indicator,
and wherever it comes the function ends in its `catch` block, so a reader here is given up where its bytes run out.  The
buffer is granted; where it is not, the result is the same failure.
-/
namespace Fpga

/-- `bitRevTable`: the bits of a byte in the opposite order. -/
def bitRev (b : UInt8) : UInt8 :=
  let nibbles := (b &&& 0x0f) <<< 4 ||| b >>> 4
  let pairs := (nibbles &&& 0x33) <<< 2 ||| (nibbles >>> 2) &&& 0x33
  (pairs &&& 0x55) <<< 1 ||| (pairs >>> 1) &&& 0x55

example : [0x00, 0x01, 0x02, 0x99, 0xaa, 0x6e].map bitRev = [0x00, 0x80, 0x40, 0x99, 0x55, 0x76] := by decide

/-- What is read of a file: its text fields, and its data with the bits of each byte reversed. -/
structure BitFile where
  ncdFilename : List UInt8
  partName : List UInt8
  date : List UInt8
  dtime : List UInt8
  buffer : List UInt8
  deriving DecidableEq, Repr

namespace BitFile

/-- The field with this key, `a` to `d`, goes on with these bytes; an unknown field is ignored. -/
def append (f : BitFile) (key : UInt8) (field : List UInt8) : BitFile :=
  if key = 0x61 then { f with ncdFilename := f.ncdFilename ++ field }
  else if key = 0x62 then { f with partName := f.partName ++ field }
  else if key = 0x63 then { f with date := f.date ++ field }
  else if key = 0x64 then { f with dtime := f.dtime ++ field }
  else f

/-- `fread` of so many bytes, with what is left of the file; none where the file ends before. -/
def fread (n : Nat) (bytes : List UInt8) : Option (List UInt8 × List UInt8) :=
  if n ≤ bytes.length then some (bytes.take n, bytes.drop n) else none

/-- `BitFile::readField`: a length of two bytes and as many bytes. -/
def readField : List UInt8 → Option (List UInt8 × List UInt8)
  | hi :: lo :: bytes => fread (hi.toNat * 256 + lo.toNat) bytes
  | _ => none

/-- `BitFile::processData`: a length of four bytes and as many bytes; extra data at the end of the file is ignored. -/
def processData : List UInt8 → Option (List UInt8)
  | a :: b :: c :: d :: bytes =>
    (fread (((a.toNat * 256 + b.toNat) * 256 + c.toNat) * 256 + d.toNat) bytes).map (fun x => x.1.map bitRev)
  | _ => none

theorem readField_shortens {bytes field rest : List UInt8} (h : readField bytes = some (field, rest)) :
    rest.length < bytes.length := by
  unfold readField at h
  split at h
  · unfold fread at h
    split at h
    · cases h
      simp only [List.length_drop, List.length_cons]
      omega
    · cases h
  · cases h

/-- The loop of `readBitfile`: fields up to the one with key `e`, which holds the data. -/
def readFields (f : BitFile) (bytes : List UInt8) : Option BitFile :=
  match bytes with
  | [] => none
  | key :: bytes =>
    if key = 0x65 then
      (processData bytes).map (fun buffer => { f with buffer := buffer })
    else
      match _h : readField bytes with
      | none => none
      | some (field, rest) => readFields (f.append key field) rest
termination_by bytes.length
decreasing_by
  have := readField_shortens _h
  simp only [List.length_cons]
  omega

/-- `BitFile::readBitfile`: a header of 13 bytes, then the fields. -/
def readBitfile (bytes : List UInt8) : Option BitFile :=
  (fread 13 bytes).bind (fun x => readFields ⟨[], [], [], [], []⟩ x.2)

end BitFile
end Fpga
