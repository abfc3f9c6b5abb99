import Mathlib
import IconForge.Toolkit.Standard

set_option autoImplicit false

/-! # Unpacking gzip files

The tools at hand keep the content of a gzip file in stored pieces. A reader of such files gives back
whatever was packed (`Gzip.decompress_compress`), so a report that was packed in this way holds its
text (`Tools.decompress_of_holds`). -/

namespace IconForge.Compression

/-- The number that bytes stand for, from the lowest one on. -/
def lowNumber : List UInt8 → Nat
  | [] => 0
  | b :: bytes => b.toNat + 256 * lowNumber bytes

theorem lowNumber_lowBytes {count n : Nat} (h : n < 256 ^ count) :
    lowNumber (lowBytes count n) = n := by
  induction count generalizing n with
  | zero =>
      rw [pow_zero, Nat.lt_one_iff] at h
      rw [h]
      rfl
  | succ count ih =>
      have hrest : n / 256 < 256 ^ count := Nat.div_lt_of_lt_mul (by rwa [← pow_succ'])
      have hbyte : n.toUInt8.toNat = n % 256 := UInt8.toNat_ofNat'
      rw [lowBytes, lowNumber, ih hrest, hbyte, Nat.mod_add_div]

namespace Gzip

/-! ## Stored pieces -/

/-- The content of stored pieces up to the last one, and the bytes behind it. The length of a piece
stands in front of it, once as it is and once subtracted from the most that it could be. -/
def inflate : List UInt8 → Option (List UInt8 × List UInt8)
  | last :: a :: b :: c :: d :: rest =>
    let length := lowNumber [a, b]
    if length + lowNumber [c, d] = maxStored ∧ length ≤ rest.length then
      if last = 1 then some (rest.take length, rest.drop length)
      else (inflate (rest.drop length)).map fun (content, behind) =>
        (rest.take length ++ content, behind)
    else none
  | _ => none
termination_by bytes => bytes.length
decreasing_by simp only [List.length_drop, List.length_cons]; omega

theorem inflate_storedPiece (last : Bool) {bytes : List UInt8} (h : bytes.length ≤ maxStored)
    (rest : List UInt8) : inflate (storedPiece last bytes ++ rest) =
      if last then some (bytes, rest)
      else (inflate rest).map fun (content, behind) => (bytes ++ content, behind) := by
  have hlength : lowNumber (lowBytes 2 bytes.length) = bytes.length :=
    lowNumber_lowBytes (h.trans_lt (by decide))
  have hcheck : lowNumber (lowBytes 2 (0xffff - bytes.length)) = 0xffff - bytes.length :=
    lowNumber_lowBytes ((Nat.sub_le _ _).trans_lt (by decide))
  simp only [lowBytes] at hlength hcheck
  simp only [storedPiece, lowBytes, List.cons_append, List.nil_append]
  rw [inflate]
  simp only [hlength, hcheck]
  have hfits : bytes.length + (0xffff - bytes.length) = maxStored ∧
      bytes.length ≤ (bytes ++ rest).length :=
    ⟨Nat.add_sub_of_le h, by simp⟩
  rw [if_pos hfits, List.take_left, List.drop_left]
  cases last with
  | false => rfl
  | true => rfl

/-- **Bytes in stored pieces are read back**, whatever stands behind them. -/
theorem inflate_deflated (bytes rest : List UInt8) :
    inflate (deflated bytes ++ rest) = some (bytes, rest) := by
  fun_induction deflated bytes with
  | case1 bytes h ih =>
      rw [List.append_assoc, inflate_storedPiece false (List.length_take_le _ _), ih]
      simp
  | case2 bytes h => rw [inflate_storedPiece true (Nat.le_of_not_lt h), if_pos rfl]

/-! ## Files -/

/-- The content of a gzip file with such a header, if its checksum and its size are right. -/
def decompress (file : List UInt8) : Option (List UInt8) :=
  if header <+: file then
    (inflate (file.drop header.length)).bind fun (content, trailer) =>
      if trailer = lowBytes 4 (crc32 content).toNat ++ lowBytes 4 content.length then some content
      else none
  else none

/-- **What was compressed is decompressed.** -/
theorem decompress_compress (bytes : List UInt8) : decompress (compress bytes) = some bytes := by
  rw [decompress, compress, List.append_assoc, List.append_assoc,
    if_pos (List.prefix_append header _), List.drop_left, inflate_deflated, Option.bind_some]
  exact if_pos rfl

end Gzip

end IconForge.Compression

namespace IconForge.Report.Tools

open Compression

theorem undoneBy_decompress : standard.UndoneBy (.compressed .gzip) Gzip.decompress :=
  fun _ bytes => Gzip.decompress_compress bytes

/-- A report that the tools at hand compress as a gzip file is decompressed to its bytes. -/
theorem decompress_of_holds {path : Path} {bytes contents : List UInt8}
    (hpacking : Packing.ofPath path = .compressed .gzip)
    (h : standard.Holds path bytes contents) : Gzip.decompress contents = some bytes := by
  rw [Holds, hpacking] at h
  exact h _ undoneBy_decompress

example : Packing.ofPath (Path.ofText "r.csv.gz") = .compressed .gzip := by
  decide

end IconForge.Report.Tools
