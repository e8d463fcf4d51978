import CanonicalPath.FS.Archive
import Mathlib.Algebra.Ring.Int.Defs
import Mathlib.Algebra.Ring.Nat

/-!
# Read — bounded reads of the filesystem layer

`ReadFile` of `read.go` and the read of the archive in `archive.go`, on the content of a regular file that is opened
and read without an error.  Both ask a limited reader for one byte more than they accept, so that a content over the
limit shows; the limit is a 64-bit number, and one more than the largest of them is the smallest.

* `readFile_eq` : below the largest limit a read is exact
* `readFile_maxValue` : at the largest limit it finds nothing
-/

namespace CanonicalPath

namespace FS

open CodeUnit Go

/-- `io.ReadAll` of an `io.LimitReader`: a limit of at most zero yields the end at once. -/
def readLimited (content : Bytes) (limit : Int64) : Bytes :=
  if limit ≤ 0 then [] else content.take limit.toNatClampNeg

/-- `Root.ReadFile`, behind the opening of the file. -/
def readFile (content : Bytes) (maxBytes : Int64) : Except Error Bytes :=
  if maxBytes > 0 then
    -- one byte over the limit shows that there is more
    let data := readLimited content (maxBytes + 1)
    if Int64.ofNat data.length > maxBytes then
      newError .readLimitExceeded "file exceeds maxBytes"
    else
      .ok data
  else
    .ok content

/-- The read of the archive in `ExtractZipWithLimits`, behind the opening of its file. -/
def readArchive (content : Bytes) (maxArchiveBytes : Int64) : Except Error Bytes :=
  if Int64.ofNat content.length > maxArchiveBytes then
    newError .readLimitExceeded "ZIP compressed input exceeds limit or is not a regular file"
  else
    let archive := readLimited content (maxArchiveBytes + 1)
    if Int64.ofNat archive.length > maxArchiveBytes then
      newError .readLimitExceeded "ZIP compressed input exceeds limit"
    else
      .ok archive

/-! ## One byte over the limit -/

variable {content : Bytes} {limit : Int64}

/-- No sum wraps below the largest limit. -/
theorem toInt_succ (h : limit ≠ Int64.maxValue) : (limit + 1).toInt = limit.toInt + 1 := by
  have hmax : limit.toInt ≠ Int64.maxValue.toInt := fun hsame => h (Int64.toInt_inj.1 hsame)
  have hupper := limit.toInt_lt
  have hlower := limit.le_toInt
  rw [Int64.toInt_maxValue] at hmax
  rw [Int64.toInt_add, Int64.toInt_one]
  apply Int.bmod_eq_of_le <;> omega

theorem readLimited_succ (hlimit : 0 ≤ limit) (h : limit ≠ Int64.maxValue) :
    readLimited content (limit + 1) = content.take (limit.toInt.toNat + 1) := by
  have hnonneg : 0 ≤ limit.toInt := Int64.le_iff_toInt_le.1 hlimit
  have hsucc := toInt_succ h
  have hpos : ¬limit + 1 ≤ 0 := by
    rw [Int64.le_iff_toInt_le, hsucc, Int64.toInt_zero]
    omega
  have htake : (limit + 1).toNatClampNeg = limit.toInt.toNat + 1 := by
    rw [← Int64.toNat_toInt, hsucc]
    omega
  rw [readLimited, if_neg hpos, htake]

theorem readLimited_succ_maxValue : readLimited content (Int64.maxValue + 1) = [] := by
  rw [readLimited, if_pos (by decide)]

/-- A length that fits is compared as it is. -/
theorem ofNat_gt_iff {n : Nat} (h : n < 2 ^ 63) : Int64.ofNat n > limit ↔ limit.toInt < n := by
  rw [gt_iff_lt, Int64.lt_iff_toInt_lt, Int64.toInt_ofNat_of_lt h]

/-- What is read up to one byte over the limit is all, or more than the limit. -/
theorem take_succ_gt_iff (hlimit : 0 ≤ limit) (h : limit ≠ Int64.maxValue) :
    Int64.ofNat (content.take (limit.toInt.toNat + 1)).length > limit ↔ limit.toInt < content.length := by
  have hnonneg : 0 ≤ limit.toInt := Int64.le_iff_toInt_le.1 hlimit
  have hupper := limit.toInt_lt
  have hmax : limit.toInt ≠ Int64.maxValue.toInt := fun hsame => h (Int64.toInt_inj.1 hsame)
  rw [Int64.toInt_maxValue] at hmax
  have hlength : (content.take (limit.toInt.toNat + 1)).length < 2 ^ 63 := by
    rw [List.length_take]
    omega
  rw [ofNat_gt_iff hlength, List.length_take]
  omega

/-! ## Files -/

/-- A read returns the whole content, or says that it is over the limit. -/
def ReadsExactly (content : Bytes) (maxBytes : Int64) : Prop :=
  readFile content maxBytes =
    if (content.length : Int) ≤ maxBytes.toInt then .ok content
    else newError .readLimitExceeded "file exceeds maxBytes"

theorem readFile_eq (hlimit : 0 < limit) (h : limit ≠ Int64.maxValue) : ReadsExactly content limit := by
  have hnonneg : 0 ≤ limit := Int64.le_of_lt hlimit
  rw [ReadsExactly, readFile, if_pos hlimit]
  simp only [readLimited_succ hnonneg h, take_succ_gt_iff hnonneg h, ← Int.not_le]
  split_ifs with hle
  · have hshort : content.length ≤ limit.toInt.toNat + 1 := by
      omega
    rw [List.take_of_length_le hshort]
  · rfl

/-- The sum of the largest limit and one is negative, and the reader is at its end. -/
theorem readFile_maxValue (content : Bytes) : readFile content Int64.maxValue = .ok [] := by
  rw [readFile, if_pos (by decide)]
  simp only [readLimited_succ_maxValue]
  rfl

theorem readsExactly_iff (hlimit : 0 < limit) : ReadsExactly content limit ↔ limit ≠ Int64.maxValue ∨ content = [] := by
  -- at the largest limit only nothing can be read exactly
  by_cases h : limit = Int64.maxValue
  · rw [ReadsExactly, h, readFile_maxValue]
    constructor
    · intro hread
      right
      split_ifs at hread
      · exact (Except.ok.inj hread).symm
      · cases hread
    · intro hempty
      rw [hempty.resolve_left fun hne => hne rfl]
      rfl
  · exact iff_of_true (readFile_eq hlimit h) (Or.inl h)

/-! ## Archives -/

/-- An archive of at most the limit is read as a whole, but at the largest limit. -/
theorem readArchive_eq_ok_iff (hlimit : 0 ≤ limit) (hlength : (content.length : Int) ≤ limit.toInt) :
    readArchive content limit = .ok content ↔ limit ≠ Int64.maxValue ∨ content = [] := by
  have hupper := limit.toInt_lt
  have hsize : ¬Int64.ofNat content.length > limit := by
    rw [ofNat_gt_iff (by omega)]
    omega
  rw [readArchive, if_neg hsize]
  by_cases h : limit = Int64.maxValue
  · rw [h]
    simp only [readLimited_succ_maxValue]
    constructor
    · intro hread
      exact Or.inr (Except.ok.inj hread).symm
    · intro hempty
      rw [hempty.resolve_left fun hne => hne rfl]
      rfl
  · have hnot : ¬limit.toInt < content.length := Int.not_lt.2 hlength
    simp only [readLimited_succ hlimit h, take_succ_gt_iff hlimit h, if_neg hnot]
    have hshort : content.length ≤ limit.toInt.toNat + 1 := by
      omega
    rw [List.take_of_length_le hshort]
    exact iff_of_true rfl (Or.inl h)

end FS

end CanonicalPath
