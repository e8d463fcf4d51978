import CanonicalPath.FS.Archive

/-!
# CentralDirectory — the count of the entries before an archive is opened

`checkZipEntryCount` of `archive.go`: the end record is looked for from the end of the file, and the headers of the
central directory are walked one after the other.  A read or a slice that leaves its bytes ends with an error of its
own, so that it shows that there is none.

* `checkZipEntryCount` : the scan
* `OrdinaryZip` : what a file that passes is made of
* `checkZipEntryCount_sound` : the scan stays in the file, and passes nothing else
-/

namespace CanonicalPath

namespace FS

open Go

namespace Zip

inductive ScanError
  /-- A read or a slice outside of its bytes. -/
  | outOfRange
  /-- `zip.ErrFormat`. -/
  | format
  | refused (error : Error)
  deriving DecidableEq, Repr

def refuse {β : Type} (message : String) : Except ScanError β :=
  .error (.refused { code := .readLimitExceeded, message := message })

/-- `ReadAt` of a buffer of a length. -/
def readAt (file : Bytes) (offset length : Int) : Except ScanError Bytes :=
  if 0 ≤ offset ∧ 0 ≤ length ∧ offset + length ≤ file.length then
    .ok ((file.drop offset.toNat).take length.toNat)
  else
    .error .outOfRange

def slice (bytes : Bytes) (start stop : Nat) : Except ScanError Bytes :=
  if start ≤ stop ∧ stop ≤ bytes.length then .ok ((bytes.drop start).take (stop - start)) else .error .outOfRange

/-- The number of some bytes, the least significant one first. -/
def littleEndian (bytes : Bytes) : Nat :=
  bytes.foldr (fun byte rest => byte.toNat + 256 * rest) 0

/-- The number in a slice of a buffer. -/
def number (bytes : Bytes) (start stop : Nat) : Except ScanError Nat :=
  (slice bytes start stop).map littleEndian

/-! ## The headers -/

/-- The signature of a central header. -/
def centralSignature : Nat :=
  0x02014b50

/-- The number in a slice of a header, whose length is fixed. -/
def headerNumber (header : Bytes) (start stop : Nat) : Nat :=
  littleEndian ((header.drop start).take (stop - start))

/-- The length of a record: of its header, its name, its extra field and its comment. -/
def recordLength (header : Bytes) : Nat :=
  46 + headerNumber header 28 30 + headerNumber header 30 32 + headerNumber header 32 34

theorem recordLength_pos (header : Bytes) : 0 < recordLength header := by
  rw [recordLength]
  omega

/-- The loop over the headers. -/
def countHeaders (file : Bytes) (maxEntries endOffset offset actual : Int) : Except ScanError Int :=
  if offset < endOffset then
    if endOffset - offset < 46 then
      .error .format
    else
      match readAt file offset 46 with
      | .error e => .error e
      | .ok header =>
          if headerNumber header 0 4 ≠ centralSignature then
            .error .format
          else if actual + 1 > maxEntries then
            refuse "ZIP entry count exceeds limit"
          else if (recordLength header : Int) > endOffset - offset then
            .error .format
          else
            countHeaders file maxEntries endOffset (offset + recordLength header) (actual + 1)
  else
    .ok actual
termination_by (endOffset - offset).toNat
decreasing_by
  have hpos := recordLength_pos header
  omega

/-! ## The end record -/

/-- A locator in front of the end record. -/
def checkLocator (file : Bytes) (endOffset : Int) : Except ScanError Unit :=
  if endOffset ≥ 20 then do
    let locator ← readAt file (endOffset - 20) 4
    if littleEndian locator = 0x07064b50 then
      refuse "ZIP64 is not supported by bounded extraction"
    else
      .ok ()
  else
    .ok ()

/-- What is asked of an end record, once it reaches to the end of the file. -/
def checkEndRecord (file tail : Bytes) (start : Int) (i : Nat) (maxEntries : Int) : Except ScanError Unit := do
  let count ← number tail (i + 10) (i + 12)
  let centralSize ← number tail (i + 12) (i + 16)
  let centralOffset ← number tail (i + 16) (i + 20)
  if count = 65535 ∨ (count : Int) > maxEntries ∨ centralSize = 0xffffffff ∨ centralOffset = 0xffffffff then
    refuse "ZIP entry count exceeds limit or uses ZIP64"
  else do
    let endOffset := start + i
    checkLocator file endOffset
    let disks ← number tail (i + 4) (i + 8)
    let onDisk ← number tail (i + 8) (i + 10)
    if disks ≠ 0 ∨ onDisk ≠ count ∨ (centralOffset : Int) + centralSize ≠ endOffset then
      .error .format
    else do
      let actual ← countHeaders file maxEntries endOffset centralOffset 0
      if actual ≠ count then .error .format else .ok ()

/-- The loop over the places of an end record, from the last one. -/
def findEndRecord (file tail : Bytes) (start maxEntries : Int) : Nat → Except ScanError Unit
  | 0 => .error .format
  | i + 1 => do
      let signature ← number tail i (i + 4)
      if signature ≠ 0x06054b50 then
        findEndRecord file tail start maxEntries i
      else do
        let commentLength ← number tail (i + 20) (i + 22)
        -- a signature in a comment, unless what it heads fits
        if i + 22 + commentLength > tail.length then
          findEndRecord file tail start maxEntries i
        else if i + 22 + commentLength ≠ tail.length then
          .error .format
        else
          checkEndRecord file tail start i maxEntries

def checkZipEntryCount (file : Bytes) (size maxEntries : Int) : Except ScanError Unit :=
  if size < 22 then
    .error .format
  else do
    let length := min size (22 + 65535)
    let tail ← readAt file (size - length) length
    findEndRecord file tail (size - length) maxEntries (tail.length + 1 - 22)

/-! ## What passes -/

/-- A record of the central directory. -/
structure CentralRecord (record : Bytes) : Prop where
  header : 46 ≤ record.length
  signature : headerNumber record 0 4 = centralSignature
  length_eq : record.length = recordLength record

/-- A file with one central directory, tiled by its records, and an end record that counts them and reaches to the end
of the file. -/
structure OrdinaryZip (file : Bytes) (maxEntries : Int) (front : Bytes) (records : List Bytes) (last : Bytes) : Prop where
  file_eq : file = front ++ records.flatten ++ last
  central : ∀ record ∈ records, CentralRecord record
  end_header : 22 ≤ last.length
  end_signature : headerNumber last 0 4 = 0x06054b50
  end_length : last.length = 22 + headerNumber last 20 22
  disk_count : headerNumber last 8 10 = records.length
  total_count : headerNumber last 10 12 = records.length
  central_size : headerNumber last 12 16 = records.flatten.length
  central_offset : headerNumber last 16 20 = front.length
  count_le : (records.length : Int) ≤ maxEntries
  count_ne : records.length ≠ 65535
  no_locator : 20 ≤ front.length + records.flatten.length →
    headerNumber file (front.length + records.flatten.length - 20) (front.length + records.flatten.length - 16) ≠ 0x07064b50

/-! ## Numbers -/

variable {file tail bytes : Bytes} {maxEntries : Int}

theorem readAt_eq_ok {offset length : Nat} (h : offset + length ≤ file.length) :
    readAt file offset length = .ok ((file.drop offset).take length) := by
  rw [readAt, if_pos (by omega), Int.toNat_natCast, Int.toNat_natCast]

theorem number_eq_ok {start stop : Nat} (hstart : start ≤ stop) (hstop : stop ≤ bytes.length) :
    number bytes start stop = .ok (headerNumber bytes start stop) := by
  rw [number, slice, if_pos ⟨hstart, hstop⟩]
  rfl

/-- A number is within the part that is looked at. -/
theorem headerNumber_take {start stop length : Nat} (h : stop ≤ length) :
    headerNumber (bytes.take length) start stop = headerNumber bytes start stop := by
  rw [headerNumber, headerNumber, List.drop_take, List.take_take]
  have hmin : min (stop - start) (length - start) = stop - start := by omega
  rw [hmin]

theorem headerNumber_drop (i start stop : Nat) :
    headerNumber (bytes.drop i) start stop = headerNumber bytes (i + start) (i + stop) := by
  have hlength : i + stop - (i + start) = stop - start := by omega
  rw [headerNumber, headerNumber, List.drop_drop, hlength]

theorem recordLength_take {length : Nat} (h : 46 ≤ length) : recordLength (bytes.take length) = recordLength bytes := by
  rw [recordLength, recordLength, headerNumber_take (by omega), headerNumber_take (by omega), headerNumber_take (by omega)]

/-! ## The walk over the headers -/

/-- What a walk can end with: an error that is none of a read, or records that tile what it has walked over. -/
def Walked (file : Bytes) (maxEntries : Int) (offset endOffset : Nat) (actual : Int) (result : Except ScanError Int) : Prop :=
  result ≠ .error .outOfRange ∧
    ∀ total, result = .ok total → ∃ records : List Bytes, (∀ record ∈ records, CentralRecord record) ∧
      (file.drop offset).take (endOffset - offset) = records.flatten ∧ total = actual + records.length ∧
        (records = [] ∨ total ≤ maxEntries)

theorem walked_error {offset endOffset : Nat} {actual : Int} {e : ScanError} (h : e ≠ .outOfRange) :
    Walked file maxEntries offset endOffset actual (.error e) := by
  refine ⟨?_, ?_⟩
  · intro hsame
    exact h (Except.error.inj hsame)
  · intro total htotal
    cases htotal

/-- The bytes of a record that fits in what is left. -/
theorem centralRecord_take {offset : Nat} (hsignature : headerNumber (file.drop offset) 0 4 = centralSignature)
    (hfits : offset + recordLength (file.drop offset) ≤ file.length) :
    CentralRecord ((file.drop offset).take (recordLength (file.drop offset))) := by
  have hheader : 46 ≤ recordLength (file.drop offset) := by
    rw [recordLength]
    omega
  have hlength : ((file.drop offset).take (recordLength (file.drop offset))).length = recordLength (file.drop offset) := by
    rw [List.length_take, List.length_drop]
    omega
  refine ⟨?_, ?_, ?_⟩
  · rw [hlength]
    exact hheader
  · rw [headerNumber_take (Nat.le_trans (by decide) hheader)]
    exact hsignature
  · rw [hlength, recordLength_take hheader]

theorem countHeaders_walked {offset endOffset : Nat} (hend : endOffset ≤ file.length) (hoffset : offset ≤ endOffset)
    (actual : Int) :
    Walked file maxEntries offset endOffset actual (countHeaders file maxEntries endOffset offset actual) := by
  -- each header takes at least its own length of what is left
  induction hleft : endOffset - offset using Nat.strong_induction_on generalizing offset actual with
  | _ left ih =>
    rw [countHeaders]
    by_cases hmore : (offset : Int) < endOffset
    swap
    · have hdone : endOffset - offset = 0 := by omega
      rw [if_neg hmore]
      refine ⟨fun h => (nomatch h), ?_⟩
      intro total htotal
      refine ⟨[], List.forall_mem_nil _, ?_, ?_, .inl rfl⟩
      · rw [hdone, List.take_zero, List.flatten_nil]
      · rw [← Except.ok.inj htotal, List.length_nil]
        omega
    rw [if_pos hmore]
    by_cases hshort : (endOffset : Int) - offset < 46
    · rw [if_pos hshort]
      exact walked_error fun h => nomatch h
    have hread : readAt file offset 46 = .ok ((file.drop offset).take 46) :=
      @readAt_eq_ok file offset 46 (by omega)
    rw [if_neg hshort, hread]
    dsimp only
    rw [headerNumber_take (by decide), recordLength_take (Nat.le_refl 46)]
    by_cases hsignature : headerNumber (file.drop offset) 0 4 ≠ centralSignature
    · rw [if_pos hsignature]
      exact walked_error fun h => nomatch h
    rw [if_neg hsignature]
    by_cases hcount : actual + 1 > maxEntries
    · rw [if_pos hcount]
      exact walked_error fun h => nomatch h
    rw [if_neg hcount]
    by_cases hlong : (recordLength (file.drop offset) : Int) > endOffset - offset
    · rw [if_pos hlong]
      exact walked_error fun h => nomatch h
    rw [if_neg hlong]
    -- the header is a record, and the walk goes on behind it
    have hpos := recordLength_pos (file.drop offset)
    have hnext : offset + recordLength (file.drop offset) ≤ endOffset := by omega
    obtain ⟨hrange, hrecords⟩ := ih (endOffset - (offset + recordLength (file.drop offset))) (by omega) hnext (actual + 1) rfl
    rw [Int.natCast_add] at hrange hrecords
    refine ⟨hrange, ?_⟩
    intro total htotal
    obtain ⟨records, hcentral, htile, hnumber, hmax⟩ := hrecords total htotal
    refine ⟨(file.drop offset).take (recordLength (file.drop offset)) :: records, ?_, ?_, ?_, .inr ?_⟩
    · rw [List.forall_mem_cons]
      exact ⟨centralRecord_take (Decidable.not_not.1 hsignature) (by omega), hcentral⟩
    · have hsum : endOffset - offset =
          recordLength (file.drop offset) + (endOffset - (offset + recordLength (file.drop offset))) := by omega
      rw [hsum, List.take_add, List.drop_drop, htile, List.flatten_cons]
    · rw [hnumber, List.length_cons]
      omega
    · rcases hmax with hnil | hle
      · rw [hnil, List.length_nil] at hnumber
        omega
      · exact hle

/-! ## The scan -/

/-- The scan reads nothing outside of the file, and lets ordinary files pass only. -/
def Sound (file : Bytes) (maxEntries : Int) (result : Except ScanError Unit) : Prop :=
  result ≠ .error .outOfRange ∧
    (result = .ok () → ∃ front records last, OrdinaryZip file maxEntries front records last)

theorem sound_error {e : ScanError} (h : e ≠ .outOfRange) : Sound file maxEntries (.error e) := by
  refine ⟨?_, ?_⟩
  · intro hsame
    exact h (Except.error.inj hsame)
  · intro hok
    cases hok

/-- The locator is refused, or there is none. -/
theorem checkLocator_cases {endOffset : Nat} (hend : endOffset ≤ file.length) :
    (∃ error, checkLocator file endOffset = .error (.refused error)) ∨
      checkLocator file endOffset = .ok () ∧
        (20 ≤ endOffset → headerNumber file (endOffset - 20) (endOffset - 16) ≠ 0x07064b50) := by
  rw [checkLocator]
  by_cases hroom : (endOffset : Int) ≥ 20
  swap
  · rw [if_neg hroom]
    exact .inr ⟨rfl, fun h => absurd (Int.ofNat_le.2 h) hroom⟩
  have hsub : (endOffset : Int) - 20 = (endOffset - 20 : Nat) := by omega
  have hread : readAt file ((endOffset - 20 : Nat) : Int) 4 = .ok ((file.drop (endOffset - 20)).take 4) :=
    @readAt_eq_ok file (endOffset - 20) 4 (by omega)
  have hlocator : littleEndian ((file.drop (endOffset - 20)).take 4) =
      headerNumber file (endOffset - 20) (endOffset - 16) := by
    have hlength : endOffset - 16 - (endOffset - 20) = 4 := by omega
    rw [headerNumber, hlength]
  rw [if_pos hroom, hsub, hread, Outcome.ok_bind, hlocator]
  by_cases hfound : headerNumber file (endOffset - 20) (endOffset - 16) = 0x07064b50
  · rw [if_pos hfound]
    exact .inl ⟨_, rfl⟩
  · rw [if_neg hfound]
    exact .inr ⟨rfl, fun _ => hfound⟩

/-- A directory that is walked to its end, and its end record. -/
theorem ordinaryZip_of_walked {start i centralOffset : Nat} {records : List Bytes}
    (hcentral : ∀ record ∈ records, CentralRecord record) (hoffset : centralOffset ≤ start + i)
    (htile : (file.drop centralOffset).take (start + i - centralOffset) = records.flatten)
    (htail : tail = file.drop start) (hheader : i + 22 ≤ tail.length)
    (hsignature : headerNumber tail i (i + 4) = 0x06054b50)
    (hcomment : i + 22 + headerNumber tail (i + 20) (i + 22) = tail.length)
    (hdisk : headerNumber tail (i + 8) (i + 10) = records.length)
    (htotal : headerNumber tail (i + 10) (i + 12) = records.length)
    (hsize : headerNumber tail (i + 12) (i + 16) + centralOffset = start + i)
    (hcentralOffset : headerNumber tail (i + 16) (i + 20) = centralOffset)
    (hcount : (records.length : Int) ≤ maxEntries) (hne : records.length ≠ 65535)
    (hlocator : 20 ≤ start + i → headerNumber file (start + i - 20) (start + i - 16) ≠ 0x07064b50) :
    OrdinaryZip file maxEntries (file.take centralOffset) records (tail.drop i) := by
  have hlength : tail.length = file.length - start := by
    rw [htail, List.length_drop]
  have hfront : (file.take centralOffset).length = centralOffset := by
    rw [List.length_take]
    omega
  have hflatten : records.flatten.length = start + i - centralOffset := by
    rw [← htile, List.length_take, List.length_drop]
    omega
  have hlast : (tail.drop i).length = tail.length - i := List.length_drop
  -- the fields of the end record are read from the tail, at its place in it
  have hnumber : ∀ first stop, headerNumber (tail.drop i) first stop = headerNumber tail (i + first) (i + stop) :=
    fun first stop => headerNumber_drop i first stop
  have hend : (file.take centralOffset).length + records.flatten.length = start + i := by omega
  refine ⟨?_, hcentral, ?_, ?_, ?_, ?_, ?_, ?_, ?_, hcount, hne, ?_⟩
  · -- front, directory and end record are the whole file
    have hrest : (file.drop centralOffset).drop (start + i - centralOffset) = tail.drop i := by
      have hsum : centralOffset + (start + i - centralOffset) = start + i := by omega
      rw [htail, List.drop_drop, List.drop_drop, hsum]
    have hjoined : records.flatten ++ tail.drop i = file.drop centralOffset := by
      rw [← htile, ← hrest, List.take_append_drop]
    calc
      file = file.take centralOffset ++ file.drop centralOffset := (List.take_append_drop _ _).symm
      _ = file.take centralOffset ++ (records.flatten ++ tail.drop i) := by rw [hjoined]
      _ = file.take centralOffset ++ records.flatten ++ tail.drop i := (List.append_assoc _ _ _).symm
  · omega
  · rw [hnumber]
    exact hsignature
  · rw [hnumber]
    omega
  · rw [hnumber]
    exact hdisk
  · rw [hnumber]
    exact htotal
  · rw [hnumber]
    omega
  · rw [hnumber, hfront]
    exact hcentralOffset
  · rw [hend]
    exact hlocator

theorem checkEndRecord_sound {start i : Nat} (htail : tail = file.drop start) (hheader : i + 22 ≤ tail.length)
    (hsignature : headerNumber tail i (i + 4) = 0x06054b50)
    (hcomment : i + 22 + headerNumber tail (i + 20) (i + 22) = tail.length) :
    Sound file maxEntries (checkEndRecord file tail start i maxEntries) := by
  have hlength : tail.length = file.length - start := by
    rw [htail, List.length_drop]
  have hread : ∀ {first stop}, first ≤ stop → stop ≤ i + 22 → number tail first stop = .ok (headerNumber tail first stop) := by
    intro first stop hfirst hstop
    exact number_eq_ok hfirst (Nat.le_trans hstop hheader)
  rw [checkEndRecord, hread (by omega) (by omega), Outcome.ok_bind, hread (by omega) (by omega), Outcome.ok_bind,
    hread (by omega) (by omega), Outcome.ok_bind]
  split
  · exact sound_error fun h => nomatch h
  rename_i haccepted
  -- the number is not the one that stands for ZIP64, and within the limit
  simp only [not_or] at haccepted
  obtain ⟨hne, hcount, -, -⟩ := haccepted
  have hend : (start : Int) + i = (start + i : Nat) := (Int.natCast_add start i).symm
  dsimp only
  rw [hend]
  rcases @checkLocator_cases file (start + i) (by omega) with ⟨error, hrefused⟩ | ⟨hpass, hlocator⟩
  · rw [hrefused]
    exact sound_error fun h => nomatch h
  rw [hpass, Outcome.ok_bind, hread (by omega) (by omega), Outcome.ok_bind, hread (by omega) (by omega), Outcome.ok_bind]
  split
  · exact sound_error fun h => nomatch h
  rename_i hexact
  -- one disk, and a directory that ends where the record begins
  simp only [not_or, Decidable.not_not] at hexact
  obtain ⟨-, hdisk, hsum⟩ := hexact
  have hoffset : headerNumber tail (i + 16) (i + 20) ≤ start + i := by omega
  obtain ⟨hrange, hrecords⟩ := @countHeaders_walked file maxEntries _ _ (by omega) hoffset 0
  cases hwalk : countHeaders file maxEntries (start + i : Nat) (headerNumber tail (i + 16) (i + 20)) 0 with
  | error e =>
      rw [hwalk] at hrange
      exact sound_error fun h => hrange (congrArg Except.error h)
  | ok total =>
      obtain ⟨records, hcentral, htile, htotal, -⟩ := hrecords total hwalk
      rw [Outcome.ok_bind]
      by_cases hsame : total ≠ headerNumber tail (i + 10) (i + 12)
      · rw [if_pos hsame]
        exact sound_error fun h => nomatch h
      · rw [if_neg hsame]
        refine ⟨fun h => (nomatch h), fun _ => ?_⟩
        have hlengths : headerNumber tail (i + 10) (i + 12) = records.length := by omega
        exact ⟨_, records, _, ordinaryZip_of_walked hcentral hoffset htile htail hheader hsignature hcomment
          (hdisk.trans hlengths) hlengths (by omega) rfl (by omega) (by omega) hlocator⟩

theorem findEndRecord_sound {start : Nat} (htail : tail = file.drop start) {places : Nat}
    (hplaces : places + 21 ≤ tail.length) : Sound file maxEntries (findEndRecord file tail start maxEntries places) := by
  induction places with
  | zero =>
      exact sound_error fun h => nomatch h
  | succ i ih =>
      have hread : ∀ {first stop}, first ≤ stop → stop ≤ i + 22 →
          number tail first stop = .ok (headerNumber tail first stop) := by
        intro first stop hfirst hstop
        exact number_eq_ok hfirst (by omega)
      rw [findEndRecord, hread (by omega) (by omega), Outcome.ok_bind]
      -- no record here, or one whose comment leaves the file: the search goes on in front
      by_cases hsignature : headerNumber tail i (i + 4) ≠ 0x06054b50
      · rw [if_pos hsignature]
        exact ih (by omega)
      rw [if_neg hsignature, hread (by omega) (by omega), Outcome.ok_bind]
      by_cases hlong : i + 22 + headerNumber tail (i + 20) (i + 22) > tail.length
      · rw [if_pos hlong]
        exact ih (by omega)
      rw [if_neg hlong]
      by_cases hexact : i + 22 + headerNumber tail (i + 20) (i + 22) ≠ tail.length
      · rw [if_pos hexact]
        exact sound_error fun h => nomatch h
      · rw [if_neg hexact]
        exact checkEndRecord_sound htail (by omega) (Decidable.not_not.1 hsignature) (Decidable.not_not.1 hexact)

/-- The scan of a whole file: no read and no slice leaves its bytes, and a file that passes is one central directory,
tiled by its records, in front of an end record that counts them, reaches to the end of the file and has no locator. -/
theorem checkZipEntryCount_sound (file : Bytes) (maxEntries : Int) :
    checkZipEntryCount file file.length maxEntries ≠ .error .outOfRange ∧
      (checkZipEntryCount file file.length maxEntries = .ok () →
        ∃ front records last, OrdinaryZip file maxEntries front records last) := by
  change Sound file maxEntries (checkZipEntryCount file file.length maxEntries)
  rw [checkZipEntryCount]
  by_cases hsmall : (file.length : Int) < 22
  · rw [if_pos hsmall]
    exact sound_error fun h => nomatch h
  rw [if_neg hsmall]
  have hlength : min (file.length : Int) (22 + 65535) = (min file.length 65557 : Nat) := by omega
  have hstart : (file.length : Int) - (min file.length 65557 : Nat) = (file.length - min file.length 65557 : Nat) := by omega
  have htail : ((file.drop (file.length - min file.length 65557)).take (min file.length 65557)) =
      file.drop (file.length - min file.length 65557) := by
    apply List.take_of_length_le
    rw [List.length_drop]
    omega
  -- the tail that is read is the end of the file
  have hread := @readAt_eq_ok file (file.length - min file.length 65557) (min file.length 65557) (by omega)
  dsimp only
  rw [hlength, hstart, hread, htail, Outcome.ok_bind]
  refine findEndRecord_sound rfl ?_
  rw [List.length_drop]
  omega

end Zip

end FS

end CanonicalPath
