import CanonicalPath.FS.Read

/-!
# Read file — the limits of a read request

`server.go` of the Go daemon, as far as it chooses the limit of a read: `normalizeLimits` on the options of the
server, `readLimit` on those of a request, and `handleReadFile` up to the writing of its response.

* `bounded_reads_exact_iff` : the three layers of limits let through one value at which a read is not exact
-/

namespace CanonicalPath

namespace Daemon

namespace Reads

open FS (Error ZipLimits defaultZipLimits readFile readArchive ReadsExactly)

open Go

open Outcome

/-! ## Limits -/

def defaultMaxRequestBytes : Int64 := 1048576

/-- `DefaultReadBytes` -/
def defaultReadBytes : Int64 := 1048576

def defaultMaxReadBytes : Int64 := 16777216

def defaultMaxResponseBytes : Int64 := 25165824

structure ServerOptions where
  maxRequestBytes : Int64 := 0
  defaultReadBytes : Int64 := 0
  maxReadBytes : Int64 := 0
  maxResponseBytes : Int64 := 0

structure ServerLimits where
  maxRequestBytes : Int64
  defaultReadBytes : Int64
  maxReadBytes : Int64
  maxResponseBytes : Int64

/-- A positive option replaces its default. -/
def orDefault (option default : Int64) : Int64 :=
  if option > 0 then option else default

def normalizeLimits (options : ServerOptions) : Except String ServerLimits :=
  if options.maxRequestBytes < 0 ∨ options.defaultReadBytes < 0 ∨ options.maxReadBytes < 0 ∨
      options.maxResponseBytes < 0 then
    .error "canonicalfsrpc: limit values must be non-negative"
  else
    let limits : ServerLimits := {
      maxRequestBytes := orDefault options.maxRequestBytes defaultMaxRequestBytes
      defaultReadBytes := orDefault options.defaultReadBytes Reads.defaultReadBytes
      maxReadBytes := orDefault options.maxReadBytes defaultMaxReadBytes
      maxResponseBytes := orDefault options.maxResponseBytes defaultMaxResponseBytes }
    if limits.maxRequestBytes ≤ 0 then
      .error "canonicalfsrpc: max request bytes must be positive"
    else if limits.defaultReadBytes ≤ 0 then
      .error "canonicalfsrpc: default read bytes must be positive"
    else if limits.maxReadBytes < limits.defaultReadBytes then
      .error "canonicalfsrpc: max read bytes must be greater than or equal to default read bytes"
    else if limits.maxResponseBytes ≤ 0 then
      .error "canonicalfsrpc: max response bytes must be positive"
    else
      .ok limits

def readLimit (s : ServerLimits) (requested : Int64) : Except String Int64 :=
  if requested < 0 then
    .error "max_bytes must be non-negative"
  else if requested = 0 then
    .ok s.defaultReadBytes
  else if requested > s.maxReadBytes then
    .error ("max_bytes exceeds server hard cap " ++ toString s.maxReadBytes)
  else
    .ok requested

/-- The bytes of the response of `handleReadFile`, on the content of the requested file. -/
def handleReadFile (s : ServerLimits) (content : Bytes) (requested : Int64) : Except Error Bytes :=
  match readLimit s requested with
  | .error message => FS.newError .readLimitExceeded message
  | .ok maxBytes => readFile content maxBytes

/-! ## The limit of a request -/

theorem normalizeLimits_eq_ok {options : ServerOptions} {limits : ServerLimits}
    (h : normalizeLimits options = .ok limits) :
    limits.defaultReadBytes = orDefault options.defaultReadBytes Reads.defaultReadBytes ∧
      0 < limits.defaultReadBytes := by
  rw [normalizeLimits] at h
  simp only [ite_error_eq_ok_iff, not_or, Int64.not_le] at h
  obtain ⟨-, -, hread, -, -, hlimits⟩ := h
  cases hlimits
  exact ⟨rfl, hread⟩

/-- The limit that a request reads with, and what it is. -/
theorem readLimit_eq_ok {s : ServerLimits} {requested maxBytes : Int64} (hdefault : 0 < s.defaultReadBytes)
    (h : readLimit s requested = .ok maxBytes) :
    0 < maxBytes ∧ maxBytes = if requested = 0 then s.defaultReadBytes else requested := by
  rw [readLimit, ite_error_eq_ok_iff, Int64.not_lt] at h
  obtain ⟨hnonneg, h⟩ := h
  split_ifs at h ⊢ with hzero hcap
  · cases h
    exact ⟨hdefault, rfl⟩
  · cases h
    refine ⟨?_, rfl⟩
    rw [Int64.le_iff_toInt_le, Int64.toInt_zero] at hnonneg
    rw [Int64.lt_iff_toInt_lt, Int64.toInt_zero]
    have hne : requested.toInt ≠ 0 := fun hsame => hzero (Int64.toInt_inj.1 (hsame.trans Int64.toInt_zero.symm))
    omega

/-- A request asks for the largest limit, or asks for none where the server has it as its default. -/
def AsksLargest (options : ServerOptions) (requested : Int64) : Prop :=
  requested = Int64.maxValue ∨ (requested = 0 ∧ options.defaultReadBytes = Int64.maxValue)

theorem asksLargest_iff {options : ServerOptions} {limits : ServerLimits} {requested maxBytes : Int64}
    (hlimits : normalizeLimits options = .ok limits) (h : readLimit limits requested = .ok maxBytes) :
    maxBytes = Int64.maxValue ↔ AsksLargest options requested := by
  obtain ⟨hdefault, hpos⟩ := normalizeLimits_eq_ok hlimits
  obtain ⟨-, hlimit⟩ := readLimit_eq_ok hpos h
  rw [hlimit, AsksLargest]
  -- a request without a limit is given the server's, which may be the option or the constant
  split_ifs with hzero
  · rw [hdefault, orDefault, hzero]
    split_ifs with hoption
    · simp only [true_and]
      exact ⟨Or.inr, fun h => h.resolve_left (by decide)⟩
    · constructor
      · intro hsame
        exact absurd hsame (by decide)
      · rintro (hsame | ⟨-, hsame⟩)
        · exact absurd hsame (by decide)
        · rw [hsame] at hoption
          exact absurd (by decide) hoption
  · constructor
    · exact Or.inl
    · exact fun h => h.resolve_right fun hboth => hzero hboth.1

/-- The bytes of a response are those of the file, but at the largest limit. -/
theorem handleReadFile_exact_iff {options : ServerOptions} {limits : ServerLimits} {requested maxBytes : Int64}
    {content : Bytes} (hlimits : normalizeLimits options = .ok limits) (h : readLimit limits requested = .ok maxBytes) :
    (∀ data, handleReadFile limits content requested = .ok data → data = content) ↔
      ¬AsksLargest options requested ∨ content = [] := by
  have hpos := (readLimit_eq_ok (normalizeLimits_eq_ok hlimits).2 h).1
  have hread : handleReadFile limits content requested = readFile content maxBytes := by
    rw [handleReadFile, h]
  rw [hread, ← asksLargest_iff hlimits h]
  constructor
  · intro hexact
    by_cases hmax : maxBytes = Int64.maxValue
    · rw [hmax] at hexact
      exact Or.inr (hexact [] (FS.readFile_maxValue content)).symm
    · exact Or.inl hmax
  · intro hwhere data hdata
    have hexactly : ReadsExactly content maxBytes := (FS.readsExactly_iff hpos).2 hwhere
    rw [hexactly] at hdata
    split_ifs at hdata
    · exact (Except.ok.inj hdata).symm
    · cases hdata

/-! ## Three layers -/

/-- The limit of an archive, zero meaning the default. -/
theorem maxArchiveBytes_of_defaultZipLimits {l limits : ZipLimits} (h : defaultZipLimits l = .ok limits) :
    0 ≤ l.maxArchiveBytes ∧ limits.maxArchiveBytes = FS.orDefault l.maxArchiveBytes (64 * 1048576) := by
  rw [defaultZipLimits] at h
  simp only [FS.newError, ite_error_eq_ok_iff, not_or, Int.not_lt] at h
  obtain ⟨⟨hnonneg, -⟩, hlimits⟩ := h
  cases hlimits
  exact ⟨hnonneg, rfl⟩

/-- The archive of an extraction is read as a whole, but at the largest limit. -/
theorem readArchive_exact_iff {l limits : ZipLimits} {content : Bytes} (hlimits : defaultZipLimits l = .ok limits)
    (hint : l.maxArchiveBytes < 2 ^ 63) (hlength : (content.length : Int) ≤ limits.maxArchiveBytes) :
    readArchive content (Int64.ofInt limits.maxArchiveBytes) = .ok content ↔
      l.maxArchiveBytes ≠ 2 ^ 63 - 1 ∨ content = [] := by
  obtain ⟨hnonneg, hlimit⟩ := maxArchiveBytes_of_defaultZipLimits hlimits
  have hrange : 0 ≤ limits.maxArchiveBytes ∧ limits.maxArchiveBytes < 2 ^ 63 ∧
      (limits.maxArchiveBytes = 2 ^ 63 - 1 ↔ l.maxArchiveBytes = 2 ^ 63 - 1) := by
    rw [hlimit, FS.orDefault]
    split_ifs with hzero
    · rw [hzero]
      decide
    · exact ⟨hnonneg, hint, Iff.rfl⟩
  obtain ⟨hmin, hmax, hlargest⟩ := hrange
  have htoInt : (Int64.ofInt limits.maxArchiveBytes).toInt = limits.maxArchiveBytes := by
    apply Int64.toInt_ofInt_of_le <;> omega
  have hsame : Int64.ofInt limits.maxArchiveBytes = Int64.maxValue ↔ limits.maxArchiveBytes = 2 ^ 63 - 1 := by
    rw [← Int64.toInt_inj, htoInt, Int64.toInt_maxValue]
  rw [FS.readArchive_eq_ok_iff, ne_eq, hsame, hlargest]
  · rw [Int64.le_iff_toInt_le, htoInt]
    exact hmin
  · rw [htoInt]
    exact hlength

/-- Three layers read with a limit: a file, a request and an archive.  Each is exact unless its limit is the largest
one and there is something to read. -/
theorem bounded_reads_exact_iff (content : Bytes) (maxBytes requested : Int64) (options : ServerOptions)
    (l : ZipLimits) :
    (0 < maxBytes → (ReadsExactly content maxBytes ↔ maxBytes ≠ Int64.maxValue ∨ content = [])) ∧
      (∀ limits accepted, normalizeLimits options = .ok limits → readLimit limits requested = .ok accepted →
        ((∀ data, handleReadFile limits content requested = .ok data → data = content) ↔
          ¬AsksLargest options requested ∨ content = [])) ∧
      ∀ limits, defaultZipLimits l = .ok limits → l.maxArchiveBytes < 2 ^ 63 →
        (content.length : Int) ≤ limits.maxArchiveBytes →
          (readArchive content (Int64.ofInt limits.maxArchiveBytes) = .ok content ↔
            l.maxArchiveBytes ≠ 2 ^ 63 - 1 ∨ content = []) :=
  ⟨FS.readsExactly_iff, fun _ _ hlimits haccepted => handleReadFile_exact_iff hlimits haccepted,
    fun _ hlimits hint hlength => readArchive_exact_iff hlimits hint hlength⟩

/-- At the defaults all three are exact. -/
theorem bounded_reads_exact_default :
    ReadsExactly [97] defaultReadBytes ∧
      (∃ limits accepted, normalizeLimits {} = .ok limits ∧ readLimit limits 0 = .ok accepted ∧
        ∀ data, handleReadFile limits [97] 0 = .ok data → data = [97]) ∧
      ∃ limits, defaultZipLimits {} = .ok limits ∧ readArchive [97] (Int64.ofInt limits.maxArchiveBytes) = .ok [97] := by
  obtain ⟨hread, hserved, harchive⟩ := bounded_reads_exact_iff [97] defaultReadBytes 0 {} {}
  refine ⟨(hread (by decide)).2 (.inl (by decide)), ?_, ?_⟩
  · have hsmall : ¬AsksLargest {} 0 := by
      unfold AsksLargest
      decide
    exact ⟨_, _, rfl, rfl, (hserved _ _ rfl rfl).2 (.inl hsmall)⟩
  · exact ⟨_, rfl, (harchive _ rfl (by decide) (by decide)).2 (.inl (by decide))⟩

/-- A file of one byte at the largest limit: the read succeeds with nothing. -/
theorem bounded_reads_maxValue :
    readFile [97] Int64.maxValue = .ok [] ∧
      ¬∀ (content : Bytes) (maxBytes : Int64), 0 < maxBytes → ReadsExactly content maxBytes := by
  refine ⟨FS.readFile_maxValue [97], ?_⟩
  intro h
  have hread := h [97] Int64.maxValue (by decide)
  rw [ReadsExactly, FS.readFile_maxValue] at hread
  exact absurd hread (by decide)

end Reads

end Daemon

end CanonicalPath
