import CanonicalPath.Go.Grammar

/-!
# Go hosts — Windows and WSL spellings of canonical paths

`windows.go` and `wsl.go` of the Go port: the serializers `toWin32` and `toWSL`, the two Windows
component policies, the extended-prefix cut and the WSL drive mapping.

`strings.ToUpper` of a device base is modelled by ASCII case: `isReservedDeviceBase_flatMap` shows
that no case mapping beyond ASCII can change what the check decides.
-/

namespace CanonicalPath

namespace Go

open CodeUnit Segments

variable {α : Type} [DecidableEq α] [CodeUnit α]

/-! ## Windows component policies -/

def hasWindowsADS (value : List α) : Bool :=
  match splitRoot value with
  | .ok split => decide (chr ':' ∈ split.2)
  -- the error of a value outside the grammar is raised by the caller
  | .error _ => false

/-- The numbered ports of `isReservedDeviceBase`. -/
def isReservedPort : List α → Bool
  | [a, b, c, digit] =>
      ([a, b, c] == lit "COM" || [a, b, c] == lit "LPT") &&
        (decide ('1'.toNat ≤ code digit) && decide (code digit ≤ '9'.toNat))
  | _ => false

def isReservedDeviceBase (base : List α) : Bool :=
  if base = lit "CON" ∨ base = lit "PRN" ∨ base = lit "AUX" ∨ base = lit "NUL" then
    true
  else
    isReservedPort base

/-- The units that occur in a reserved device name. -/
def isDeviceCode (n : Nat) : Bool :=
  "ACLMNOPRTUX123456789".toList.any fun c => n == c.toNat

theorem isDeviceCode_of_isReservedDeviceBase {base : List α}
    (h : isReservedDeviceBase base = true) : ∀ a ∈ base, isDeviceCode (code a) = true := by
  have hlit {s : String} (hascii : IsAscii s)
      (hcodes : s.toList.all (fun c => isDeviceCode c.toNat) = true) :
      ∀ a ∈ (lit s : List α), isDeviceCode (code a) = true := by
    intro a ha
    rcases List.mem_map.1 ha with ⟨c, hc, rfl⟩
    rw [code_chr (hascii c hc)]
    exact List.all_eq_true.1 hcodes c hc
  have hdigit {digit : α} (hlow : '1'.toNat ≤ code digit) (hhigh : code digit ≤ '9'.toNat) :
      isDeviceCode (code digit) = true := by
    have hrange : ∀ n, n < 58 → 49 ≤ n → isDeviceCode n = true := by decide
    exact hrange _ (Nat.lt_succ_of_le hhigh) hlow
  rw [isReservedDeviceBase] at h
  split_ifs at h with hname
  · rcases hname with rfl | rfl | rfl | rfl
    · exact hlit (by decide) (by decide)
    · exact hlit (by decide) (by decide)
    · exact hlit (by decide) (by decide)
    · exact hlit (by decide) (by decide)
  · -- a numbered port: three letters and a digit
    unfold isReservedPort at h
    split at h
    · simp only [Bool.and_eq_true, Bool.or_eq_true, beq_iff_eq, decide_eq_true_eq] at h
      rename_i a b c digit
      rcases h with ⟨hport, hlow, hhigh⟩
      have hstem : ∀ x ∈ [a, b, c], isDeviceCode (code x) = true := by
        rcases hport with hport | hport
        · rw [hport]
          exact hlit (by decide) (by decide)
        · rw [hport]
          exact hlit (by decide) (by decide)
      have hall : ∀ x ∈ [a, b, c] ++ [digit], isDeviceCode (code x) = true := by
        intro x hx
        rcases List.mem_append.1 hx with hx | hx
        · exact hstem x hx
        · rw [List.mem_singleton.1 hx]
          exact hdigit hlow hhigh
      exact hall
    · exact absurd h (by simp)

/-- A case mapping that is the ASCII one on ASCII units, and whose image of any other unit holds a
unit foreign to the device names, decides device bases as the ASCII case does.  Unicode upper case
is such a mapping: it spells no letter beyond ASCII by letters of the device names only. -/
theorem isReservedDeviceBase_flatMap {up : α → List α} (base : List α)
    (hascii : ∀ a, code a < 128 → up a = [upper a])
    (hother : ∀ a, 128 ≤ code a → ∃ b ∈ up a, isDeviceCode (code b) = false) :
    isReservedDeviceBase (base.flatMap up) = isReservedDeviceBase (base.map upper) := by
  -- within ASCII both mappings agree; beyond it neither result is a device name
  by_cases hall : ∀ a ∈ base, code a < 128
  · have hsame : base.flatMap up = base.map upper := by
      rw [List.flatMap_congr fun a ha => hascii a (hall a ha), List.map_eq_flatMap]
    rw [hsame]
  · simp only [not_forall, Nat.not_lt] at hall
    rcases hall with ⟨a, ha, hcode⟩
    have hleft : isReservedDeviceBase (base.flatMap up) = false := by
      rcases hother a hcode with ⟨b, hb, hforeign⟩
      rw [Bool.eq_false_iff]
      intro h
      have hdevice := isDeviceCode_of_isReservedDeviceBase h b (List.mem_flatMap.2 ⟨a, ha, hb⟩)
      rw [hforeign] at hdevice
      exact absurd hdevice (by simp)
    have hright : isReservedDeviceBase (base.map upper) = false := by
      rw [Bool.eq_false_iff]
      intro h
      have hupper : upper a = a := by
        rw [upper, if_neg (by omega)]
      have hdevice := isDeviceCode_of_isReservedDeviceBase h (upper a) (List.mem_map_of_mem ha)
      rw [hupper] at hdevice
      have hsmall : ∀ n, isDeviceCode n = true → n < 128 := by
        intro n hn
        simp only [isDeviceCode, List.any_eq_true, beq_iff_eq] at hn
        rcases hn with ⟨c, hc, rfl⟩
        exact (show IsAscii "ACLMNOPRTUX123456789" by decide) c hc
      have := hsmall _ hdevice
      omega
    rw [hleft, hright]

/-- The part of a component before its first dot or colon. -/
def deviceBase (part : List α) : List α :=
  part.takeWhile fun a => a != chr '.' && a != chr ':'

def isReservedDevicePart (part : List α) : Bool :=
  if part = [] ∨ part = lit "." ∨ part = lit ".." then
    -- empty and dot components name no device
    false
  else
    isReservedDeviceBase ((deviceBase part).map upper)

def hasReservedDeviceName (value : List α) : Bool :=
  match splitRoot value with
  | .ok split => (split.2.splitOn (chr '/')).any isReservedDevicePart
  | .error _ => false

/-- The `Windows` part of the options record. -/
structure WindowsOptions where
  preserveExtendedLength : Bool := false
  rejectDeviceNames : Bool := false
  rejectADS : Bool := false
  deriving DecidableEq, Repr

def validateWindowsComponents (value : List α) (opts : WindowsOptions) : Except PathError Unit :=
  if opts.rejectADS && hasWindowsADS value then
    newError .alternateDataStream "Windows alternate data stream is not allowed"
  else if opts.rejectDeviceNames && hasReservedDeviceName value then
    newError .reservedDeviceName "Windows reserved device name is not allowed"
  else
    .ok ()

/-! ## Windows serialization -/

/-- The drive letter of a value, in upper case. -/
def uppercaseDrive (value : List α) : List α :=
  if hasDriveRoot value then
    (value.take 1).map upper ++ value.drop 1
  else if hasPrefix value (lit "//?/") && hasDriveRoot (value.drop 4) then
    value.take 4 ++ ((value.drop 4).take 1).map upper ++ value.drop 5
  else
    value

def toWin32 (path : List α) : Except PathError (List α) := do
  let split ← parseCleanCanonical path
  -- no POSIX root, no literal backslash and no marker survives the Windows spelling
  if split.1 = lit "/" ∨ chr '\\' ∈ path ∨ hasRelativeMarker path = true then
    newError .invalidPath "canonical path has no lossless Windows representation"
  else
    .ok (replaceAll '/' '\\' (uppercaseDrive path))

def unwrapWindowsExtendedPrefix (value : List α) : List α :=
  if hasPrefix value (lit "//?/UNC/") then
    -- the extended share keeps the two slashes of a plain share
    lit "//" ++ value.drop 8
  else if hasPrefix value (lit "//?/") then
    value.drop 4
  else
    value

/-! ## WSL mounts -/

/-- The `WSL` part of the options record. -/
structure WSLOptions (α : Type) where
  enabled : Bool := false
  mountRoot : List α := []
  deriving DecidableEq, Repr

def defaultMountRoot (value : List α) : List α :=
  if value = [] then lit "/mnt" else value

def normalizeMountRoot (value : List α) : Except PathError (List α) :=
  if nul ∈ value then
    newError .nulByte "WSL mount root contains NUL"
  else if hasPrefix (defaultMountRoot value) (lit "/") then
    cleanNativePOSIX (defaultMountRoot value)
  else
    newError .invalidPath "WSL mount root must be an absolute native POSIX path"

/-- The mount root with exactly one separator behind it. -/
def mountPrefix (mountRoot : List α) : List α :=
  trimSuffix mountRoot (lit "/") ++ lit "/"

/-- What follows the mount prefix selects a drive by a letter that is a whole component. -/
def selectDrive : List α → Option (List α)
  | [] => none
  | [d] => if isLetter d then some (lower d :: lit ":/") else none
  | d :: slash :: tail =>
      -- a longer first component is a name, not a drive
      if isLetter d && slash == chr '/' then some (lower d :: lit ":/" ++ tail) else none

/-- The mount root of `opts` has already passed `normalizeMountRoot`. -/
def mapWSLDrive (value : List α) (opts : WSLOptions α) : Option (List α) :=
  if opts.enabled && hasPrefix value (mountPrefix opts.mountRoot) then
    selectDrive (value.drop (mountPrefix opts.mountRoot).length)
  else
    none

/-- What `toWSL` writes behind the mount prefix for a value with a drive root. -/
def driveTail (value : List α) : List α :=
  (value.take 1).map lower ++ if value.drop 3 = [] then [] else lit "/" ++ value.drop 3

def toWSL (path : List α) (opts : WSLOptions α) : Except PathError (List α) := do
  let mountRoot ← normalizeMountRoot opts.mountRoot
  let split ← parseCleanCanonical path
  if isWindowsRoot split.1 && !hasDriveRoot split.1 then
    newError .invalidPath "WSL mapping requires an ordinary Windows drive root"
  else if !hasDriveRoot split.1 then
    -- a path without a drive is its own WSL spelling
    .ok path
  else
    .ok (mountPrefix mountRoot ++ driveTail path)

end Go

end CanonicalPath
