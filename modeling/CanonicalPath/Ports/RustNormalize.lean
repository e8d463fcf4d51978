import CanonicalPath.Ports.RustChecked
import CanonicalPath.Rust.Normalize

/-!
# Ports rust normalize — no panic on raw input

Behind the canonical grammar, a cut is at a place that `find` returned, at a literal in front of the text, or behind a
letter and a separator; the loops over bytes test the length before they look ahead.

* `percentLoop_safe` : the decoder ends and stays inside its bytes
* `normalizeWithOptions_safe` : the entry point
-/

namespace CanonicalPath

namespace Ports

namespace Rust

namespace Checked

open CodeUnit Segments Str Panicking CString

/-! ## URIs -/

theorem hasUriScheme_defined (value : List Char) : Yields (Rust.Checked.hasUriScheme value) fun _ => True := by
  rw [Rust.Checked.hasUriScheme]
  cases hfind : findStr (lit "://") value with
  | none =>
      exact ⟨false, rfl, trivial⟩
  | some place =>
      simp only
      split_ifs with hzero
      · exact ⟨false, rfl, trivial⟩
      obtain ⟨t, u, rfl, rfl⟩ := exists_of_findStr hfind
      -- a scheme that is not empty has a first byte, and ends inside the text
      have hlen : len t ≤ (bytes (t ++ lit "://" ++ u)).length := by
        have hparts := len_append t (lit "://" ++ u)
        rw [← List.append_assoc] at hparts
        exact Nat.le.intro hparts.symm
      obtain ⟨b, rest, hbytes⟩ := List.exists_cons_of_length_pos (Nat.lt_of_lt_of_le (Nat.pos_of_ne_zero hzero) hlen)
      have hfirst : index (bytes (t ++ lit "://" ++ u)) 0 = some b := by
        rw [hbytes]
        rfl
      rw [hfirst, some_bind, sliceList_eq (Nat.pos_of_ne_zero hzero) hlen, some_bind]
      split_ifs
      · exact ⟨false, rfl, trivial⟩
      · exact ⟨_, rfl, trivial⟩

/-- The turns that are left are enough, and no look ahead leaves the bytes. -/
theorem percentLoop_safe (bytes : List UInt8) (fuel : Nat) {place : Nat} (hplace : place ≤ bytes.length)
    (hfuel : bytes.length < place + fuel) (result : List UInt8) :
    Safe (Rust.Checked.percentLoop bytes fuel place result) fun _ => True := by
  induction fuel generalizing place result with
  | zero =>
      exact absurd hfuel (Nat.not_lt.2 hplace)
  | succ fuel ih =>
      rw [Rust.Checked.percentLoop]
      refine Safe.ite (fun hturn => ?_) fun _ => Safe.pure trivial
      rw [index_eq hturn, some_lift_bind]
      -- a byte that is copied, an escape without room, an escape
      refine Safe.ite (fun _ => ih (by omega) (by omega) _) fun _ => ?_
      refine Safe.ite (fun _ => Safe.throw _) fun hahead => ?_
      rw [index_eq (by omega), some_lift_bind]
      cases Rust.Checked.hexValue bytes[place + 1] with
      | none =>
          exact Safe.throw _
      | some high =>
          simp only
          rw [index_eq (by omega), some_lift_bind]
          cases Rust.Checked.hexValue bytes[place + 2] with
          | none =>
              exact Safe.throw _
          | some low =>
              exact ih (by omega) (by omega) _

theorem percentDecode_safe (value : List Char) : Safe (Rust.Checked.percentDecode value) fun _ => True := by
  rw [Rust.Checked.percentDecode]
  refine Safe.bind (percentLoop_safe (bytes value) _ (Nat.zero_le _) (by omega) []) fun result _ => ?_
  cases fromUtf8 result with
  | none =>
      exact Safe.throw _
  | some text =>
      exact Safe.pure trivial

theorem length_of_mem_windows {bytes window : List UInt8} {size : Nat} (h : window ∈ Rust.Checked.windows bytes size) :
    window.length = size := by
  obtain ⟨i, hi, rfl⟩ := List.mem_map.1 h
  rw [List.mem_range] at hi
  rw [List.length_take, List.length_drop]
  omega

theorem separatorLoop_defined {ws : List (List UInt8)} (h : ∀ window ∈ ws, window.length = 3) :
    Yields (Rust.Checked.separatorLoop ws) fun _ => True := by
  induction ws with
  | nil =>
      exact ⟨false, rfl, trivial⟩
  | cons window more ih =>
      obtain ⟨hwindow, hmore⟩ := List.forall_mem_cons.1 h
      -- the three indexes are the window
      obtain ⟨a, b, c, rfl⟩ := List.length_eq_three.1 hwindow
      rw [Rust.Checked.separatorLoop]
      simp only [index, List.getElem?_cons_zero, List.getElem?_cons_succ, Option.map_some, some_and_some, some_bind]
      split_ifs
      · exact ih hmore
      · exact ⟨true, rfl, trivial⟩
      · exact ⟨true, rfl, trivial⟩
      · exact ih hmore

theorem hasEncodedSeparator_defined (value : List Char) :
    Yields (Rust.Checked.hasEncodedSeparator value) fun _ => True :=
  separatorLoop_defined fun _ => length_of_mem_windows

/-- The authority and the path are cut at a slash that was found behind the scheme. -/
theorem parseHierarchicalUriPath_safe (leader tail : List Char) (options : Rust.Checked.NormalizeOptions) :
    Safe (Rust.Checked.parseHierarchicalUriPath (leader ++ tail) leader options) fun _ => True := by
  rw [Rust.Checked.parseHierarchicalUriPath]
  refine Safe.lift (Yields.and _ (hasEncodedSeparator_defined _)) fun encoded _ => ?_
  refine Safe.ite (fun _ => Safe.throw _) fun _ => ?_
  rw [sliceFrom_append, some_lift_bind]
  cases hfind : find (· == chr '/') tail with
  | none =>
      exact Safe.throw _
  | some slash =>
      obtain ⟨t, c, u, rfl, rfl, -⟩ := exists_of_find hfind
      simp only [sliceTo_append, sliceFrom_append, some_lift_bind]
      refine Safe.bind (percentDecode_safe _) fun decodedAuthority _ => ?_
      refine Safe.bind (percentDecode_safe _) fun decoded _ => ?_
      refine Safe.ite (fun _ => Safe.throw _) fun _ => ?_
      refine Safe.ite (fun _ => Safe.throw _) fun _ => ?_
      exact Safe.ite (fun _ => Safe.pure trivial) fun _ => Safe.pure trivial

theorem parseFileUri_safe (uri : List Char) (options : Rust.Checked.NormalizeOptions) :
    Safe (Rust.Checked.parseFileUri uri options) fun _ => True := by
  rw [Rust.Checked.parseFileUri]
  refine Safe.ite (fun _ => Safe.throw _) fun _ => ?_
  refine Safe.ite (fun hfile => ?_) fun _ => ?_
  · obtain ⟨tail, rfl⟩ := exists_of_startsWith hfile
    exact Safe.ite (fun _ => Safe.throw _) fun _ => parseHierarchicalUriPath_safe _ _ _
  refine Safe.ite (fun hfile => ?_) fun _ => ?_
  · obtain ⟨tail, rfl⟩ := exists_of_startsWith hfile
    exact Safe.ite (fun _ => Safe.throw _) fun _ => parseHierarchicalUriPath_safe _ _ _
  refine Safe.lift (hasUriScheme_defined uri) fun scheme _ => ?_
  exact Safe.ite (fun _ => Safe.throw _) fun _ => Safe.pure trivial

/-! ## Hosts -/

theorem exists_of_letterSlash {rest : List Char} {a : UInt8} {more : List UInt8} (ha : isLetter a = true)
    (h : bytes rest = a :: chr '/' :: more) : ∃ d tail, code d < 128 ∧ rest = d :: chr '/' :: tail := by
  have hascii : Pattern.Ascii [isLetterCode, Pattern.char '/'] := by
    simp only [Pattern.Ascii, List.forall_mem_cons, List.not_mem_nil, false_implies, implies_true, and_true]
    exact ⟨Go.isLetterCode_nonAscii, Go.char_nonAscii (by decide)⟩
  -- the two tests are ASCII, so the units of the text pass them too
  have hmatch := utf8.matches?_encode (s := rest) hascii
  rw [← bytes, h, matches?_cons_cons, matches?_cons_cons, ← isLetter, ha] at hmatch
  cases rest with
  | nil =>
      cases hmatch
  | cons d rest =>
      cases rest with
      | nil =>
          simp [Pattern.char] at hmatch
      | cons c tail =>
          simp only [matches?_cons_cons, matches?_nil, Bool.and_true, Bool.true_and] at hmatch
          have hslash : Pattern.char '/' (code (chr '/' : UInt8)) = true := rfl
          rw [hslash, eq_comm, Bool.and_eq_true, char_code_iff (by decide)] at hmatch
          exact ⟨d, tail, lt_of_isLetterCode hmatch.1, by rw [hmatch.2]⟩

/-- A drive is cut behind its letter and its separator. -/
theorem mapWslDrive_defined (value mountRoot : List Char) :
    Yields (Rust.Checked.mapWslDrive value mountRoot) fun _ => True := by
  rw [Rust.Checked.mapWslDrive]
  cases Rust.stripPrefix value (mountRoot.rdropWhile (· == chr '/') ++ lit "/") with
  | none =>
      exact ⟨none, rfl, trivial⟩
  | some rest =>
      simp only
      match hbytes : bytes rest with
      | [] =>
          exact ⟨none, rfl, trivial⟩
      | [a] =>
          cases ha : isLetter a with
          | false =>
              exact ⟨none, by simp [index, ha], trivial⟩
          | true =>
              exact ⟨_, by simp [index, ha]; rfl, trivial⟩
      | a :: b :: more =>
          cases ha : isLetter a with
          | false =>
              exact ⟨none, by simp [index, ha], trivial⟩
          | true =>
              by_cases hb : b = chr '/'
              · subst hb
                -- the letter and the slash are characters of one byte each
                obtain ⟨d, tail, hd, rfl⟩ := exists_of_letterSlash ha hbytes
                have hascii : ∀ c ∈ [d, chr '/'], code c < 128 :=
                  List.forall_mem_cons.2 ⟨hd, code_lt_of_mem_lit (p := "/") (by decide)⟩
                have hcut : sliceFrom (d :: chr '/' :: tail) 2 = some tail := sliceFrom_ascii hascii tail
                exact ⟨_, by simp [index, ha, hcut]; rfl, trivial⟩
              · exact ⟨none, by simp [index, ha, hb], trivial⟩

/-! ## Policies -/

theorem isReservedDeviceBase_defined (base : List Char) :
    Yields (Rust.Checked.isReservedDeviceBase base) fun _ => True := by
  rw [Rust.Checked.isReservedDeviceBase]
  simp only
  split_ifs
  · exact ⟨true, rfl, trivial⟩
  rw [some_and]
  split_ifs with hlength
  · -- four bytes have a last one
    have hlast : 3 < (bytes (base.map upper)).length := by
      rw [beq_iff_eq.1 hlength]
      decide
    rw [index_eq hlast, Option.map_some]
    exact Yields.and _ ⟨_, rfl, trivial⟩
  · exact ⟨false, rfl, trivial⟩

theorem hasWindowsAds_defined (value : List Char) : Yields (Rust.Checked.hasWindowsAds value) fun _ => True := by
  rw [Rust.Checked.hasWindowsAds, splitRoot_eq]
  cases Rust.splitRoot value with
  | error err =>
      exact ⟨false, rfl, trivial⟩
  | ok root =>
      exact ⟨_, rfl, trivial⟩

/-- A base is cut at a mark that was found. -/
theorem deviceBase_defined (part : List Char) : Yields (Rust.Checked.deviceBase part) fun _ => True := by
  rw [Rust.Checked.deviceBase]
  cases hfind : find (fun ch => ch == chr '.' || ch == chr ':') part with
  | none =>
      exact ⟨part, rfl, trivial⟩
  | some place =>
      obtain ⟨t, c, u, rfl, rfl, -⟩ := exists_of_find hfind
      exact ⟨t, sliceTo_append t (c :: u), trivial⟩

theorem reservedLoop_defined (parts : List (List Char)) :
    Yields (Rust.Checked.reservedLoop parts) fun _ => True := by
  induction parts with
  | nil =>
      exact ⟨false, rfl, trivial⟩
  | cons part parts ih =>
      rw [Rust.Checked.reservedLoop]
      split_ifs
      · exact ih
      refine Yields.bind (deviceBase_defined part) fun base _ => ?_
      refine Yields.bind (isReservedDeviceBase_defined base) fun reserved _ => ?_
      split_ifs
      · exact ⟨true, rfl, trivial⟩
      · exact ih

theorem hasReservedDeviceName_defined (value : List Char) :
    Yields (Rust.Checked.hasReservedDeviceName value) fun _ => True := by
  rw [Rust.Checked.hasReservedDeviceName, splitRoot_eq]
  cases Rust.splitRoot value with
  | error err =>
      exact ⟨false, rfl, trivial⟩
  | ok root =>
      exact reservedLoop_defined _

theorem validateWindowsComponents_safe (value : List Char) (options : Rust.Checked.WindowsOptions) :
    Safe (Rust.Checked.validateWindowsComponents value options) fun _ => True := by
  rw [Rust.Checked.validateWindowsComponents]
  refine Safe.lift (Yields.and _ (hasWindowsAds_defined value)) fun ads _ => ?_
  refine Safe.ite (fun _ => Safe.throw _) fun _ => ?_
  refine Safe.lift (Yields.and _ (hasReservedDeviceName_defined value)) fun reserved _ => ?_
  exact Safe.ite (fun _ => Safe.throw _) fun _ => Safe.pure trivial

theorem isDriveRoot_defined (rootPrefix : List Char) : Yields (Rust.Checked.isDriveRoot rootPrefix) fun _ => True := by
  rw [Rust.Checked.isDriveRoot, hasDriveRoot_eq]
  apply Yields.or
  cases Rust.stripPrefix rootPrefix (lit "//?/") with
  | none =>
      exact ⟨false, rfl, trivial⟩
  | some tail =>
      exact ⟨_, hasDriveRoot_eq tail, trivial⟩

theorem validateTargetProfile_safe (value targetProfile : List Char) :
    Safe (Rust.Checked.validateTargetProfile value targetProfile) fun _ => True := by
  rw [Rust.Checked.validateTargetProfile, splitRoot_eq]
  refine Safe.bind (Safe.returned fun _ _ => trivial) fun root _ => ?_
  refine Safe.ite (fun _ => Safe.pure trivial) fun _ => ?_
  refine Safe.ite (fun _ => Safe.pure trivial) fun _ => ?_
  refine Safe.lift (Yields.and _ (Yields.or _ (isDriveRoot_defined root.rootPrefix))) fun supported _ => ?_
  exact Safe.ite (fun _ => Safe.pure trivial) fun _ => Safe.throw _

/-! ## Entry points -/

theorem normalizeHostInput_safe (uriInput : Bool) (value : List Char) (options : Rust.Checked.NormalizeOptions)
    (mountRoot : List Char) :
    Safe (Rust.Checked.normalizeHostInput uriInput value options mountRoot) fun _ => True := by
  rw [Rust.Checked.normalizeHostInput, isUriWindowsDrivePath_eq]
  dsimp only
  have hnative : Yields ((some uriInput <&&> some (Go.isURIWindowsDrivePath value)).map (!·)) fun _ => True := by
    rw [some_and_some]
    exact ⟨_, rfl, trivial⟩
  refine Safe.lift (Yields.and _ hnative) fun native _ => ?_
  refine Safe.ite (fun _ => ?_) fun _ => ?_
  · rw [prepareNativePosix_eq]
    refine Safe.bind (Safe.returned fun _ _ => trivial) fun prepared _ => ?_
    refine Safe.bind (validateWindowsComponents_safe prepared options.windows) fun _ _ => ?_
    rw [cleanCanonical_eq]
    refine Safe.bind (Safe.returned fun _ _ => trivial) fun cleaned _ => ?_
    refine Safe.ite (fun _ => Safe.pure trivial) fun _ => ?_
    exact Safe.lift (mapWslDrive_defined cleaned mountRoot) fun _ _ => Safe.pure trivial
  · have hlast (value : List Char) : Safe (if Go.isURIWindowsDrivePath value = true then liftM (sliceFrom value 1)
        else pure value : Rust.Checked.Run (List Char)) fun _ => True := by
      refine Safe.ite (fun hdrive => ?_) fun _ => Safe.pure trivial
      -- the slash in front of a drive is one byte
      obtain ⟨tail, rfl, -⟩ := Go.isURIWindowsDrivePath_iff.1 hdrive
      exact Safe.of_lift ⟨tail, sliceFrom_ascii (s := lit "/") (code_lt_of_mem_lit (by decide)) tail, trivial⟩
    simp only [splitRoot_eq, isUriWindowsDrivePath_eq, some_lift_bind]
    refine Safe.ite (fun _ => ?_) fun _ => hlast _
    exact Safe.bind (Safe.returned fun _ _ => trivial) fun _ _ => hlast _

theorem normalizeRawInput_safe (raw : List Char) (options : Rust.Checked.NormalizeOptions) (mountRoot : List Char) :
    Safe (Rust.Checked.normalizeRawInput raw options mountRoot) fun _ => True := by
  rw [Rust.Checked.normalizeRawInput]
  refine Safe.lift (hasUriScheme_defined raw) fun uriInput _ => ?_
  refine Safe.ite (fun _ => ?_) fun _ => normalizeHostInput_safe _ _ _ _
  exact Safe.bind (parseFileUri_safe raw options) fun value _ => normalizeHostInput_safe _ _ _ _

theorem hostInput_safe (value : List Char) (options : Rust.Checked.NormalizeOptions) (mountRoot : List Char) :
    Safe (Rust.Checked.hostInput value options mountRoot) fun _ => True := by
  rw [Rust.Checked.hostInput, prepareNativePosix_eq]
  refine Safe.ite (fun _ => Safe.returned fun _ _ => trivial) fun _ => ?_
  exact Safe.ite (fun _ => normalizeRawInput_safe _ _ _) fun _ => Safe.pure trivial

theorem normalizeWithOptions_safe (raw : List Char) (options : Rust.Checked.NormalizeOptions) :
    Safe (Rust.Checked.normalizeWithOptions raw options) fun _ => True := by
  rw [Rust.Checked.normalizeWithOptions]
  refine Safe.ite (fun _ => Safe.throw _) fun _ => ?_
  refine Safe.ite (fun _ => Safe.throw _) fun _ => ?_
  rw [normalizeMountRoot_eq]
  -- in the order of the source: the mount root, the host, the grammar, the policies, cleanup, the profile
  refine Safe.bind (Safe.returned fun _ _ => trivial) fun mountRoot _ => ?_
  refine Safe.ite (fun _ => Safe.throw _) fun _ => ?_
  refine Safe.bind (hostInput_safe _ options mountRoot) fun value _ => ?_
  rw [splitRoot_eq]
  refine Safe.bind (Safe.returned fun _ _ => trivial) fun root _ => ?_
  refine Safe.bind (validateWindowsComponents_safe value options.windows) fun _ _ => ?_
  rw [cleanCanonical_eq]
  refine Safe.bind (Safe.returned fun _ _ => trivial) fun cleaned _ => ?_
  exact Safe.bind (validateTargetProfile_safe cleaned options.targetProfile) fun _ _ => Safe.pure trivial

end Checked

end Rust

end Ports

end CanonicalPath
