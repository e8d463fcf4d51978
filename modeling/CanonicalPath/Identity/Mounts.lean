import CanonicalPath.Identity.Composition
import CanonicalPath.Identity.Idempotence

/-!
# Mounts — raw runs with WSL mapping

With WSL mapping, raw input with one or at least three leading slashes is native input whose
components select a drive.  The results about it are about component lists:

* `normalize_candidate` : drive selection after traversal and on whole components
* `normalize_toWSL` : WSL serialization is inverted by a WSL run
* `normalize_wsl_idempotent_iff` : when a WSL run accepts its own output unchanged
-/

namespace CanonicalPath

open CodeUnit Segments Go DotStack

variable {α : Type} [DecidableEq α] [CodeUnit α]

/-! ## Drive strings -/

theorem splitRootSwitch_drive {d : α} (hd : isLetter d = true) (rest : List α) :
    splitRootSwitch (d :: lit ":/" ++ rest) = .ok (d :: lit ":/", rest) := by
  have hdrive : hasDriveRoot (d :: lit ":/" ++ rest) = true := hasDriveRoot_iff.2 ⟨d, rest, hd, rfl⟩
  rw [splitRootSwitch, hasPrefix_extended_of_hasDriveRoot hdrive, hdrive]
  rfl

/-- A drive string with a backslash behind the drive has no root. -/
theorem splitRoot_drive_backslash {d : α} {rest : List α} (hd : isLetter d = true)
    (hrest : chr '\\' ∈ rest) :
    splitRoot (d :: lit ":/" ++ rest) =
      newError .invalidPath "Windows canonical components cannot contain a literal backslash" := by
  have hwindows : isWindowsRoot (Root.drive d).text = true := isWindowsRoot_text
  have hmem : chr '\\' ∈ d :: lit ":/" ++ rest := List.mem_append_right _ hrest
  rw [splitRoot, splitRootSwitch_drive hd, Outcome.ok_bind, if_pos ⟨hwindows, hmem⟩]

namespace Identity

/-- The identity of a drive and components below it. -/
def drive (d : α) (parts : List (List α)) (hd : isLetter d = true)
    (hnames : ∀ part ∈ parts, IsName part) (hnul : ∀ part ∈ parts, nul ∉ part)
    (hbackslash : ∀ part ∈ parts, chr '\\' ∉ part) : Identity α where
  root := .drive (lower d)
  parts := parts
  root_valid := by
    simpa [Root.Valid] using hd
  root_folded := by
    simp [Root.fold]
  parts_valid := hnames
  root_nul_free := by
    have hne := ne_nul_of_isLetter (d := lower d) (by simpa using hd)
    simp [Root.text, lit, Ne.symm hne]
  parts_nul_free := hnul
  root_backslash_free := by
    have hne := ne_backslash_of_isLetter (d := lower d) (by simpa using hd)
    simp [Root.text, lit, Ne.symm hne]
  parts_backslash_free := fun _ => hbackslash

/-- The identity of components below the POSIX root. -/
def posix (parts : List (List α)) (hnames : ∀ part ∈ parts, IsName part)
    (hnul : ∀ part ∈ parts, nul ∉ part) : Identity α where
  root := .posix
  parts := parts
  root_valid := trivial
  root_folded := rfl
  parts_valid := hnames
  root_nul_free := by
    simp [Root.text, lit]
  parts_nul_free := hnul
  root_backslash_free := by
    simp [Root.isWindows]
  parts_backslash_free := by
    simp [Root.isWindows]

end Identity

/-! ## The common end without policies -/

/-- The profiles that accept every root. -/
def Portable (profile : Option TargetProfile) : Prop :=
  profile = none ∨ profile = some .portable

omit [DecidableEq α] [CodeUnit α] in
theorem accepts_of_portable {profile : Option TargetProfile} (h : Portable profile) (root : Root α) :
    accepts profile root = true := by
  rcases h with rfl | rfl
  · rfl
  · rfl

/-- An identity whose root the profile accepts comes out of the common end unchanged. -/
theorem checkAndClean_render {opts : Options α} {p : Identity α} (hpolicies : NoPolicies opts.windows)
    (hprofile : accepts opts.targetProfile p.root = true) :
    checkAndClean p.render opts = .ok p.render :=
  checkAndClean_eq_ok_iff.2 ⟨validateWindowsComponents_of_noPolicies hpolicies _,
    cleanCanonical_render p, (validateTargetProfile_eq_ok_iff p.splits_render).2 hprofile⟩

theorem ne_posix_of_portable {profile : Option TargetProfile} (h : Portable profile) :
    profile ≠ some .posix := by
  rcases h with rfl | rfl
  · simp
  · simp

theorem ne_posix_of_drive {profile : Option TargetProfile}
    (h : Portable profile ∨ profile = some .win32Drive) : profile ≠ some .posix := by
  rcases h with hportable | rfl
  · exact ne_posix_of_portable hportable
  · simp

/-- The common end on a drive string: an identity, or a backslash that a drive cannot keep. -/
theorem checkAndClean_drive {d : α} {below : List (List α)} (opts : Options α) (hd : isLetter d = true)
    (hnames : ∀ part ∈ below, IsName part) (hnul : ∀ part ∈ below, nul ∉ part)
    (hpolicies : NoPolicies opts.windows)
    (hprofile : Portable opts.targetProfile ∨ opts.targetProfile = some .win32Drive) :
    ((∀ part ∈ below, chr '\\' ∉ part) → checkAndClean (serialize (lower d :: lit ":/") below) opts =
      .ok (serialize (lower d :: lit ":/") below)) ∧
    ((∃ part ∈ below, chr '\\' ∈ part) → ∃ e,
      checkAndClean (serialize (lower d :: lit ":/") below) opts = .error e ∧ e.code = .invalidPath) := by
  constructor
  · intro hbackslash
    have hrender : (Identity.drive d below hd hnames hnul hbackslash).render =
        serialize (lower d :: lit ":/") below := rfl
    rw [← hrender]
    refine checkAndClean_render hpolicies ?_
    rcases hprofile with hportable | hwin32
    · exact accepts_of_portable hportable _
    · rw [hwin32]
      rfl
  · rintro ⟨part, hpart, hmem⟩
    -- the root parser already refuses the backslash, before any cleaning
    have hletter : isLetter (lower d) = true := by
      rwa [isLetter_lower]
    have hjoin : chr '\\' ∈ joinOn (chr '/') below := mem_joinOn_of_mem hpart hmem
    have hsplit := splitRoot_drive_backslash hletter hjoin
    rw [serialize_drive, checkAndClean, hsplit]
    exact ⟨_, rfl, rfl⟩

theorem checkAndClean_posix {parts : List (List α)} {opts : Options α}
    (hnames : ∀ part ∈ parts, IsName part) (hnul : ∀ part ∈ parts, nul ∉ part)
    (hpolicies : NoPolicies opts.windows) (hprofile : Portable opts.targetProfile) :
    checkAndClean (serialize (lit "/") parts) opts = .ok (serialize (lit "/") parts) :=
  checkAndClean_render (p := Identity.posix parts hnames hnul) hpolicies
    (accepts_of_portable hprofile _)

/-! ## Candidates -/

theorem hasURIScheme_of_candidate {value : List α} (h : isPOSIXMountCandidate value = true) :
    hasURIScheme value = false := by
  rcases hasPrefix_iff.1 (hasPrefix_slash_of_candidate h) with ⟨tail, rfl⟩
  exact hasURIScheme_slash_cons tail

/-- Among canonical strings the candidates are those with the POSIX root. -/
theorem isPOSIXMountCandidate_render (p : Identity α) :
    isPOSIXMountCandidate p.render = true ↔ p.root = .posix := by
  -- a share or an extended root starts with exactly two slashes
  have hdouble {value tail : List α} (hvalue : value = List.replicate 2 (chr '/') ++ tail)
      (hhead : tail.head? ≠ some (chr '/')) : isPOSIXMountCandidate value = false := by
    rw [hvalue, isPOSIXMountCandidate_slashes 2 hhead]
    rfl
  have hname {name more : List α} (h : IsName name) : (name ++ more).head? ≠ some (chr '/') := by
    rw [List.head?_append_of_ne_nil _ h.ne_nil]
    exact fun hhead => h.slash_not_mem (List.mem_of_mem_head? hhead)
  -- a relative path or a drive starts with none
  have hnot {value : List α} (hhead : value.head? ≠ some (chr '/')) :
      isPOSIXMountCandidate value = false := by
    have hslash : hasPrefix value (lit "/") = false := hasPrefix_cons_eq_false hhead
    rw [isPOSIXMountCandidate, hslash, Bool.false_and]
  have hsplits := p.splits_render
  generalize p.render = value at hsplits
  generalize p.root = root at hsplits
  cases hsplits with
  | relative hhead hmarker =>
      simp [hnot hhead]
  | posix hhead =>
      have hone : isPOSIXMountCandidate (List.replicate 1 (chr '/') ++ p.body) = true := by
        rw [isPOSIXMountCandidate_slashes 1 hhead]
        rfl
      simpa using hone
  | drive hd hrest =>
      have hhead := ne_slash_of_isLetter hd
      rename_i d
      have hcandidate : isPOSIXMountCandidate (d :: (lit ":/" ++ p.body)) = false :=
        hnot (by simpa using hhead)
      simp [hcandidate]
  | unc hserver hshare hne htail hclean =>
      rename_i server share tail
      have hvalue : lit "//" ++ (server ++ lit "/" ++ share ++ tail) =
          List.replicate 2 (chr '/') ++ (server ++ (lit "/" ++ share ++ tail)) := by
        simp [lit]
      rw [hdouble hvalue (hname hserver)]
      simp
  | extendedDrive hd hrest =>
      rename_i d
      have hvalue : lit "//?/" ++ (d :: lit ":/" ++ p.body) =
          List.replicate 2 (chr '/') ++ (lit "?/" ++ (d :: lit ":/" ++ p.body)) := rfl
      rw [hdouble hvalue (by simp [lit])]
      simp
  | extendedUNC hserver hshare htail hclean =>
      rename_i server share tail
      have hvalue : lit "//?/UNC/" ++ (server ++ lit "/" ++ share ++ tail) =
          List.replicate 2 (chr '/') ++ (lit "?/UNC/" ++ (server ++ lit "/" ++ share ++ tail)) := rfl
      rw [hdouble hvalue (by simp [lit])]
      simp

theorem nul_not_mem_components {value part : List α} (hnul : nul ∉ value)
    (h : part ∈ components value) : nul ∉ part :=
  fun hmem => hnul (mem_of_resolve (resolve_floor value) h hmem)

section Runs

variable {parseURI : URIOptions → List α → Except PathError (List α)} {raw mountRoot : List α}
variable {opts : Options α}

/-- A WSL run on a candidate: select a drive by the components, or keep them below the POSIX root. -/
theorem normalizeWith_candidate (hhost : HostKind.IsRaw opts.sourceHost)
    (hpath : uriPath parseURI raw opts = .ok raw) (hwsl : opts.wsl.enabled = true)
    (hnul : nul ∉ raw) (hcandidate : isPOSIXMountCandidate raw = true)
    (hmount : normalizeMountRoot opts.wsl.mountRoot = .ok mountRoot)
    (hpolicies : NoPolicies opts.windows) (hprofile : opts.targetProfile ≠ some .posix) :
    normalizeWith parseURI raw opts =
      checkAndClean ((mapWSLDrive (serialize (lit "/") (components raw)) ⟨true, mountRoot⟩).getD
        (serialize (lit "/") (components raw))) opts := by
  have hne : raw ≠ [] := by
    rintro rfl
    exact absurd hcandidate (by simp [isPOSIXMountCandidate, hasPrefix, lit])
  have hmode : ¬(opts.sourceHost = some .posix ∧ opts.wsl.enabled = true) := fun h => hhost.1 h.1
  have hhost' : HostKind.IsRaw (opts.withMountRoot mountRoot).sourceHost := hhost
  have hpath' : uriPath parseURI raw (opts.withMountRoot mountRoot) = .ok raw := hpath
  have hwsl' : (opts.withMountRoot mountRoot).wsl = ⟨true, mountRoot⟩ := by
    rw [Options.withMountRoot, hwsl]
  rw [normalizeWith_eq hne hnul hmount hmode, interpretHost_raw hhost', normalizeRawInput, hpath',
    Outcome.ok_bind, hasURIScheme_of_candidate hcandidate, hcandidate, hwsl']
  simp only [Bool.false_and, Bool.not_false, Bool.and_true, if_true]
  -- the candidate branch sees the cleaned mount root, not the one of the caller
  have hrun := normalizeWSLCandidate_eq (opts.withMountRoot mountRoot) hnul hcandidate hpolicies hprofile
  rw [hrun, hwsl', Outcome.ok_bind]

/-- The drive a component list selects below a mount. -/
theorem mapWSLDrive_of_components {parts below : List (List α)} {d : α}
    (hmount : normalizeMountRoot opts.wsl.mountRoot = .ok mountRoot)
    (hparts : ∀ part ∈ parts, IsName part) (hd : isLetter d = true)
    (hsplit : parts = components mountRoot ++ [d] :: below) :
    mapWSLDrive (serialize (lit "/") parts) ⟨true, mountRoot⟩ =
      some (serialize (lower d :: lit ":/") below) := by
  rw [eq_serialize_of_normalizeMountRoot hmount]
  exact (mapWSLDrive_eq_some_iff hparts fun _ => isName_of_mem_components).2 ⟨rfl, d, below, hd, hsplit, rfl⟩

/-- No drive is selected by any other component list. -/
theorem mapWSLDrive_eq_none {parts : List (List α)}
    (hmount : normalizeMountRoot opts.wsl.mountRoot = .ok mountRoot)
    (hparts : ∀ part ∈ parts, IsName part)
    (hnone : ¬∃ d below, isLetter d = true ∧ parts = components mountRoot ++ [d] :: below) :
    mapWSLDrive (serialize (lit "/") parts) ⟨true, mountRoot⟩ = none := by
  rw [eq_serialize_of_normalizeMountRoot hmount, Option.eq_none_iff_forall_ne_some]
  intro v hv
  rcases (mapWSLDrive_eq_some_iff hparts fun _ => isName_of_mem_components).1 hv with
    ⟨-, d, below, hd, hsplit, -⟩
  exact hnone ⟨d, below, hd, hsplit⟩

/-- A candidate whose components select a drive: the drive path, or a backslash it cannot keep. -/
theorem normalizeWith_candidate_drive {d : α} {below : List (List α)}
    (hhost : HostKind.IsRaw opts.sourceHost) (hpath : uriPath parseURI raw opts = .ok raw)
    (hwsl : opts.wsl.enabled = true) (hnul : nul ∉ raw) (hcandidate : isPOSIXMountCandidate raw = true)
    (hmount : normalizeMountRoot opts.wsl.mountRoot = .ok mountRoot)
    (hpolicies : NoPolicies opts.windows)
    (hprofile : Portable opts.targetProfile ∨ opts.targetProfile = some .win32Drive)
    (hd : isLetter d = true) (hsplit : components raw = components mountRoot ++ [d] :: below) :
    ((∀ part ∈ below, chr '\\' ∉ part) →
      normalizeWith parseURI raw opts = .ok (serialize (lower d :: lit ":/") below)) ∧
    ((∃ part ∈ below, chr '\\' ∈ part) →
      ∃ e, normalizeWith parseURI raw opts = .error e ∧ e.code = .invalidPath) := by
  have hmem : ∀ part ∈ below, part ∈ components raw := by
    intro part hpart
    rw [hsplit]
    simp [hpart]
  rw [normalizeWith_candidate hhost hpath hwsl hnul hcandidate hmount hpolicies
      (ne_posix_of_drive hprofile),
    mapWSLDrive_of_components hmount (fun _ => isName_of_mem_components) hd hsplit, Option.getD_some]
  exact checkAndClean_drive opts hd (fun part hpart => isName_of_mem_components (hmem part hpart))
    (fun part hpart => nul_not_mem_components hnul (hmem part hpart)) hpolicies hprofile

/-- A candidate whose components select no drive keeps them below the POSIX root. -/
theorem normalizeWith_candidate_posix (hhost : HostKind.IsRaw opts.sourceHost)
    (hpath : uriPath parseURI raw opts = .ok raw) (hwsl : opts.wsl.enabled = true)
    (hnul : nul ∉ raw) (hcandidate : isPOSIXMountCandidate raw = true)
    (hmount : normalizeMountRoot opts.wsl.mountRoot = .ok mountRoot)
    (hpolicies : NoPolicies opts.windows) (hprofile : Portable opts.targetProfile)
    (hnone : ¬∃ d below, isLetter d = true ∧ components raw = components mountRoot ++ [d] :: below) :
    normalizeWith parseURI raw opts = .ok (serialize (lit "/") (components raw)) := by
  have hnames : ∀ part ∈ components raw, IsName part := fun _ => isName_of_mem_components
  rw [normalizeWith_candidate hhost hpath hwsl hnul hcandidate hmount hpolicies
      (ne_posix_of_portable hprofile), mapWSLDrive_eq_none hmount hnames hnone, Option.getD_none]
  exact checkAndClean_posix hnames (fun _ => nul_not_mem_components hnul) hpolicies hprofile

end Runs

/-! ## Drive selection after traversal -/

theorem normalize_of_noTrim {opts : Options UInt8} (h : opts.trimOuterWhitespace = false)
    (raw : Bytes) : normalize raw opts = normalizeWith parseFileURI raw opts := by
  rw [Go.normalize, h]
  rfl

/-- A WSL run on input with one or at least three leading slashes: the components below the mount
select a drive by one letter, whatever spelling led to them. -/
theorem normalize_candidate {k : Nat} {raw rest mountRoot : Bytes} {opts : Options UInt8}
    (hraw : raw = List.replicate k (chr '/') ++ rest) (hrest : rest.head? ≠ some (chr '/'))
    (hk : k = 1 ∨ 3 ≤ k) (hnul : nul ∉ raw)
    (hmount : normalizeMountRoot opts.wsl.mountRoot = .ok mountRoot)
    (hhost : HostKind.IsRaw opts.sourceHost) (hwsl : opts.wsl.enabled = true)
    (hpolicies : NoPolicies opts.windows) (hprofile : Portable opts.targetProfile)
    (htrim : opts.trimOuterWhitespace = false) :
    (∀ d below, isLetter d = true → components raw = components mountRoot ++ [d] :: below →
      ((∀ part ∈ below, chr '\\' ∉ part) →
        normalize raw opts = .ok (lower d :: lit ":/" ++ joinOn (chr '/') below)) ∧
      ((∃ part ∈ below, chr '\\' ∈ part) →
        ∃ e, normalize raw opts = .error e ∧ e.code = .invalidPath)) ∧
    ((¬∃ d below, isLetter d = true ∧ components raw = components mountRoot ++ [d] :: below) →
      normalize raw opts = .ok (chr '/' :: joinOn (chr '/') (components raw))) := by
  have hcandidate : isPOSIXMountCandidate raw = true := by
    rw [hraw, isPOSIXMountCandidate_slashes k hrest]
    exact decide_eq_true hk
  have hpath : uriPath parseFileURI raw opts = .ok raw :=
    uriPath_of_not_scheme hnul (hasURIScheme_of_candidate hcandidate)
  rw [normalize_of_noTrim htrim]
  refine ⟨fun d below hd hsplit => ?_, fun hnone => ?_⟩
  · rw [← serialize_drive]
    exact normalizeWith_candidate_drive hhost hpath hwsl hnul hcandidate hmount hpolicies
      (Or.inl hprofile) hd hsplit
  · rw [← serialize_posix]
    exact normalizeWith_candidate_posix hhost hpath hwsl hnul hcandidate hmount hpolicies hprofile
      hnone

/-- Traversal crosses the mount and the drive before the drive is selected. -/
theorem normalize_candidate_traversal :
    normalize (lit "///x/../mnt/d/..//C/./a") { wsl := { enabled := true } } = .ok (lit "c:/a") := by
  have hmount : normalizeMountRoot ([] : Bytes) = .ok (lit "/mnt") := by
    decide
  have hrun := @normalize_candidate 3 (lit "///x/../mnt/d/..//C/./a") (lit "x/../mnt/d/..//C/./a")
    (lit "/mnt") { wsl := { enabled := true } } rfl (by decide)
    (by decide) (by decide) hmount ⟨by decide, by decide⟩ rfl ⟨rfl, rfl⟩ (Or.inl rfl) rfl
  exact (hrun.1 (chr 'C') [lit "a"] (by decide) (by decide)).1 (by decide)

/-! ## WSL serialization -/

theorem root_eq_drive_of_hasDriveRoot {p : Identity α} (h : hasDriveRoot p.render = true) :
    ∃ d, isLetter d = true ∧ p.root = .drive d ∧ lower d = d := by
  rw [p.splits_render.hasDriveRoot_eq] at h
  cases hroot : p.root with
  | drive d =>
      have hvalid := p.root_valid
      have hfolded := p.root_folded
      rw [hroot] at hvalid hfolded
      exact ⟨d, hvalid, rfl, Root.drive.inj hfolded⟩
  | relative =>
      rw [hroot] at h
      exact absurd h (by simp [Root.isDrive])
  | posix =>
      rw [hroot] at h
      exact absurd h (by simp [Root.isDrive])
  | unc server share =>
      rw [hroot] at h
      exact absurd h (by simp [Root.isDrive])
  | extendedDrive d =>
      rw [hroot] at h
      exact absurd h (by simp [Root.isDrive])
  | extendedUNC server share =>
      rw [hroot] at h
      exact absurd h (by simp [Root.isDrive])

theorem nul_not_mem_of_normalizeMountRoot {value mountRoot : List α}
    (h : normalizeMountRoot value = .ok mountRoot) : nul ∉ mountRoot := by
  rcases normalizeMountRoot_eq_ok_iff.1 h with ⟨hnul, -, rfl⟩
  exact not_mem_serialize (by simp) (by simp) (by simp [lit]) fun _ =>
    nul_not_mem_components (nul_not_mem_defaultMountRoot hnul)

/-- The components of a drive path below a mount are names. -/
theorem isName_of_mem_mounted {mountRoot part : List α} {parts : List (List α)} {d : α}
    (hd : isLetter d = true) (hparts : ∀ part ∈ parts, IsName part)
    (h : part ∈ components mountRoot ++ [d] :: parts) : IsName part := by
  rcases List.mem_append.1 h with hmount | hbelow
  · exact isName_of_mem_components hmount
  · rcases List.mem_cons.1 hbelow with rfl | hpart
    · exact isName_of_isLetter hd
    · exact hparts part hpart

theorem nul_not_mem_mounted {value mountRoot part : List α} {parts : List (List α)} {d : α}
    (hmount : normalizeMountRoot value = .ok mountRoot) (hd : isLetter d = true)
    (hparts : ∀ part ∈ parts, nul ∉ part) (h : part ∈ components mountRoot ++ [d] :: parts) :
    nul ∉ part := by
  rcases List.mem_append.1 h with hmem | hbelow
  · exact nul_not_mem_components (nul_not_mem_of_normalizeMountRoot hmount) hmem
  · rcases List.mem_cons.1 hbelow with rfl | hpart
    · have hne := ne_nul_of_isLetter hd
      simpa using Ne.symm hne
    · exact hparts part hpart

/-- A drive path is serialized below the mount, with its drive letter as a component. -/
theorem toWSL_render {p : Identity α} {d : α} {mountRoot : List α} {opts : WSLOptions α}
    (hmount : normalizeMountRoot opts.mountRoot = .ok mountRoot) (hroot : p.root = .drive d)
    (hd : isLetter d = true) (hfolded : lower d = d) :
    toWSL p.render opts = .ok (serialize (lit "/") (components mountRoot ++ [d] :: p.parts)) := by
  have hparse := parseCleanCanonical_render p
  have hdrive : hasDriveRoot (Root.drive d).text = true := hasDriveRoot_iff.2 ⟨d, [], hd, rfl⟩
  have hrender : p.render = d :: lit ":/" ++ joinOn (chr '/') p.parts := by
    rw [Identity.render, hroot]
    exact serialize_drive d p.parts
  -- the writer appends the letter and the components, as one join
  have htail : driveTail p.render = joinOn (chr '/') ([d] :: p.parts) := by
    have hrest : p.render.drop 3 = joinOn (chr '/') p.parts := by
      rw [hrender]
      rfl
    have hletter : (p.render.take 1).map lower = [d] := by
      rw [hrender]
      exact congrArg (fun a => [a]) hfolded
    rw [driveTail, hrest, hletter]
    by_cases hnil : p.parts = []
    · simp [hnil, joinOn]
    · rw [if_neg (mt (joinOn_parts_eq_nil_iff p.parts_valid).1 hnil), joinOn_cons_of_ne_nil hnil]
      rfl
  have hnames : ∀ part ∈ components mountRoot ++ [d] :: p.parts, IsName part :=
    fun _ => isName_of_mem_mounted hd p.parts_valid
  have hvalue := (serialize_eq_mountPrefix_append_iff hnames fun _ => isName_of_mem_components).2
    ⟨[d] :: p.parts, Or.inr (by simp), rfl, rfl⟩
  rw [hroot] at hparse
  rw [toWSL, hmount, Outcome.ok_bind, hparse, Outcome.ok_bind, hdrive]
  simp only [Bool.not_true, Bool.and_false, Bool.false_eq_true, if_false]
  rw [htail, hvalue, ← eq_serialize_of_normalizeMountRoot hmount]

/-- A WSL run on the serialized path of a drive path gives the drive path back. -/
theorem normalize_toWSL {p mountRoot : Bytes} {opts : Options UInt8}
    (hfixed : normalize p { sourceHost := some .canonical } = .ok p) (hdrive : hasDriveRoot p = true)
    (hmount : normalizeMountRoot opts.wsl.mountRoot = .ok mountRoot)
    (hhost : HostKind.IsRaw opts.sourceHost) (hwsl : opts.wsl.enabled = true)
    (hpolicies : NoPolicies opts.windows)
    (hprofile : Portable opts.targetProfile ∨ opts.targetProfile = some .win32Drive)
    (htrim : opts.trimOuterWhitespace = false) :
    ∃ host, toWSL p opts.wsl = .ok host ∧ normalize host opts = .ok p := by
  have hcanonical : normalizeWith parseFileURI p { sourceHost := some .canonical } = .ok p := hfixed
  rcases exists_identity_of_normalizeWith hcanonical with ⟨q, rfl⟩
  rcases root_eq_drive_of_hasDriveRoot hdrive with ⟨d, hd, hroot, hfolded⟩
  refine ⟨_, toWSL_render hmount hroot hd hfolded, ?_⟩
  have hnames : ∀ part ∈ components mountRoot ++ [d] :: q.parts, IsName part :=
    fun _ => isName_of_mem_mounted hd q.parts_valid
  have hnuls : ∀ part ∈ components mountRoot ++ [d] :: q.parts, nul ∉ part :=
    fun _ => nul_not_mem_mounted hmount hd q.parts_nul_free
  have hcandidate : isPOSIXMountCandidate
      (serialize (lit "/") (components mountRoot ++ [d] :: q.parts)) = true :=
    (isPOSIXMountCandidate_render (Identity.posix _ hnames hnuls)).2 rfl
  have hnul : nul ∉ serialize (lit "/") (components mountRoot ++ [d] :: q.parts) :=
    (Identity.posix _ hnames hnuls).render_nul_free
  have hbackslash : ∀ part ∈ q.parts, chr '\\' ∉ part :=
    q.parts_backslash_free (by rw [hroot]; rfl)
  have hrun := normalizeWith_candidate_drive hhost
    (uriPath_of_not_scheme hnul (hasURIScheme_of_candidate hcandidate)) hwsl hnul hcandidate hmount
    hpolicies hprofile hd (components_serialize_posix hnames)
  have hrender : serialize (lower d :: lit ":/") q.parts = q.render := by
    rw [Identity.render, hroot, hfolded]
    rfl
  rw [normalize_of_noTrim htrim, hrun.1 hbackslash, hrender]

/-- Below a mount with a literal backslash, a colon and dot segments. -/
theorem normalize_toWSL_mount :
    ∃ host, toWSL (lit "c:/a") { enabled := true, mountRoot := lit "///m\\n/./c:/" } = .ok host ∧
      normalize host { wsl := { enabled := true, mountRoot := lit "///m\\n/./c:/" } } =
        .ok (lit "c:/a") := by
  have hmount : normalizeMountRoot (lit "///m\\n/./c:/" : Bytes) = .ok (lit "/m\\n/c:") := by
    decide
  exact @normalize_toWSL (lit "c:/a") (lit "/m\\n/c:")
    { wsl := { enabled := true, mountRoot := lit "///m\\n/./c:/" } }
    (by decide) (by decide) hmount ⟨by decide, by decide⟩ rfl ⟨rfl, rfl⟩ (Or.inl (Or.inl rfl)) rfl

/-! ## Idempotence -/

/-- The inputs of a WSL run that take the separator branch and whose output a second run reads
differently: the output is unwrapped once more, or it starts with the mount and a drive letter. -/
def UnstableWSL (preserve : Bool) (mountParts : List (List α)) (raw : List α) : Prop :=
  isPOSIXMountCandidate raw = false ∧
    ((preserve = false ∧ hasPrefix (toSlashes raw) (lit "//?/UNC/?/") = true) ∨
      (SingleSlash (toSlashes raw) ∧ isURIWindowsDrivePath (toSlashes raw) = false ∧
        ∃ d below, isLetter d = true ∧ components (toSlashes raw) = mountParts ++ [d] :: below))

section SecondRun

variable {parseURI : URIOptions → List α → Except PathError (List α)} {mountRoot : List α}
variable {opts : Options α} {p : Identity α}

/-- A second WSL run on a canonical string with the POSIX root selects a drive if it can. -/
theorem normalizeWith_posix_render_iff (hhost : HostKind.IsRaw opts.sourceHost)
    (hpath : uriPath parseURI p.render opts = .ok p.render) (hwsl : opts.wsl.enabled = true)
    (hmount : normalizeMountRoot opts.wsl.mountRoot = .ok mountRoot)
    (hpolicies : NoPolicies opts.windows) (hprofile : Portable opts.targetProfile)
    (hroot : p.root = .posix) :
    normalizeWith parseURI p.render opts = .ok p.render ↔
      ¬∃ d below, isLetter d = true ∧ p.parts = components mountRoot ++ [d] :: below := by
  have hrender : p.render = serialize (lit "/") p.parts := by
    rw [Identity.render, hroot]
    rfl
  have hcomponents : components p.render = p.parts := by
    rw [hrender, components_serialize_posix p.parts_valid]
  have hcandidate := (isPOSIXMountCandidate_render p).2 hroot
  rw [← hcomponents]
  constructor
  · rintro h ⟨d, below, hd, hsplit⟩
    have hdrive := normalizeWith_candidate_drive hhost hpath hwsl p.render_nul_free hcandidate hmount
      hpolicies (Or.inl hprofile) hd hsplit
    by_cases hbackslash : ∃ part ∈ below, chr '\\' ∈ part
    · rcases hdrive.2 hbackslash with ⟨e, he, -⟩
      rw [he] at h
      exact absurd h (by simp)
    · -- a drive string does not start with the slash of the POSIX root
      have hclean := hdrive.1 fun part hpart hx => hbackslash ⟨part, hpart, hx⟩
      rw [hclean, hrender, serialize_drive, serialize_posix] at h
      have hhead : lower d = chr '/' := (List.cons.inj (Except.ok.inj h)).1
      exact ne_slash_of_isLetter (by rwa [isLetter_lower]) hhead
  · intro hnone
    rw [normalizeWith_candidate_posix hhost hpath hwsl p.render_nul_free hcandidate hmount hpolicies
      hprofile hnone, hcomponents, ← hrender]

/-- A second WSL run on any other canonical string unwraps an extended root unless it is preserved. -/
theorem normalizeWith_other_render_iff (hhost : HostKind.IsRaw opts.sourceHost)
    (hpath : uriPath parseURI p.render opts = .ok p.render)
    (hmount : normalizeMountRoot opts.wsl.mountRoot = .ok mountRoot)
    (hpolicies : NoPolicies opts.windows) (hprofile : Portable opts.targetProfile)
    (hbackslash : chr '\\' ∉ p.render) (hroot : p.root ≠ .posix) :
    normalizeWith parseURI p.render opts = .ok p.render ↔
      ¬(opts.windows.preserveExtendedLength = false ∧ p.root.isExtended = true) := by
  -- no mount candidate, so the second run rewrites separators
  have hcandidate : isPOSIXMountCandidate p.render = false := by
    rw [Bool.eq_false_iff, Ne, isPOSIXMountCandidate_render]
    exact hroot
  rw [normalizeWith_render_iff hhost hpath (by rw [hcandidate, Bool.and_false]) hmount hbackslash
    (checkAndClean_render hpolicies (accepts_of_portable hprofile _))]
  simp [Rewritten, hroot]

/-- A candidate run accepts its output: a drive, or components that select none. -/
theorem normalizeWith_candidate_stable {raw out : List α} (hhost : HostKind.IsRaw opts.sourceHost)
    (hpath : uriPath parseURI raw opts = .ok raw)
    (hagain : ∀ q : Identity α, uriPath parseURI q.render opts = .ok q.render)
    (hwsl : opts.wsl.enabled = true) (hnul : nul ∉ raw) (hcandidate : isPOSIXMountCandidate raw = true)
    (hmount : normalizeMountRoot opts.wsl.mountRoot = .ok mountRoot)
    (hpolicies : NoPolicies opts.windows) (hprofile : Portable opts.targetProfile)
    (h : normalizeWith parseURI raw opts = .ok out) : normalizeWith parseURI out opts = .ok out := by
  have hnames : ∀ part ∈ components raw, IsName part := fun _ => isName_of_mem_components
  have hnuls : ∀ part ∈ components raw, nul ∉ part := fun _ => nul_not_mem_components hnul
  by_cases hsome : ∃ d below, isLetter d = true ∧ components raw = components mountRoot ++ [d] :: below
  · rcases hsome with ⟨d, below, hd, hsplit⟩
    have hmem : ∀ part ∈ below, part ∈ components raw := by
      intro part hpart
      rw [hsplit]
      simp [hpart]
    have hdrive := normalizeWith_candidate_drive hhost hpath hwsl hnul hcandidate hmount hpolicies
      (Or.inl hprofile) hd hsplit
    by_cases hbackslash : ∃ part ∈ below, chr '\\' ∈ part
    · rcases hdrive.2 hbackslash with ⟨e, he, -⟩
      rw [he] at h
      exact absurd h (by simp)
    · have hfree : ∀ part ∈ below, chr '\\' ∉ part := fun part hpart hx =>
        hbackslash ⟨part, hpart, hx⟩
      -- the output is a drive, which no later run takes for a mount path
      let q := Identity.drive d below hd (fun part hpart => hnames part (hmem part hpart))
        (fun part hpart => hnuls part (hmem part hpart)) hfree
      have hout : q.render = out := Except.ok.inj ((hdrive.1 hfree).symm.trans h)
      rw [← hout]
      exact (normalizeWith_other_render_iff hhost (hagain q) hmount hpolicies hprofile
        (q.splits_render.backslash_not_mem rfl) (by simp [q, Identity.drive])).2
        (by simp [q, Identity.drive, Root.isExtended])
  · -- the output keeps its components, and they still select no drive
    let q := Identity.posix (components raw) hnames hnuls
    have hposix := normalizeWith_candidate_posix hhost hpath hwsl hnul hcandidate hmount hpolicies
      hprofile hsome
    have hout : q.render = out := Except.ok.inj (hposix.symm.trans h)
    rw [← hout]
    exact (normalizeWith_posix_render_iff hhost (hagain q) hwsl hmount hpolicies hprofile rfl).2 hsome

end SecondRun

theorem singleSlash_not_extended {value : List α} (h : SingleSlash value) :
    hasPrefix value (lit "//?/UNC/?/") = false := by
  rw [Bool.eq_false_iff]
  intro hleads
  have hdouble := hasPrefix_of_hasPrefix_append (lit "//") (lit "?/UNC/?/") hleads
  rw [h.2] at hdouble
  exact absurd hdouble (by simp)

/-- A run that rewrites separators accepts its output unless the input is unstable. -/
theorem normalizeWith_separators_stable_iff
    {parseURI : URIOptions → List α → Except PathError (List α)} {raw out mountRoot : List α}
    {opts : Options α} (hhost : HostKind.IsRaw opts.sourceHost)
    (hpath : uriPath parseURI raw opts = .ok raw) (huri : hasURIScheme raw = false)
    (hagain : ∀ q : Identity α, uriPath parseURI q.render opts = .ok q.render)
    (hwsl : opts.wsl.enabled = true) (hcandidate : isPOSIXMountCandidate raw = false)
    (hmount : normalizeMountRoot opts.wsl.mountRoot = .ok mountRoot)
    (hpolicies : NoPolicies opts.windows) (hprofile : Portable opts.targetProfile)
    (h : normalizeWith parseURI raw opts = .ok out) :
    normalizeWith parseURI out opts = .ok out ↔
      ¬UnstableWSL opts.windows.preserveExtendedLength (components mountRoot) raw := by
  rcases (normalizeWith_rewrites_iff hhost hpath huri (by rw [hcandidate, Bool.and_false])).1 h with
    ⟨-, -, -, value, hvalue, hclean⟩
  rcases exists_readFrom hvalue (backslash_not_mem_toSlashes raw) hclean with ⟨q, rfl, hread⟩
  by_cases hroot : q.root = .posix
  · -- only a drive behind the mount can be read differently
    have hsingle := (hread.posix_iff.1 hroot).1
    have hext := singleSlash_not_extended hsingle
    rw [normalizeWith_posix_render_iff hhost (hagain q) hwsl hmount hpolicies hprofile hroot,
      UnstableWSL, hcandidate, ← hread.components_eq hroot]
    simp [hext, hsingle, (hread.posix_iff.1 hroot).2]
  · -- only an extended root can be read differently
    have hnot : ¬(SingleSlash (toSlashes raw) ∧ isURIWindowsDrivePath (toSlashes raw) = false) :=
      fun hsingle => hroot (hread.posix_iff.2 hsingle)
    rw [normalizeWith_other_render_iff hhost (hagain q) hmount hpolicies hprofile
      hread.backslash_free hroot, and_congr_right hread.extended_iff, UnstableWSL, hcandidate]
    constructor
    · rintro h ⟨-, hext | ⟨hsingle, hdrive, -⟩⟩
      · exact h hext
      · exact hnot ⟨hsingle, hdrive⟩
    · exact fun h hext => h ⟨rfl, Or.inl hext⟩

/-- A WSL run on input that is no URI accepts its own output unchanged exactly when the input is not
one of the unstable ones. -/
theorem normalize_wsl_idempotent_iff {raw p mountRoot : Bytes} {opts : Options UInt8}
    (huri : hasURIScheme raw = false) (hmount : normalizeMountRoot opts.wsl.mountRoot = .ok mountRoot)
    (hhost : opts.sourceHost = none ∨ opts.sourceHost = some .wsl) (hwsl : opts.wsl.enabled = true)
    (hpolicies : NoPolicies opts.windows) (hprofile : Portable opts.targetProfile)
    (htrim : opts.trimOuterWhitespace = false) (h : normalize raw opts = .ok p) :
    normalize p opts = .ok p ↔
      ¬UnstableWSL opts.windows.preserveExtendedLength (components mountRoot) raw := by
  have hraw : HostKind.IsRaw opts.sourceHost := by
    rcases hhost with hhost | hhost
    · rw [hhost]
      exact ⟨by simp, by simp⟩
    · rw [hhost]
      exact ⟨by simp, by simp⟩
  rw [normalize_of_noTrim htrim] at h ⊢
  rcases normalizeWith_eq_ok_iff.1 h with ⟨-, hnul, -⟩
  have hpath : uriPath parseFileURI raw opts = .ok raw := uriPath_of_not_scheme hnul huri
  -- a canonical string is never a URI, so the second run reads it as it is
  have hagain (q : Identity UInt8) : uriPath parseFileURI q.render opts = .ok q.render :=
    uriPath_of_not_scheme q.render_nul_free (hasURIScheme_render q)
  cases hcandidate : isPOSIXMountCandidate raw with
  | true =>
      have hstable : ¬UnstableWSL opts.windows.preserveExtendedLength (components mountRoot) raw := by
        rintro ⟨hnot, -⟩
        rw [hcandidate] at hnot
        exact absurd hnot (by simp)
      refine iff_of_true ?_ hstable
      exact normalizeWith_candidate_stable hraw hpath hagain hwsl hnul hcandidate hmount hpolicies
        hprofile h
  | false =>
      exact normalizeWith_separators_stable_iff hraw hpath huri hagain hwsl hcandidate hmount hpolicies
        hprofile h

/-- A candidate that selects a drive only after traversal. -/
theorem normalize_wsl_idempotent_drive :
    normalize (lit "c:/x") { wsl := { enabled := true } } = .ok (lit "c:/x") := by
  have hfirst : normalize (lit "/mnt/./c/y/../x") { wsl := { enabled := true } } = .ok (lit "c:/x") := by
    decide
  have hmount : normalizeMountRoot ([] : Bytes) = .ok (lit "/mnt") := by
    decide
  refine (normalize_wsl_idempotent_iff (by decide) hmount (Or.inl rfl) rfl ⟨rfl, rfl⟩ (Or.inl rfl) rfl
    hfirst).2 ?_
  rintro ⟨hcandidate, -⟩
  exact absurd hcandidate (by decide)

/-- Backslashes hide the mount from the first run only. -/
theorem normalize_wsl_not_idempotent :
    (normalize (lit "\\mnt\\c\\x") { wsl := { enabled := true } } = .ok (lit "/mnt/c/x") ∧
      normalize (lit "/mnt/c/x") { wsl := { enabled := true } } ≠ .ok (lit "/mnt/c/x")) ∧
    (normalize (lit "//?/UNC/?/c:/x") { wsl := { enabled := true } } = .ok (lit "//?/c:/x") ∧
      normalize (lit "//?/c:/x") { wsl := { enabled := true } } ≠ .ok (lit "//?/c:/x")) := by
  decide

end CanonicalPath
