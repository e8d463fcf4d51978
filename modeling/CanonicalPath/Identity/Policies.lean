import CanonicalPath.Identity.Raw

/-!
# Policies — what the Windows policies see

The component checks of `windows.go` run once more in every branch of `Normalize`.  They reject a component for what
it is, wherever it stands, so each branch is asked which components it hands to them:

* `Offends` : a component that a requested policy is about
* `validateWindowsComponents_iff_of_splits` : what passes has no such component behind its root
* `normalize_policies` : neither the input of the hosts without separator rewriting nor any output has one
-/

namespace CanonicalPath

open CodeUnit Segments Go DotStack

variable {α : Type} [DecidableEq α] [CodeUnit α]

/-! ## Device names -/

/-- The names that Windows keeps for its devices. -/
def deviceNames : List String :=
  ["CON", "PRN", "AUX", "NUL", "COM1", "COM2", "COM3", "COM4", "COM5", "COM6", "COM7", "COM8", "COM9",
    "LPT1", "LPT2", "LPT3", "LPT4", "LPT5", "LPT6", "LPT7", "LPT8", "LPT9"]

/-- A device name, in any case. -/
def IsDeviceName (name : List α) : Prop :=
  ∃ device ∈ deviceNames, name.map upper = lit device

instance (name : List α) : Decidable (IsDeviceName name) :=
  inferInstanceAs (Decidable (∃ device ∈ deviceNames, name.map upper = lit device))

omit [DecidableEq α] in
/-- The digits of the numbered ports. -/
theorem exists_digit {digit : α} (hlow : '1'.toNat ≤ code digit) (hhigh : code digit ≤ '9'.toNat) :
    ∃ c ∈ ['1', '2', '3', '4', '5', '6', '7', '8', '9'], digit = chr c := by
  have hcases : ∀ n, n < 58 → 49 ≤ n →
      (['1', '2', '3', '4', '5', '6', '7', '8', '9'].any fun c => n == c.toNat && decide (c.toNat < 128)) = true := by
    decide
  obtain ⟨c, hc, hdigit⟩ := List.any_eq_true.1 (hcases (code digit) (Nat.lt_succ_of_le hhigh) hlow)
  rw [Bool.and_eq_true, beq_iff_eq, decide_eq_true_eq] at hdigit
  exact ⟨c, hc, (eq_chr_iff hdigit.2).2 hdigit.1⟩

theorem isReservedPort_iff {base : List α} : isReservedPort base = true ↔
    ∃ stem ∈ ["COM", "LPT"], ∃ c ∈ ['1', '2', '3', '4', '5', '6', '7', '8', '9'], base = lit stem ++ [chr c] := by
  constructor
  · intro h
    unfold isReservedPort at h
    -- only four units can be a port
    split at h
    · rename_i a b c digit
      simp only [Bool.and_eq_true, Bool.or_eq_true, beq_iff_eq, decide_eq_true_eq] at h
      obtain ⟨hstem, hlow, hhigh⟩ := h
      obtain ⟨number, hnumber, rfl⟩ := exists_digit hlow hhigh
      rcases hstem with hcom | hlpt
      · refine ⟨"COM", by simp, number, hnumber, ?_⟩
        rw [← hcom]
        rfl
      · refine ⟨"LPT", by simp, number, hnumber, ?_⟩
        rw [← hlpt]
        rfl
    · exact absurd h Bool.false_ne_true
  · intro h
    obtain ⟨stem, hstem, c, hc, rfl⟩ := h
    have hrange : (['1', '2', '3', '4', '5', '6', '7', '8', '9'].all fun c =>
        decide (c.toNat < 128 ∧ '1'.toNat ≤ c.toNat ∧ c.toNat ≤ '9'.toNat)) = true := by
      decide
    obtain ⟨hascii, hlow, hhigh⟩ := of_decide_eq_true (List.all_eq_true.1 hrange c hc)
    have hcode : code (chr c : α) = c.toNat := code_chr hascii
    have hdigit : (decide ('1'.toNat ≤ code (chr c : α)) && decide (code (chr c : α) ≤ '9'.toNat)) = true := by
      rw [hcode, decide_eq_true hlow, decide_eq_true hhigh]
      rfl
    simp only [List.mem_cons, List.not_mem_nil, or_false] at hstem
    rcases hstem with rfl | rfl
    · change ((lit "COM" == lit "COM" || _) && _) = true
      rw [beq_self_eq_true, Bool.true_or, Bool.true_and]
      exact hdigit
    · change ((_ || lit "LPT" == lit "LPT") && _) = true
      rw [beq_self_eq_true, Bool.or_true, Bool.true_and]
      exact hdigit

omit [DecidableEq α] in
theorem lit_push (stem : String) (c : Char) : (lit (stem.push c) : List α) = lit stem ++ [chr c] := by
  rw [lit, lit, String.toList_push, List.map_append, List.map_singleton]

/-- Behind the four words, the names are the numbered ports. -/
theorem deviceNames_eq : deviceNames = ["CON", "PRN", "AUX", "NUL"] ++
    ["COM", "LPT"].flatMap fun stem => ['1', '2', '3', '4', '5', '6', '7', '8', '9'].map stem.push := by
  decide

/-- The check of a base is a look into the list of the names. -/
theorem isReservedDeviceBase_iff {base : List α} :
    isReservedDeviceBase base = true ↔ ∃ device ∈ deviceNames, base = lit device := by
  have hword : (base = lit "CON" ∨ base = lit "PRN" ∨ base = lit "AUX" ∨ base = lit "NUL") ↔
      ∃ device ∈ ["CON", "PRN", "AUX", "NUL"], base = lit device := by
    simp only [List.exists_mem_cons_iff, List.not_mem_nil, false_and, exists_false, or_false]
  have hport : isReservedPort base = true ↔ ∃ device ∈ ["COM", "LPT"].flatMap fun stem =>
      ['1', '2', '3', '4', '5', '6', '7', '8', '9'].map stem.push, base = lit device := by
    rw [isReservedPort_iff]
    constructor
    · intro h
      obtain ⟨stem, hstem, c, hc, hbase⟩ := h
      exact ⟨stem.push c, List.mem_flatMap.2 ⟨stem, hstem, List.mem_map_of_mem hc⟩, hbase.trans (lit_push stem c).symm⟩
    · intro h
      obtain ⟨device, hdevice, hbase⟩ := h
      obtain ⟨stem, hstem, hdevice⟩ := List.mem_flatMap.1 hdevice
      obtain ⟨c, hc, rfl⟩ := List.mem_map.1 hdevice
      exact ⟨stem, hstem, c, hc, hbase.trans (lit_push stem c)⟩
  have hcheck : isReservedDeviceBase base = true ↔
      (base = lit "CON" ∨ base = lit "PRN" ∨ base = lit "AUX" ∨ base = lit "NUL") ∨ isReservedPort base = true := by
    rw [isReservedDeviceBase]
    by_cases hname : base = lit "CON" ∨ base = lit "PRN" ∨ base = lit "AUX" ∨ base = lit "NUL"
    · rw [if_pos hname]
      exact iff_of_true rfl (.inl hname)
    · rw [if_neg hname]
      exact (or_iff_right hname).symm
  rw [hcheck, hword, hport, deviceNames_eq]
  simp only [List.mem_append, or_and_right, exists_or]

/-! ## Offending components -/

/-- A component that a requested policy is about: a stream behind a colon, or a device in front of its first dot or
colon. -/
def Offends (opts : WindowsOptions) (part : List α) : Prop :=
  opts.rejectADS = true ∧ chr ':' ∈ part ∨ opts.rejectDeviceNames = true ∧ IsDeviceName (deviceBase part)

instance (opts : WindowsOptions) (part : List α) : Decidable (Offends opts part) :=
  inferInstanceAs (Decidable (_ ∨ _))

/-- A dot segment is no device, so that the check may leave it out. -/
theorem isReservedDevicePart_iff {part : List α} :
    isReservedDevicePart part = true ↔ IsDeviceName (deviceBase part) := by
  rw [isReservedDevicePart]
  split_ifs with hdot
  · have hbase : deviceBase part = [] := by
      rcases hdot with rfl | rfl | rfl
      · rfl
      · simp [deviceBase, lit]
      · simp [deviceBase, lit]
    have hnone : ¬IsDeviceName (deviceBase part) := by
      rw [hbase]
      intro hdevice
      obtain ⟨device, hmem, hnil⟩ := hdevice
      have hne : ∀ device ∈ deviceNames, device.toList ≠ [] := by decide
      exact hne device hmem (List.map_eq_nil_iff.1 hnil.symm)
    exact iff_of_false (fun h => h) hnone
  · exact isReservedDeviceBase_iff

theorem not_offends_nil (opts : WindowsOptions) : ¬Offends opts ([] : List α) := by
  rintro (⟨-, hcolon⟩ | ⟨-, hdevice⟩)
  · exact List.not_mem_nil hcolon
  · have hpart : isReservedDevicePart ([] : List α) = true := isReservedDevicePart_iff.2 hdevice
    rw [isReservedDevicePart, if_pos (Or.inl rfl)] at hpart
    exact Bool.false_ne_true hpart

/-- The two checks look at every component behind the root. -/
theorem validateWindowsComponents_iff_of_splits {value rest : List α} {root : Root α} {opts : WindowsOptions}
    (h : Splits value root rest) :
    validateWindowsComponents value opts = .ok () ↔ ∀ part ∈ rest.splitOn (chr '/'), ¬Offends opts part := by
  have hads : hasWindowsADS value = false ↔ ∀ part ∈ rest.splitOn (chr '/'), chr ':' ∉ part := by
    rw [hasWindowsADS_of_splits h, decide_eq_false_iff_not]
    constructor
    · intro hrest part hpart hcolon
      exact hrest (mem_of_mem_splitOn hpart hcolon)
    · intro hparts hcolon
      obtain ⟨part, hpart, hmem⟩ := exists_mem_splitOn_of_mem (by simp) hcolon
      exact hparts part hpart hmem
  have hdevice : hasReservedDeviceName value = false ↔
      ∀ part ∈ rest.splitOn (chr '/'), ¬IsDeviceName (deviceBase part) := by
    rw [hasReservedDeviceName_of_splits h, List.any_eq_false]
    simp only [isReservedDevicePart_iff]
  rw [validateWindowsComponents_eq_ok_iff, hads, hdevice]
  constructor
  · intro hpolicies part hpart hoffends
    rcases hoffends with ⟨hopt, hcolon⟩ | ⟨hopt, hname⟩
    · exact hpolicies.1 hopt part hpart hcolon
    · exact hpolicies.2 hopt part hpart hname
  · intro hparts
    exact ⟨fun hopt part hpart hcolon => hparts part hpart (.inl ⟨hopt, hcolon⟩),
      fun hopt part hpart hname => hparts part hpart (.inr ⟨hopt, hname⟩)⟩

/-! ## What each branch hands over -/

theorem splitOn_slashes (k : Nat) (rest : List α) :
    (List.replicate k (chr '/') ++ rest).splitOn (chr '/') = List.replicate k [] ++ rest.splitOn (chr '/') := by
  induction k with
  | zero =>
      rfl
  | succ k ih =>
      rw [List.replicate_succ, List.replicate_succ, List.cons_append, List.cons_append, ← ih]
      exact List.splitOn_append_cons_self_of_not_mem List.not_mem_nil _

/-- A marker in front adds a dot segment and hides nothing. -/
theorem mem_splitOn_markRelative {value part : List α} (h : part ∈ value.splitOn (chr '/')) :
    part ∈ (markRelative value).splitOn (chr '/') := by
  rw [markRelative]
  split_ifs
  · rw [splitOn_dot_slash]
    exact List.mem_cons_of_mem _ h
  · exact h

/-- Every component of native input is a component of what the checks read. -/
theorem not_offends_of_prepareNativePOSIX {raw value : List α} {opts : WindowsOptions}
    (hprepare : prepareNativePOSIX raw = .ok value) (hpolicy : validateWindowsComponents value opts = .ok ()) :
    ∀ part ∈ raw.splitOn (chr '/'), ¬Offends opts part := by
  obtain ⟨k, rest, rfl, hrest⟩ := exists_slashes raw
  rw [prepareNativePOSIX_slashes k hrest] at hprepare
  -- the leading slashes are no component, and what is behind them is kept
  have hbehind : ∀ part ∈ rest.splitOn (chr '/'), ¬Offends opts part := by
    split_ifs at hprepare with htwo hzero
    · exact absurd hprepare (by simp [newError])
    · rw [← Except.ok.inj hprepare, validateWindowsComponents_iff_of_splits (splits_markRelative hrest)] at hpolicy
      intro part hpart
      exact hpolicy part (mem_splitOn_markRelative hpart)
    · rw [← Except.ok.inj hprepare] at hpolicy
      exact (validateWindowsComponents_iff_of_splits (Splits.posix hrest)).1 hpolicy
  intro part hpart
  rw [splitOn_slashes, List.mem_append] at hpart
  rcases hpart with hempty | hpart
  · rw [List.eq_of_mem_replicate hempty]
    exact not_offends_nil opts
  · exact hbehind part hpart

theorem not_offends_of_normalizeWSLCandidate {value out : List α} {opts : Options α}
    (h : normalizeWSLCandidate value opts = .ok out) :
    ∀ part ∈ value.splitOn (chr '/'), ¬Offends opts.windows part := by
  obtain ⟨prepared, hprepare, h⟩ := Outcome.bind_eq_ok_iff.1 h
  obtain ⟨⟨⟩, hpolicy, -⟩ := Outcome.bind_eq_ok_iff.1 h
  exact not_offends_of_prepareNativePOSIX hprepare hpolicy

/-- The common end has checked what it returns. -/
theorem not_offends_of_checkAndClean {value cleaned : List α} {opts : Options α}
    (h : checkAndClean value opts = .ok cleaned) :
    ∃ split, splitRoot cleaned = .ok split ∧ ∀ part ∈ split.2.splitOn (chr '/'), ¬Offends opts.windows part := by
  obtain ⟨hpolicy, hclean, -⟩ := checkAndClean_eq_ok_iff.1 h
  obtain ⟨p, -, -, rfl, -⟩ := exists_identity_of_cleanCanonical hclean
  have hsplits := p.splits_render
  exact ⟨_, splitRoot_of_splits hsplits, (validateWindowsComponents_iff_of_splits hsplits).1
    (validateWindowsComponents_of_cleanCanonical hclean hpolicy)⟩

/-! ## `Normalize` -/

/-- What `Normalize` reads, once the outer whitespace is off where that is asked for. -/
def outerTrimmed (raw : Bytes) (opts : Options UInt8) : Bytes :=
  if opts.trimOuterWhitespace then trimSpace raw else raw

/-- A host that reads separators, and nothing else, in front of the check: native input, and a raw input that could
be a mount path. -/
def ReadsSlashes (raw : List α) (opts : Options α) : Prop :=
  opts.sourceHost = some .posix ∨
    HostKind.IsRaw opts.sourceHost ∧ opts.wsl.enabled = true ∧ isPOSIXMountCandidate raw = true

/-- A raw run on a mount candidate is the candidate branch. -/
theorem interpretHost_of_candidate {raw : Bytes} {opts : Options UInt8} (hnul : nul ∉ raw)
    (hhost : HostKind.IsRaw opts.sourceHost) (hwsl : opts.wsl.enabled = true)
    (hcandidate : isPOSIXMountCandidate raw = true) :
    interpretHost parseFileURI raw opts = normalizeWSLCandidate raw opts := by
  have huri : hasURIScheme raw = false := by
    obtain ⟨tail, rfl⟩ := hasPrefix_iff.1 (hasPrefix_slash_of_candidate hcandidate)
    exact hasURIScheme_slash_cons tail
  rw [interpretHost_of_not_scheme hhost (uriPath_of_not_scheme hnul huri) huri, hwsl, hcandidate]
  rfl

/-- No policy can be talked out of a component: under native and mount grammar every component of the input has been
checked, under canonical grammar every one behind its root, and so has every one of an output. -/
theorem normalize_policies {raw p : Bytes} {opts : Options UInt8} (h : normalize raw opts = .ok p) :
    (ReadsSlashes (outerTrimmed raw opts) opts →
      ∀ part ∈ (outerTrimmed raw opts).splitOn (chr '/'), ¬Offends opts.windows part) ∧
    (opts.sourceHost = some .canonical → ∃ split, splitRoot (outerTrimmed raw opts) = .ok split ∧
      ∀ part ∈ split.2.splitOn (chr '/'), ¬Offends opts.windows part) ∧
    ∃ split, splitRoot p = .ok split ∧ ∀ part ∈ split.2.splitOn (chr '/'), ¬Offends opts.windows part := by
  change normalizeWith parseFileURI (outerTrimmed raw opts) opts = .ok p at h
  obtain ⟨-, hnul, mountRoot, -, -, value, hvalue, hclean⟩ := normalizeWith_eq_ok_iff.1 h
  obtain ⟨hpolicy, hcleaned, -⟩ := checkAndClean_eq_ok_iff.1 hclean
  refine ⟨?_, ?_, not_offends_of_checkAndClean hclean⟩
  · intro hreads
    -- both branches check what is behind the leading slashes, dots included
    rcases hreads with hposix | ⟨hhost, hwsl, hcandidate⟩
    · have hhost : (opts.withMountRoot mountRoot).sourceHost = some .posix := hposix
      rw [interpretHost_posix hhost] at hvalue
      exact not_offends_of_prepareNativePOSIX hvalue hpolicy
    · have hhost : HostKind.IsRaw (opts.withMountRoot mountRoot).sourceHost := hhost
      have hwsl : (opts.withMountRoot mountRoot).wsl.enabled = true := hwsl
      rw [interpretHost_of_candidate hnul hhost hwsl hcandidate] at hvalue
      have hall := not_offends_of_normalizeWSLCandidate hvalue
      exact hall
  · intro hcanonical
    -- canonical input is checked as it is, in front of the cleanup
    have hhost : (opts.withMountRoot mountRoot).sourceHost = some .canonical := hcanonical
    rw [interpretHost_canonical hhost, Except.ok.injEq] at hvalue
    rw [hvalue]
    obtain ⟨-, -, root, rest, -, hsplits, -⟩ := cleanCanonical_eq_ok_iff.1 hcleaned
    exact ⟨_, splitRoot_of_splits hsplits, (validateWindowsComponents_iff_of_splits hsplits).1 hpolicy⟩

/-- Through a mount: the components in front of the drive are checked as well. -/
theorem normalize_policies_mount :
    normalize (lit "/mnt/c/x/../conf")
        { sourceHost := some .wsl, wsl := { enabled := true },
          windows := { rejectADS := true, rejectDeviceNames := true } } = .ok (lit "c:/conf") ∧
      ∀ part ∈ (lit "/mnt/c/x/../conf" : Bytes).splitOn (chr '/'),
        ¬Offends { rejectADS := true, rejectDeviceNames := true } part := by
  have hrun : normalize (lit "/mnt/c/x/../conf")
      { sourceHost := some .wsl, wsl := { enabled := true },
        windows := { rejectADS := true, rejectDeviceNames := true } } = .ok (lit "c:/conf") := by
    decide
  exact ⟨hrun, (normalize_policies hrun).1 (.inr ⟨by decide, rfl, by decide⟩)⟩

end CanonicalPath
