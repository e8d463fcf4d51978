import CanonicalPath.Identity.FixedPoint

/-!
# Raw — what raw input is read as

Raw input that is no URI takes one of two ways.  A WSL candidate is native input, and its components
select a drive or not.  Everything else has its backslashes read as separators and then loses at
most one leading piece; `Rewrites` lists the four cases and `rewriteSeparators_eq_ok_iff` says that
they are all.

* `hasURIScheme_render` : a canonical string is never read as a URI
* `normalizeWSLCandidate_eq` : the candidate branch on component lists
* `rewriteSeparators_eq_ok_iff` : the separator branch
* `rewriteSeparators_render` : the separator branch on a canonical string
-/

namespace CanonicalPath

open CodeUnit Segments Go DotStack

variable {α : Type} [DecidableEq α] [CodeUnit α]

/-! ## URI detection -/

theorem exists_of_hasURIScheme {value : List α} (h : hasURIScheme value = true) :
    ∃ scheme rest, value = scheme ++ lit "://" ++ rest ∧ scheme ≠ [] ∧
      ∀ a ∈ scheme, isSchemeCode (code a) = true := by
  rw [hasURIScheme] at h
  cases hbefore : before (lit "://") value with
  | none =>
      rw [hbefore] at h
      exact absurd h (by simp)
  | some scheme =>
      rw [hbefore] at h
      simp only [Bool.and_eq_true, bne_iff_ne, List.all_eq_true] at h
      rcases exists_of_before hbefore with ⟨rest, hvalue⟩
      exact ⟨scheme, rest, hvalue, h.1, h.2⟩

theorem hasURIScheme_of_slash_not_mem {value : List α} (h : chr '/' ∉ value) :
    hasURIScheme value = false := by
  rw [Bool.eq_false_iff]
  intro hscheme
  rcases exists_of_hasURIScheme hscheme with ⟨scheme, rest, rfl, -⟩
  exact h (by simp [lit])

theorem hasURIScheme_append {scheme : String} (rest : List α)
    (hascii : IsAscii scheme) (hcodes : scheme.toList.all (fun c => isSchemeCode c.toNat) = true)
    (hne : scheme.toList ≠ []) : hasURIScheme (lit scheme ++ lit "://" ++ rest) = true := by
  have hcolon : chr ':' ∉ (lit scheme : List α) := by
    intro hmem
    rcases List.mem_map.1 hmem with ⟨c, hc, hchr⟩
    rw [chr_eq_chr_iff (hascii c hc) (by decide)] at hchr
    have hcode := List.all_eq_true.1 hcodes c hc
    rw [hchr] at hcode
    exact absurd hcode (by decide)
  have hbefore : before (lit "://") (lit scheme ++ lit "://" ++ rest) = some (lit scheme) :=
    before_append (lit "//") hcolon
  rw [hasURIScheme, hbefore]
  simp only [Bool.and_eq_true, bne_iff_ne, ne_eq, lit, List.map_eq_nil_iff, List.all_map,
    List.all_eq_true, Function.comp_apply]
  refine ⟨hne, fun c hc => ?_⟩
  rw [code_chr (hascii c hc)]
  exact List.all_eq_true.1 hcodes c hc

/-- The URI parser returns what is no URI. -/
theorem parseFileURI_of_not_scheme {opts : URIOptions} {uri : Bytes} (hnul : nul ∉ uri)
    (huri : hasURIScheme uri = false) : parseFileURI opts uri = .ok uri := by
  -- a value behind one of the two leaders would have a scheme
  have hleader (scheme : String) (hascii : IsAscii scheme)
      (hcodes : scheme.toList.all (fun c => isSchemeCode c.toNat) = true) (hne : scheme.toList ≠ []) :
      hasPrefix uri (lit scheme ++ lit "://") = false := by
    rw [Bool.eq_false_iff]
    intro hleads
    rcases hasPrefix_iff.1 hleads with ⟨rest, rfl⟩
    rw [hasURIScheme_append rest hascii hcodes hne] at huri
    exact absurd huri (by simp)
  have hfile : hasPrefix uri (lit "file://") = false :=
    hleader "file" (by decide) (by decide) (by decide)
  have hvscode : hasPrefix uri (lit "vscode-file://") = false :=
    hleader "vscode-file" (by decide) (by decide) (by decide)
  rw [parseFileURI, if_neg hnul, if_neg (by simp [hfile]), if_neg (by simp [hvscode]),
    if_neg (by simp [huri])]

theorem uriPath_of_not_scheme {raw : Bytes} {opts : Options UInt8} (hnul : nul ∉ raw)
    (huri : hasURIScheme raw = false) : uriPath parseFileURI raw opts = .ok raw := by
  rw [uriPath, parseFileURI_of_not_scheme hnul huri, ite_self]

omit [DecidableEq α] in
theorem ne_chr_of_isSchemeCode {a : α} {c : Char} (h : isSchemeCode (code a) = true)
    (hc : c.toNat < 128) (hscheme : isSchemeCode c.toNat = false) : a ≠ chr c := by
  rintro rfl
  rw [code_chr hc, hscheme] at h
  exact absurd h (by simp)

theorem hasURIScheme_slash_cons (value : List α) : hasURIScheme (chr '/' :: value) = false := by
  rw [Bool.eq_false_iff]
  intro hscheme
  rcases exists_of_hasURIScheme hscheme with ⟨scheme, rest, hvalue, hne, hcodes⟩
  cases scheme with
  | nil =>
      exact hne rfl
  | cons a scheme =>
      exact ne_chr_of_isSchemeCode (hcodes a (by simp)) (c := '/') (by decide) (by decide)
        (List.cons.inj hvalue).1.symm

/-- In a URI the scheme is the first segment and the second one is empty. -/
theorem splitOn_of_hasURIScheme {value : List α} (h : hasURIScheme value = true) :
    ∃ first more, value.splitOn (chr '/') = first :: [] :: more ∧ more ≠ [] ∧ first ≠ [] := by
  rcases exists_of_hasURIScheme h with ⟨scheme, rest, rfl, hne, hcodes⟩
  have hslash : chr '/' ∉ scheme ++ [chr ':'] := by
    intro hmem
    rcases List.mem_append.1 hmem with hmem | hmem
    · exact ne_chr_of_isSchemeCode (hcodes _ hmem) (c := '/') (by decide) (by decide) rfl
    · simp at hmem
  have hvalue : scheme ++ lit "://" ++ rest =
      (scheme ++ [chr ':']) ++ chr '/' :: ([] ++ chr '/' :: rest) := by
    simp [lit]
  refine ⟨scheme ++ [chr ':'], rest.splitOn (chr '/'), ?_, List.splitOn_ne_nil _ _, by simp⟩
  rw [hvalue, List.splitOn_append_cons_self_of_not_mem hslash,
    List.splitOn_append_cons_self_of_not_mem (by simp)]

theorem nil_not_mem_splitOn_serialize {parts : List (List α)} (h : ∀ part ∈ parts, IsName part) :
    [] ∉ (serialize [] parts).splitOn (chr '/') := by
  have hnil : [] ∉ parts := fun hmem => (h [] hmem).ne_nil rfl
  rw [serialize, if_pos rfl]
  split_ifs with hjoin
  · rw [splitOn_dot]
    simp [lit]
  · have hparts : parts ≠ [] := mt (joinOn_parts_eq_nil_iff h).2 hjoin
    have hsplit := splitOn_joinOn (fun part hpart => (h part hpart).slash_not_mem) hparts
    rw [markRelative]
    split_ifs
    · rw [splitOn_dot_slash, hsplit]
      simp [lit, hnil]
    · rw [hsplit]
      exact hnil

/-- A drive path is no URI unless a second separator follows the drive. -/
theorem hasURIScheme_drive {d : α} {rest : List α} (hd : isLetter d = true)
    (hrest : rest.head? ≠ some (chr '/')) : hasURIScheme (d :: lit ":/" ++ rest) = false := by
  have hslash : chr '/' ∉ [d, chr ':'] := by
    simp [(ne_slash_of_isLetter hd).symm]
  have hsplit : (d :: lit ":/" ++ rest).splitOn (chr '/') =
      [d, chr ':'] :: rest.splitOn (chr '/') :=
    List.splitOn_append_cons_self_of_not_mem hslash rest
  rw [Bool.eq_false_iff]
  intro hscheme
  rcases splitOn_of_hasURIScheme hscheme with ⟨first, more, hsegments, hmore, -⟩
  rw [hsplit] at hsegments
  -- the segment behind the drive would be empty, so its rest would start with a separator
  have hjoin : rest = joinOn (chr '/') ([] :: more) := by
    rw [← (List.cons.inj hsegments).2]
    simp [joinOn]
  rw [hjoin, joinOn_cons_of_ne_nil hmore] at hrest
  exact hrest rfl

/-- A canonical string is never read as a URI. -/
theorem hasURIScheme_render (p : Identity α) : hasURIScheme p.render = false := by
  have hsplits := p.splits_render
  -- a relative path has no empty segment; every other root but a drive starts with a slash
  cases hroot : p.root with
  | relative =>
      have hrender : p.render = serialize [] p.parts := by
        rw [Identity.render, hroot]
        rfl
      rw [Bool.eq_false_iff, hrender]
      intro hscheme
      rcases splitOn_of_hasURIScheme hscheme with ⟨first, more, hsegments, -⟩
      exact nil_not_mem_splitOn_serialize p.parts_valid (by rw [hsegments]; simp)
  | drive d =>
      have hd : isLetter d = true := by
        have hvalid := p.root_valid
        rwa [hroot] at hvalid
      have hrender : p.render = d :: lit ":/" ++ joinOn (chr '/') p.parts := by
        rw [Identity.render, hroot]
        exact serialize_drive d p.parts
      rw [hrender]
      exact hasURIScheme_drive hd (head?_joinOn_ne_slash p.parts_valid)
  | posix =>
      rw [hroot] at hsplits
      rcases hsplits.exists_eq_append with ⟨tail, hvalue, -⟩
      rw [hvalue]
      exact hasURIScheme_slash_cons _
  | unc server share =>
      rw [hroot] at hsplits
      rcases hsplits.exists_eq_append with ⟨tail, hvalue, -⟩
      rw [hvalue]
      exact hasURIScheme_slash_cons _
  | extendedDrive d =>
      rw [hroot] at hsplits
      rcases hsplits.exists_eq_append with ⟨tail, hvalue, -⟩
      rw [hvalue]
      exact hasURIScheme_slash_cons _
  | extendedUNC server share =>
      rw [hroot] at hsplits
      rcases hsplits.exists_eq_append with ⟨tail, hvalue, -⟩
      rw [hvalue]
      exact hasURIScheme_slash_cons _

/-! ## The WSL candidate -/

/-- No policy is requested. -/
def NoPolicies (opts : WindowsOptions) : Prop :=
  opts.rejectADS = false ∧ opts.rejectDeviceNames = false

theorem validateWindowsComponents_of_noPolicies {opts : WindowsOptions} (h : NoPolicies opts)
    (value : List α) : validateWindowsComponents value opts = .ok () :=
  validateWindowsComponents_eq_ok_iff.2 ⟨by simp [h.1], by simp [h.2]⟩

/-- Without policies a candidate is cleaned to its components, and these select a drive unless the
target profile is POSIX. -/
theorem normalizeWSLCandidate_eq {value : List α} (opts : Options α) (hnul : nul ∉ value)
    (hcandidate : isPOSIXMountCandidate value = true) (hpolicies : NoPolicies opts.windows)
    (hprofile : opts.targetProfile ≠ some .posix) :
    normalizeWSLCandidate value opts =
      .ok ((mapWSLDrive (serialize (lit "/") (components value)) opts.wsl).getD
        (serialize (lit "/") (components value))) := by
  rcases prepareNativePOSIX_of_candidate hcandidate with ⟨rest, hrest, hprepare, hcomponents, hmem⟩
  rw [normalizeWSLCandidate, hprepare, Outcome.ok_bind,
    validateWindowsComponents_of_noPolicies hpolicies, Outcome.ok_bind,
    cleanCanonical_slash_cons hrest (fun hx => hnul (hmem _ hx)), Outcome.ok_bind, if_neg hprofile,
    hcomponents]

/-! ## The separator branch -/

theorem backslash_not_mem_toSlashes (value : List α) : chr '\\' ∉ toSlashes value :=
  chr_not_mem_replaceAll (by decide) (by decide) (by decide) value

theorem toSlashes_of_not_mem {value : List α} (h : chr '\\' ∉ value) : toSlashes value = value :=
  replaceAll_of_not_mem h

theorem isURIWindowsDrivePath_double_slash (tail : List α) :
    isURIWindowsDrivePath (chr '/' :: chr '/' :: tail) = false := by
  rw [Bool.eq_false_iff]
  intro h
  rcases isURIWindowsDrivePath_iff.1 h with ⟨tail', htail, hdrive⟩
  rw [← (List.cons.inj htail).2, hasDriveRoot_slash_cons] at hdrive
  exact absurd hdrive (by simp)

theorem isURIWindowsDrivePath_of_hasDriveRoot {value : List α} (h : hasDriveRoot value = true) :
    isURIWindowsDrivePath value = false := by
  rw [Bool.eq_false_iff]
  intro huri
  rcases isURIWindowsDrivePath_iff.1 huri with ⟨tail, rfl, -⟩
  rw [hasDriveRoot_slash_cons] at h
  exact absurd h (by simp)

theorem hasPrefix_extended_of_hasDriveRoot {value : List α} (h : hasDriveRoot value = true) :
    hasPrefix value (lit "//?/") = false :=
  hasPrefix_cons_eq_false (head?_ne_slash_of_hasDriveRoot h)

theorem stripURIDriveSlash_of_not {value : List α} (h : isURIWindowsDrivePath value = false) :
    stripURIDriveSlash value = value := by
  rw [stripURIDriveSlash, if_neg (by simp [h])]

theorem stripURIDriveSlash_slash_cons {value : List α} (h : hasDriveRoot value = true) :
    stripURIDriveSlash (chr '/' :: value) = value := by
  rw [stripURIDriveSlash, if_pos (isURIWindowsDrivePath_iff.2 ⟨value, rfl, h⟩)]
  rfl

theorem hasPrefix_extendedUNC {value : List α} (h : hasPrefix value (lit "//?/UNC/") = true) :
    hasPrefix value (lit "//?/") = true := by
  rcases hasPrefix_iff.1 h with ⟨tail, rfl⟩
  exact hasPrefix_iff.2 ⟨lit "UNC/" ++ tail, rfl⟩

theorem unwrapWindowsExtendedPrefix_of_not {value : List α}
    (h : hasPrefix value (lit "//?/") = false) : unwrapWindowsExtendedPrefix value = value := by
  have hunc : hasPrefix value (lit "//?/UNC/") = false := by
    rw [Bool.eq_false_iff]
    intro hunc
    rw [hasPrefix_extendedUNC hunc] at h
    exact absurd h (by simp)
  rw [unwrapWindowsExtendedPrefix, if_neg (by simp [hunc]), if_neg (by simp [h])]

theorem unwrapWindowsExtendedPrefix_drive {out : List α} (h : hasDriveRoot out = true) :
    unwrapWindowsExtendedPrefix (lit "//?/" ++ out) = out := by
  have hunc : hasPrefix (lit "//?/" ++ out) (lit "//?/UNC/") = false := by
    rcases hasDriveRoot_iff.1 h with ⟨d, rest, -, rfl⟩
    rw [hasPrefix_lit (by decide)]
    simp [lit, Pattern.literal, Pattern.char]
  rw [unwrapWindowsExtendedPrefix, if_neg (by simp [hunc]), if_pos (hasPrefix_append _ _)]
  rfl

theorem unwrapWindowsExtendedPrefix_unc (body : List α) :
    unwrapWindowsExtendedPrefix (lit "//?/UNC/" ++ body) = lit "//" ++ body := by
  rw [unwrapWindowsExtendedPrefix, if_pos (hasPrefix_append _ _)]
  rfl

/-- A value behind the extended prefix has one of the two extended roots. -/
theorem Splits.extended_inv {tail rest : List α} {root : Root α}
    (h : Splits (lit "//?/" ++ tail) root rest) :
    (∃ d, root = .extendedDrive d ∧ tail = d :: lit ":/" ++ rest ∧ isLetter d = true ∧
        chr '\\' ∉ rest) ∨
      ∃ server share tail', root = .extendedUNC server share ∧
        tail = lit "UNC/" ++ (server ++ lit "/" ++ share ++ tail') ∧ IsName server ∧ IsName share ∧
        Remainder tail' rest ∧ chr '\\' ∉ server ++ share ++ rest := by
  have hleads : hasPrefix (lit "//?/" ++ tail) (lit "//?/") = true := hasPrefix_append _ _
  have hslash : (lit "//?/" ++ tail).head? = some (chr '/') := rfl
  -- the index of the relation must be a variable before the case split
  generalize hvalue : lit "//?/" ++ tail = value at h hleads hslash
  cases h with
  | relative hhead =>
      exact absurd hslash hhead
  | posix hhead =>
      have hrest : chr '/' :: lit "?/" ++ tail = rest := (List.cons.inj hvalue).2
      exact absurd (by rw [← hrest]; rfl) hhead
  | drive hd =>
      have hdrive := hasPrefix_extended_of_hasDriveRoot (hasDriveRoot_iff.2 ⟨_, rest, hd, rfl⟩)
      exact absurd (hdrive.symm.trans hleads) (by simp)
  | unc hserver hshare hne =>
      rw [List.append_assoc _ (_ : List α) (_ : List α), hasPrefix_extended_eq_false hserver hne] at hleads
      exact absurd hleads (by simp)
  | extendedDrive hd hrest =>
      rename_i d
      rw [List.append_right_inj] at hvalue
      exact Or.inl ⟨d, rfl, hvalue, hd, hrest⟩
  | extendedUNC hserver hshare htail hclean =>
      rename_i server share tail'
      have htail' : tail = lit "UNC/" ++ (server ++ lit "/" ++ share ++ tail') :=
        List.append_cancel_left (show lit "//?/" ++ tail = lit "//?/" ++ (lit "UNC/" ++
          (server ++ lit "/" ++ share ++ tail')) from hvalue)
      exact Or.inr ⟨server, share, tail', rfl, htail', hserver, hshare, htail, hclean⟩

theorem Splits.extended_cases {tail rest : List α} {root : Root α}
    (h : Splits (lit "//?/" ++ tail) root rest) :
    (∃ d, root = .extendedDrive d ∧ hasDriveRoot tail = true) ∨
      ∃ server share body, root = .extendedUNC server share ∧ tail = lit "UNC/" ++ body := by
  rcases h.extended_inv with ⟨d, hroot, htail, hd, -⟩ | ⟨server, share, tail', hroot, htail, -⟩
  · exact Or.inl ⟨d, hroot, hasDriveRoot_iff.2 ⟨d, rest, hd, htail⟩⟩
  · exact Or.inr ⟨server, share, _, hroot, htail⟩

/-- The ways separator rewriting goes on with a value whose separators are slashes. -/
inductive Rewrites (preserve : Bool) : List α → List α → Prop
  | same {value : List α} :
      isURIWindowsDrivePath value = false →
        (hasPrefix value (lit "//?/") = true →
          preserve = true ∧ ∃ root rest, Splits value root rest) →
        Rewrites preserve value value
  | uriDrive {out : List α} :
      hasDriveRoot out = true → Rewrites preserve (chr '/' :: out) out
  | extendedDrive {out rest : List α} {d : α} :
      preserve = false → Splits (lit "//?/" ++ out) (.extendedDrive d) rest →
        Rewrites preserve (lit "//?/" ++ out) out
  | extendedUNC {body server share rest : List α} :
      preserve = false → Splits (lit "//?/UNC/" ++ body) (.extendedUNC server share) rest →
        Rewrites preserve (lit "//?/UNC/" ++ body) (lit "//" ++ body)

theorem rewriteSeparators_eq_ok_iff_strip {value out : List α} {opts : WindowsOptions} :
    rewriteSeparators value opts = .ok out ↔
      (hasPrefix (toSlashes value) (lit "//?/") = true →
        ∃ root rest, Splits (toSlashes value) root rest) ∧
      out = stripURIDriveSlash (if opts.preserveExtendedLength then toSlashes value
        else unwrapWindowsExtendedPrefix (toSlashes value)) := by
  -- the guard only asks whether the root parser succeeds
  have hsplit : (∃ split, splitRoot (toSlashes value) = .ok split) ↔
      ∃ root rest, Splits (toSlashes value) root rest := by
    constructor
    · rintro ⟨⟨rootPrefix, rest⟩, h⟩
      rcases splitRoot_eq_ok_iff.1 h with ⟨root, hsplits, -⟩
      exact ⟨root, rest, hsplits⟩
    · rintro ⟨root, rest, h⟩
      exact ⟨_, splitRoot_of_splits h⟩
  rw [rewriteSeparators, ← hsplit]
  by_cases hextended : hasPrefix (toSlashes value) (lit "//?/") = true
  · rw [if_pos hextended, Outcome.bind_eq_ok_iff]
    cases hpreserve : opts.preserveExtendedLength with
    | true =>
        simp [hextended, eq_comm (a := out)]
    | false =>
        simp [hextended, eq_comm (a := out)]
  · rw [if_neg hextended]
    cases hpreserve : opts.preserveExtendedLength with
    | true =>
        simp [hextended, eq_comm (a := out)]
    | false =>
        simp [hextended, eq_comm (a := out)]

/-- Behind the extended prefix separator rewriting keeps the root, or cuts one of the two prefixes. -/
theorem rewrites_extended {preserve : Bool} {tail rest : List α} {root : Root α}
    (h : Splits (lit "//?/" ++ tail) root rest) :
    Rewrites preserve (lit "//?/" ++ tail)
      (stripURIDriveSlash (if preserve then lit "//?/" ++ tail
        else unwrapWindowsExtendedPrefix (lit "//?/" ++ tail))) := by
  cases preserve with
  | true =>
      have huri : isURIWindowsDrivePath (lit "//?/" ++ tail) = false :=
        isURIWindowsDrivePath_double_slash _
      rw [if_pos rfl, stripURIDriveSlash_of_not huri]
      exact Rewrites.same huri fun _ => ⟨rfl, root, rest, h⟩
  | false =>
      rw [if_neg (by simp)]
      rcases h.extended_cases with ⟨d, rfl, hdrive⟩ | ⟨server, share, body, rfl, rfl⟩
      · rw [unwrapWindowsExtendedPrefix_drive hdrive,
          stripURIDriveSlash_of_not (isURIWindowsDrivePath_of_hasDriveRoot hdrive)]
        exact Rewrites.extendedDrive rfl h
      · have hvalue : lit "//?/" ++ (lit "UNC/" ++ body) = lit "//?/UNC/" ++ body := rfl
        have huri : isURIWindowsDrivePath (lit "//" ++ body) = false :=
          isURIWindowsDrivePath_double_slash _
        rw [hvalue, unwrapWindowsExtendedPrefix_unc, stripURIDriveSlash_of_not huri]
        exact Rewrites.extendedUNC rfl h

/-- Every other value loses the slash of a drive URI or stays as it is. -/
theorem rewrites_plain {preserve : Bool} {value : List α}
    (h : hasPrefix value (lit "//?/") = false) :
    Rewrites preserve value
      (stripURIDriveSlash (if preserve then value else unwrapWindowsExtendedPrefix value)) := by
  rw [unwrapWindowsExtendedPrefix_of_not h, ite_self]
  by_cases huri : isURIWindowsDrivePath value = true
  · rcases isURIWindowsDrivePath_iff.1 huri with ⟨tail, rfl, hdrive⟩
    rw [stripURIDriveSlash_slash_cons hdrive]
    exact Rewrites.uriDrive hdrive
  · have hnot : isURIWindowsDrivePath value = false := by
      simpa using huri
    rw [stripURIDriveSlash_of_not hnot]
    refine Rewrites.same hnot fun hleads => ?_
    rw [h] at hleads
    exact absurd hleads (by simp)

theorem Rewrites.eq_strip {preserve : Bool} {value out : List α} (h : Rewrites preserve value out) :
    (hasPrefix value (lit "//?/") = true → ∃ root rest, Splits value root rest) ∧
      out = stripURIDriveSlash (if preserve then value else unwrapWindowsExtendedPrefix value) := by
  cases h with
  | same huri hextended =>
      -- without the prefix there is nothing to unwrap, with it nothing is
      have hplain : (if preserve then value else unwrapWindowsExtendedPrefix value) = value := by
        by_cases hleads : hasPrefix value (lit "//?/") = true
        · rw [if_pos (hextended hleads).1]
        · rw [unwrapWindowsExtendedPrefix_of_not (by simpa using hleads), ite_self]
      rw [hplain, stripURIDriveSlash_of_not huri]
      exact ⟨fun hleads => (hextended hleads).2, rfl⟩
  | uriDrive hdrive =>
      have hplain : hasPrefix (chr '/' :: out) (lit "//?/") = false :=
        hasPrefix_cons_cons.trans (hasPrefix_cons_eq_false (head?_ne_slash_of_hasDriveRoot hdrive))
      rw [unwrapWindowsExtendedPrefix_of_not hplain, ite_self, stripURIDriveSlash_slash_cons hdrive,
        hplain]
      exact ⟨by simp, rfl⟩
  | extendedDrive hpreserve hsplits =>
      rcases hsplits.extended_cases with ⟨d, -, hdrive⟩ | ⟨server, share, body, hroot, -⟩
      · rw [hpreserve, if_neg (by simp), unwrapWindowsExtendedPrefix_drive hdrive,
          stripURIDriveSlash_of_not (isURIWindowsDrivePath_of_hasDriveRoot hdrive)]
        exact ⟨fun _ => ⟨_, _, hsplits⟩, rfl⟩
      · exact absurd hroot (by simp)
  | extendedUNC hpreserve hsplits =>
      rename_i body server share rest
      have huri : isURIWindowsDrivePath (lit "//" ++ body) = false :=
        isURIWindowsDrivePath_double_slash _
      rw [hpreserve, if_neg (by simp), unwrapWindowsExtendedPrefix_unc, stripURIDriveSlash_of_not huri]
      exact ⟨fun _ => ⟨_, _, hsplits⟩, rfl⟩

/-- `Rewrites` lists everything that separator rewriting does. -/
theorem rewriteSeparators_eq_ok_iff {value out : List α} {opts : WindowsOptions} :
    rewriteSeparators value opts = .ok out ↔
      Rewrites opts.preserveExtendedLength (toSlashes value) out := by
  rw [rewriteSeparators_eq_ok_iff_strip]
  constructor
  · rintro ⟨hextended, rfl⟩
    by_cases hleads : hasPrefix (toSlashes value) (lit "//?/") = true
    · rcases hextended hleads with ⟨root, rest, hsplits⟩
      rcases hasPrefix_iff.1 hleads with ⟨tail, htail⟩
      rw [htail] at hsplits ⊢
      exact rewrites_extended hsplits
    · exact rewrites_plain (by simpa using hleads)
  · exact Rewrites.eq_strip

/-! ## Raw runs -/

/-- A raw host reads input that is no URI as a mount candidate or rewrites its separators. -/
theorem interpretHost_of_not_scheme {parseURI : URIOptions → List α → Except PathError (List α)}
    {raw : List α} {opts : Options α} (hhost : HostKind.IsRaw opts.sourceHost)
    (hpath : uriPath parseURI raw opts = .ok raw) (huri : hasURIScheme raw = false) :
    interpretHost parseURI raw opts =
      if opts.wsl.enabled && isPOSIXMountCandidate raw then
        normalizeWSLCandidate raw opts
      else
        rewriteSeparators raw opts.windows := by
  rw [interpretHost_raw hhost, normalizeRawInput, hpath, Outcome.ok_bind, huri, Bool.false_and,
    Bool.not_false, Bool.and_true]

/-- A raw run on input that is no URI. -/
theorem normalizeWith_raw_eq_ok_iff {parseURI : URIOptions → List α → Except PathError (List α)}
    {raw p : List α} {opts : Options α} (hhost : HostKind.IsRaw opts.sourceHost)
    (hpath : uriPath parseURI raw opts = .ok raw) (huri : hasURIScheme raw = false) :
    normalizeWith parseURI raw opts = .ok p ↔
      raw ≠ [] ∧ nul ∉ raw ∧ ∃ mountRoot, normalizeMountRoot opts.wsl.mountRoot = .ok mountRoot ∧
        ∃ value,
          (if opts.wsl.enabled && isPOSIXMountCandidate raw then
            normalizeWSLCandidate raw (opts.withMountRoot mountRoot)
          else
            rewriteSeparators raw opts.windows) = .ok value ∧
          checkAndClean value opts = .ok p := by
  have hinterpret (mountRoot : List α) :
      interpretHost parseURI raw (opts.withMountRoot mountRoot) =
        if opts.wsl.enabled && isPOSIXMountCandidate raw then
          normalizeWSLCandidate raw (opts.withMountRoot mountRoot)
        else
          rewriteSeparators raw opts.windows := by
    have hhost' : HostKind.IsRaw (opts.withMountRoot mountRoot).sourceHost := hhost
    exact interpretHost_of_not_scheme hhost' hpath huri
  have hmode : ¬(opts.sourceHost = some .posix ∧ opts.wsl.enabled = true) := fun h => hhost.1 h.1
  rw [normalizeWith_eq_ok_iff]
  simp only [hinterpret]
  constructor
  · rintro ⟨hne, hnul, mountRoot, hmount, -, value, hvalue, hclean⟩
    exact ⟨hne, hnul, mountRoot, hmount, value, hvalue, hclean⟩
  · rintro ⟨hne, hnul, mountRoot, hmount, value, hvalue, hclean⟩
    exact ⟨hne, hnul, mountRoot, hmount, hmode, value, hvalue, hclean⟩

/-- A raw run whose path takes the separator branch. -/
theorem normalizeWith_separators_eq {parseURI : URIOptions → List α → Except PathError (List α)}
    {raw path mountRoot : List α} {opts : Options α} (hhost : HostKind.IsRaw opts.sourceHost)
    (hne : raw ≠ []) (hnul : nul ∉ raw)
    (hmount : normalizeMountRoot opts.wsl.mountRoot = .ok mountRoot)
    (hpath : uriPath parseURI raw opts = .ok path) (hwsl : opts.wsl.enabled = false) :
    normalizeWith parseURI raw opts =
      (rewriteSeparators path opts.windows >>= fun value => checkAndClean value opts) := by
  have hmode : ¬(opts.sourceHost = some .posix ∧ opts.wsl.enabled = true) := fun h => hhost.1 h.1
  have hhost' : HostKind.IsRaw (opts.withMountRoot mountRoot).sourceHost := hhost
  have hpath' : uriPath parseURI raw (opts.withMountRoot mountRoot) = .ok path := hpath
  have hwsl' : (opts.withMountRoot mountRoot).wsl.enabled = false := hwsl
  rw [normalizeWith_eq hne hnul hmount hmode, interpretHost_raw hhost', normalizeRawInput, hpath',
    Outcome.ok_bind, hwsl']
  rfl

theorem uriPath_of_none {parseURI : URIOptions → List α → Except PathError (List α)}
    {raw : List α} {opts : Options α} (hhost : opts.sourceHost ≠ some .vscodeFileURI)
    (huri : hasURIScheme raw = false) : uriPath parseURI raw opts = .ok raw := by
  have hvscode : (opts.sourceHost == some .vscodeFileURI) = false := by
    rwa [beq_eq_false_iff_ne]
  rw [uriPath, huri, hvscode]
  rfl

/-! ## Separator rewriting of canonical strings -/

theorem hasDriveRoot_joinOn_iff {parts : List (List α)} (h : ∀ part ∈ parts, IsName part) :
    hasDriveRoot (joinOn (chr '/') parts) = true ↔
      ∃ d next more, isLetter d = true ∧ parts = [d, chr ':'] :: next :: more := by
  have hslash {d : α} (hd : isLetter d = true) : chr '/' ∉ [d, chr ':'] := by
    simp [(ne_slash_of_isLetter hd).symm]
  constructor
  · intro hdrive
    rcases hasDriveRoot_iff.1 hdrive with ⟨d, rest, hd, hjoin⟩
    -- the drive and its slash are cut off at a component boundary
    have hcut : joinOn (chr '/') parts = joinOn (chr '/') [[d, chr ':']] ++ chr '/' :: rest := by
      simpa [joinOn] using hjoin
    rcases (joinOn_eq_append_cons_iff (fun part hpart => (h part hpart).slash_not_mem)
      (by simpa using hslash hd) (by simp)).1 hcut with ⟨below, hbelow, hsplit, -⟩
    cases below with
    | nil =>
        exact absurd rfl hbelow
    | cons next more =>
        exact ⟨d, next, more, hd, hsplit⟩
  · rintro ⟨d, next, more, hd, rfl⟩
    exact hasDriveRoot_iff.2 ⟨d, joinOn (chr '/') (next :: more), hd,
      joinOn_cons_of_ne_nil (by simp) [d, chr ':']⟩

/-- The canonical strings that separator rewriting changes: preserved roots that it unwraps, and
POSIX paths that it reads as the path of a drive URI. -/
def Rewritten (preserve : Bool) (p : Identity α) : Prop :=
  (preserve = false ∧ p.root.isExtended = true) ∨
    (p.root = .posix ∧ hasDriveRoot (joinOn (chr '/') p.parts) = true)

theorem isURIWindowsDrivePath_render {p : Identity α} :
    isURIWindowsDrivePath p.render = true ↔
      p.root = .posix ∧ hasDriveRoot (joinOn (chr '/') p.parts) = true := by
  rw [isURIWindowsDrivePath_iff]
  constructor
  · rintro ⟨tail, hrender, hdrive⟩
    have hhead := head?_ne_slash_of_hasDriveRoot hdrive
    have hsplits := p.splits_render
    -- one slash in front of a drive: no other root is spelled like this
    have hposix : Splits p.render .posix tail := hrender ▸ Splits.posix hhead
    have hbody : p.body = tail := (hsplits.rest_eq hposix).2
    have hroot : p.root = .posix := hsplits.root_eq_posix_iff.2 (by rw [hbody]; exact ⟨hrender, hhead⟩)
    have hjoin : p.body = joinOn (chr '/') p.parts := by
      rw [Identity.body, hroot]
      rfl
    exact ⟨hroot, by rw [← hjoin, hbody]; exact hdrive⟩
  · rintro ⟨hroot, hdrive⟩
    refine ⟨_, ?_, hdrive⟩
    rw [Identity.render, hroot]
    exact serialize_posix p.parts

theorem Splits.isAbsolute_of {value rest : List α} {root : Root α} (h : Splits value root rest)
    (hroot : value.head? = some (chr '/') ∨ hasDriveRoot value = true) : root.isAbsolute = true := by
  cases h with
  | relative hhead hmarker =>
      rcases hroot with hslash | hdrive
      · exact absurd hslash hhead
      · rw [hasDriveRoot_eq_false_of_marker hmarker] at hdrive
        exact absurd hdrive (by simp)
  | posix =>
      rfl
  | drive =>
      rfl
  | unc =>
      rfl
  | extendedDrive =>
      rfl
  | extendedUNC =>
      rfl

/-- Separator rewriting hands a value through, or it comes out shorter behind an absolute root. -/
theorem Rewrites.eq_or_shorter {preserve : Bool} {value out : List α}
    (h : Rewrites preserve value out) :
    (out = value ∧ isURIWindowsDrivePath value = false ∧
        (hasPrefix value (lit "//?/") = true → preserve = true)) ∨
      (out.length < value.length ∧
        ∀ root rest, Splits out root rest → root.isAbsolute = true) := by
  cases h with
  | same huri hextended =>
      exact Or.inl ⟨rfl, huri, fun hleads => (hextended hleads).1⟩
  | uriDrive hdrive =>
      exact Or.inr ⟨by simp, fun root rest hsplits => hsplits.isAbsolute_of (Or.inr hdrive)⟩
  | extendedDrive hpreserve hsplits =>
      refine Or.inr ⟨by simp [lit]; omega, fun root rest hout => ?_⟩
      rcases hsplits.extended_cases with ⟨d, -, hdrive⟩ | ⟨server, share, body, hroot, -⟩
      · exact hout.isAbsolute_of (Or.inr hdrive)
      · exact absurd hroot (by simp)
  | extendedUNC hpreserve hsplits =>
      exact Or.inr ⟨by simp [lit], fun root rest hout => hout.isAbsolute_of (Or.inl rfl)⟩

/-- A canonical string that separator rewriting has no piece to take from is handed through. -/
theorem rewrites_render {preserve : Bool} {p : Identity α} (h : ¬Rewritten preserve p) :
    Rewrites preserve p.render p.render := by
  rw [Rewritten, not_or] at h
  refine Rewrites.same ?_ fun hleads => ?_
  · rw [Bool.eq_false_iff, Ne, isURIWindowsDrivePath_render]
    exact h.2
  · rw [p.splits_render.hasPrefix_extended] at hleads
    refine ⟨?_, p.root, p.body, p.splits_render⟩
    rw [← Bool.not_eq_false]
    exact fun hpreserve => h.1 ⟨hpreserve, hleads⟩

/-- What separator rewriting makes of the others is never cleaned to the same string again. -/
theorem cleanCanonical_ne_of_rewritten {preserve : Bool} {p : Identity α} {out : List α}
    (hrewritten : Rewritten preserve p) (h : Rewrites preserve p.render out) :
    cleanCanonical out ≠ .ok p.render := by
  intro hclean
  rcases h.eq_or_shorter with ⟨-, huri, hextended⟩ | ⟨hshorter, habs⟩
  · rcases hrewritten with ⟨hpreserve, hroot⟩ | hdrive
    · rw [p.splits_render.hasPrefix_extended, hroot, hpreserve] at hextended
      exact absurd (hextended rfl) (by simp)
    · rw [isURIWindowsDrivePath_render.2 hdrive] at huri
      exact absurd huri (by simp)
  · rcases cleanCanonical_eq_ok_iff.1 hclean with ⟨-, -, root, rest, parts, hsplits, hresolve, hrender⟩
    -- a shortened value behind an absolute root is cleaned to something shorter still
    have hle := length_serialize_le hsplits (habs root rest hsplits) hresolve
    rw [← hrender] at hle
    omega

end CanonicalPath
