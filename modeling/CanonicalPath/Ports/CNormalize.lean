import CanonicalPath.Ports.CGrammar
import Mathlib.Data.List.Chain

/-!
# C normalize — `canonicalpath_normalize_n` returns what Go returns

The policies, the target profiles, the WSL mapping and the branches of `C.Normalize`, followed like the
grammar in `CGrammar`, and the two programs side by side.

* `checkWindows_refines`, `validateTargetProfile_refines` : policies and profiles
* `mapWslDrive_yields` : the mount root is trimmed and collapsed again, which changes nothing
* `normalizeN_refines` : the whole run, on input without `://`
-/

namespace CanonicalPath

namespace Ports

namespace C

open CodeUnit Segments Outcome CString

variable {p q : C.Chars} {s t : Bytes}

/-! ## Options -/

/-- A pointer to a string, where null stands for the empty one. -/
def SpelledOrNull (p : Option C.Chars) (s : Bytes) : Prop :=
  match p with
  | none => s = []
  | some p => Spells p s

theorem equals_eq {p : Option C.Chars} (h : SpelledOrNull p s) {text : String} (htext : 0 ∉ (lit text : Bytes)) :
    C.equals p (literal (lit text)) = some (decide (s = lit text)) := by
  have hvalue : Spells (p.getD (literal [])) s := by
    cases p with
    | none =>
        rw [show s = [] from h]
        exact spells_nil
    | some p =>
        exact h
  exact strcmpEq_lit hvalue htext

/-- The Go value of a source host string. -/
def hostOf (text : Bytes) : Option HostKind :=
  if text = [] then none
  else if text = lit "posix" then some .posix
  else if text = lit "canonical" then some .canonical
  else if text = lit "win32" then some .win32
  else if text = lit "wsl" then some .wsl
  else if text = lit "vscode-file-uri" then some .vscodeFileURI
  else if text = lit "dev-container" then some .devContainer
  else if text = lit "ssh-remote" then some .sshRemote
  else some (.other (String.ofList (text.map fun b => Char.ofNat b.toNat)))

/-- The Go value of a target profile string. -/
def profileOf (text : Bytes) : Option TargetProfile :=
  if text = [] then none
  else if text = lit "portable" then some .portable
  else if text = lit "posix" then some .posix
  else if text = lit "win32-drive" then some .win32Drive
  else some (.other (String.ofList (text.map fun b => Char.ofNat b.toNat)))

theorem hostOf_posix_iff (text : Bytes) : hostOf text = some .posix ↔ text = lit "posix" := by
  rw [hostOf]
  split_ifs with hnil hposix
  all_goals simp_all [lit]

theorem hostOf_canonical_iff (text : Bytes) : hostOf text = some .canonical ↔ text = lit "canonical" := by
  rw [hostOf]
  split_ifs with hnil hposix hcanonical
  all_goals simp_all [lit]

theorem profileOf_posix_iff (text : Bytes) : profileOf text = some .posix ↔ text = lit "posix" := by
  rw [profileOf]
  split_ifs with hnil hportable hposix
  all_goals simp_all [lit]

/-! ## Target profiles -/

theorem isWindowsRoot_eq (h : Spells p s) : C.isWindowsRoot p = some (Go.isWindowsRoot s) := by
  obtain ⟨a, ha, hiff⟩ := charAt_zero_iff h
  have hnil : (a != 0) = (s != []) := by
    rw [Bool.eq_iff_iff, bne_iff_ne, bne_iff_ne, ne_eq, hiff]
  rw [C.isWindowsRoot, ha, strcmpEq_lit h (by decide), Option.map_some, Option.map_some, some_and_some, hnil,
    Go.isWindowsRoot]
  by_cases hslash : s = lit "/"
  · simp [hslash]
  · simp [hslash]

theorem isDriveRoot_eq (h : Spells p s) : C.isDriveRoot p = some (Go.isDriveRoot s) := by
  rw [C.isDriveRoot, hasDriveRoot_eq h, startsWith_lit h (by decide), Go.isDriveRoot]
  by_cases hext : Go.hasPrefix s (lit "//?/") = true
  · obtain ⟨tail, rfl⟩ := Go.hasPrefix_iff.1 hext
    have htail : Spells (p.drop 4) tail := Spells.drop (s := lit "//?/") h
    have hadvance : advance p 4 = some (p.drop 4) := Spells.advance (s := lit "//?/") h
    have hdrop : (lit "//?/" ++ tail).drop 4 = tail := rfl
    rw [hadvance, some_bind, hasDriveRoot_eq htail, some_and_some, some_or_some, hdrop]
  · rw [Bool.eq_false_iff.2 hext, some_and, if_neg (by simp), some_or_some, Bool.false_and]

/-- What Go tests of a parsed root. -/
def acceptsRoot (root : Bytes) : Option TargetProfile → Bool
  | none => true
  | some .portable => true
  | some .posix => !Go.isWindowsRoot root
  | some .win32Drive => root != lit "/" && (!Go.isWindowsRoot root || Go.isDriveRoot root)
  | some (.other _) => false

theorem acceptsProfile_eq {profile : Option C.Chars} (h : Spells p s) (hprofile : SpelledOrNull profile t) :
    C.acceptsProfile p profile = some (acceptsRoot s (profileOf t)) := by
  cases profile with
  | none =>
      rw [show t = [] from hprofile]
      rfl
  | some profile =>
      obtain ⟨a, ha, hiff⟩ := charAt_zero_iff hprofile
      have hnil : (a == 0) = (t == []) := by
        rw [Bool.eq_iff_iff, beq_iff_eq, beq_iff_eq, hiff]
      have hdecide (x y : Bytes) : decide (x = y) = (x == y) := by
        rw [Bool.eq_iff_iff, decide_eq_true_eq, beq_iff_eq]
      rw [C.acceptsProfile]
      simp only [ha, Option.map_some, hnil, strcmpEq_lit hprofile (by decide : (0 : UInt8) ∉ lit "portable"),
        strcmpEq_lit hprofile (by decide : (0 : UInt8) ∉ lit "posix"),
        strcmpEq_lit hprofile (by decide : (0 : UInt8) ∉ lit "win32-drive"),
        strcmpEq_lit h (by decide : (0 : UInt8) ∉ lit "/"), isWindowsRoot_eq h, isDriveRoot_eq h, some_and_some,
        some_or_some, hdecide]
      rw [profileOf]
      split_ifs with hempty hportable hposix hdrive
      · simp [hempty, acceptsRoot]
      · simp [hportable, acceptsRoot]
      · simp [hposix, acceptsRoot, lit]
      · simp [hdrive, acceptsRoot, lit, bne]
      · simp [hempty, hportable, hposix, hdrive, acceptsRoot]

theorem validateTargetProfile_refines {profile : Option C.Chars} (h : Spells p s)
    (hprofile : SpelledOrNull profile t) :
    Refines (fun _ _ => True) (Go.validateTargetProfile s (profileOf t)) (C.validateTargetProfile p profile) := by
  rw [Go.validateTargetProfile, C.validateTargetProfile]
  refine (splitRootParse_refines h).bind fun split root _ hroot => ?_
  rw [acceptsProfile_eq hroot.1 hprofile, lift_bind]
  have haccepted : Refines (fun _ _ => True) (Except.ok ()) (pure () : C.Run Unit) := Refines.pure trivial
  cases profileOf t with
  | none =>
      exact haccepted
  | some kind =>
      cases kind with
      | portable =>
          exact haccepted
      | posix =>
          by_cases hwindows : Go.isWindowsRoot split.1 = true
          · have hrefused : ¬acceptsRoot split.1 (some .posix) = true := by
              simp [acceptsRoot, hwindows]
            rw [if_neg hrefused]
            simp only [if_pos hwindows]
            exact Refines.fail
          · have haccepts : acceptsRoot split.1 (some .posix) = true := by
              simp [acceptsRoot, hwindows]
            rw [if_pos haccepts]
            simp only [if_neg hwindows]
            exact haccepted
      | win32Drive =>
          have hnegated : (split.1 = lit "/" ∨ (Go.isWindowsRoot split.1 && !Go.isDriveRoot split.1) = true) ↔
              ¬acceptsRoot split.1 (some .win32Drive) = true := by
            rw [acceptsRoot]
            by_cases hslash : split.1 = lit "/"
            · simp [hslash]
            · simp [hslash]
          simp only [hnegated]
          by_cases haccepts : acceptsRoot split.1 (some .win32Drive) = true
          · rw [if_neg (not_not_intro haccepts), if_pos haccepts]
            exact haccepted
          · rw [if_pos haccepts, if_neg haccepts]
            exact Refines.fail
      | other name =>
          exact Refines.fail

/-! ## Device names -/

theorem upperBase_eq (h : Holds p s) {k : Nat} (hk : k ≤ s.length) (hlen : s.length ≤ 4) :
    (List.range k).foldlM (fun out i => do store out i (upper (← C.charAt p i))) (malloc 5) =
      some (filled (((s.take k).map upper).map some) 5) := by
  induction k with
  | zero =>
      rfl
  | succ k ih =>
      obtain ⟨a, ha⟩ : ∃ a, s[k]? = some a := ⟨s[k], List.getElem?_eq_getElem (by omega)⟩
      have hload : C.charAt p k = some a := h.load ha
      have htake : s.take (k + 1) = s.take k ++ [a] := by
        rw [List.take_add_one, ha]
        rfl
      have hlength : ((s.take k).map upper).length = k := by
        rw [List.length_map, List.length_take]
        omega
      rw [List.range_succ, List.foldlM_append, ih (by omega), some_bind, htake, List.map_append]
      simp only [List.foldlM_cons, List.foldlM_nil, hload, some_bind]
      rw [store_more hlength.symm (by omega)]
      rfl

/-- The numbered ports, on the array that holds the base. -/
theorem isReservedPort_eq (h : Spells p s) :
    (some (s.length == 4) <&&> (strncmpEq 3 p (literal (lit "COM")) <||> strncmpEq 3 p (literal (lit "LPT")))
      <&&> (C.charAt p 3).map (fun digit => decide ('1'.toNat ≤ code digit))
      <&&> (C.charAt p 3).map (fun digit => decide (code digit ≤ '9'.toNat))) =
      some (Go.isReservedPort s) := by
  have hcom : strncmpEq 3 p (literal (lit "COM")) = some ((lit "COM" : Bytes).isPrefixOf s) :=
    strncmpEq_of_spells (t := lit "COM") h (literal_spells (by decide))
  have hlpt : strncmpEq 3 p (literal (lit "LPT")) = some ((lit "LPT" : Bytes).isPrefixOf s) :=
    strncmpEq_of_spells (t := lit "LPT") h (literal_spells (by decide))
  rw [hcom, hlpt]
  match s with
  | [] => rfl
  | [a] => rfl
  | [a, b] => rfl
  | [a, b, c] => rfl
  | [a, b, c, digit] =>
      have hload : C.charAt p 3 = some digit := h.load rfl
      have hstem (stem : String) (x y z : Char) (hstem : stem.toList = [x, y, z]) :
          (lit stem : Bytes).isPrefixOf [a, b, c, digit] = ([a, b, c] == lit stem) := by
        rw [Bool.eq_iff_iff, List.isPrefixOf_iff_prefix, beq_iff_eq, lit, hstem]
        simp only [List.map_cons, List.map_nil, List.cons_prefix_cons, List.nil_prefix, and_true,
          List.cons.injEq]
        exact ⟨fun h => ⟨h.1.symm, h.2.1.symm, h.2.2.symm⟩, fun h => ⟨h.1.symm, h.2.1.symm, h.2.2.symm⟩⟩
      rw [hload, hstem "COM" 'C' 'O' 'M' rfl, hstem "LPT" 'L' 'P' 'T' rfl]
      simp only [Option.map_some, some_or_some, some_and_some, Go.isReservedPort]
      rfl
  | a :: b :: c :: d :: x :: more => simp [Go.isReservedPort]

theorem zero_not_mem_map_upper (h : 0 ∉ s) : 0 ∉ s.map upper := by
  intro hmem
  obtain ⟨a, ha, hupper⟩ := List.mem_map.1 hmem
  have hcode : code (upper a) = 0 := by
    rw [hupper]
    rfl
  rw [code_upper] at hcode
  split_ifs at hcode
  · omega
  · have hzero : a = 0 := CodeUnit.code_injective hcode
    exact h (hzero ▸ ha)

theorem isReservedDeviceBase_eq (h : Holds p s) (hzero : 0 ∉ s) :
    C.isReservedDeviceBase p s.length = some (Go.isReservedDeviceBase (s.map upper)) := by
  rw [C.isReservedDeviceBase]
  by_cases hlen : s.length > 4
  · have hlong : Go.isReservedDeviceBase (s.map upper) = false := by
      match s, hlen with
      | a :: b :: c :: d :: x :: more, _ => simp [Go.isReservedDeviceBase, Go.isReservedPort, lit]
    rw [if_pos hlen, hlong]
    rfl
  · have hfilled := upperBase_eq h (Nat.le_refl _) (by omega)
    rw [List.take_length] at hfilled
    have hout : Spells (filled (literal (s.map upper)) 5) (s.map upper) :=
      filled_literal_spells (zero_not_mem_map_upper hzero) 5
    have hend : store (filled ((s.map upper).map some) 5) s.length 0 = some (filled (literal (s.map upper)) 5) :=
      store_filled (by simp) (by simp; omega)
    have hport := isReservedPort_eq hout
    rw [List.length_map] at hport
    rw [if_neg hlen, C.upperBase, hfilled, some_bind, hend, some_bind, hport,
      strcmpEq_lit hout (by decide), strcmpEq_lit hout (by decide), strcmpEq_lit hout (by decide),
      strcmpEq_lit hout (by decide), some_or_some, some_or_some, some_or_some, some_or_some, Go.isReservedDeviceBase,
      ← Bool.decide_or, ← Bool.decide_or, ← Bool.decide_or]
    split_ifs with hname
    · rw [decide_eq_true hname, Bool.true_or]
    · rw [decide_eq_false hname, Bool.false_or]

/-- The base ends at the first dot or colon. -/
theorem baseLen_eq (h : Holds p s) : C.baseLen s.length p = some (Go.deviceBase s).length := by
  induction s generalizing p with
  | nil =>
      rfl
  | cons a s ih =>
      have hload : C.charAt p 0 = some a := h.load rfl
      have hrest : Holds (p.drop 1) s := Holds.drop (s := [a]) h
      have hcons : Go.deviceBase (a :: s) = if a = chr '.' ∨ a = chr ':' then [] else a :: Go.deviceBase s := by
        rw [Go.deviceBase, List.takeWhile_cons]
        by_cases hdot : a = chr '.'
        · simp [hdot]
        · by_cases hcolon : a = chr ':'
          · simp [hcolon]
          · simp [hdot, hcolon, Go.deviceBase]
      rw [List.length_cons, C.baseLen, hload, some_bind, ih hrest, hcons]
      split_ifs <;> rfl

theorem holds_deviceBase (h : Holds p s) : Holds p (Go.deviceBase s) := by
  rw [← List.takeWhile_append_dropWhile (p := fun a => a != chr '.' && a != chr ':') (l := s)] at h
  exact h.of_append

/-- The tests of one turn. -/
theorem devicePart_eq (h : Holds p s) (hzero : 0 ∉ s) :
    (some (decide (s.length > 0)) <&&> (C.isDot p s.length).map (!·) <&&> (C.isDotDot p s.length).map (!·)
      <&&> do C.isReservedDeviceBase p (← C.baseLen s.length p)) = some (Go.isReservedDevicePart s) := by
  have hzeroBase : 0 ∉ Go.deviceBase s := fun hmem => hzero (List.takeWhile_subset _ hmem)
  rw [isDot_eq h, isDotDot_eq h, baseLen_eq h, some_bind, isReservedDeviceBase_eq (holds_deviceBase h) hzeroBase,
    Go.isReservedDevicePart]
  simp only [Option.map_some, some_and_some, List.length_pos_iff]
  by_cases hnil : s = []
  · simp [hnil]
  · by_cases hdot : s = lit "."
    · simp [hdot]
    · by_cases hdotdot : s = lit ".."
      · simp [hdotdot]
      · simp [hnil, hdot, hdotdot]

theorem deviceLoop_eq {fuel : Nat} (h : Spells p s) (hfuel : s.length < fuel) :
    C.deviceLoop fuel p = some ((s.splitOn (chr '/')).any Go.isReservedDevicePart) := by
  induction fuel generalizing p s with
  | zero =>
      exact absurd hfuel (Nat.not_lt_zero _)
  | succ fuel ih =>
      rw [C.deviceLoop]
      cases hcut : cut (chr '/') s with
      | none =>
          have hmem := cut_eq_none_iff.1 hcut
          rw [strchr_last hmem h, some_bind, C.componentLen, strlen_of_spells h, some_bind,
            devicePart_eq h.holds.of_append h.zero_not_mem, some_bind, List.splitOn_eq_singleton hmem,
            List.any_cons, List.any_nil, Bool.or_false]
          split_ifs with hreserved
          · rw [hreserved]
            rfl
          · rw [Bool.eq_false_iff.2 hreserved]
            rfl
      | some halves =>
          obtain ⟨part, more⟩ := halves
          obtain ⟨rfl, hpart⟩ := cut_eq_some_iff.1 hcut
          have hzero : 0 ∉ part := fun hmem => h.zero_not_mem (List.mem_append_left _ hmem)
          obtain ⟨q, hadvance, hmore⟩ := advance_component h
          rw [strchr_component hpart h, some_bind, C.componentLen, some_bind,
            devicePart_eq h.holds.of_append.of_append hzero, some_bind,
            List.splitOn_append_cons_self_of_not_mem hpart, List.any_cons]
          split_ifs with hreserved
          · rw [hreserved]
            rfl
          · rw [Bool.eq_false_iff.2 hreserved, Bool.false_or]
            simp only [hadvance, some_bind]
            refine ih hmore ?_
            simp at hfuel
            omega

/-! ## Policies -/

theorem hasWindowsAds_eq (h : Spells p s) : C.hasWindowsAds p = some (Go.hasWindowsADS s) := by
  obtain ⟨result, hrun, hrel⟩ := splitRootParse_refines h
  rw [C.hasWindowsAds, hrun, some_bind, Go.hasWindowsADS]
  generalize Go.splitRoot s = split at hrel ⊢
  cases hrel with
  | @ok split root hroot =>
      simp only
      rw [strchr_of_spells (by decide) hroot.2]
      by_cases hmem : chr ':' ∈ split.2
      · simp [hmem]
      · simp [hmem]
  | error hcode =>
      rfl

theorem hasReservedDeviceName_eq (h : Spells p s) :
    C.hasReservedDeviceName p = some (Go.hasReservedDeviceName s) := by
  obtain ⟨result, hrun, hrel⟩ := splitRootParse_refines h
  rw [C.hasReservedDeviceName, hrun, some_bind, Go.hasReservedDeviceName]
  generalize Go.splitRoot s = split at hrel ⊢
  cases hrel with
  | ok hroot =>
      exact deviceLoop_eq hroot.2 hroot.2.length_lt
  | error hcode =>
      rfl

/-- The Windows settings of the two records. -/
structure SameWindows (options : C.WindowsOptions) (opts : Go.WindowsOptions) : Prop where
  preserve_eq : opts.preserveExtendedLength = (options.preserveExtendedLength != 0)
  devices_eq : opts.rejectDeviceNames = (options.rejectDeviceNames != 0)
  ads_eq : opts.rejectADS = (options.rejectAds != 0)

theorem checkWindows_refines {options : C.WindowsOptions} {opts : Go.WindowsOptions}
    (hsame : SameWindows options opts) (h : Spells p s) :
    Refines (fun _ _ => True) (Go.validateWindowsComponents s opts) (C.checkWindows p options) := by
  rw [Go.validateWindowsComponents, C.checkWindows, hasWindowsAds_eq h, hasReservedDeviceName_eq h, some_and_some,
    some_and_some, lift_bind, lift_bind, hsame.ads_eq, hsame.devices_eq]
  split_ifs
  · exact Refines.fail
  · exact Refines.fail
  · exact Refines.pure trivial

/-! ## WSL mounts -/

/-- No two separators follow each other. -/
def NoDouble (s : Bytes) : Prop :=
  s.IsChain fun a b => ¬(a = chr '/' ∧ b = chr '/')

theorem noDouble_cons (a : UInt8) {s : Bytes} (h : chr '/' ∉ s) : NoDouble (a :: s) := by
  induction s generalizing a with
  | nil =>
      exact List.isChain_singleton a
  | cons b s ih =>
      rw [List.mem_cons, not_or] at h
      refine List.isChain_cons_cons.2 ⟨?_, ih b h.2⟩
      rintro ⟨-, rfl⟩
      exact h.1 rfl

theorem noDouble_pieces {parts : List Bytes} (h : ∀ part ∈ parts, IsName part) : NoDouble (pieces true parts) := by
  induction parts with
  | nil =>
      exact List.isChain_nil
  | cons part parts ih =>
      have hpart : IsName part := h part (by simp)
      have hrest : NoDouble (pieces true parts) := ih fun part' hpart' => h part' (by simp [hpart'])
      have hcomponent : NoDouble (chr '/' :: part) := noDouble_cons _ hpart.slash_not_mem
      refine List.IsChain.append hcomponent hrest fun x hx y _ => ?_
      rintro ⟨rfl, -⟩
      -- the last character of a component is no separator
      change chr '/' ∈ (chr '/' :: part).getLast? at hx
      rw [List.getLast?_cons_of_ne_nil hpart.ne_nil] at hx
      exact hpart.slash_not_mem (List.mem_of_getLast? hx)

theorem NoDouble.not_slash {s : Bytes} (h : NoDouble s) {i : Nat} (hi : s[i]? = some (chr '/')) :
    s[i + 1]? ≠ some (chr '/') := by
  intro hnext
  obtain ⟨hlt, hget⟩ := List.getElem?_eq_some_iff.1 hi
  obtain ⟨hlt', hget'⟩ := List.getElem?_eq_some_iff.1 hnext
  exact List.isChain_iff_getElem.1 h i hlt' ⟨hget, hget'⟩

/-- The collapse loop writes every character to its own place. -/
theorem collapseLoop_eq (h : Spells p s) (hsingle : NoDouble s) {fuel i : Nat} (hi : i ≤ s.length)
    (hfuel : s.length < i + fuel) : C.collapseLoop fuel p i i = some (p, s.length) := by
  induction fuel generalizing i with
  | zero =>
      omega
  | succ fuel ih =>
      rw [C.collapseLoop]
      by_cases hend : i = s.length
      · have hload : C.charAt p i = some 0 := by
          rw [hend]
          exact h.load_end
        rw [hload, some_bind, if_pos rfl, hend]
        rfl
      · obtain ⟨a, ha⟩ : ∃ a, s[i]? = some a := ⟨s[i], List.getElem?_eq_getElem (by omega)⟩
        have hload : C.charAt p i = some a := h.load ha
        have hzero : ¬a = 0 := by
          rintro rfl
          exact h.zero_not_mem (List.mem_of_getElem? ha)
        -- what is written is what is there already
        have hstore : store p i a = some p := h.holds.of_append.store_same ha
        have hkeep : (some (a != chr '/') <||> some (i == 0) <||> (C.charAt p (i - 1)).map (· != chr '/')) =
            some true := by
          by_cases hslash : a = chr '/'
          · by_cases hfirst : i = 0
            · simp [hfirst]
            · obtain ⟨b, hb⟩ : ∃ b, s[i - 1]? = some b := ⟨s[i - 1], List.getElem?_eq_getElem (by omega)⟩
              have hprevious : C.charAt p (i - 1) = some b := h.load hb
              have hne : b ≠ chr '/' := by
                rintro rfl
                apply hsingle.not_slash hb
                rw [Nat.sub_add_cancel (Nat.pos_of_ne_zero hfirst), ha, hslash]
              simp [hprevious, hslash, hfirst, hne]
          · simp [hslash]
        rw [hload, some_bind, if_neg hzero, hkeep, some_bind, if_pos rfl, hstore, some_bind]
        exact ih (by omega) (by omega)

theorem trimRightSlashes_keep {front : Bytes} {last : UInt8} (h : Spells p (front ++ [last]))
    (hlast : last ≠ chr '/') : C.trimRightSlashes p = some p := by
  have hload : C.charAt p front.length = some last := by
    apply h.load
    simp
  rw [C.trimRightSlashes, strlen_of_spells h, some_bind, List.length_append, List.length_singleton, C.trimRightLoop,
    hload, some_bind, if_neg hlast]

/-- The end of `mountPrefix`, on the mount root without a final separator. -/
theorem mountEnd_yields (h : Spells p s) (hsingle : NoDouble s) :
    Yields
      (do
        let (mountRoot, out) ← C.collapseLoop p.length p 0 0
        let mountRoot ← store mountRoot out 0
        let mountLen ← strlen mountRoot
        let leader ← memcpy (malloc (mountLen + 2)) 0 mountRoot mountLen
        let leader ← store leader mountLen (chr '/')
        store leader (mountLen + 1) 0)
      fun q => Spells q (s ++ lit "/") := by
  have hlt := h.length_lt
  have hend : store p s.length 0 = some p := by
    apply h.holds.store_same
    simp
  have hslash : store (filled (s.map some) (s.length + 2)) s.length (chr '/') =
      some (filled ((s ++ lit "/").map some) (s.length + 2)) := store_more rfl (by omega)
  have hlast : store (filled ((s ++ lit "/").map some) (s.length + 2)) (s.length + 1) 0 =
      some (literal (s ++ lit "/")) := store_last (by simp [lit]) (by simp [lit])
  have hzero : 0 ∉ s ++ lit "/" := by
    intro hmem
    rcases List.mem_append.1 hmem with hmem | hmem
    · exact h.zero_not_mem hmem
    · revert hmem
      decide
  rw [collapseLoop_eq h hsingle (Nat.zero_le _) (by omega)]
  simp only [some_bind]
  rw [hend, some_bind, strlen_of_spells h, some_bind, memcpy_front h.holds.of_append (by omega), some_bind, hslash,
    some_bind, hlast]
  exact ⟨_, rfl, literal_spells hzero⟩

theorem mountRootOf_eq {options : C.WSLOptions} (hmount : options.mountRoot = some p) (h : Spells p s)
    (hne : s ≠ []) : C.mountRootOf options = some p := by
  obtain ⟨a, ha, hiff⟩ := charAt_zero_iff h
  rw [C.mountRootOf, hmount]
  simp only [ha, some_bind]
  rw [if_neg fun hzero => hne (hiff.1 hzero)]
  rfl

/-- The mount prefix of a cleaned mount root. -/
theorem mountPrefix_yields {options : C.WSLOptions} {parts : List Bytes} (hparts : ∀ part ∈ parts, IsName part)
    (hmount : options.mountRoot = some p) (h : Spells p (Go.serialize (lit "/") parts)) :
    Yields (C.mountPrefix options) fun q => Spells q (Go.mountPrefix (Go.serialize (lit "/") parts)) := by
  have hne : Go.serialize (lit "/") parts ≠ [] := by
    rw [serialize_posix]
    simp
  rw [C.mountPrefix, mountRootOf_eq hmount h hne, some_bind, strdup_eq h, some_bind, mountPrefix_serialize hparts]
  rw [serialize_posix] at h ⊢
  have hcopy := literal_spells h.zero_not_mem
  by_cases hnil : parts = []
  · -- the mount `/` loses its only separator, and gets one again
    have htrim : C.trimRightSlashes (literal (chr '/' :: joinOn (chr '/') parts)) = some [some 0, some 0] := by
      rw [hnil]
      decide
    have hempty : Spells [some 0, some 0] ([] : Bytes) := spells_at_nil_iff.2 ⟨[some 0], rfl⟩
    rw [htrim, some_bind, if_pos hnil]
    exact mountEnd_yields hempty List.isChain_nil
  · have hjoin : joinOn (chr '/') parts ≠ [] := by
      rwa [Ne, joinOn_parts_eq_nil_iff hparts]
    have hsplit := List.dropLast_append_getLast hjoin
    have hlast : (joinOn (chr '/') parts).getLast hjoin ≠ chr '/' := by
      intro hlast
      apply getLast?_joinOn_ne_slash hparts
      rw [List.getLast?_eq_getLast_of_ne_nil hjoin, hlast]
    have hsingle : NoDouble (chr '/' :: joinOn (chr '/') parts) := by
      have hpieces := noDouble_pieces hparts
      rw [pieces_true, if_neg hnil] at hpieces
      exact hpieces
    have htrim : C.trimRightSlashes (literal (chr '/' :: joinOn (chr '/') parts)) =
        some (literal (chr '/' :: joinOn (chr '/') parts)) := by
      rw [← hsplit, ← List.cons_append] at hcopy ⊢
      exact trimRightSlashes_keep hcopy hlast
    rw [htrim, some_bind, if_neg hnil]
    exact mountEnd_yields hcopy hsingle

/-- A drive root with the terminator that ends it. -/
theorem zero_not_mem_drive {d : UInt8} {tail : Bytes} (hd : isLetter d = true) (h : 0 ∉ tail) :
    0 ∉ lower d :: lit ":/" ++ tail := by
  have hlower : lower d ≠ 0 := Go.ne_nul_of_isLetter (by rwa [isLetter_lower])
  have hroot : (0 : UInt8) ∉ (lit ":/" : Bytes) := by
    decide
  rw [List.cons_append, List.mem_cons, List.mem_append, not_or, not_or]
  exact ⟨hlower.symm, hroot, h⟩

/-- What is behind the mount prefix selects the drive that Go selects, or the value is kept. -/
theorem mapRest_yields {rest : Bytes} (h : Spells p s) (h' : Spells q rest) :
    Yields (C.mapRest p q) fun r => Spells r ((Go.selectDrive rest).getD s) := by
  have hkeep : Yields (C.strdup (some p)) fun r => Spells r s :=
    ⟨literal s, strdup_eq h, literal_spells h.zero_not_mem⟩
  rw [C.mapRest, strlen_of_spells h', some_bind]
  cases rest with
  | nil =>
      exact hkeep
  | cons d rest =>
      cases rest with
      | nil =>
          have hload : C.charAt q 0 = some d := h'.load rfl
          rw [hload, Option.map_some, some_or_some, some_bind, Go.selectDrive]
          by_cases hd : isLetter d = true
          · have hzero : 0 ∉ lower d :: lit ":/" ++ [] := zero_not_mem_drive hd List.not_mem_nil
            rw [List.append_nil] at hzero
            rw [if_neg (by simp [hd]), if_pos hd]
            exact ⟨_, rfl, literal_spells hzero⟩
          · rw [if_pos (by simp [hd]), if_neg hd]
            exact hkeep
      | cons slash tail =>
          have hload : C.charAt q 0 = some d := h'.load rfl
          have hslash : C.charAt q 1 = some slash := h'.load rfl
          have hbehind : Spells (q.drop 2) tail := Spells.drop (s := [d, slash]) h'
          have hadvance : advance q 2 = some (q.drop 2) := Spells.advance (s := [d, slash]) h'
          rw [hload, hslash, Option.map_some, Option.map_some, some_or_some, some_bind, some_and_some, Go.selectDrive]
          by_cases hd : isLetter d = true
          · rw [if_neg (by simp [hd]), some_bind]
            by_cases hsep : slash = chr '/'
            · have hroom : (d :: slash :: tail).length + 3 = tail.length + 5 := by
                simp
              have hcount : (d :: slash :: tail).length - 1 = tail.length + 1 := by
                simp
              have hone : store (filled [some (lower d)] (tail.length + 5)) 1 (chr ':') =
                  some (filled ([lower d, chr ':'].map some) (tail.length + 5)) :=
                store_more (s := [lower d]) rfl (by simp)
              have htwo : store (filled ([lower d, chr ':'].map some) (tail.length + 5)) 2 (chr '/') =
                  some (filled ((lower d :: lit ":/").map some) (tail.length + 5)) :=
                store_more (s := [lower d, chr ':']) rfl (by simp)
              have hcopy : memcpy (filled ((lower d :: lit ":/").map some) (tail.length + 5)) 3 (q.drop 2)
                  (tail.length + 1) = some (filled (literal (lower d :: lit ":/" ++ tail)) (tail.length + 5)) :=
                memcpy_behind hbehind rfl (by simp [lit]; omega)
              have hresult : Spells (filled (literal (lower d :: lit ":/" ++ tail)) (tail.length + 5))
                  (lower d :: lit ":/" ++ tail) :=
                filled_literal_spells (zero_not_mem_drive hd hbehind.zero_not_mem) _
              -- the terminator was copied with the rest
              have hend : store (filled (literal (lower d :: lit ":/" ++ tail)) (tail.length + 5))
                  ((d :: slash :: tail).length + 1) 0 =
                  some (filled (literal (lower d :: lit ":/" ++ tail)) (tail.length + 5)) := by
                apply hresult.holds.store_same
                simp [lit]
              rw [if_neg (by simp [hsep]), if_pos (by simp [hd, hsep]), hroom, some_bind, store_front (Nat.succ_pos _),
                some_bind, hone, some_bind, htwo, some_bind, if_pos (by simp), hadvance, some_bind, hcount, hcopy,
                some_bind, hend]
              exact ⟨_, rfl, hresult⟩
            · rw [if_pos (by simp [hsep]), if_neg (by simp [hsep])]
              exact hkeep
          · rw [if_pos (by simp [hd]), if_neg (by simp [hd])]
            exact hkeep

theorem mapWslDrive_yields {options : C.WSLOptions} {opts : Go.WSLOptions UInt8} {mount : Bytes}
    (hclean : Go.normalizeMountRoot mount = .ok opts.mountRoot) (hmount : options.mountRoot = some q)
    (hspells : Spells q opts.mountRoot) (henabled : opts.enabled = (options.enabled != 0)) (h : Spells p s) :
    Yields (C.mapWslDrive p options) fun r => Spells r ((Go.mapWSLDrive s opts).getD s) := by
  have hkeep : Yields (C.strdup (some p)) fun r => Spells r s :=
    ⟨literal s, strdup_eq h, literal_spells h.zero_not_mem⟩
  rw [C.mapWslDrive, Go.mapWSLDrive, henabled]
  by_cases hzero : options.enabled = 0
  · rw [if_pos hzero, if_neg (by simp [hzero])]
    exact hkeep
  have hroot := eq_serialize_of_normalizeMountRoot hclean
  have hparts : ∀ part ∈ components opts.mountRoot, IsName part := fun _ => isName_of_mem_components
  rw [if_neg hzero]
  rw [hroot] at hspells
  refine (mountPrefix_yields hparts hmount hspells).bind fun leader hleader => ?_
  rw [← hroot] at hleader
  rw [startsWith_eq h hleader, some_bind]
  by_cases hstarts : Go.hasPrefix s (Go.mountPrefix opts.mountRoot) = true
  · obtain ⟨rest, rfl⟩ := Go.hasPrefix_iff.1 hstarts
    have hrest := h.drop
    rw [if_neg (by simp [hstarts]), if_pos (by simp [hstarts, hzero]), strlen_of_spells hleader, some_bind,
      h.advance, some_bind, List.drop_left]
    exact mapRest_yields h hrest
  · rw [if_pos (by simp [hstarts]), if_neg (by simp [hstarts])]
    exact hkeep

/-! ## Schemes and separators -/

theorem hasUriScheme_eq_false (h : Spells p s) (hscheme : ¬lit "://" <:+: s) :
    C.hasUriScheme p = some false := by
  rw [C.hasUriScheme, strstr_of_spells h (literal_spells (by decide)), before_eq_none hscheme]
  rfl

/-- Text without `://` is no URI, whatever the settings allow. -/
theorem parseFileUri_eq (parseHierarchical : C.HierarchicalParser) (options : C.NormalizeOptions)
    (h : Spells p s) (hscheme : ¬lit "://" <:+: s) :
    C.parseFileUri parseHierarchical { data := p, len := s.length } options =
      pure { data := literal s, len := s.length } := by
  have hnot {scheme : String} (hhas : lit "://" <:+: (lit scheme : Bytes)) :
      Go.hasPrefix s (lit scheme) = false := by
    rw [Bool.eq_false_iff]
    intro hprefix
    obtain ⟨rest, rfl⟩ := Go.hasPrefix_iff.1 hprefix
    exact hscheme (hhas.trans (List.prefix_append _ _).isInfix)
  have hfile : Go.hasPrefix s (lit "file://") = false := hnot ⟨lit "file", [], rfl⟩
  have hvscode : Go.hasPrefix s (lit "vscode-file://") = false := hnot ⟨lit "vscode-file", [], rfl⟩
  have hzero : decide (0 ∈ s) = false := by
    rw [decide_eq_false_iff_not]
    exact h.zero_not_mem
  rw [C.parseFileUri]
  simp only [hasNul_eq h.holds.of_append, hzero, startsWith_lit h (by decide : (0 : UInt8) ∉ lit "file://"), hfile,
    startsWith_lit h (by decide : (0 : UInt8) ∉ lit "vscode-file://"), hvscode, hasUriScheme_eq_false h hscheme,
    strndup_eq h.holds.of_append, lift_bind]
  rfl

theorem uriPath_eq (parseHierarchical : C.HierarchicalParser) {options : C.NormalizeOptions}
    (hhost : SpelledOrNull options.sourceHost t) (h : Spells p s) (hscheme : ¬lit "://" <:+: s) :
    ∃ q, C.uriPath parseHierarchical p false options = pure q ∧ Spells q s := by
  have hcopy : Spells (literal s) s := literal_spells h.zero_not_mem
  have hzero : decide (0 ∈ s) = false := by
    rw [decide_eq_false_iff_not]
    exact h.zero_not_mem
  rw [C.uriPath, equals_eq hhost (by decide), some_or_some, lift_bind, Bool.false_or]
  by_cases hvscode : t = lit "vscode-file-uri"
  · refine ⟨literal s, ?_, hcopy⟩
    rw [if_pos (decide_eq_true hvscode), strlen_of_spells h, lift_bind, parseFileUri_eq _ _ h hscheme, run_pure_bind]
    simp only [hasNul_eq hcopy.holds.of_append, hzero, lift_bind]
    rfl
  · refine ⟨p, ?_, h⟩
    rw [if_neg (by simpa using hvscode)]

theorem hasPrefix_slash_cons (a : UInt8) (s : Bytes) : Go.hasPrefix (a :: s) (lit "/") = (a == chr '/') := by
  rw [Bool.eq_iff_iff, Go.hasPrefix_slash_iff, beq_iff_eq]
  exact Option.some_inj

theorem isWslCandidate_eq {options : C.NormalizeOptions} (h : Spells p s) :
    C.isWslCandidate p false options =
      some (options.wsl.enabled != 0 && Go.isPOSIXMountCandidate s) := by
  have hdrive : (some false <&&> C.isUriWindowsDrivePath p) = some false := rfl
  have htriple : C.startsWith p (literal (lit "///")) = some (Go.hasPrefix s (lit "///")) :=
    startsWith_lit h (by decide)
  rw [C.isWslCandidate, hdrive, htriple, Go.isPOSIXMountCandidate]
  cases s with
  | nil =>
      have hhead : C.charAt p 0 = some 0 := h.load_end
      rw [hhead]
      cases options.wsl.enabled != 0 <;> rfl
  | cons a s =>
      cases s with
      | nil =>
          have hhead : C.charAt p 0 = some a := h.load rfl
          have hend : C.charAt p 1 = some 0 := h.load_end
          have hsecond : Go.hasPrefix [a] (lit "//") = false := by
            rw [Bool.eq_false_iff]
            intro hdouble
            obtain ⟨tail, heq⟩ := Go.hasPrefix_iff.1 hdouble
            cases heq
          have hslash : ((0 : UInt8) != chr '/') = true := by
            decide
          rw [hhead, hend, hasPrefix_slash_cons, hsecond]
          simp only [Option.map_some, some_or_some, some_and_some, hslash, Bool.true_or, Bool.not_false, Bool.and_true]
      | cons b rest =>
          have hhead : C.charAt p 0 = some a := h.load rfl
          have hnext : C.charAt p 1 = some b := h.load rfl
          have hsecond : Go.hasPrefix (a :: b :: rest) (lit "//") = (a == chr '/' && b == chr '/') := by
            rw [Bool.eq_iff_iff, Bool.and_eq_true, beq_iff_eq, beq_iff_eq, Go.hasPrefix_iff]
            constructor
            · rintro ⟨tail, heq⟩
              cases heq
              exact ⟨rfl, rfl⟩
            · rintro ⟨rfl, rfl⟩
              exact ⟨rest, rfl⟩
          rw [hhead, hnext, hasPrefix_slash_cons, hsecond]
          simp only [Option.map_some, some_or_some, some_and_some, bne]
          cases a == chr '/' <;> cases b == chr '/' <;> simp

theorem unwrapWindowsExtendedPrefix_eq (h : Spells p s) :
    C.unwrapWindowsExtendedPrefix p = some (literal (Go.unwrapWindowsExtendedPrefix s)) := by
  rw [C.unwrapWindowsExtendedPrefix, startsWith_lit h (by decide), startsWith_lit h (by decide), some_bind, some_bind,
    Go.unwrapWindowsExtendedPrefix]
  by_cases hunc : Go.hasPrefix s (lit "//?/UNC/") = true
  · obtain ⟨body, rfl⟩ := Go.hasPrefix_iff.1 hunc
    have hbody : Spells (p.drop 8) body := Spells.drop (s := lit "//?/UNC/") h
    have hadvance : advance p 8 = some (p.drop 8) := Spells.advance (s := lit "//?/UNC/") h
    have hleader : Holds (literal (lit "//") : C.Chars) (lit "//") := (literal_spells (by decide)).holds.of_append
    have hfront := memcpy_front (n := body.length + 3) hleader (by simp [lit])
    rw [if_pos hunc, if_pos hunc, hadvance, some_bind, strlen_of_spells hbody, some_bind]
    refine (congrArg (· >>= _) hfront).trans ?_
    exact memcpy_last hbody rfl (by simp [lit]; omega)
  rw [if_neg hunc, if_neg hunc]
  by_cases hext : Go.hasPrefix s (lit "//?/") = true
  · obtain ⟨tail, rfl⟩ := Go.hasPrefix_iff.1 hext
    have htail : Spells (p.drop 4) tail := Spells.drop (s := lit "//?/") h
    have hadvance : advance p 4 = some (p.drop 4) := Spells.advance (s := lit "//?/") h
    rw [if_pos hext, if_pos hext, hadvance, some_bind]
    exact strdup_eq htail
  · rw [if_neg hext, if_neg hext]
    exact strdup_eq h

theorem replaceLoop_eq {a b : Char} (h : 0 ∉ s) :
    C.replaceLoop (chr a) (chr b) (literal s) = some (literal (replaceAll a b s)) := by
  induction s with
  | nil =>
      rfl
  | cons c s ih =>
      rw [List.mem_cons, not_or] at h
      have hcons : literal (c :: s) = some c :: literal s := rfl
      rw [hcons, C.replaceLoop, if_neg (Ne.symm h.1), ih h.2]
      rfl

theorem replaceChar_eq (h : Spells p s) :
    C.replaceChar p (chr '\\') (chr '/') = some (literal (Go.toSlashes s)) := by
  rw [C.replaceChar, strdup_eq h, some_bind, replaceLoop_eq h.zero_not_mem]
  rfl

/-! ## Branches -/

/-- A URI drive loses its slash in place. -/
theorem stripDriveSlash_refines (h : Spells p s) :
    Refines Spelled (.ok (Go.stripURIDriveSlash s))
      (do
        if ← liftM (C.isUriWindowsDrivePath p) then
          let len ← liftM (strlen p)
          liftM (memmove p 1 len)
        else
          pure p : C.Run C.Chars) := by
  rw [isUriWindowsDrivePath_eq h, lift_bind, Go.stripURIDriveSlash]
  by_cases hdrive : Go.isURIWindowsDrivePath s = true
  · rw [if_pos hdrive, if_pos hdrive, strlen_of_spells h, lift_bind]
    cases s with
    | nil =>
        exact absurd hdrive Bool.false_ne_true
    | cons a s =>
        exact Refines.liftM (memmove_of_spells (s := [a]) h)
  · rw [if_neg hdrive, if_neg hdrive]
    exact Refines.pure h

theorem zero_not_mem_unwrap (h : 0 ∉ s) : 0 ∉ Go.unwrapWindowsExtendedPrefix s := by
  have hdrop (n : Nat) : 0 ∉ s.drop n := fun hmem => h (List.mem_of_mem_drop hmem)
  rw [Go.unwrapWindowsExtendedPrefix]
  split_ifs
  · intro hmem
    rcases List.mem_append.1 hmem with hshare | hmem
    · revert hshare
      decide
    · exact hdrop 8 hmem
  · exact hdrop 4
  · exact h

theorem rewriteSeparators_refines {options : C.NormalizeOptions} {opts : Go.WindowsOptions}
    (hsame : SameWindows options.windows opts) (h : Spells p s) :
    Refines Spelled (Go.rewriteSeparators s opts) (C.rewriteSeparators p options) := by
  have hzero : 0 ∉ Go.toSlashes s := nul_not_mem_toSlashes h.zero_not_mem
  have hslashes : Spells (literal (Go.toSlashes s) : C.Chars) (Go.toSlashes s) := literal_spells hzero
  rw [Go.rewriteSeparators, C.rewriteSeparators, replaceChar_eq h, lift_bind, startsWith_lit hslashes (by decide),
    lift_bind]
  generalize Go.toSlashes s = text at hzero hslashes ⊢
  have hpreserve : opts.preserveExtendedLength = true ↔ ¬options.windows.preserveExtendedLength = 0 := by
    rw [hsame.preserve_eq, bne_iff_ne]
  have hend : Refines Spelled
      (if opts.preserveExtendedLength = true then
        .ok (Go.stripURIDriveSlash text)
      else
        .ok (Go.stripURIDriveSlash (Go.unwrapWindowsExtendedPrefix text)))
      (do
        let value ←
          if options.windows.preserveExtendedLength = 0 then
            liftM (C.unwrapWindowsExtendedPrefix (literal text))
          else
            pure (literal text)
        if ← liftM (C.isUriWindowsDrivePath value) then
          let len ← liftM (strlen value)
          liftM (memmove value 1 len)
        else
          pure value) := by
    by_cases hkeep : options.windows.preserveExtendedLength = 0
    · have hunwrapped := literal_spells (zero_not_mem_unwrap hzero)
      rw [if_neg (by simp [hpreserve, hkeep]), if_pos hkeep, unwrapWindowsExtendedPrefix_eq hslashes, lift_bind]
      exact stripDriveSlash_refines hunwrapped
    · rw [if_pos (hpreserve.2 hkeep), if_neg hkeep, run_pure_bind]
      exact stripDriveSlash_refines hslashes
  by_cases hext : Go.hasPrefix text (lit "//?/") = true
  · rw [if_pos hext, if_pos hext]
    refine (splitRootParse_refines hslashes).bind fun _ _ _ _ => ?_
    exact hend
  · rw [if_neg hext, if_neg hext]
    exact hend

theorem normalizeWslCandidate_refines {options effective : C.NormalizeOptions} {opts : Go.Options UInt8}
    {mount : Bytes} (hsame : SameWindows options.windows opts.windows)
    (hprofile : SpelledOrNull options.targetProfile t) (hprofileOf : opts.targetProfile = profileOf t)
    (hclean : Go.normalizeMountRoot mount = .ok opts.wsl.mountRoot) (hmount : effective.wsl.mountRoot = some q)
    (hspells : Spells q opts.wsl.mountRoot) (henabled : opts.wsl.enabled = (effective.wsl.enabled != 0))
    (h : Spells p s) :
    Refines Spelled (Go.normalizeWSLCandidate s opts) (C.normalizeWslCandidate p options effective) := by
  rw [Go.normalizeWSLCandidate, C.normalizeWslCandidate]
  refine (prepareNativePosix_refines h).bind fun prepared value _ hprepared => ?_
  refine (checkWindows_refines hsame hprepared).bind fun _ _ _ _ => ?_
  refine (cleanCanonical_refines hprepared).bind fun cleaned posixCleaned _ hcleaned => ?_
  have hposix : opts.targetProfile = some .posix ↔ t = lit "posix" := by
    rw [hprofileOf]
    exact profileOf_posix_iff t
  rw [equals_eq hprofile (by decide), lift_bind]
  simp only [hposix, decide_eq_true_eq]
  split_ifs
  · exact Refines.pure hcleaned
  · exact Refines.liftM (mapWslDrive_yields hclean hmount hspells henabled hcleaned)

theorem checkAndClean_refines {options : C.NormalizeOptions} {opts : Go.Options UInt8}
    (hsame : SameWindows options.windows opts.windows) (hprofile : SpelledOrNull options.targetProfile t)
    (hprofileOf : opts.targetProfile = profileOf t) (h : Spells p s) :
    Refines Spelled (Go.checkAndClean s opts) (C.checkAndClean p options) := by
  rw [Go.checkAndClean, C.checkAndClean, hprofileOf]
  refine (splitRootParse_refines h).bind fun _ _ _ _ => ?_
  refine (checkWindows_refines hsame h).bind fun _ _ _ _ => ?_
  refine (cleanCanonical_refines h).bind fun cleaned cleaned' _ hcleaned => ?_
  refine (validateTargetProfile_refines hcleaned hprofile).bind fun _ _ _ _ => ?_
  exact Refines.pure hcleaned

/-! ## The whole run -/

/-- The options of the two ports say the same; the URI settings are free. -/
structure SameOptions (options : C.NormalizeOptions) (opts : Go.Options UInt8) : Prop where
  host : ∃ text, SpelledOrNull options.sourceHost text ∧ opts.sourceHost = hostOf text
  profile : ∃ text, SpelledOrNull options.targetProfile text ∧ opts.targetProfile = profileOf text
  enabled_eq : opts.wsl.enabled = (options.wsl.enabled != 0)
  mount : PassesMount options.wsl opts.wsl.mountRoot
  windows : SameWindows options.windows opts.windows
  trim_eq : opts.trimOuterWhitespace = (options.trimOuterWhitespace != 0)

/-- Bytes at a pointer, with their length; null is a pointer to no bytes. -/
def Given (p : Option C.Chars) (raw : Bytes) : Prop :=
  match p with
  | none => raw = []
  | some p => Holds p raw

theorem interpretHost_refines (parseHierarchical : C.HierarchicalParser) {options effective : C.NormalizeOptions}
    {opts : Go.Options UInt8} {mount : Bytes} (hsame : SameWindows options.windows opts.windows)
    (hhost : SpelledOrNull options.sourceHost t) (hhostOf : opts.sourceHost = hostOf t)
    {profile : Bytes} (hprofile : SpelledOrNull options.targetProfile profile)
    (hprofileOf : opts.targetProfile = profileOf profile)
    (hclean : Go.normalizeMountRoot mount = .ok opts.wsl.mountRoot) (hmount : effective.wsl.mountRoot = some q)
    (hspells : Spells q opts.wsl.mountRoot) (henabled : opts.wsl.enabled = (options.wsl.enabled != 0))
    (heffective : effective.wsl.enabled = options.wsl.enabled) (h : Spells p s) (hscheme : ¬lit "://" <:+: s) :
    Refines Spelled (Go.interpretHost Go.plainPath s opts)
      (C.interpretHost parseHierarchical p options effective) := by
  have hposix : opts.sourceHost = some .posix ↔ t = lit "posix" := by
    rw [hhostOf]
    exact hostOf_posix_iff t
  have hcanonical : opts.sourceHost = some .canonical ↔ t = lit "canonical" := by
    rw [hhostOf]
    exact hostOf_canonical_iff t
  rw [Go.interpretHost, C.interpretHost, equals_eq hhost (by decide), lift_bind, equals_eq hhost (by decide),
    lift_bind]
  simp only [hposix, hcanonical, decide_eq_true_eq]
  by_cases hnative : t = lit "posix"
  · rw [if_pos hnative, if_pos hnative]
    exact prepareNativePosix_refines h
  rw [if_neg hnative, if_neg hnative]
  by_cases hkeep : t = lit "canonical"
  · rw [if_pos hkeep, if_neg (by simp [hkeep])]
    exact Refines.pure h
  · obtain ⟨value, hvalue, hpath⟩ := uriPath_eq parseHierarchical hhost h hscheme
    have huri : Go.hasURIScheme s = false := (hasUriScheme_of_none (before_eq_none hscheme)).1
    rw [if_neg hkeep, if_pos (by simp [hkeep]), hasUriScheme_eq_false h hscheme, lift_bind, hvalue, run_pure_bind,
      isWslCandidate_eq hpath, lift_bind, Go.normalizeRawInput, Go.uriPath_plainPath, Outcome.ok_bind, huri,
      henabled, Bool.false_and, Bool.not_false, Bool.and_true]
    split_ifs
    · apply normalizeWslCandidate_refines hsame hprofile hprofileOf hclean hmount hspells _ hpath
      rw [heffective]
      exact henabled
    · exact rewriteSeparators_refines hsame hpath

theorem hasNul_of_given {raw : Bytes} {p : Option C.Chars} (h : Given p raw) :
    C.hasNul p raw.length = some (decide (0 ∈ raw)) := by
  cases p with
  | none =>
      rw [show raw = [] from h]
      rfl
  | some p =>
      exact hasNul_eq h

theorem strndup_of_given {raw : Bytes} {p : Option C.Chars} (h : Given p raw) :
    C.strndup p raw.length = some (literal raw) := by
  cases p with
  | none =>
      rw [show raw = [] from h]
      rfl
  | some p =>
      exact strndup_eq h

/-- The C port refines the Go port: on bytes without `://` it is defined, and returns the path that Go
returns or the code of its error, in every mode. -/
theorem normalizeN_refines (parseHierarchical : C.HierarchicalParser) {raw : Bytes} {p : Option C.Chars}
    (hraw : Given p raw) {options : Option C.NormalizeOptions} {opts : Go.Options UInt8}
    (hsame : SameOptions (options.getD C.defaultOptions) opts) (htext : ¬lit "://" <:+: raw)
    (htrim : (options.getD C.defaultOptions).trimOuterWhitespace = 0) :
    Refines Spelled (Go.normalize raw opts) (C.normalizeN parseHierarchical p raw.length options) := by
  obtain ⟨⟨host, hhost, hhostOf⟩, ⟨profile, hprofile, hprofileOf⟩, henabled, hmount, hwindows, htrim'⟩ := hsame
  have hgo : Go.normalize raw opts = Go.normalizeWith Go.plainPath raw opts := by
    rw [normalize_of_noTrim (by rw [htrim', htrim]; rfl)]
    exact Go.normalizeWith_eq_plainPath fun hnul _ =>
      uriPath_of_not_scheme hnul (hasUriScheme_of_none (before_eq_none htext)).1
  have hnul : nul ∈ raw ↔ 0 ∈ raw := Iff.rfl
  have hposix : opts.sourceHost = some .posix ↔ host = lit "posix" := by
    rw [hhostOf]
    exact hostOf_posix_iff host
  rw [hgo, C.normalizeN]
  generalize options.getD C.defaultOptions = options at *
  simp only [hasNul_of_given hraw, lift_bind, htrim, decide_eq_true_eq, ne_eq, not_true_eq_false, if_false]
  rw [Go.normalizeWith]
  simp only [hnul]
  by_cases hzero : 0 ∈ raw
  · -- Go asks for an empty value first, which holds no NUL
    have hne : raw ≠ [] := by
      rintro rfl
      exact absurd hzero List.not_mem_nil
    rw [if_pos hzero, if_neg hne, if_pos hzero]
    exact Refines.fail
  have hvalue : Spells (literal raw : C.Chars) raw := literal_spells hzero
  obtain ⟨a, ha, hiff⟩ := charAt_zero_iff hvalue
  rw [if_neg hzero, if_neg hzero, strndup_of_given hraw]
  simp only [lift_bind, ha, hiff]
  by_cases hempty : raw = []
  · rw [if_pos hempty, if_pos hempty]
    exact Refines.fail
  rw [if_neg hempty, if_neg hempty]
  refine (normalizeMountRoot_refines hmount).bind fun mountRoot mountRoot' hclean hspells => ?_
  have hmode : opts.sourceHost = some .posix ∧ opts.wsl.enabled = true ↔
      (decide (host = lit "posix") && options.wsl.enabled != 0) = true := by
    rw [hposix, henabled, Bool.and_eq_true, decide_eq_true_eq]
  rw [strlen_of_spells hspells, lift_bind, equals_eq hhost (by decide), some_and_some, lift_bind]
  simp only [hmode]
  split_ifs
  · exact Refines.fail
  · apply Refines.bind (R := Spelled)
    · exact interpretHost_refines parseHierarchical hwindows hhost hhostOf hprofile hprofileOf hclean rfl hspells
        henabled rfl hvalue htext
    · intro value value' _ hvalue'
      exact checkAndClean_refines hwindows hprofile hprofileOf hvalue'

/-- Settings of the C port with a mount root that is passed with its length, without a terminator. -/
def mountSettings : C.NormalizeOptions where
  sourceHost := some (literal (lit "wsl"))
  wsl := { enabled := 1, mountRoot := some ((lit "/mnt").map some), mountRootLen := 4 }

def goMountSettings : Go.Options UInt8 where
  sourceHost := some .wsl
  wsl := { enabled := true, mountRoot := lit "/mnt" }

theorem sameOptions_mountSettings : SameOptions mountSettings goMountSettings where
  host := ⟨lit "wsl", literal_spells (by decide), by decide⟩
  profile := ⟨[], rfl, rfl⟩
  enabled_eq := rfl
  mount := PassesMount.exact (by decide) ⟨[], (List.append_nil _).symm⟩
  windows := ⟨rfl, rfl, rfl⟩
  trim_eq := rfl

theorem normalizeN_refines_mount :
    Refines Spelled (Go.normalize (lit "/mnt/c/a") goMountSettings)
      (C.normalizeN (fun _ _ _ => C.fail .invalidURI) (some ((lit "/mnt/c/a").map some))
        (lit "/mnt/c/a" : Bytes).length (some mountSettings)) := by
  have hraw : Given (some ((lit "/mnt/c/a").map some)) (lit "/mnt/c/a") := ⟨[], (List.append_nil _).symm⟩
  have htext : ¬lit "://" <:+: (lit "/mnt/c/a" : Bytes) := by
    rw [← isSome_before_iff]
    decide
  exact normalizeN_refines _ hraw sameOptions_mountSettings htext rfl

end C

end Ports

end CanonicalPath
