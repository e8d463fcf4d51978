import CanonicalPath.C.Normalize
import CanonicalPath.Identity.Native
import CanonicalPath.Ports.Raw

/-!
# C grammar — the C grammar functions compute the Go ones

Every function of `C.Strings` and `C.Grammar` is followed on terminated strings: it is defined, so no
access leaves its object, and it returns what the Go function returns.  The tests and the copies are
equations; a function with an error code is related by `Refines`.

* `splitRootParse_refines` : roots, with the backslash looked for first
* `joinPartsRange_eq`, `cleanLoop_refines` : the vector holds the components of Go, within its capacity
* `cleanCanonical_refines`, `normalizeMountRoot_refines` : dot cleanup and mount roots
-/

namespace CanonicalPath

namespace Ports

namespace C

open CodeUnit Segments Outcome CString

/-! ## Runs side by side -/

/-- The C run is defined, and returns what the Go run returns, or the code of its error. -/
def Refines {γ δ : Type} (R : γ → δ → Prop) (go : Except PathError γ) (run : C.Run δ) : Prop :=
  ∃ result, run.run = some result ∧ Rel (fun err code => err.code = code) R go result

/-- A pointer to a string of the Go run. -/
abbrev Spelled (s : Bytes) (p : C.Chars) : Prop :=
  Spells p s

variable {γ δ ε ζ : Type} {R : γ → δ → Prop} {S : ε → ζ → Prop}

theorem Refines.pure {a : γ} {b : δ} (h : R a b) : Refines R (.ok a) (pure b) :=
  ⟨.ok b, rfl, Rel.ok h⟩

theorem Refines.fail {code : ErrorCode} {message : String} : Refines R (newError code message) (C.fail code) :=
  ⟨.error code, rfl, Rel.error rfl⟩

/-- Steps that refine each other, after runs that do. -/
theorem Refines.bind {go : Except PathError γ} {run : C.Run δ} {f : γ → Except PathError ε}
    {g : δ → C.Run ζ} (h : Refines R go run)
    (hfg : ∀ a b, go = .ok a → R a b → Refines S (f a) (g b)) : Refines S (go >>= f) (run >>= g) := by
  obtain ⟨result, hrun, hrel⟩ := h
  cases hrel with
  | @ok a b hab =>
      obtain ⟨result', hrun', hrel'⟩ := hfg a b rfl hab
      refine ⟨result', ?_, hrel'⟩
      rw [ExceptT.run_bind, hrun]
      exact hrun'
  | @error err code hcode =>
      refine ⟨.error code, ?_, Rel.error hcode⟩
      rw [ExceptT.run_bind, hrun]
      rfl

/-- A defined step of the C run alone. -/
@[simp] theorem lift_bind {x : δ} {g : δ → C.Run ζ} : ((liftM (some x) : C.Run δ) >>= g) = g x := rfl

@[simp] theorem run_pure_bind {x : δ} {g : δ → C.Run ζ} : ((pure x : C.Run δ) >>= g) = g x := rfl

/-- A step of the C run that yields something known of it. -/
theorem Refines.yields {go : Except PathError γ} {x : Option δ} {P : δ → Prop} (hx : Yields x P)
    {g : δ → C.Run ζ} {R : γ → ζ → Prop} (h : ∀ b, P b → Refines R go (g b)) :
    Refines R go (liftM x >>= g) := by
  obtain ⟨b, rfl, hb⟩ := hx
  exact h b hb

theorem Refines.liftM {a : γ} {x : Option δ} (hx : Yields x (R a)) : Refines R (.ok a) (liftM x) := by
  obtain ⟨b, rfl, hb⟩ := hx
  exact Refines.pure hb

/-! ## Copies -/

variable {p q : C.Chars} {s t : Bytes}

theorem strndup_eq (h : Holds p s) : C.strndup (some p) s.length = some (literal s) := by
  have hend : store (filled (s.map some) (s.length + 1)) s.length 0 = some (literal s) := store_last rfl rfl
  rw [C.strndup]
  simp only
  by_cases hlen : s.length > 0
  · rw [if_pos hlen, memcpy_front h (by omega), some_bind, hend]
  · have hnil : s = [] := List.length_eq_zero_iff.1 (by omega)
    subst hnil
    rfl

theorem strdup_eq (h : Spells p s) : C.strdup (some p) = some (literal s) := by
  rw [C.strdup, Option.getD_some, strlen_of_spells h, some_bind]
  exact strndup_eq h.holds.of_append

theorem spells_nil : Spells (literal [] : C.Chars) [] :=
  literal_spells List.not_mem_nil

/-! ## Tests -/

theorem hasNul_eq (h : Holds p s) : C.hasNul (some p) s.length = some (decide (0 ∈ s)) := by
  rw [C.hasNul]
  by_cases hlen : s.length > 0
  · rw [if_pos hlen, some_bind, memchr_of_holds 0 h, some_bind]
    by_cases hmem : 0 ∈ s
    · simp [hmem]
    · simp [hmem]
  · have hnil : s = [] := List.length_eq_zero_iff.1 (by omega)
    rw [if_neg hlen, hnil]
    rfl

theorem startsWith_eq (h : Spells p s) (h' : Spells q t) : C.startsWith p q = some (Go.hasPrefix s t) := by
  rw [C.startsWith, strlen_of_spells h', some_bind]
  exact strncmpEq_of_spells h h'

theorem startsWith_lit (h : Spells p s) {leader : String} (hleader : 0 ∉ (lit leader : Bytes)) :
    C.startsWith p (literal (lit leader)) = some (Go.hasPrefix s (lit leader)) :=
  startsWith_eq h (literal_spells hleader)

theorem strcmpEq_lit (h : Spells p s) {text : String} (htext : 0 ∉ (lit text : Bytes)) :
    strcmpEq p (literal (lit text)) = some (decide (s = lit text)) :=
  strcmpEq_of_spells h (literal_spells htext)

theorem hasDriveRoot_eq (h : Spells p s) : C.hasDriveRoot p = some (Go.hasDriveRoot s) := by
  rw [C.hasDriveRoot, strlen_of_spells h, some_bind]
  match s with
  | [] => rfl
  | [a] => rfl
  | [a, b] => rfl
  | a :: b :: c :: rest =>
      rw [C.charAt, C.charAt, C.charAt, h.load (i := 0) rfl, h.load (i := 1) rfl, h.load (i := 2) rfl]
      simp only [List.length_cons, Option.map_some, some_and]
      rw [Go.hasDriveRoot]
      cases isLetter a <;> cases b == chr ':' <;> simp

theorem isDriveRelative_eq (h : Spells p s) : C.isDriveRelative p = some (Go.isDriveRelative s) := by
  rw [C.isDriveRelative, strlen_of_spells h, some_bind]
  match s with
  | [] => rfl
  | [a] => rfl
  | [a, b] =>
      rw [C.charAt, C.charAt, h.load (i := 0) rfl, h.load (i := 1) rfl, Go.isDriveRelative]
      simp only [List.length_cons, List.length_nil, Option.map_some, some_and, some_or]
      cases isLetter a <;> cases b == chr ':' <;> rfl
  | a :: b :: c :: rest =>
      rw [C.charAt, C.charAt, C.charAt, h.load (i := 0) rfl, h.load (i := 1) rfl, h.load (i := 2) rfl,
        Go.isDriveRelative]
      simp only [List.length_cons, Option.map_some, some_and, some_or]
      cases isLetter a <;> cases b == chr ':' <;> simp

theorem isUriWindowsDrivePath_eq (h : Spells p s) :
    C.isUriWindowsDrivePath p = some (Go.isURIWindowsDrivePath s) := by
  rw [C.isUriWindowsDrivePath, strlen_of_spells h, some_bind]
  match s with
  | [] => rfl
  | [a] => rfl
  | [a, b] => rfl
  | [a, b, c] => rfl
  | a :: b :: c :: d :: rest =>
      rw [C.charAt, C.charAt, C.charAt, C.charAt, h.load (i := 0) rfl, h.load (i := 1) rfl, h.load (i := 2) rfl,
        h.load (i := 3) rfl, Go.isURIWindowsDrivePath]
      simp only [List.length_cons, Option.map_some, some_and]
      cases a == chr '/' <;> cases isLetter b <;> cases c == chr ':' <;> simp

theorem needsRelativeMarker_eq (h : Spells p s) :
    C.needsRelativeMarker p = some (Go.needsRelativeMarker s) := by
  rw [C.needsRelativeMarker, strlen_of_spells h, some_bind]
  match s with
  | [] => rfl
  | [a] => rfl
  | a :: b :: rest =>
      rw [C.charAt, C.charAt, h.load (i := 0) rfl, h.load (i := 1) rfl, Go.needsRelativeMarker]
      simp only [List.length_cons, Option.map_some, some_and]
      cases isLetter a <;> simp

/-- A string is empty where its first character is the terminator. -/
theorem charAt_zero_iff (h : Spells p s) : ∃ a, C.charAt p 0 = some a ∧ (a = 0 ↔ s = []) := by
  cases s with
  | nil =>
      exact ⟨0, h.load_end, by simp⟩
  | cons a s =>
      refine ⟨a, h.load rfl, ?_⟩
      have ha : a ≠ 0 := by
        rintro rfl
        exact h.zero_not_mem (by simp)
      simp [ha]

/-! ## Markers and native input -/

theorem literal_marker : Spells (literal (lit "./") : C.Chars) (lit "./") :=
  literal_spells (by decide)

theorem markRelative_eq (h : Spells p s) : C.markRelative p = some (literal (Go.markRelative s)) := by
  rw [C.markRelative, needsRelativeMarker_eq h, some_bind, Go.markRelative]
  cases Go.needsRelativeMarker s with
  | false =>
      exact strdup_eq h
  | true =>
      have hmarker : Holds (literal (lit "./") : C.Chars) (lit "./") := literal_marker.holds.of_append
      have hfront := memcpy_front (n := s.length + 3) hmarker (by simp [lit])
      rw [if_neg (by simp), strlen_of_spells h, some_bind, if_pos rfl]
      refine (congrArg (· >>= _) hfront).trans ?_
      exact memcpy_last h rfl (by simp [lit]; omega)

theorem zero_not_mem_markRelative (h : 0 ∉ s) : 0 ∉ Go.markRelative s := by
  rw [Go.markRelative]
  split_ifs
  · intro hmem
    rcases List.mem_append.1 hmem with hmarker | hmem
    · revert hmarker
      decide
    · exact h hmem
  · exact h

theorem leadingSlashes_eq {k : Nat} {rest : Bytes} (h : Spells p (List.replicate k (chr '/') ++ rest))
    (hrest : rest.head? ≠ some (chr '/')) : C.leadingSlashes p = some k := by
  induction k generalizing p with
  | zero =>
      cases rest with
      | nil =>
          obtain ⟨junk, rfl⟩ := spells_at_nil_iff.1 h
          rfl
      | cons a rest =>
          obtain ⟨q, rfl, -⟩ := spells_at_cons_iff.1 h
          have ha : a ≠ chr '/' := by
            simpa using hrest
          rw [C.leadingSlashes, if_neg ha]
  | succ k ih =>
      obtain ⟨q, rfl, -, hq⟩ := spells_at_cons_iff.1 h
      rw [C.leadingSlashes, if_pos rfl, ih hq]
      rfl

theorem prepareNativePosix_refines (h : Spells p s) :
    Refines Spelled (Go.prepareNativePOSIX s) (C.prepareNativePosix p) := by
  obtain ⟨k, rest, rfl, hrest⟩ := exists_slashes s
  have hzero : 0 ∉ rest := fun hmem => h.zero_not_mem (List.mem_append_right _ hmem)
  rw [prepareNativePOSIX_slashes k hrest, C.prepareNativePosix, leadingSlashes_eq h hrest, lift_bind]
  by_cases htwo : k = 2
  · rw [if_pos htwo, if_pos htwo]
    exact Refines.fail
  rw [if_neg htwo, if_neg htwo]
  by_cases hmore : k > 2
  · have hadvance := h.advance
    have hbody := h.drop
    rw [List.length_replicate] at hadvance hbody
    have hlast := memcpy_last (s := [chr '/']) (n := rest.length + 2) (i := 1) hbody rfl (by simp; omega)
    rw [if_pos hmore, if_neg (by omega), hadvance, lift_bind, strlen_of_spells hbody, lift_bind,
      store_front (by omega), lift_bind]
    refine Refines.liftM ⟨_, hlast, literal_spells ?_⟩
    intro hmem
    rcases List.mem_append.1 hmem with hslash | hmem
    · revert hslash
      decide
    · exact hzero hmem
  · have hmarked := literal_spells (zero_not_mem_markRelative h.zero_not_mem)
    rw [if_neg hmore, markRelative_eq h]
    by_cases hnone : k = 0
    · subst hnone
      rw [if_pos rfl]
      exact Refines.pure hmarked
    · have hone : k = 1 := by
        omega
      subst hone
      have hkeep : Go.markRelative (List.replicate 1 (chr '/') ++ rest) = chr '/' :: rest :=
        markRelative_of_slash rest
      rw [if_neg (by omega), hkeep]
      rw [hkeep] at hmarked
      exact Refines.pure hmarked

/-! ## Components -/

theorem isDot_eq {part : Bytes} (h : Holds p part) : C.isDot p part.length = some (decide (part = lit ".")) := by
  rw [C.isDot, some_and]
  match part with
  | [] => rfl
  | [a] =>
      rw [C.charAt, h.load (i := 0) rfl]
      simp only [Option.map_some, lit]
      by_cases ha : a = chr '.'
      · simp [ha]
      · simp [ha]
  | a :: b :: more => simp [lit]

theorem isDotDot_eq {part : Bytes} (h : Holds p part) :
    C.isDotDot p part.length = some (decide (part = lit "..")) := by
  rw [C.isDotDot, some_and]
  match part with
  | [] => rfl
  | [a] => simp [lit]
  | [a, b] =>
      rw [C.charAt, C.charAt, h.load (i := 0) rfl, h.load (i := 1) rfl]
      simp only [Option.map_some, some_and, lit]
      by_cases ha : a = chr '.'
      · by_cases hb : b = chr '.'
        · simp [ha, hb]
        · simp [ha, hb]
      · simp [ha]
  | a :: b :: c :: more => simp [lit]

/-- A component without a separator is found with its length, and the rest behind the separator. -/
theorem strchr_component {part more : Bytes} (hpart : chr '/' ∉ part) (h : Spells p (part ++ chr '/' :: more)) :
    strchr (chr '/') p = some (some part.length) := by
  have hmem : chr '/' ∈ part ++ chr '/' :: more := by
    simp
  rw [strchr_of_spells (by decide) h, if_pos hmem, List.idxOf_append_of_notMem hpart, List.idxOf_cons_self,
    Nat.add_zero]

theorem strchr_last {part : Bytes} (hpart : chr '/' ∉ part) (h : Spells p part) :
    strchr (chr '/') p = some none := by
  rw [strchr_of_spells (by decide) h, if_neg hpart]

theorem advance_component {part more : Bytes} (h : Spells p (part ++ chr '/' :: more)) :
    ∃ q, advance p (part.length + 1) = some q ∧ Spells q more := by
  have hsplit : part ++ chr '/' :: more = (part ++ [chr '/']) ++ more := by
    simp
  rw [hsplit] at h
  have hlength : (part ++ [chr '/']).length = part.length + 1 := by
    simp
  rw [← hlength]
  exact ⟨_, h.advance, h.drop⟩

/-! ## Roots -/

/-- The strings of a parsed root. -/
def SpelledRoot (split : Bytes × Bytes) (root : C.SplitRoot) : Prop :=
  Spells root.rootPrefix split.1 ∧ Spells root.rest split.2

theorem isBadShare_eq {server share : Bytes} (h : Holds p server) (h' : Holds q share) :
    C.isBadShare p q server.length share.length =
      some (decide (server = [] ∨ share = [] ∨ server = lit "." ∨ server = lit ".." ∨ share = lit "." ∨
        share = lit "..")) := by
  have hempty (part : Bytes) : (part.length == 0) = decide (part = []) := by
    rw [Bool.eq_iff_iff, beq_iff_eq, decide_eq_true_eq, List.length_eq_zero_iff]
  rw [C.isBadShare, isDot_eq h, isDotDot_eq h, isDot_eq h', isDotDot_eq h', hempty, hempty]
  simp only [some_or_some, Bool.decide_or]

theorem splitUncRoot_refines {leader body : Bytes} (h : Spells p (leader ++ body)) (h' : Spells q leader) :
    Refines SpelledRoot (Go.splitUNCRoot (leader ++ body) leader) (C.splitUncRoot p q) := by
  have hbody := h.drop
  rw [Go.splitUNCRoot, List.drop_left, C.splitUncRoot, strlen_of_spells h', lift_bind, h.advance, lift_bind]
  generalize p.drop leader.length = server' at hbody ⊢
  -- `strchr` looks for the two separators that `splitN` cuts at
  cases hcut : cut (chr '/') body with
  | none =>
      have hmem := cut_eq_none_iff.1 hcut
      rw [splitN_of_not_mem _ hmem, strchr_last hmem hbody, lift_bind]
      exact Refines.fail
  | some halves =>
      obtain ⟨server, body'⟩ := halves
      obtain ⟨rfl, hserver⟩ := cut_eq_some_iff.1 hcut
      obtain ⟨share', hadvance, hbody'⟩ := advance_component hbody
      rw [splitN_append_cons 1 hserver, strchr_component hserver hbody, lift_bind]
      simp only
      rw [hadvance, lift_bind]
      have hholds : Holds server' server := hbody.holds.of_append.of_append
      cases hcut' : cut (chr '/') body' with
      | none =>
          have hshare := cut_eq_none_iff.1 hcut'
          have hbad := isBadShare_eq hholds hbody'.holds.of_append
          rw [splitN_of_not_mem _ hshare, strchr_last hshare hbody', lift_bind, C.componentLen,
            strlen_of_spells hbody', lift_bind, hbad, lift_bind]
          simp only [decide_eq_true_eq]
          split_ifs with hrefused
          · exact Refines.fail
          · -- the share ends the value, so all of it is the root
            have hvalue : leader ++ (server ++ chr '/' :: body') = leader ++ server ++ lit "/" ++ body' := by
              simp [lit]
            rw [hvalue] at h
            rw [strlen_of_spells h, lift_bind, strndup_eq h.holds.of_append, lift_bind, strdup_eq spells_nil,
              lift_bind]
            exact Refines.pure ⟨literal_spells h.zero_not_mem, spells_nil⟩
      | some halves' =>
          obtain ⟨share, rest⟩ := halves'
          obtain ⟨rfl, hshare⟩ := cut_eq_some_iff.1 hcut'
          have hbad := isBadShare_eq hholds hbody'.holds.of_append.of_append
          rw [splitN_append_cons 0 hshare, strchr_component hshare hbody', lift_bind, C.componentLen, lift_bind,
            hbad, lift_bind]
          simp only [decide_eq_true_eq]
          split_ifs with hrefused
          · exact Refines.fail
          · -- the root is copied up to the second separator
            obtain ⟨rest', hrest, hspells⟩ := advance_component hbody'
            have hvalue : leader ++ (server ++ chr '/' :: (share ++ chr '/' :: rest)) =
                (leader ++ server ++ lit "/" ++ share) ++ chr '/' :: rest := by
              simp [lit]
            have hlength : leader.length + server.length + 1 + share.length =
                (leader ++ server ++ lit "/" ++ share).length := by
              simp [lit]
              omega
            rw [hvalue] at h
            have hroot : Holds p (leader ++ server ++ lit "/" ++ share) := h.holds.of_append.of_append
            rw [hlength, strndup_eq hroot, lift_bind, hrest, lift_bind, strdup_eq hspells, lift_bind]
            refine Refines.pure ⟨literal_spells ?_, literal_spells hspells.zero_not_mem⟩
            exact fun hmem => h.zero_not_mem (List.mem_append_left _ hmem)

theorem hasRootBackslash_eq (h : Spells p s) : C.hasRootBackslash p =
    some ((Go.hasDriveRoot s || Go.hasPrefix s (lit "//")) && decide (chr '\\' ∈ s)) := by
  rw [C.hasRootBackslash, hasDriveRoot_eq h, startsWith_lit h (by decide), strchr_of_spells (by decide) h,
    some_or_some, Option.map_some, some_and_some]
  by_cases hmem : chr '\\' ∈ s
  · simp [hmem]
  · simp [hmem]

/-- What the two grammars test for a Windows root, before it is read. -/
def looksWindows (s : Bytes) : Bool :=
  Go.hasDriveRoot s || Go.hasPrefix s (lit "//")

theorem looksWindows_extended (tail : Bytes) : looksWindows (lit "//?/" ++ tail) = true := by
  have hdouble : Go.hasPrefix (lit "//" ++ (lit "?/" ++ tail)) (lit "//") = true := Go.hasPrefix_append _ _
  rw [looksWindows, Bool.or_eq_true]
  exact Or.inr hdouble

theorem windows_of_splitUNCRoot (leader : Bytes) {body : Bytes} {split : Bytes × Bytes}
    (h : Go.splitUNCRoot (chr '/' :: chr '/' :: leader ++ body) (chr '/' :: chr '/' :: leader) = .ok split) :
    Go.isWindowsRoot split.1 = true := by
  obtain ⟨server, share, tail, -, -, -, -, hroot⟩ := exists_of_splitUNCRoot_eq_ok h
  simp [Go.isWindowsRoot, hroot, lit]

/-- Go reads a Windows root exactly there, -/
theorem isWindowsRoot_of_switch {split : Bytes × Bytes} (h : Go.splitRootSwitch s = .ok split) :
    Go.isWindowsRoot split.1 = looksWindows s := by
  rw [Go.splitRootSwitch] at h
  by_cases hext : Go.hasPrefix s (lit "//?/") = true
  · -- behind the extended prefix every accepted root is a Windows root
    obtain ⟨tail, rfl⟩ := Go.hasPrefix_iff.1 hext
    have hdrop : (lit "//?/" ++ tail).drop 4 = tail := rfl
    rw [if_pos hext, hdrop] at h
    rw [looksWindows_extended]
    split_ifs at h with hdrive hunc
    · cases h
      rfl
    · obtain ⟨body, rfl⟩ := Go.hasPrefix_iff.1 hunc
      exact windows_of_splitUNCRoot (lit "?/UNC/") h
    · cases h
  · rw [if_neg hext] at h
    by_cases hdrive : Go.hasDriveRoot s = true
    · rw [if_pos hdrive] at h
      obtain ⟨d, rest, hd, rfl⟩ := Go.hasDriveRoot_iff.1 hdrive
      cases h
      rw [looksWindows, hdrive, Bool.true_or]
      simp [Go.isWindowsRoot, lit, bne]
    · rw [if_neg hdrive] at h
      by_cases hdouble : Go.hasPrefix s (lit "//") = true
      · rw [if_pos hdouble] at h
        rw [looksWindows, hdouble, Bool.or_true]
        obtain ⟨body, rfl⟩ := Go.hasPrefix_iff.1 hdouble
        exact windows_of_splitUNCRoot [] h
      · -- a POSIX root or none
        rw [if_neg hdouble] at h
        rw [looksWindows, Bool.eq_false_iff.2 hdrive, Bool.eq_false_iff.2 hdouble]
        split_ifs at h
        · cases h
          rfl
        · cases h
        · cases h
          rfl

/-- and fails there with one code only. -/
theorem code_of_switch {err : PathError} (h : Go.splitRootSwitch s = .error err) (hwindows : looksWindows s = true) :
    err.code = .invalidPath := by
  rw [Go.splitRootSwitch] at h
  by_cases hext : Go.hasPrefix s (lit "//?/") = true
  · rw [if_pos hext] at h
    split_ifs at h
    · exact code_of_splitUNCRoot h
    · cases h
      rfl
  · rw [if_neg hext] at h
    by_cases hdrive : Go.hasDriveRoot s = true
    · rw [if_pos hdrive] at h
      cases h
    · rw [looksWindows, Bool.eq_false_iff.2 hdrive, Bool.false_or] at hwindows
      rw [if_neg hdrive, if_pos hwindows] at h
      exact code_of_splitUNCRoot h

/-- A root of fixed length is copied, and the rest behind it. -/
theorem copyRoot_refines {root rest : Bytes} (h : Spells p (root ++ rest)) :
    Refines SpelledRoot (.ok ((root ++ rest).take root.length, (root ++ rest).drop root.length))
      (do
        let rootPrefix ← liftM (C.strndup (some p) root.length)
        let rest ← liftM (C.strdup (some (← liftM (advance p root.length))))
        return ({ rootPrefix := rootPrefix, rest := rest } : C.SplitRoot)) := by
  have hroot : Holds p root := h.holds.of_append.of_append
  have hzero : 0 ∉ root := fun hmem => h.zero_not_mem (List.mem_append_left _ hmem)
  rw [List.take_left, List.drop_left, strndup_eq hroot, lift_bind, h.advance, lift_bind, strdup_eq h.drop,
    lift_bind]
  exact Refines.pure ⟨literal_spells hzero, literal_spells h.drop.zero_not_mem⟩

theorem headD_slash_iff (s : Bytes) : s.headD 0 = chr '/' ↔ Go.hasPrefix s (lit "/") = true := by
  rw [Go.hasPrefix_slash_iff]
  cases s with
  | nil =>
      simp
      decide
  | cons a s =>
      simp

/-- The roots that are no Windows root. -/
theorem plainRoot_refines (h : Spells p s) :
    Refines SpelledRoot
      (if Go.hasPrefix s (lit "/") then
        .ok (lit "/", s.drop 1)
      else if Go.isDriveRelative s then
        newError .driveRelativePath "Windows drive-relative paths are not canonical"
      else
        .ok ([], s))
      (do
        if (← liftM (C.charAt p 0)) = chr '/' then
          let rootPrefix ← liftM (C.strdup (some (literal (lit "/"))))
          let rest ← liftM (C.strdup (some (← liftM (advance p 1))))
          return ({ rootPrefix := rootPrefix, rest := rest } : C.SplitRoot)
        else if ← liftM (C.isDriveRelative p) then
          C.fail .driveRelativePath
        else
          let rootPrefix ← liftM (C.strdup (some (literal [])))
          let rest ← liftM (C.strdup (some p))
          return { rootPrefix := rootPrefix, rest := rest }) := by
  have hslash : Spells (literal (lit "/") : C.Chars) (lit "/") := literal_spells (by decide)
  -- the C port tests the first character, also of an empty string
  have hhead : C.charAt p 0 = some (s.headD 0) := h.load_head
  have hiff := headD_slash_iff s
  rw [hhead, lift_bind]
  by_cases hposix : Go.hasPrefix s (lit "/") = true
  · obtain ⟨rest, rfl⟩ := Go.hasPrefix_iff.1 hposix
    have hadvance : advance p 1 = some (p.drop 1) := Spells.advance (s := lit "/") h
    have hrest : Spells (p.drop 1) rest := Spells.drop (s := lit "/") h
    rw [if_pos hposix, if_pos (hiff.2 hposix), strdup_eq hslash, lift_bind, hadvance, lift_bind, strdup_eq hrest,
      lift_bind]
    exact Refines.pure ⟨hslash, literal_spells hrest.zero_not_mem⟩
  · rw [if_neg hposix, if_neg (fun heq => hposix (hiff.1 heq)), isDriveRelative_eq h, lift_bind]
    split_ifs
    · exact Refines.fail
    · rw [strdup_eq spells_nil, lift_bind, strdup_eq h, lift_bind]
      exact Refines.pure ⟨spells_nil, literal_spells h.zero_not_mem⟩

/-- The branches behind the backslash test. -/
theorem splitRootSwitch_refines (h : Spells p s) (hclean : (looksWindows s && decide (chr '\\' ∈ s)) = false) :
    Refines SpelledRoot (Go.splitRootSwitch s) (C.splitRootParse p) := by
  have hbackslash := hasRootBackslash_eq h
  rw [show (Go.hasDriveRoot s || Go.hasPrefix s (lit "//")) = looksWindows s from rfl, hclean] at hbackslash
  rw [C.splitRootParse, hbackslash, lift_bind, if_neg (by simp), startsWith_lit h (by decide), lift_bind,
    Go.splitRootSwitch]
  by_cases hext : Go.hasPrefix s (lit "//?/") = true
  · obtain ⟨tail, rfl⟩ := Go.hasPrefix_iff.1 hext
    -- the grammars take the same branches in the same order; `p` moves over what a branch has matched
    have htail : Spells (p.drop 4) tail := Spells.drop (s := lit "//?/") h
    have hadvance : advance p 4 = some (p.drop 4) := Spells.advance (s := lit "//?/") h
    have hdrop : (lit "//?/" ++ tail).drop 4 = tail := rfl
    rw [if_pos hext, if_pos hext, hdrop, hadvance, lift_bind, hasDriveRoot_eq htail, lift_bind]
    by_cases hdrive : Go.hasDriveRoot tail = true
    · rw [if_pos hdrive, if_pos hdrive]
      obtain ⟨d, rest, hd, rfl⟩ := Go.hasDriveRoot_iff.1 hdrive
      have hsplit : lit "//?/" ++ d :: chr ':' :: chr '/' :: rest = (lit "//?/" ++ [d, chr ':', chr '/']) ++ rest := by
        simp
      rw [hsplit] at h
      exact copyRoot_refines h
    · rw [if_neg hdrive, if_neg hdrive, startsWith_lit htail (by decide), lift_bind]
      by_cases hunc : Go.hasPrefix tail (lit "UNC/") = true
      · obtain ⟨body, rfl⟩ := Go.hasPrefix_iff.1 hunc
        rw [if_pos hunc, if_pos hunc]
        have hvalue : Spells p (lit "//?/UNC/" ++ body) := h
        exact splitUncRoot_refines hvalue (literal_spells (by decide))
      · rw [if_neg hunc, if_neg hunc]
        exact Refines.fail
  · rw [if_neg hext, if_neg hext, hasDriveRoot_eq h, lift_bind]
    by_cases hdrive : Go.hasDriveRoot s = true
    · rw [if_pos hdrive, if_pos hdrive]
      obtain ⟨d, rest, hd, rfl⟩ := Go.hasDriveRoot_iff.1 hdrive
      have hvalue : Spells p ([d, chr ':', chr '/'] ++ rest) := h
      exact copyRoot_refines hvalue
    · rw [if_neg hdrive, if_neg hdrive, startsWith_lit h (by decide), lift_bind]
      by_cases hdouble : Go.hasPrefix s (lit "//") = true
      · obtain ⟨body, rfl⟩ := Go.hasPrefix_iff.1 hdouble
        rw [if_pos hdouble, if_pos hdouble]
        exact splitUncRoot_refines h (literal_spells (by decide))
      · rw [if_neg hdouble, if_neg hdouble]
        exact plainRoot_refines h

theorem splitRootParse_refines (h : Spells p s) :
    Refines SpelledRoot (Go.splitRoot s) (C.splitRootParse p) := by
  cases hclean : looksWindows s && decide (chr '\\' ∈ s) with
  | true =>
      have hbackslash := hasRootBackslash_eq h
      rw [show (Go.hasDriveRoot s || Go.hasPrefix s (lit "//")) = looksWindows s from rfl, hclean] at hbackslash
      rw [C.splitRootParse, hbackslash, lift_bind, if_pos rfl]
      rw [Bool.and_eq_true, decide_eq_true_eq] at hclean
      -- Go reads the root first, and fails with the same code before or after
      refine ⟨.error .invalidPath, rfl, ?_⟩
      rw [Go.splitRoot]
      cases hswitch : Go.splitRootSwitch s with
      | error err =>
          exact Rel.error (code_of_switch hswitch hclean.1)
      | ok split =>
          have hwindows := isWindowsRoot_of_switch hswitch
          rw [ok_bind, if_pos ⟨hwindows.trans hclean.1, hclean.2⟩]
          exact Rel.error rfl
  | false =>
      have hsame : Go.splitRoot s = Go.splitRootSwitch s := by
        rw [Go.splitRoot]
        cases hswitch : Go.splitRootSwitch s with
        | error err =>
            rfl
        | ok split =>
            have hwindows := isWindowsRoot_of_switch hswitch
            rw [ok_bind, hwindows, if_neg]
            rintro ⟨hlooks, hmem⟩
            simp [hlooks, hmem] at hclean
      rw [hsame]
      exact splitRootSwitch_refines h hclean

theorem lowercaseDrive_yields (h : Spells p s) :
    Yields (C.lowercaseDrive p) fun q => Spells q (Go.lowercaseDrive s) := by
  have hlower {d : UInt8} (hd : isLetter d = true) : lower d ≠ 0 :=
    Go.ne_nul_of_isLetter (by rwa [isLetter_lower])
  rw [C.lowercaseDrive, Go.lowercaseDrive, hasDriveRoot_eq h, some_bind]
  by_cases hdrive : Go.hasDriveRoot s = true
  · obtain ⟨d, rest, hd, rfl⟩ := Go.hasDriveRoot_iff.1 hdrive
    have hload : C.charAt p 0 = some d := h.load rfl
    -- the letter is overwritten where it stands
    rw [if_pos hdrive, if_pos hdrive, hload, some_bind, store, if_pos (Nat.lt_of_le_of_lt (Nat.zero_le _) h.length_lt)]
    exact ⟨_, rfl, h.set (by simp) (hlower hd)⟩
  · rw [if_neg hdrive, if_neg hdrive, startsWith_lit h (by decide), some_and]
    by_cases hext : Go.hasPrefix s (lit "//?/") = true
    · obtain ⟨tail, rfl⟩ := Go.hasPrefix_iff.1 hext
      have htail : Spells (p.drop 4) tail := Spells.drop (s := lit "//?/") h
      have hadvance : advance p 4 = some (p.drop 4) := Spells.advance (s := lit "//?/") h
      have hdrop : (lit "//?/" ++ tail).drop 4 = tail := rfl
      rw [if_pos hext, hadvance, some_bind, hasDriveRoot_eq htail, some_bind, hext, Bool.true_and, hdrop]
      by_cases htailDrive : Go.hasDriveRoot tail = true
      · obtain ⟨d, rest, hd, rfl⟩ := Go.hasDriveRoot_iff.1 htailDrive
        have hload : C.charAt p 4 = some d := h.load rfl
        have hlength : 4 < p.length := by
          have hlt := h.length_lt
          simp [lit] at hlt
          omega
        rw [if_pos htailDrive, if_pos htailDrive, hload, some_bind, store, if_pos hlength]
        exact ⟨_, rfl, h.set (by simp [lit]) (hlower hd)⟩
      · rw [if_neg htailDrive, if_neg htailDrive]
        exact ⟨p, rfl, h⟩
    · rw [if_neg hext, some_bind, if_neg (by simp), if_neg (by simp [hext])]
      exact ⟨p, rfl, h⟩

/-! ## The component vector -/

/-- The vector holds the components, within its capacity. -/
def Vector (parts : List Bytes) (vec : C.StringVec) : Prop :=
  vec.items = parts.map literal ∧ parts.length ≤ vec.cap ∧ ∀ part ∈ parts, 0 ∉ part

theorem Vector.empty : Vector [] {} :=
  ⟨rfl, Nat.le_refl _, by simp⟩

theorem Vector.push {parts : List Bytes} {vec : C.StringVec} {part : Bytes} (h : Vector parts vec)
    (hpart : Holds p part) (hzero : 0 ∉ part) :
    Yields (vec.push p part.length) (Vector (parts ++ [part])) := by
  obtain ⟨hitems, hcap, hparts⟩ := h
  have hlength : vec.items.length = parts.length := by
    rw [hitems, List.length_map]
  rw [C.StringVec.push, strndup_eq hpart, some_bind]
  -- the array has grown where it was full
  have hroom : vec.items.length < if vec.items.length = vec.cap then if vec.cap = 0 then 8 else vec.cap * 2
      else vec.cap := by
    split_ifs <;> omega
  rw [if_pos hroom]
  refine ⟨_, rfl, ?_, ?_, ?_⟩
  · rw [hitems, List.map_append]
    rfl
  · rw [List.length_append, List.length_singleton, ← hlength]
    exact hroom
  · intro part' hpart'
    rcases List.mem_append.1 hpart' with hmem | hmem
    · exact hparts part' hmem
    · rw [List.mem_singleton.1 hmem]
      exact hzero

theorem Vector.pop {parts : List Bytes} {vec : C.StringVec} (h : Vector parts vec) :
    Vector parts.dropLast vec.pop := by
  obtain ⟨hitems, hcap, hparts⟩ := h
  refine ⟨?_, ?_, fun part hpart => hparts part ((List.dropLast_sublist parts).subset hpart)⟩
  · rw [C.StringVec.pop, hitems, List.map_dropLast]
  · rw [List.length_dropLast]
    exact Nat.le_trans (Nat.sub_le _ _) hcap

/-- What the join loop writes, behind components already written or not. -/
def pieces : Bool → List Bytes → Bytes
  | _, [] => []
  | more, part :: parts => (if more then [chr '/'] else []) ++ part ++ pieces true parts

theorem pieces_true (parts : List Bytes) :
    pieces true parts = if parts = [] then [] else chr '/' :: joinOn (chr '/') parts := by
  induction parts with
  | nil =>
      rfl
  | cons part parts ih =>
      rw [pieces, ih]
      by_cases hnil : parts = []
      · simp [hnil, joinOn]
      · simp [hnil, joinOn_cons_of_ne_nil hnil]

theorem pieces_false (parts : List Bytes) : pieces false parts = joinOn (chr '/') parts := by
  cases parts with
  | nil =>
      rfl
  | cons part parts =>
      rw [pieces, pieces_true]
      by_cases hnil : parts = []
      · simp [hnil, joinOn]
      · simp [hnil, joinOn_cons_of_ne_nil hnil]

theorem joinTotal_eq {parts : List Bytes} (hparts : ∀ part ∈ parts, 0 ∉ part) (total : Nat) (more : Bool) :
    C.joinTotal total more (parts.map literal) = some (total + (pieces more parts).length) := by
  induction parts generalizing total more with
  | nil =>
      rfl
  | cons part parts ih =>
      have hpart : Spells (literal part : C.Chars) part := literal_spells (hparts part (by simp))
      rw [List.map_cons, C.joinTotal, strlen_of_spells hpart, some_bind,
        ih fun part' hpart' => hparts part' (by simp [hpart']), pieces]
      cases more <;> simp <;> omega

theorem joinLoop_eq {parts : List Bytes} (hparts : ∀ part ∈ parts, 0 ∉ part) {n : Nat} (s : Bytes) (more : Bool)
    (hroom : s.length + (pieces more parts).length ≤ n) :
    C.joinLoop (filled (s.map some) n) s.length more (parts.map literal) =
      some (filled ((s ++ pieces more parts).map some) n, (s ++ pieces more parts).length) := by
  induction parts generalizing s more with
  | nil =>
      rw [pieces, List.append_nil]
      rfl
  | cons part parts ih =>
      have hpart : Spells (literal part : C.Chars) part := literal_spells (hparts part (by simp))
      have hrest : ∀ part' ∈ parts, 0 ∉ part' := fun part' hpart' => hparts part' (by simp [hpart'])
      -- a component and what follows it, behind whatever is written already
      have hcopy (s : Bytes) (hroom : s.length + (part ++ pieces true parts).length ≤ n) :
          (memcpy (filled (s.map some) n) s.length (literal part) part.length >>= fun result =>
            C.joinLoop result (s.length + part.length) true (parts.map literal)) =
            some (filled ((s ++ (part ++ pieces true parts)).map some) n,
              (s ++ (part ++ pieces true parts)).length) := by
        rw [List.length_append] at hroom
        rw [memcpy_more hpart.holds.of_append rfl (by omega), some_bind, ← List.length_append,
          ih hrest (s ++ part) true (by rw [List.length_append]; omega), List.append_assoc]
      rw [List.map_cons, C.joinLoop, pieces]
      rw [pieces] at hroom
      cases more with
      | false =>
          simp only [Bool.false_eq_true, if_false, some_bind, strlen_of_spells hpart, List.nil_append] at hroom ⊢
          exact hcopy s hroom
      | true =>
          simp only [if_true, List.append_assoc, List.length_append, List.length_singleton] at hroom
          -- a separator goes in front of every component but the first
          have hslash := store_more (s := s) (n := n) (c := chr '/') rfl (by omega)
          simp only [if_true, hslash, some_bind, strlen_of_spells hpart]
          have hwhole := hcopy (s ++ [chr '/']) (by simp only [List.length_append, List.length_singleton]; omega)
          rw [List.length_append, List.length_singleton] at hwhole
          rw [hwhole]
          simp

theorem joinPartsRange_eq {parts : List Bytes} {vec : C.StringVec} (h : Vector parts vec) :
    C.joinPartsRange vec 0 = some (literal (joinOn (chr '/') parts)) := by
  obtain ⟨hitems, -, hparts⟩ := h
  have hloop := joinLoop_eq hparts (n := (joinOn (chr '/') parts).length + 1) [] false
    (by rw [pieces_false]; simp)
  rw [pieces_false, List.nil_append] at hloop
  rw [C.joinPartsRange, List.drop_zero, hitems, joinTotal_eq hparts, some_bind, pieces_false, Nat.zero_add]
  refine (congrArg (· >>= _) hloop).trans ?_
  exact store_last rfl rfl

/-! ## Dot cleanup -/

theorem cleanTurn_eq {part : Bytes} (h : Holds p part) : C.cleanTurn p part.length =
    some (if part = [] ∨ part = lit "." then .skip else if part = lit ".." then .up else .push) := by
  have hempty : (part.length == 0) = decide (part = []) := by
    rw [Bool.eq_iff_iff, beq_iff_eq, decide_eq_true_eq, List.length_eq_zero_iff]
  rw [C.cleanTurn, isDot_eq h, isDotDot_eq h, hempty, some_or_some, some_bind, ← Bool.decide_or]
  simp only [decide_eq_true_eq, some_bind]
  split_ifs <;> rfl

/-- One turn, on a component of a nul-free rest. -/
theorem cleanComponent_refines {rootPrefix : Bytes} {root : C.Chars} {part : Bytes} {parts more : List Bytes}
    {vec : C.StringVec} (escape : String) (hroot : Spells root rootPrefix) (h : Holds p part)
    (hzero : 0 ∉ part) (hvec : Vector parts vec)
    {f : C.StringVec → C.Run δ} {S : List Bytes → δ → Prop}
    (hmore : ∀ parts' vec', Vector parts' vec' →
      Refines S (Go.cleanLoop (rootPrefix != []) { code := .invalidPath, message := escape } parts' more) (f vec')) :
    Refines S (Go.cleanLoop (rootPrefix != []) { code := .invalidPath, message := escape } parts (part :: more))
      (C.cleanComponent root p part.length vec >>= f) := by
  have hlength : vec.items.length > 0 ↔ parts ≠ [] := by
    rw [hvec.1, List.length_map]
    exact List.length_pos_iff
  rw [Go.cleanLoop, C.cleanComponent, cleanTurn_eq h, lift_bind]
  by_cases hskip : part = [] ∨ part = lit "."
  · rw [if_pos hskip, if_pos hskip]
    exact hmore _ _ hvec
  rw [if_neg hskip, if_neg hskip]
  by_cases hup : part = lit ".."
  · rw [if_pos hup, if_pos hup]
    simp only [hlength]
    -- `..` takes a component, stays at a root, or leaves a relative path
    by_cases hparts : parts ≠ []
    · rw [if_pos hparts, if_pos hparts]
      exact hmore _ _ hvec.pop
    · obtain ⟨a, ha, hiff⟩ := charAt_zero_iff hroot
      rw [if_neg hparts, if_neg hparts, ha, lift_bind]
      simp only [hiff, bne_iff_ne, ne_eq]
      by_cases hnil : rootPrefix = []
      · rw [if_pos hnil, if_neg (not_not_intro hnil)]
        exact Refines.fail
      · rw [if_neg hnil, if_pos hnil]
        exact hmore _ _ hvec
  · rw [if_neg hup, if_neg hup]
    exact Refines.yields (hvec.push h hzero) fun vec' hvec' => hmore _ _ hvec'

/-- The component loop, with fuel for every separator. -/
theorem cleanLoop_refines {rootPrefix : Bytes} {root : C.Chars} (escape : String) (hroot : Spells root rootPrefix)
    {parts : List Bytes} {vec : C.StringVec} (hvec : Vector parts vec) {fuel : Nat} (h : Spells p s)
    (hfuel : s.length < fuel) :
    Refines Vector
      (Go.cleanLoop (rootPrefix != []) { code := .invalidPath, message := escape } parts (s.splitOn (chr '/')))
      (C.cleanLoop root fuel p vec) := by
  induction fuel generalizing p s parts vec with
  | zero =>
      exact absurd hfuel (Nat.not_lt_zero _)
  | succ fuel ih =>
      rw [C.cleanLoop]
      cases hcut : cut (chr '/') s with
      | none =>
          have hmem := cut_eq_none_iff.1 hcut
          -- the last component
          rw [strchr_last hmem h, lift_bind, C.componentLen, strlen_of_spells h, lift_bind,
            List.splitOn_eq_singleton hmem]
          refine cleanComponent_refines escape hroot h.holds.of_append h.zero_not_mem hvec fun parts' vec' hvec' => ?_
          exact Refines.pure hvec'
      | some halves =>
          obtain ⟨part, more⟩ := halves
          obtain ⟨rfl, hpart⟩ := cut_eq_some_iff.1 hcut
          have hzero : 0 ∉ part := fun hmem => h.zero_not_mem (List.mem_append_left _ hmem)
          obtain ⟨q, hadvance, hmore⟩ := advance_component h
          rw [strchr_component hpart h, lift_bind, C.componentLen, lift_bind,
            List.splitOn_append_cons_self_of_not_mem hpart]
          refine cleanComponent_refines escape hroot h.holds.of_append.of_append hzero hvec
            fun parts' vec' hvec' => ?_
          simp only
          rw [hadvance, lift_bind]
          refine ih hvec' hmore ?_
          simp at hfuel
          omega

theorem writeCleaned_eq {rootPrefix : Bytes} {root joined : C.Chars} {parts : List Bytes}
    (hroot : Spells root rootPrefix) (hjoined : Spells joined (joinOn (chr '/') parts)) :
    C.writeCleaned root joined = some (literal (Go.serialize rootPrefix parts)) := by
  have hdot : Spells (literal (lit ".") : C.Chars) (lit ".") := literal_spells (by decide)
  have hslash : Spells (literal (lit "/") : C.Chars) (lit "/") := literal_spells (by decide)
  rw [C.writeCleaned, strlen_of_spells hroot, some_bind, strlen_of_spells hjoined, some_bind, Go.serialize]
  simp only [List.length_eq_zero_iff]
  generalize joinOn (chr '/') parts = text at hjoined ⊢
  by_cases hempty : rootPrefix = []
  · rw [if_pos hempty, if_pos hempty]
    by_cases hnil : text = []
    · rw [if_pos hnil, if_pos hnil]
      exact strdup_eq hdot
    · rw [if_neg hnil, if_neg hnil]
      exact markRelative_eq hjoined
  rw [if_neg hempty, if_neg hempty, strcmpEq_lit hroot (by decide), some_bind]
  -- the C port asks for the POSIX root first, the Go port only for a separator at the end
  by_cases hposix : rootPrefix = lit "/"
  · have hsuffix : Go.hasSuffix (lit "/" : Bytes) (lit "/") = true := by
      decide
    rw [if_pos (by simpa using hposix)]
    by_cases hnil : text = []
    · rw [if_pos hnil, if_pos hnil, hposix]
      exact strdup_eq hslash
    · have hlast := memcpy_last (s := [chr '/']) (n := text.length + 2) (i := 1) hjoined rfl (by simp; omega)
      rw [if_neg hnil, if_neg hnil, hposix, if_pos hsuffix, store_front (by omega), some_bind]
      exact hlast
  · rw [if_neg (by simpa using hposix)]
    obtain ⟨front, last, rfl⟩ : ∃ front last, rootPrefix = front ++ [last] :=
      ⟨_, _, (List.dropLast_append_getLast hempty).symm⟩
    -- both test the last character of the root
    have hload : C.charAt root ((front ++ [last]).length - 1) = some last := by
      apply hroot.load
      simp
    have hsuffix : Go.hasSuffix (front ++ [last]) (lit "/") = true ↔ last = chr '/' := by
      rw [Go.hasSuffix_slash_iff]
      constructor
      · rintro ⟨front', heq⟩
        exact (List.append_inj_right' heq rfl) |> List.singleton_inj.1
      · rintro rfl
        exact ⟨front, rfl⟩
    have hfront (n : Nat) (hn : (front ++ [last]).length ≤ n) :
        memcpy (malloc n) 0 root (front ++ [last]).length = some (filled ((front ++ [last]).map some) n) :=
      memcpy_front hroot.holds.of_append hn
    rw [hload, some_bind]
    simp only [hsuffix]
    by_cases hend : last = chr '/'
    · rw [if_pos hend, if_pos hend]
      by_cases hnil : text = []
      · rw [if_pos hnil, if_pos hnil]
        exact strdup_eq hroot
      · rw [if_neg hnil, if_neg hnil, hfront _ (by omega), some_bind]
        exact memcpy_last hjoined rfl rfl
    · rw [if_neg hend, if_neg hend]
      by_cases hnil : text = []
      · rw [if_pos hnil, if_pos hnil]
        exact strdup_eq hroot
      · rw [if_neg hnil, if_neg hnil, hfront _ (by omega), some_bind, store_more rfl (by omega), some_bind]
        exact memcpy_last hjoined (by simp) (by simp)

theorem zero_not_mem_of_vector {parts : List Bytes} {vec : C.StringVec} (h : Vector parts vec) :
    0 ∉ joinOn (chr '/') parts := by
  intro hmem
  rcases mem_joinOn hmem with hslash | ⟨part, hpart, hmem⟩
  · revert hslash
    decide
  · exact h.2.2 part hpart hmem

theorem zero_not_mem_serialize {rootPrefix : Bytes} {parts : List Bytes} (h : 0 ∉ rootPrefix)
    (h' : 0 ∉ joinOn (chr '/') parts) : 0 ∉ Go.serialize rootPrefix parts := by
  have hslash : (0 : UInt8) ∉ (lit "/" : Bytes) := by
    decide
  rw [Go.serialize]
  split_ifs
  · decide
  · exact zero_not_mem_markRelative h'
  · exact h
  · simp only [List.mem_append, not_or]
    exact ⟨h, h'⟩
  · simp only [List.mem_append, not_or]
    exact ⟨⟨h, hslash⟩, h'⟩

theorem cleanCanonical_refines (h : Spells p s) : Refines Spelled (Go.cleanCanonical s) (C.cleanCanonical p) := by
  obtain ⟨a, ha, hiff⟩ := charAt_zero_iff h
  have hnul : nul ∉ s := h.zero_not_mem
  rw [Go.cleanCanonical, C.cleanCanonical, ha, lift_bind]
  simp only [hiff]
  by_cases hne : s = []
  · rw [if_pos hne, if_pos hne]
    exact Refines.fail
  rw [if_neg hne, if_neg hne, if_neg hnul]
  refine (splitRootParse_refines h).bind fun split root hsplit hroot => ?_
  refine Refines.yields (lowercaseDrive_yields hroot.1) fun rootPrefix hprefix => ?_
  refine (cleanLoop_refines _ hprefix Vector.empty hroot.2 hroot.2.length_lt).bind fun parts vec hclean hvec => ?_
  have hzero := zero_not_mem_serialize hprefix.zero_not_mem (zero_not_mem_of_vector hvec)
  have hjoined : Spells (literal (joinOn (chr '/') parts) : C.Chars) (joinOn (chr '/') parts) :=
    literal_spells (zero_not_mem_of_vector hvec)
  rw [joinPartsRange_eq hvec, lift_bind, writeCleaned_eq hprefix hjoined]
  exact Refines.pure (literal_spells hzero)

theorem cleanNativePosix_refines (h : Spells p s) :
    Refines Spelled (Go.cleanNativePOSIX s) (C.cleanNativePosix p) :=
  (prepareNativePosix_refines h).bind fun _ _ _ hprepared => cleanCanonical_refines hprepared

/-! ## Mount roots -/

/-- The mount root of a Go record, passed to C: null, with its exact length, or terminated. -/
inductive PassesMount : C.WSLOptions → Bytes → Prop
  | null {enabled : Int} : PassesMount ⟨enabled, none, 0⟩ []
  | exact {enabled : Int} {p : C.Chars} {mount : Bytes} :
      mount ≠ [] → Holds p mount → PassesMount ⟨enabled, some p, mount.length⟩ mount
  | terminated {enabled : Int} {p : C.Chars} {mount : Bytes} :
      Spells p mount → PassesMount ⟨enabled, some p, 0⟩ mount

/-- The end of `cp_normalize_mount_root`, once pointer and length are settled. -/
theorem mountEnd_refines {mount : Bytes} (h : Holds p mount) :
    Refines Spelled (Go.normalizeMountRoot mount)
      (do
        if ← liftM (C.hasNul (some p) mount.length) then
          C.fail .nulByte
        else
          let copy ← liftM (C.strndup (some p) mount.length)
          if (← liftM (C.charAt (if mount.length = 0 then literal (lit "/mnt") else copy) 0)) = chr '/' then
            C.cleanNativePosix (if mount.length = 0 then literal (lit "/mnt") else copy)
          else
            C.fail .invalidPath) := by
  have hnul : nul ∈ mount ↔ 0 ∈ mount := Iff.rfl
  rw [hasNul_eq h, lift_bind, Go.normalizeMountRoot]
  simp only [hnul, decide_eq_true_eq]
  by_cases hmem : 0 ∈ mount
  · rw [if_pos hmem, if_pos hmem]
    exact Refines.fail
  rw [if_neg hmem, if_neg hmem, strndup_eq h, lift_bind]
  -- the default or the copy, whichever is cleaned
  have hvalue : Spells (if mount.length = 0 then literal (lit "/mnt") else literal mount)
      (Go.defaultMountRoot mount) := by
    rw [Go.defaultMountRoot]
    simp only [List.length_eq_zero_iff]
    split_ifs
    · exact literal_spells (by decide)
    · exact literal_spells hmem
  generalize (if mount.length = 0 then literal (lit "/mnt") else literal mount : C.Chars) = value at hvalue ⊢
  have hhead : C.charAt value 0 = some ((Go.defaultMountRoot mount).headD 0) := hvalue.load_head
  have hiff : (Go.defaultMountRoot mount).headD 0 = chr '/' ↔
      Go.hasPrefix (Go.defaultMountRoot mount) (lit "/") = true := headD_slash_iff _
  rw [hhead, lift_bind]
  simp only [hiff]
  split_ifs
  · exact cleanNativePosix_refines hvalue
  · exact Refines.fail

theorem normalizeMountRoot_refines {options : C.WSLOptions} {mount : Bytes} (h : PassesMount options mount) :
    Refines Spelled (Go.normalizeMountRoot mount) (C.normalizeMountRoot options) := by
  cases h with
  | null =>
      exact mountEnd_refines (Holds.nil (literal []))
  | @exact enabled p mount hne hholds =>
      have hlength : ¬mount.length = 0 := by
        rwa [List.length_eq_zero_iff]
      rw [C.normalizeMountRoot]
      simp only [run_pure_bind]
      rw [if_neg hlength]
      exact mountEnd_refines hholds
  | terminated hspells =>
      rw [C.normalizeMountRoot]
      simp only [run_pure_bind]
      rw [if_pos trivial, strlen_of_spells hspells, lift_bind]
      exact mountEnd_refines hspells.holds.of_append

end C

end Ports

end CanonicalPath
