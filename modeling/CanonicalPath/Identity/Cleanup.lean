import CanonicalPath.Identity.Canonical

/-!
# Cleanup — dot cleanup is a component stack behind an atomic root

`cleanCanonical` described without the code: which inputs it refuses, by counting components, and for every other
input the root, the components and the way they are written.

* `Escapes` : some front of the components has more `..` than ordinary components
* `FoldsDrive`, `Written` : the root with its drive letter in lower case, and the spelling of root and components
* `cleanCanonical_stack` : both for every value that `splitRoot` reads
-/

namespace CanonicalPath

open CodeUnit Segments Go DotStack

variable {α : Type} [DecidableEq α] [CodeUnit α]

/-! ## Counting components -/

/-- A component that a stack keeps. -/
def IsOrdinary (part : List α) : Prop :=
  part ≠ [] ∧ part ≠ lit "." ∧ part ≠ lit ".."

instance (part : List α) : Decidable (IsOrdinary part) :=
  inferInstanceAs (Decidable (_ ∧ _ ∧ _))

/-- Some front of the components has more `..` than ordinary components. -/
def Escapes (comps : List (List α)) : Prop :=
  ∃ front, front <+: comps ∧ (front.countP fun part => decide (IsOrdinary part)) < front.count (lit "..")

theorem isOrdinary_iff {part : List α} : IsOrdinary part ↔ move part = .into part := by
  rw [move_eq_into_iff]
  exact (and_iff_right rfl).symm

theorem length_names_map_move (comps : List (List α)) :
    (names (comps.map move)).length = comps.countP fun part => decide (IsOrdinary part) := by
  induction comps with
  | nil =>
      rfl
  | cons part comps ih =>
      rw [List.countP_cons, ← ih, List.map_cons]
      cases hmove : move part with
      | stay =>
          have hkept : ¬IsOrdinary part := by
            rw [isOrdinary_iff, hmove]
            exact fun h => by cases h
          rw [decide_eq_false hkept]
          rfl
      | up =>
          have hkept : ¬IsOrdinary part := by
            rw [isOrdinary_iff, hmove]
            exact fun h => by cases h
          rw [decide_eq_false hkept]
          rfl
      | into name =>
          have hkept : IsOrdinary part := (move_eq_into_iff.1 hmove).2
          rw [decide_eq_true hkept]
          rfl

theorem move_eq_up_iff {part : List α} : move part = .up ↔ part = lit ".." := by
  rw [move]
  split_ifs with hstay hup
  · rcases hstay with rfl | rfl
    · simp [lit]
    · simp [lit]
  · simp [hup]
  · simp [hup]

theorem ups_map_move (comps : List (List α)) : ups (comps.map move) = comps.count (lit "..") := by
  rw [ups, List.countP_map, List.count]
  apply List.countP_congr
  intro part _
  rw [Function.comp_apply, beq_iff_eq, ← move_eq_up_iff]
  cases move part <;> simp

/-- Without a floor the walk of the components fails where they escape. -/
theorem run_map_move_eq_none_iff {comps : List (List α)} : run false [] (comps.map move) = none ↔ Escapes comps := by
  rw [run_eq_none_iff, Escapes]
  constructor
  · rintro ⟨front, hfront, hdips⟩
    -- a front of the moves is the moves of a front
    obtain ⟨parts, hparts, rfl⟩ := List.prefix_map_iff.1 hfront
    rw [length_names_map_move, ups_map_move, List.length_nil, Nat.zero_add] at hdips
    exact ⟨parts, hparts, hdips⟩
  · rintro ⟨parts, hparts, hdips⟩
    refine ⟨parts.map move, hparts.map move, ?_⟩
    rw [length_names_map_move, ups_map_move, List.length_nil, Nat.zero_add]
    exact hdips

/-! ## The written form -/

/-- The second root is the first one with its drive letter, if it has one, in lower case. -/
inductive FoldsDrive : List α → List α → Prop
  | drive {d : α} : isLetter d = true → FoldsDrive (d :: lit ":/") (lower d :: lit ":/")
  | extendedDrive {d : α} : isLetter d = true → FoldsDrive (lit "//?/" ++ d :: lit ":/") (lit "//?/" ++ lower d :: lit ":/")
  | other {rootPrefix : List α} :
      (∀ d, isLetter d = true → rootPrefix ≠ d :: lit ":/" ∧ rootPrefix ≠ lit "//?/" ++ d :: lit ":/") →
        FoldsDrive rootPrefix rootPrefix

/-- How a root and the components below it are written. -/
inductive Written : List α → List (List α) → List α → Prop
  /-- Nothing is left of a relative path. -/
  | dot : Written [] [] (lit ".")
  | relative {parts : List (List α)} : parts ≠ [] → needsRelativeMarker (joinOn (chr '/') parts) = false →
      Written [] parts (joinOn (chr '/') parts)
  /-- The marker stands in front of what would read as a drive. -/
  | marked {parts : List (List α)} : parts ≠ [] → needsRelativeMarker (joinOn (chr '/') parts) = true →
      Written [] parts (lit "./" ++ joinOn (chr '/') parts)
  | root {rootPrefix : List α} : rootPrefix ≠ [] → Written rootPrefix [] rootPrefix
  | below {rootPrefix : List α} {parts : List (List α)} : parts ≠ [] → rootPrefix.getLast? = some (chr '/') →
      Written rootPrefix parts (rootPrefix ++ joinOn (chr '/') parts)
  /-- A root that ends with a name needs a separator. -/
  | behind {rootPrefix : List α} {parts : List (List α)} : parts ≠ [] → rootPrefix ≠ [] →
      rootPrefix.getLast? ≠ some (chr '/') → Written rootPrefix parts (rootPrefix ++ chr '/' :: joinOn (chr '/') parts)

/-- A cleaned path: its root, its components and how it is read back. -/
structure CleanedAs (rootPrefix rest cleaned root : List α) (parts : List (List α)) : Prop where
  root_folded : FoldsDrive rootPrefix root
  resolved : run (rootPrefix != []) [] ((rest.splitOn (chr '/')).map move) = some parts
  names : ∀ part ∈ parts, IsOrdinary part ∧ chr '/' ∉ part
  written : Written root parts cleaned
  reads_back : splitRoot cleaned = .ok (root, if rootPrefix = [] then cleaned else joinOn (chr '/') parts)

omit [DecidableEq α] in
theorem foldsDrive_text {root : Root α} (hroot : root.Valid) : FoldsDrive root.text root.fold.text := by
  -- a share is a name, so a root that ends with one is no drive
  have hshare {leader server share : List α} (hshare : IsName share) (d : α) (tail : List α) :
      leader ++ server ++ lit "/" ++ share ≠ tail ++ d :: lit ":/" := by
    intro heq
    have hlast := congrArg List.getLast? heq
    rw [List.getLast?_append_of_ne_nil _ hshare.ne_nil, List.getLast?_append_of_ne_nil _ (List.cons_ne_nil _ _)] at hlast
    exact hshare.slash_not_mem (List.mem_of_getLast? hlast)
  cases root with
  | drive d =>
      exact .drive hroot
  | extendedDrive d =>
      exact .extendedDrive hroot
  | relative =>
      exact .other fun d _ => ⟨by simp [Root.text], by simp [Root.text]⟩
  | posix =>
      refine .other fun d hd => ⟨?_, by simp [Root.text, lit]⟩
      simp [Root.text, lit]
  | unc server share =>
      exact .other fun d _ => ⟨hshare hroot.2.1 d [], hshare hroot.2.1 d _⟩
  | extendedUNC server share =>
      exact .other fun d _ => ⟨hshare hroot.2 d [], hshare hroot.2 d _⟩

theorem written_serialize {root : Root α} {parts : List (List α)} (hparts : ∀ part ∈ parts, IsName part) :
    Written root.text parts (serialize root.text parts) := by
  have hnil : joinOn (chr '/') parts = [] ↔ parts = [] := joinOn_parts_eq_nil_iff hparts
  rw [serialize]
  by_cases hroot : root.text = []
  · rw [if_pos hroot, hroot]
    split_ifs with hempty
    · rw [hnil.1 hempty]
      exact .dot
    · rw [markRelative]
      split_ifs with hmarker
      · exact .marked (fun h => hempty (hnil.2 h)) hmarker
      · exact .relative (fun h => hempty (hnil.2 h)) (Bool.eq_false_iff.2 hmarker)
  · rw [if_neg hroot]
    have hends : hasSuffix root.text (lit "/") = true ↔ root.text.getLast? = some (chr '/') := by
      rw [hasSuffix_slash_iff, List.getLast?_eq_some_iff]
    split_ifs with hempty hslash
    · rw [hnil.1 hempty]
      exact .root hroot
    · exact .below (fun h => hempty (hnil.2 h)) (hends.1 hslash)
    · rw [List.append_assoc]
      exact .behind (fun h => hempty (hnil.2 h)) hroot fun h => hslash (hends.2 h)

/-! ## The theorem -/

theorem cleanedAs_of_splits {value rest : List α} {root : Root α} {parts : List (List α)} (hnul : nul ∉ value)
    (h : Splits value root rest) (hresolve : resolve root.isAbsolute rest = some parts) :
    CleanedAs root.text rest (serialize root.fold.text parts) root.fold.text parts where
  root_folded := foldsDrive_text h.valid
  resolved := by
    have hfloor : (root.text != []) = root.isAbsolute := by
      rw [Bool.eq_iff_iff, bne_iff_ne, Ne, Root.text_eq_nil_iff, Bool.not_eq_false]
    rw [hfloor]
    exact hresolve
  names := fun part hpart =>
    have hname := isName_of_resolve hresolve part hpart
    ⟨⟨hname.ne_nil, hname.ne_dot, hname.ne_dotdot⟩, hname.slash_not_mem⟩
  written := written_serialize (isName_of_resolve hresolve)
  reads_back := by
    let p := Identity.ofSplits hnul h hresolve
    have hread : splitRoot p.render = .ok (root.fold.text, p.body) := splitRoot_of_splits p.splits_render
    have hbody : p.body = if root.text = [] then p.render else joinOn (chr '/') parts := by
      rw [Identity.body]
      cases habs : root.isAbsolute with
      | true =>
          have hfold : p.root.isAbsolute = true := (Root.isAbsolute_fold root).trans habs
          rw [if_pos hfold, if_neg (Root.text_ne_nil habs)]
          rfl
      | false =>
          have hfold : ¬p.root.isAbsolute = true := by
            rw [show p.root.isAbsolute = root.isAbsolute from Root.isAbsolute_fold root, habs]
            exact Bool.false_ne_true
          rw [if_neg hfold, if_pos (Root.text_eq_nil_iff.2 habs)]
    rw [hbody] at hread
    exact hread

/-- Dot cleanup behind a root that `splitRoot` reads: it fails exactly where a relative path escapes, and otherwise the
components are what a stack leaves, below a root of which no `..` ever takes a part. -/
theorem cleanCanonical_stack {value rootPrefix rest : List α} (hne : value ≠ []) (hnul : nul ∉ value)
    (hsplit : splitRoot value = .ok (rootPrefix, rest)) :
    ((∃ err, cleanCanonical value = .error err) ↔ rootPrefix = [] ∧ Escapes (rest.splitOn (chr '/'))) ∧
      ∀ cleaned, cleanCanonical value = .ok cleaned → ∃ root parts, CleanedAs rootPrefix rest cleaned root parts := by
  obtain ⟨root, hsplits, rfl⟩ := splitRoot_eq_ok_iff.1 hsplit
  have hclean := cleanCanonical_of_splits hne hnul hsplits
  constructor
  · rw [hclean, Root.text_eq_nil_iff, ← run_map_move_eq_none_iff]
    cases habs : root.isAbsolute with
    | true =>
        -- behind a root the stack takes every component
        obtain ⟨parts, hparts⟩ := run_floor_isSome ([] : List (List α)) ((rest.splitOn (chr '/')).map move)
        rw [resolve, hparts]
        simp
    | false =>
        rw [resolve]
        -- a relative path is refused where the walk below nothing fails
        cases run false [] ((rest.splitOn (chr '/')).map move) with
        | none =>
            simp [newError]
        | some parts =>
            simp
  · intro cleaned hcleaned
    rw [hclean] at hcleaned
    cases hresolve : resolve root.isAbsolute rest with
    | none =>
        rw [hresolve] at hcleaned
        cases hcleaned
    | some parts =>
        rw [hresolve, Except.ok.injEq] at hcleaned
        rw [← hcleaned]
        exact ⟨_, _, cleanedAs_of_splits hnul hsplits hresolve⟩

/-- A share, where two of three `..` have nothing to remove. -/
theorem cleanCanonical_stack_share :
    ∃ root parts, CleanedAs (lit "//srv/share" : Bytes) (lit "../a/../../b") (lit "//srv/share/b") root parts := by
  have hsplit : splitRoot (lit "//srv/share/../a/../../b" : Bytes) = .ok (lit "//srv/share", lit "../a/../../b") := by
    decide
  exact (cleanCanonical_stack (by decide) (by decide) hsplit).2 _ (by decide)

end CanonicalPath
