import CanonicalPath.FS.Path

/-!
# Host path — absolute paths of the host, component by component

`Abs`, `Rel` and `IsAbs` of Go's package `path/filepath` on a Unix host, where its `Clean` and `Join` are those of
package `path`, and the containment test that `server.go` builds on them.

* `abs_isAbs` : an absolute path of the host is a slash and a join of names
* `isInsideAllowedRoot_iff` : a path is inside a root where the root's components come first
* `isInsideAllowedRoot_exact` : what is inside a root lies below it, and is opened by the path that is left
-/

namespace CanonicalPath

namespace FS

namespace HostPath

open CodeUnit Segments

/-! ## Common fronts -/

section Common

variable {β : Type} [DecidableEq β] {parts more : List β}

/-- What is left of two lists behind the elements they share in front. -/
def dropCommon : List β → List β → List β × List β
  | a :: as, b :: bs => if a = b then dropCommon as bs else (a :: as, b :: bs)
  | as, bs => (as, bs)

theorem dropCommon_append (parts more : List β) : dropCommon parts (parts ++ more) = ([], more) := by
  induction parts with
  | nil =>
      cases more <;> rfl
  | cons part parts ih =>
      rw [List.cons_append, dropCommon, if_pos rfl, ih]

/-- Nothing is left of the first list only where it is a prefix of the second. -/
theorem dropCommon_fst_eq_nil_iff : (dropCommon parts more).1 = [] ↔ parts <+: more := by
  induction parts generalizing more with
  | nil =>
      cases more <;> simp [dropCommon]
  | cons part parts ih =>
      cases more with
      | nil =>
          simp [dropCommon]
      | cons next more =>
          rw [dropCommon]
          split_ifs with hsame
          · rw [ih, hsame, List.cons_prefix_cons]
            simp
          · rw [List.cons_prefix_cons]
            simp [hsame]

theorem dropCommon_fst_suffix : (dropCommon parts more).1 <:+ parts := by
  induction parts generalizing more with
  | nil =>
      cases more <;> simp [dropCommon]
  | cons part parts ih =>
      cases more with
      | nil =>
          simp [dropCommon]
      | cons next more =>
          rw [dropCommon]
          split_ifs with hsame
          · exact ih.trans (List.suffix_cons part parts)
          · exact List.suffix_rfl

end Common

/-! ## The functions -/

variable {α : Type} [DecidableEq α] [CodeUnit α]

def isAbs (path : List α) : Bool :=
  path.head? == some (chr '/')

/-- The working directory is what `os.Getwd` returns. -/
def abs (workingDirectory : Option (List α)) (path : List α) : Option (List α) :=
  if isAbs path then
    some (Path.clean path)
  else
    workingDirectory.map fun directory => Path.join [directory, path]

/-- The elements of a cleaned path. -/
def elements (path : List α) : List (List α) :=
  (path.splitOn (chr '/')).filter (· ≠ [])

def rel (basepath targpath : List α) : Option (List α) :=
  let base := Path.clean basepath
  let targ := Path.clean targpath
  if targ = base then
    some (lit ".")
  else
    let base := if base = lit "." then [] else base
    if isAbs base ≠ isAbs targ then
      none
    else
      let (up, down) := dropCommon (elements base) (elements targ)
      if up.head? = some (lit "..") then
        none
      else
        -- base elements left: must go up before going down
        some (joinOn (chr '/') (up.map (fun _ => lit "..") ++ down))

def isInsideAllowedRoot (allowedRoot hostRoot : List α) : Option Bool :=
  match rel allowedRoot hostRoot with
  | none => none
  | some rel =>
    if rel = lit "." then
      some true
    else if isAbs rel || rel = lit ".." || Go.hasPrefix rel (lit "../") then
      some false
    else
      some true

/-! ## Cleaned paths -/

/-- A slash and a join of names. -/
def absolute (parts : List (List α)) : List α :=
  chr '/' :: joinOn (chr '/') parts

variable {parts more : List (List α)}

theorem elements_absolute (h : ∀ part ∈ parts, IsName part) : elements (absolute parts) = parts := by
  have hsplit : (absolute parts).splitOn (chr '/') = [] :: (joinOn (chr '/') parts).splitOn (chr '/') := by
    rw [absolute, ← List.nil_append (chr '/' :: _), List.splitOn_append_cons_self, List.splitOn_nil]
    rfl
  by_cases hnil : parts = []
  · subst hnil
    rw [elements, hsplit]
    simp [joinOn]
  · have hslash : ∀ part ∈ parts, chr '/' ∉ part := fun part hpart => (h part hpart).slash_not_mem
    rw [elements, hsplit, splitOn_joinOn hslash hnil, List.filter_cons_of_neg (by simp)]
    exact List.filter_eq_self.2 fun part hpart => decide_eq_true (h part hpart).ne_nil

theorem absolute_injective (h : ∀ part ∈ parts, IsName part) (hmore : ∀ part ∈ more, IsName part) :
    absolute parts = absolute more ↔ parts = more := by
  constructor
  · intro hsame
    rw [← elements_absolute h, hsame, elements_absolute hmore]
  · rintro rfl
    rfl

/-- Below a root the walk keeps names alone. -/
theorem cleanParts_isName {todo : List (List α)} (h : ∀ part ∈ parts, IsName part)
    (htodo : ∀ part ∈ todo, chr '/' ∉ part) : ∀ part ∈ Path.cleanParts true parts todo, IsName part := by
  induction todo generalizing parts with
  | nil =>
      exact h
  | cons next todo ih =>
      have hrest : ∀ part ∈ todo, chr '/' ∉ part := fun part hmem => htodo part (List.mem_cons_of_mem _ hmem)
      rw [Path.cleanParts]
      split_ifs with hstay hup hpop hrooted
      · exact ih h hrest
      · exact ih (fun part hmem => h part (List.dropLast_subset _ hmem)) hrest
      · exact ih h hrest
      · exact absurd rfl hrooted
      · rw [not_or] at hstay
        have hnext : IsName next := ⟨hstay.1, hstay.2, hup, htodo next List.mem_cons_self⟩
        refine ih ?_ hrest
        intro part hmem
        rcases List.mem_append.1 hmem with hold | hlast
        · exact h part hold
        · rw [List.mem_singleton.1 hlast]
          exact hnext

theorem clean_of_isAbs {path : List α} (h : isAbs path = true) :
    ∃ parts, (∀ part ∈ parts, IsName part) ∧ Path.clean path = absolute parts := by
  have hhead : path.head? = some (chr '/') := by simpa [isAbs] using h
  refine ⟨Path.cleanParts true [] (path.splitOn (chr '/')), ?_, ?_⟩
  · exact cleanParts_isName (by simp) fun part hmem => not_mem_of_mem_splitOn hmem
  · rw [Path.clean, if_pos hhead, absolute]

@[simp] theorem isAbs_absolute (parts : List (List α)) : isAbs (absolute parts) = true := by
  simp [isAbs, absolute]

theorem clean_absolute (h : ∀ part ∈ parts, IsName part) : Path.clean (absolute parts) = absolute parts := by
  have hsplit : (absolute parts).splitOn (chr '/') = [] :: (joinOn (chr '/') parts).splitOn (chr '/') := by
    rw [absolute, ← List.nil_append (chr '/' :: _), List.splitOn_append_cons_self, List.splitOn_nil]
    rfl
  have hhead : (absolute parts).head? = some (chr '/') := rfl
  rw [Path.clean, if_pos hhead, hsplit, Path.cleanParts, if_pos (.inl rfl), absolute]
  by_cases hnil : parts = []
  · subst hnil
    rfl
  · have hkeep := Path.cleanParts_names true [] [] h
    rw [List.append_nil, List.nil_append] at hkeep
    rw [splitOn_joinOn (fun part hpart => (h part hpart).slash_not_mem) hnil, hkeep]
    rfl

/-- A walk keeps parts without a slash that are not empty. -/
theorem mem_cleanParts {rooted : Bool} {todo : List (List α)} (h : ∀ part ∈ parts, part ≠ [] ∧ chr '/' ∉ part)
    (htodo : ∀ part ∈ todo, chr '/' ∉ part) :
    ∀ part ∈ Path.cleanParts rooted parts todo, part ≠ [] ∧ chr '/' ∉ part := by
  induction todo generalizing parts with
  | nil =>
      exact h
  | cons next todo ih =>
      have hrest : ∀ part ∈ todo, chr '/' ∉ part := fun part hmem => htodo part (List.mem_cons_of_mem _ hmem)
      have hpush (hne : next ≠ []) : ∀ part ∈ parts ++ [next], part ≠ [] ∧ chr '/' ∉ part := by
        intro part hmem
        rcases List.mem_append.1 hmem with hold | hlast
        · exact h part hold
        · rw [List.mem_singleton.1 hlast]
          exact ⟨hne, htodo next List.mem_cons_self⟩
      rw [Path.cleanParts]
      split_ifs with hstay hup hpop hrooted
      · exact ih h hrest
      · exact ih (fun part hmem => h part (List.dropLast_subset _ hmem)) hrest
      · exact ih h hrest
      · refine ih (hpush ?_) hrest
        rw [hup]
        exact fun hnil => absurd (congrArg List.length hnil) (by simp [lit])
      · exact ih (hpush fun hnil => hstay (.inl hnil)) hrest

/-- A relative path is still relative when it is cleaned. -/
theorem isAbs_clean (path : List α) : isAbs (Path.clean path) = isAbs path := by
  cases habs : isAbs path with
  | true =>
      obtain ⟨parts, -, hclean⟩ := clean_of_isAbs habs
      rw [hclean, isAbs_absolute]
  | false =>
      have hhead : path.head? ≠ some (chr '/') := by simpa [isAbs] using habs
      have hparts : ∀ part ∈ Path.cleanParts false [] (path.splitOn (chr '/')), part ≠ [] ∧ chr '/' ∉ part :=
        mem_cleanParts (by simp) fun part hmem => not_mem_of_mem_splitOn hmem
      rw [Path.clean, if_neg hhead]
      cases hwalk : Path.cleanParts false [] (path.splitOn (chr '/')) with
      | nil =>
          simp [isAbs, joinOn, lit]
      | cons part parts =>
          rw [hwalk] at hparts
          obtain ⟨hne, hslash⟩ := hparts part List.mem_cons_self
          obtain ⟨c, more, rfl⟩ := List.exists_cons_of_ne_nil hne
          have hjoined : (joinOn (chr '/') ((c :: more) :: parts)).head? = (c :: more).head? := head?_joinOn_cons hne
          have hnonempty : joinOn (chr '/') ((c :: more) :: parts) ≠ [] := by
            intro hnil
            rw [hnil] at hjoined
            cases hjoined
          simp only [if_neg hnonempty]
          rw [isAbs, hjoined, List.head?_cons, beq_eq_false_iff_ne]
          rintro hsame
          rw [Option.some.inj hsame] at hslash
          exact hslash List.mem_cons_self

/-- An absolute path of the host is a slash and a join of names. -/
theorem abs_isAbs {workingDirectory : Option (List α)} {path host : List α}
    (h : abs workingDirectory path = some host) (habs : isAbs host = true) :
    ∃ parts, (∀ part ∈ parts, IsName part) ∧ host = absolute parts := by
  rw [abs] at h
  split_ifs at h with hpath
  · obtain ⟨parts, hparts, hclean⟩ := clean_of_isAbs hpath
    exact ⟨parts, hparts, (Option.some.inj h).symm.trans hclean⟩
  · obtain ⟨directory, -, rfl⟩ := Option.map_eq_some_iff.1 h
    rw [Path.join] at habs ⊢
    split_ifs at habs ⊢ with hempty
    · cases habs
    · rw [isAbs_clean] at habs
      exact clean_of_isAbs habs

theorem isAbs_join {directory : List α} (h : isAbs directory = true) (path : List α) :
    isAbs (Path.join [directory, path]) = true := by
  have hne : directory ≠ [] := by
    rintro rfl
    cases h
  obtain ⟨more, hmore⟩ : ∃ more, [directory, path].filter (· ≠ []) = directory :: more :=
    ⟨[path].filter (· ≠ []), by rw [List.filter_cons_of_pos (by simpa using hne)]⟩
  have hhead : (joinOn (chr '/') (directory :: more)).head? = directory.head? := head?_joinOn_cons hne
  rw [Path.join]
  simp only [hmore, if_neg (List.cons_ne_nil directory more)]
  rw [isAbs_clean, isAbs, hhead]
  exact h

/-- In an absolute working directory every path is made absolute. -/
theorem isAbs_abs {workingDirectory : Option (List α)} {path host : List α}
    (hdirectory : ∀ directory, workingDirectory = some directory → isAbs directory = true)
    (h : abs workingDirectory path = some host) : isAbs host = true := by
  rw [abs] at h
  split_ifs at h with hpath
  · cases h
    rw [isAbs_clean, hpath]
  · obtain ⟨directory, hsome, rfl⟩ := Option.map_eq_some_iff.1 h
    exact isAbs_join (hdirectory directory hsome) path

/-! ## Containment -/

/-- The path below a root: `.` for the root itself. -/
def below (rest : List (List α)) : List α :=
  if rest = [] then lit "." else joinOn (chr '/') rest

/-- What `rel` computes on two absolute paths: up from the one and down to the other. -/
theorem rel_absolute (h : ∀ part ∈ parts, IsName part) (hmore : ∀ part ∈ more, IsName part) :
    rel (absolute parts) (absolute more) =
      if more = parts then
        some (lit ".")
      else
        some (joinOn (chr '/') ((dropCommon parts more).1.map (fun _ => lit "..") ++ (dropCommon parts more).2)) := by
  have hdot : absolute parts ≠ lit "." := by
    intro hsame
    have habs := congrArg isAbs hsame
    rw [isAbs_absolute] at habs
    exact absurd habs (by simp [isAbs, lit])
  have hup : (dropCommon parts more).1.head? ≠ some (lit "..") := by
    intro hhead
    have hmem : lit ".." ∈ (dropCommon parts more).1 := List.mem_of_mem_head? hhead
    exact (h _ (dropCommon_fst_suffix.mem hmem)).ne_dotdot rfl
  rw [rel, clean_absolute h, clean_absolute hmore]
  simp only [absolute_injective hmore h, if_neg hdot, isAbs_absolute, ne_eq, not_true_eq_false, if_false,
    elements_absolute h, elements_absolute hmore, if_neg hup]

theorem rel_append (h : ∀ part ∈ parts, IsName part) (hmore : ∀ part ∈ more, IsName part) :
    rel (absolute parts) (absolute (parts ++ more)) = some (below more) := by
  rw [rel_absolute h (by simpa [or_imp, forall_and] using ⟨h, hmore⟩), dropCommon_append, below]
  by_cases hnil : more = []
  · subst hnil
    rw [List.append_nil, if_pos rfl, if_pos rfl]
  · rw [if_neg hnil, if_neg fun hsame => hnil (by simpa using hsame)]
    rfl

theorem isAbs_joinOn (h : ∀ part ∈ parts, IsName part) : isAbs (joinOn (chr '/') parts) = false := by
  have hhead := head?_joinOn_ne_slash h
  rwa [isAbs, beq_eq_false_iff_ne]

omit [DecidableEq α] in
theorem slash_not_mem_dots : chr '/' ∉ (lit "." : List α) ∧ chr '/' ∉ (lit ".." : List α) := by
  have hne : (chr '/' : α) ≠ chr '.' := by
    rw [Ne, chr_eq_chr_iff (by decide) (by decide)]
    decide
  simp [lit, hne]

omit [CodeUnit α] in
theorem splitOn_of_not_mem {sep : α} {s : List α} (h : sep ∉ s) : s.splitOn sep = [s] := by
  have hjoin : (joinOn sep [s]).splitOn sep = [s] := splitOn_joinOn (by simpa using h) (List.cons_ne_nil _ _)
  simpa [joinOn] using hjoin

/-- A join of names does not lead out of where it starts. -/
theorem not_up_joinOn (h : ∀ part ∈ parts, IsName part) (hne : parts ≠ []) :
    joinOn (chr '/') parts ≠ lit "." ∧ joinOn (chr '/') parts ≠ lit ".." ∧
      Go.hasPrefix (joinOn (chr '/') parts) (lit "../") = false := by
  have hsplit : (joinOn (chr '/') parts).splitOn (chr '/') = parts :=
    splitOn_joinOn (fun part hpart => (h part hpart).slash_not_mem) hne
  refine ⟨?_, ?_, ?_⟩
  · intro hdot
    rw [hdot, splitOn_of_not_mem slash_not_mem_dots.1] at hsplit
    exact (h (lit ".") (hsplit ▸ List.mem_singleton_self _)).ne_dot rfl
  · intro hdotdot
    rw [hdotdot, splitOn_of_not_mem slash_not_mem_dots.2] at hsplit
    exact (h (lit "..") (hsplit ▸ List.mem_singleton_self _)).ne_dotdot rfl
  · rw [Bool.eq_false_iff]
    intro hleads
    obtain ⟨tail, htail⟩ := Go.hasPrefix_iff.1 hleads
    have hcut : (lit "../" : List α) = lit ".." ++ [chr '/'] := rfl
    rw [htail, hcut, List.append_assoc, List.singleton_append, List.splitOn_append_cons_self,
      splitOn_of_not_mem slash_not_mem_dots.2] at hsplit
    exact (h (lit "..") (hsplit ▸ List.mem_append_left _ (List.mem_singleton_self _))).ne_dotdot rfl

/-- A path is inside a root where the components of the root come first. -/
theorem isInsideAllowedRoot_iff (h : ∀ part ∈ parts, IsName part) (hmore : ∀ part ∈ more, IsName part) :
    isInsideAllowedRoot (absolute parts) (absolute more) = some true ↔ parts <+: more := by
  rw [isInsideAllowedRoot, rel_absolute h hmore]
  by_cases hsame : more = parts
  · subst hsame
    simp
  rw [if_neg hsame]
  cases hup : (dropCommon parts more).1 with
  | nil =>
      have hprefix := dropCommon_fst_eq_nil_iff.1 hup
      obtain ⟨rest, rfl⟩ := hprefix
      have hrest : ∀ part ∈ rest, IsName part := fun part hmem => hmore part (List.mem_append_right _ hmem)
      have hne : rest ≠ [] := by
        rintro rfl
        exact hsame (List.append_nil _)
      obtain ⟨hdot, hdotdot, hleads⟩ := not_up_joinOn hrest hne
      rw [dropCommon_append]
      simp [hdot, hdotdot, hleads, isAbs_joinOn hrest]
  | cons part up =>
      have hout : ¬parts <+: more := by
        rw [← dropCommon_fst_eq_nil_iff, hup]
        exact List.cons_ne_nil _ _
      generalize (dropCommon parts more).2 = down
      -- the walk starts with the dots that lead out
      have hup' : List.map (fun _ => (lit ".." : List α)) (part :: up) ++ down =
          lit ".." :: (List.map (fun _ => lit "..") up ++ down) := rfl
      have habs : isAbs (lit ".." : List α) = false := by
        simp [isAbs, lit]
      rw [hup']
      generalize List.map (fun _ => (lit ".." : List α)) up ++ down = rest
      simp only [hout, iff_false]
      by_cases hnil : rest = []
      · subst hnil
        simp [joinOn, isAbs, lit]
      · rw [joinOn_cons_of_ne_nil hnil]
        have hdot : (lit ".." ++ chr '/' :: joinOn (chr '/') rest : List α) ≠ lit "." := by
          simp [lit]
        have hup : Go.hasPrefix (lit ".." ++ chr '/' :: joinOn (chr '/') rest : List α) (lit "../") = true :=
          Go.hasPrefix_iff.2 ⟨joinOn (chr '/') rest, rfl⟩
        simp [hdot, hup]

/-- Only an absolute path is inside a root. -/
theorem isAbs_of_isInsideAllowedRoot (h : ∀ part ∈ parts, IsName part) {host : List α}
    (hinside : isInsideAllowedRoot (absolute parts) host = some true) : isAbs host = true := by
  by_contra habs
  rw [Bool.not_eq_true, ← isAbs_clean] at habs
  have hdot : absolute parts ≠ lit "." := by
    intro hsame
    have hroot := congrArg isAbs hsame
    rw [isAbs_absolute] at hroot
    exact absurd hroot (by simp [isAbs, lit])
  have hne : Path.clean host ≠ absolute parts := by
    intro hsame
    rw [hsame, isAbs_absolute] at habs
    cases habs
  have hrel : rel (absolute parts) host = none := by
    rw [rel, clean_absolute h]
    simp only [if_neg hne, if_neg hdot, isAbs_absolute, habs]
    rfl
  rw [isInsideAllowedRoot, hrel] at hinside
  cases hinside

/-- What is inside a root lies below it, and is named by the path from it. -/
theorem exists_below (h : ∀ part ∈ parts, IsName part) {workingDirectory : Option (List α)} {path host : List α}
    (habs : abs workingDirectory path = some host) (hinside : isInsideAllowedRoot (absolute parts) host = some true) :
    ∃ more, (∀ part ∈ more, IsName part) ∧ host = absolute (parts ++ more) ∧
      rel (absolute parts) host = some (below more) := by
  obtain ⟨hostParts, hhost, rfl⟩ := abs_isAbs habs (isAbs_of_isInsideAllowedRoot h hinside)
  obtain ⟨more, rfl⟩ := (isInsideAllowedRoot_iff h hhost).1 hinside
  have hmore : ∀ part ∈ more, IsName part := fun part hmem => hhost part (List.mem_append_right _ hmem)
  exact ⟨more, hmore, rfl, rel_append h hmore⟩

/-- What is inside a root is what has its components in front, and what opens it is the path that is left. -/
theorem isInsideAllowedRoot_exact {directory directory' : Option (List α)} {allowedRoot hostRoot root host : List α}
    (hroot : abs directory allowedRoot = some root) (hrooted : isAbs root = true)
    (hhost : abs directory' hostRoot = some host) :
    isInsideAllowedRoot root host = some true ↔
      ∃ parts more, (∀ part ∈ parts ++ more, IsName part) ∧ root = absolute parts ∧ host = absolute (parts ++ more) ∧
        rel root host = some (below more) := by
  obtain ⟨parts, hparts, rfl⟩ := abs_isAbs hroot hrooted
  constructor
  · intro hinside
    obtain ⟨more, hmore, rfl, hrel⟩ := exists_below hparts hhost hinside
    exact ⟨parts, more, by simpa [or_imp, forall_and] using ⟨hparts, hmore⟩, rfl, rfl, hrel⟩
  · rintro ⟨parts', more, hnames, hsame, rfl, -⟩
    have hparts' : ∀ part ∈ parts', IsName part := fun part hmem => hnames part (List.mem_append_left _ hmem)
    rw [(absolute_injective hparts hparts').1 hsame]
    exact (isInsideAllowedRoot_iff hparts' hnames).2 (List.prefix_append _ _)

/-- `/srv/a..b` is below `/srv`, spelled with dots. -/
theorem isInsideAllowedRoot_exact_dots :
    isInsideAllowedRoot (lit "/srv" : Bytes) (lit "/srv/a..b") = some true := by
  have hroot : abs (some (lit "/srv/x" : Bytes)) (lit "..") = some (lit "/srv") := by decide
  have hhost : abs none (lit "/srv/./c/../a..b" : Bytes) = some (lit "/srv/a..b") := by decide
  refine (isInsideAllowedRoot_exact hroot (by decide) hhost).2 ⟨[lit "srv"], [lit "a..b"], ?_, by decide, by decide, by decide⟩
  intro part hmem
  simp only [List.cons_append, List.nil_append, List.mem_cons, List.not_mem_nil, or_false] at hmem
  rcases hmem with rfl | rfl <;> exact ⟨by decide, by decide, by decide, by decide⟩

end HostPath

end FS

end CanonicalPath
