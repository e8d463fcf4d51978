import CanonicalPath.Identity.Canonical

/-!
# Path — slash paths of the Go library

`Clean`, `Join`, `Dir` and `Base` of Go's package `path`, and what they do to a join of components.
-/

namespace CanonicalPath

namespace FS

namespace Path

open CodeUnit Segments

variable {α : Type} [DecidableEq α] [CodeUnit α]

/-! ## The functions -/

/-- The components that `Clean` keeps, from the ones before. -/
def cleanParts (rooted : Bool) : List (List α) → List (List α) → List (List α)
  | parts, [] => parts
  | parts, part :: more =>
      if part = [] ∨ part = lit "." then
        cleanParts rooted parts more
      else if part = lit ".." then
        if parts ≠ [] ∧ parts.getLast? ≠ some (lit "..") then
          cleanParts rooted parts.dropLast more
        else if rooted then
          cleanParts rooted parts more
        else
          -- a relative path keeps the dots that lead out of it
          cleanParts rooted (parts ++ [part]) more
      else
        cleanParts rooted (parts ++ [part]) more

def clean (path : List α) : List α :=
  if path.head? = some (chr '/') then
    chr '/' :: joinOn (chr '/') (cleanParts true [] (path.splitOn (chr '/')))
  else
    let joined := joinOn (chr '/') (cleanParts false [] (path.splitOn (chr '/')))
    if joined = [] then lit "." else joined

def join (elems : List (List α)) : List α :=
  let nonempty := elems.filter (· ≠ [])
  if nonempty = [] then [] else clean (joinOn (chr '/') nonempty)

/-- What `Split` leaves in front of the file name, its last slash included. -/
def splitDir (path : List α) : List α :=
  (path.reverse.dropWhile (· ≠ chr '/')).reverse

def dir (path : List α) : List α :=
  clean (splitDir path)

/-- The file name of `Split`. -/
def splitFile (path : List α) : List α :=
  (path.reverse.takeWhile (· ≠ chr '/')).reverse

def trimSlashes (path : List α) : List α :=
  (path.reverse.dropWhile (· = chr '/')).reverse

def base (path : List α) : List α :=
  if path = [] then
    lit "."
  else
    -- trailing slashes are dropped before the last element is read
    let last := splitFile (trimSlashes path)
    if last = [] then lit "/" else last

/-! ## Joins of components -/

variable {parts : List (List α)} {part : List α}

/-- Components are kept; the rest is read behind them. -/
theorem cleanParts_names (rooted : Bool) (stack more : List (List α)) (h : ∀ part ∈ parts, IsName part) :
    cleanParts rooted stack (parts ++ more) = cleanParts rooted (stack ++ parts) more := by
  induction parts generalizing stack with
  | nil =>
      rw [List.nil_append, List.append_nil]
  | cons part parts ih =>
      have hpart : IsName part := h part List.mem_cons_self
      have hrest : ∀ part ∈ parts, IsName part := fun part hmem => h part (List.mem_cons_of_mem _ hmem)
      have hstay : ¬(part = [] ∨ part = lit ".") := by
        rw [not_or]
        exact ⟨hpart.ne_nil, hpart.ne_dot⟩
      rw [List.cons_append, cleanParts, if_neg hstay, if_neg hpart.ne_dotdot, ih _ hrest,
        List.append_assoc]
      rfl

omit [DecidableEq α] in
theorem joinOn_names_ne_nil (h : ∀ part ∈ parts, IsName part) (hne : parts ≠ []) :
    joinOn (chr '/') parts ≠ [] := by
  intro hnil
  exact hne ((joinOn_parts_eq_nil_iff h).1 hnil)

theorem clean_joinOn (h : ∀ part ∈ parts, IsName part) (hne : parts ≠ []) :
    clean (joinOn (chr '/') parts) = joinOn (chr '/') parts := by
  have hparts : cleanParts false [] parts = parts := by
    have hkeep := cleanParts_names false [] [] h
    rw [List.append_nil, List.nil_append] at hkeep
    exact hkeep
  rw [clean, if_neg (head?_joinOn_ne_slash h),
    splitOn_joinOn (fun part hpart => (h part hpart).slash_not_mem) hne, hparts]
  exact if_neg (joinOn_names_ne_nil h hne)

theorem clean_joinOn_slash (h : ∀ part ∈ parts, IsName part) (hne : parts ≠ []) :
    clean (joinOn (chr '/') parts ++ [chr '/']) = joinOn (chr '/') parts := by
  have hjoined := joinOn_names_ne_nil h hne
  have hhead : (joinOn (chr '/') parts ++ [chr '/']).head? ≠ some (chr '/') := by
    rw [List.head?_append_of_ne_nil _ hjoined]
    exact head?_joinOn_ne_slash h
  have hsplit : (joinOn (chr '/') parts ++ [chr '/']).splitOn (chr '/') = parts ++ [[]] := by
    rw [List.splitOn_append_cons_self,
      splitOn_joinOn (fun part hpart => (h part hpart).slash_not_mem) hne, List.splitOn_nil]
  -- the last slash leaves an empty component, which is dropped
  have hparts : cleanParts false [] (parts ++ [[]]) = parts := by
    rw [cleanParts_names false [] [[]] h]
    rfl
  rw [clean, if_neg hhead, hsplit, hparts]
  exact if_neg hjoined

theorem join_names (h : ∀ part ∈ parts, IsName part) (hne : parts ≠ []) :
    join parts = joinOn (chr '/') parts := by
  have hfilter : parts.filter (· ≠ []) = parts := by
    apply List.filter_eq_self.2
    intro part hpart
    exact decide_eq_true (h part hpart).ne_nil
  rw [join, hfilter, if_neg hne, clean_joinOn h hne]

/-! ### The last component -/

variable {front last : List α}

theorem ne_slash_of_mem_reverse (h : chr '/' ∉ last) :
    ∀ a ∈ last.reverse, decide (a ≠ chr '/') = true := by
  intro a ha
  apply decide_eq_true
  intro hslash
  rw [hslash, List.mem_reverse] at ha
  exact h ha

omit [DecidableEq α] in
theorem reverse_append_slash :
    (front ++ chr '/' :: last).reverse = last.reverse ++ chr '/' :: front.reverse := by
  simp

theorem splitDir_of_slash_not_mem (h : chr '/' ∉ last) : splitDir last = [] := by
  rw [splitDir, ← List.append_nil last.reverse,
    List.dropWhile_append_of_pos (ne_slash_of_mem_reverse h)]
  rfl

theorem splitDir_append (h : chr '/' ∉ last) :
    splitDir (front ++ chr '/' :: last) = front ++ [chr '/'] := by
  rw [splitDir, reverse_append_slash, List.dropWhile_append_of_pos (ne_slash_of_mem_reverse h)]
  simp

theorem splitFile_of_slash_not_mem (h : chr '/' ∉ last) : splitFile last = last := by
  rw [splitFile, ← List.append_nil last.reverse,
    List.takeWhile_append_of_pos (ne_slash_of_mem_reverse h)]
  simp

theorem splitFile_append (h : chr '/' ∉ last) : splitFile (front ++ chr '/' :: last) = last := by
  rw [splitFile, reverse_append_slash, List.takeWhile_append_of_pos (ne_slash_of_mem_reverse h)]
  simp

/-- Nothing is trimmed behind a last element. -/
theorem trimSlashes_append (hne : last ≠ []) (h : chr '/' ∉ last) (front : List α) :
    trimSlashes (front ++ last) = front ++ last := by
  obtain ⟨init, a, rfl⟩ := (List.eq_nil_or_concat last).resolve_left hne
  have ha : a ≠ chr '/' := by
    intro hslash
    apply h
    rw [hslash]
    simp
  have hreverse : (front ++ init.concat a).reverse = a :: (front ++ init).reverse := by
    simp
  rw [trimSlashes, hreverse, List.dropWhile_cons_of_neg (by simpa using ha)]
  simp

theorem base_of_slash_not_mem (hne : last ≠ []) (h : chr '/' ∉ last) : base last = last := by
  have htrim := trimSlashes_append hne h []
  rw [List.nil_append] at htrim
  rw [base, if_neg hne, htrim, splitFile_of_slash_not_mem h]
  exact if_neg hne

theorem base_append (hne : last ≠ []) (h : chr '/' ∉ last) : base (front ++ chr '/' :: last) = last := by
  have htrim := trimSlashes_append hne h (front ++ [chr '/'])
  rw [List.append_assoc, List.singleton_append] at htrim
  rw [base, if_neg (List.append_ne_nil_of_right_ne_nil _ (List.cons_ne_nil _ _)), htrim,
    splitFile_append h]
  exact if_neg hne

/-- `Dir` and `Base` take a join of components apart. -/
theorem dir_joinOn (h : ∀ part ∈ parts, IsName part) (hpart : IsName part) :
    dir (joinOn (chr '/') (parts ++ [part])) =
      if parts = [] then lit "." else joinOn (chr '/') parts := by
  by_cases hnil : parts = []
  · subst hnil
    have hsingle : joinOn (chr '/') ([] ++ [part]) = part := by
      simp [joinOn]
    rw [if_pos rfl, hsingle, dir, splitDir_of_slash_not_mem hpart.slash_not_mem]
    rfl
  · have hsingle : joinOn (chr '/') [part] = part := by
      simp [joinOn]
    rw [if_neg hnil, joinOn_append hnil (List.cons_ne_nil _ _), hsingle, dir,
      splitDir_append hpart.slash_not_mem, clean_joinOn_slash h hnil]

theorem base_joinOn (hpart : IsName part) : base (joinOn (chr '/') (parts ++ [part])) = part := by
  have hsingle : joinOn (chr '/') [part] = part := by
    simp [joinOn]
  by_cases hnil : parts = []
  · subst hnil
    rw [List.nil_append, hsingle, base_of_slash_not_mem hpart.ne_nil hpart.slash_not_mem]
  · rw [joinOn_append hnil (List.cons_ne_nil _ _), hsingle,
      base_append hpart.ne_nil hpart.slash_not_mem]

end Path

end FS

end CanonicalPath
