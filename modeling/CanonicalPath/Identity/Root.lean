import CanonicalPath.Go.Grammar
import CanonicalPath.Library.Outcome

/-!
# Root — the abstract roots and what `splitRoot` reads

A canonical string starts with one of six root forms.  `Root` is that choice as data; `Root.text`
is its spelling.  `Splits value root rest` says that `value` is the spelling of `root` followed by
`rest`, and `splitRoot_eq_ok_iff` says that `splitRoot` computes exactly this relation, so no later
proof has to look at the overlapping prefixes again.
-/

namespace CanonicalPath

open CodeUnit Segments Go

/-- The six root forms. -/
inductive Root (α : Type)
  | relative
  | posix
  | drive (letter : α)
  | unc (server share : List α)
  | extendedDrive (letter : α)
  | extendedUNC (server share : List α)
  deriving DecidableEq, Repr

variable {α : Type} [CodeUnit α]

/-- A component: not empty, not a dot segment and free of separators. -/
structure IsName (name : List α) : Prop where
  ne_nil : name ≠ []
  ne_dot : name ≠ lit "."
  ne_dotdot : name ≠ lit ".."
  slash_not_mem : chr '/' ∉ name

theorem joinOn_parts_eq_nil_iff {parts : List (List α)} (h : ∀ part ∈ parts, IsName part) :
    joinOn (chr '/') parts = [] ↔ parts = [] :=
  joinOn_eq_nil_iff fun part hpart => (h part hpart).ne_nil

/-- A join of components does not start with a separator. -/
theorem head?_joinOn_ne_slash {parts : List (List α)} (h : ∀ part ∈ parts, IsName part) :
    (joinOn (chr '/') parts).head? ≠ some (chr '/') := by
  cases parts with
  | nil =>
      simp [joinOn]
  | cons part parts =>
      have hpart : IsName part := h part (by simp)
      rw [head?_joinOn_cons hpart.ne_nil]
      intro hhead
      exact hpart.slash_not_mem (List.mem_of_mem_head? hhead)

/-- A join of components does not end with a separator. -/
theorem getLast?_joinOn_ne_slash {parts : List (List α)} (h : ∀ part ∈ parts, IsName part) :
    (joinOn (chr '/') parts).getLast? ≠ some (chr '/') := by
  -- the last component decides, so the list is read from its end
  rcases List.eq_nil_or_concat parts with rfl | ⟨init, last, rfl⟩
  · simp [joinOn]
  · have hlast : IsName last := h last (by simp)
    rw [List.concat_eq_append, getLast?_joinOn_concat hlast.ne_nil]
    intro hmem
    exact hlast.slash_not_mem (List.mem_of_getLast? hmem)

namespace Root

/-- The spelling of the atomic root prefix. -/
def text : Root α → List α
  | .relative => []
  | .posix => lit "/"
  | .drive d => d :: lit ":/"
  | .unc server share => lit "//" ++ server ++ lit "/" ++ share
  | .extendedDrive d => lit "//?/" ++ d :: lit ":/"
  | .extendedUNC server share => lit "//?/UNC/" ++ server ++ lit "/" ++ share

/-- Only the drive letter of a root is folded. -/
def fold : Root α → Root α
  | .drive d => .drive (lower d)
  | .extendedDrive d => .extendedDrive (lower d)
  | root => root

def isWindows : Root α → Bool
  | .relative => false
  | .posix => false
  | _ => true

def isAbsolute : Root α → Bool
  | .relative => false
  | _ => true

def isExtended : Root α → Bool
  | .extendedDrive _ => true
  | .extendedUNC _ _ => true
  | _ => false

def isDrive : Root α → Bool
  | .drive _ => true
  | _ => false

def isExtendedDrive : Root α → Bool
  | .extendedDrive _ => true
  | _ => false

/-- The side conditions of each root form.  A server named `?` is the extended prefix. -/
def Valid : Root α → Prop
  | .relative => True
  | .posix => True
  | .drive d => isLetter d = true
  | .unc server share => IsName server ∧ IsName share ∧ server ≠ lit "?"
  | .extendedDrive d => isLetter d = true
  | .extendedUNC server share => IsName server ∧ IsName share

@[simp] theorem isWindows_fold (root : Root α) : root.fold.isWindows = root.isWindows := by
  cases root <;> rfl

@[simp] theorem isAbsolute_fold (root : Root α) : root.fold.isAbsolute = root.isAbsolute := by
  cases root <;> rfl

@[simp] theorem isExtended_fold (root : Root α) : root.fold.isExtended = root.isExtended := by
  cases root <;> rfl

theorem fold_eq_posix_iff {root : Root α} : root.fold = .posix ↔ root = .posix := by
  cases root <;> simp [fold]

theorem length_text_fold (root : Root α) : root.fold.text.length = root.text.length := by
  cases root <;> simp [fold, text]

@[simp] theorem fold_fold (root : Root α) : root.fold.fold = root.fold := by
  cases root <;> simp [fold]

theorem Valid.fold {root : Root α} (h : root.Valid) : root.fold.Valid := by
  cases root with
  | drive d =>
      simpa [Root.fold, Root.Valid] using h
  | extendedDrive d =>
      simpa [Root.fold, Root.Valid] using h
  | relative =>
      exact h
  | posix =>
      exact h
  | unc server share =>
      exact h
  | extendedUNC server share =>
      exact h

omit [CodeUnit α] in
theorem isAbsolute_eq_false_iff {root : Root α} : root.isAbsolute = false ↔ root = .relative := by
  cases root <;> simp [isAbsolute]

theorem text_eq_nil_iff {root : Root α} : root.text = [] ↔ root.isAbsolute = false := by
  cases root <;> simp [text, isAbsolute, lit]

theorem text_ne_nil {root : Root α} (habs : root.isAbsolute = true) : root.text ≠ [] := by
  rw [Ne, text_eq_nil_iff, habs]
  simp

/-- Folding a drive letter introduces no punctuation. -/
theorem chr_mem_text_of_fold {root : Root α} (hroot : root.Valid) {c : Char} (hc : c.toNat < 128)
    (hletter : isLetterCode c.toNat = false) (h : chr c ∈ root.fold.text) : chr c ∈ root.text := by
  have hlower {d : α} (hd : isLetter d = true) : chr c ≠ lower d :=
    (ne_chr_of_isLetter (by rwa [isLetter_lower]) hc hletter).symm
  -- only the two drive forms are changed by folding
  cases root with
  | drive d =>
      simp only [fold, text, List.mem_cons] at h ⊢
      exact Or.inr (h.resolve_left (hlower hroot))
  | extendedDrive d =>
      simp only [fold, text, List.mem_append, List.mem_cons] at h ⊢
      rcases h with h | h | h
      · exact Or.inl h
      · exact absurd h (hlower hroot)
      · exact Or.inr (Or.inr h)
  | relative =>
      exact h
  | posix =>
      exact h
  | unc server share =>
      exact h
  | extendedUNC server share =>
      exact h

end Root

/-- What follows the share of a UNC root: nothing, or a separator and the rest. -/
inductive Remainder : List α → List α → Prop
  | bare : Remainder [] []
  | slash (rest : List α) : Remainder (chr '/' :: rest) rest

theorem Remainder.not_mem_body {x : α} (leader : List α) {server share tail rest : List α}
    (htail : Remainder tail rest)
    (hx : x ∉ leader ++ (server ++ lit "/" ++ share ++ tail)) : x ∉ server ++ share ++ rest := by
  have hrest : x ∈ rest → x ∈ tail := by
    cases htail with
    | bare =>
        exact id
    | slash =>
        exact List.mem_cons_of_mem _
  simp only [List.mem_append, not_or] at hx ⊢
  exact ⟨⟨hx.2.1.1.1, hx.2.1.2⟩, fun hmem => hx.2.2 (hrest hmem)⟩

variable [DecidableEq α]

/-- `value` spells `root` followed by `rest`. -/
inductive Splits : List α → Root α → List α → Prop
  | relative {value : List α} :
      value.head? ≠ some (chr '/') → needsRelativeMarker value = false →
        Splits value .relative value
  | posix {rest : List α} :
      rest.head? ≠ some (chr '/') → Splits (chr '/' :: rest) .posix rest
  | drive {d : α} {rest : List α} :
      isLetter d = true → chr '\\' ∉ rest → Splits (d :: lit ":/" ++ rest) (.drive d) rest
  | unc {server share tail rest : List α} :
      IsName server → IsName share → server ≠ lit "?" → Remainder tail rest →
        chr '\\' ∉ server ++ share ++ rest →
        Splits (lit "//" ++ (server ++ lit "/" ++ share ++ tail)) (.unc server share) rest
  | extendedDrive {d : α} {rest : List α} :
      isLetter d = true → chr '\\' ∉ rest →
        Splits (lit "//?/" ++ (d :: lit ":/" ++ rest)) (.extendedDrive d) rest
  | extendedUNC {server share tail rest : List α} :
      IsName server → IsName share → Remainder tail rest →
        chr '\\' ∉ server ++ share ++ rest →
        Splits (lit "//?/UNC/" ++ (server ++ lit "/" ++ share ++ tail)) (.extendedUNC server share) rest

/-! ## UNC roots -/

theorem splitUNCRoot_eq_ok_of {server share tail rest : List α} (leader : List α)
    (hserver : IsName server) (hshare : IsName share) (htail : Remainder tail rest) :
    splitUNCRoot (leader ++ (server ++ lit "/" ++ share ++ tail)) leader =
      .ok (leader ++ server ++ lit "/" ++ share, rest) := by
  have hbody : server ++ lit "/" ++ share ++ tail = server ++ chr '/' :: (share ++ tail) := by
    simp [lit]
  rw [splitUNCRoot, List.drop_left, hbody, splitN_append_cons _ hserver.slash_not_mem]
  cases htail with
  | bare =>
      rw [List.append_nil, splitN_of_not_mem _ hshare.slash_not_mem]
      simp [hserver.ne_nil, hserver.ne_dot, hserver.ne_dotdot, hshare.ne_nil, hshare.ne_dot,
        hshare.ne_dotdot]
  | slash =>
      rw [splitN_append_cons _ hshare.slash_not_mem]
      simp [splitN, hserver.ne_nil, hserver.ne_dot, hserver.ne_dotdot, hshare.ne_nil, hshare.ne_dot,
        hshare.ne_dotdot]

theorem exists_of_splitUNCRoot_eq_ok {leader body rootPrefix rest : List α}
    (h : splitUNCRoot (leader ++ body) leader = .ok (rootPrefix, rest)) :
    ∃ server share tail, IsName server ∧ IsName share ∧ Remainder tail rest ∧
      body = server ++ lit "/" ++ share ++ tail ∧
      rootPrefix = leader ++ server ++ lit "/" ++ share := by
  rw [splitUNCRoot, List.drop_left] at h
  -- the first separator ends the server, a second one ends the share
  cases hcut : cut (chr '/') body with
  | none =>
      rw [splitN_of_not_mem _ (cut_eq_none_iff.1 hcut)] at h
      exact absurd h (by simp [newError])
  | some halves =>
      rcases halves with ⟨server, body'⟩
      rcases cut_eq_some_iff.1 hcut with ⟨rfl, hserver⟩
      rw [splitN_append_cons _ hserver] at h
      -- what the source tests, once the two pieces are free of separators
      have hnames {share : List α} (hshare : chr '/' ∉ share)
          (hok : ¬(server = [] ∨ share = [] ∨ server = lit "." ∨ server = lit ".." ∨
            share = lit "." ∨ share = lit "..")) : IsName server ∧ IsName share := by
        simp only [not_or] at hok
        exact ⟨⟨hok.1, hok.2.2.1, hok.2.2.2.1, hserver⟩,
          ⟨hok.2.1, hok.2.2.2.2.1, hok.2.2.2.2.2, hshare⟩⟩
      cases hcut' : cut (chr '/') body' with
      | none =>
          have hshare := cut_eq_none_iff.1 hcut'
          rw [splitN_of_not_mem _ hshare] at h
          simp only at h
          split_ifs at h with hbad
          · exact absurd h (by simp [newError])
          · simp only [Except.ok.injEq, Prod.mk.injEq] at h
            rcases h with ⟨rfl, rfl⟩
            exact ⟨server, body', [], (hnames hshare hbad).1, (hnames hshare hbad).2, .bare,
              by simp [lit], rfl⟩
      | some halves' =>
          rcases halves' with ⟨share, rest'⟩
          rcases cut_eq_some_iff.1 hcut' with ⟨rfl, hshare⟩
          rw [splitN_append_cons _ hshare] at h
          simp only [splitN] at h
          split_ifs at h with hbad
          · exact absurd h (by simp [newError])
          · simp only [Except.ok.injEq, Prod.mk.injEq] at h
            rcases h with ⟨rfl, rfl⟩
            exact ⟨server, share, chr '/' :: rest', (hnames hshare hbad).1, (hnames hshare hbad).2,
              .slash rest', by simp [lit], rfl⟩

/-! ## What `splitRoot` computes -/

theorem hasPrefix_extended_eq_false {server more : List α} (hserver : IsName server)
    (hne : server ≠ lit "?") :
    hasPrefix (lit "//" ++ (server ++ lit "/" ++ more)) (lit "//?/") = false := by
  rw [Bool.eq_false_iff]
  intro h
  rcases hasPrefix_iff.1 h with ⟨tail, htail⟩
  have hbody : server ++ chr '/' :: more = [chr '?'] ++ chr '/' :: tail := by
    simpa [lit] using htail
  -- cut both sides: the server would be `?`
  have hcut := congrArg (cut (chr '/')) hbody
  rw [cut_eq_some_iff.2 ⟨rfl, hserver.slash_not_mem⟩, cut_eq_some_iff.2 ⟨rfl, by simp⟩] at hcut
  exact hne (by simpa [lit] using congrArg (Option.map Prod.fst) hcut)

theorem isWindowsRoot_text {root : Root α} : isWindowsRoot root.text = root.isWindows := by
  cases root <;> simp [isWindowsRoot, Root.text, Root.isWindows, lit, bne]

theorem splitRoot_eq_ok_of_switch {value rest : List α} {root : Root α}
    (h : splitRootSwitch value = .ok (root.text, rest))
    (hbackslash : root.isWindows = true → chr '\\' ∉ value) :
    splitRoot value = .ok (root.text, rest) := by
  have hcheck : ¬(isWindowsRoot root.text = true ∧ chr '\\' ∈ value) := by
    rw [isWindowsRoot_text]
    exact fun hbad => hbackslash hbad.1 hbad.2
  rw [splitRoot, h, Outcome.ok_bind, if_neg hcheck]

theorem Splits.backslash_not_mem {value rest : List α} {root : Root α}
    (h : Splits value root rest) (hroot : root.isWindows = true) : chr '\\' ∉ value := by
  cases h with
  | relative hhead hmarker =>
      exact absurd hroot (by simp [Root.isWindows])
  | posix hhead =>
      exact absurd hroot (by simp [Root.isWindows])
  | drive hd hrest =>
      have hne := ne_backslash_of_isLetter hd
      simp [lit, hrest, Ne.symm hne]
  | unc hserver hshare hne htail hclean =>
      cases htail <;> simpa [lit] using hclean
  | extendedDrive hd hrest =>
      have hne := ne_backslash_of_isLetter hd
      simp [lit, hrest, Ne.symm hne]
  | extendedUNC hserver hshare htail hclean =>
      cases htail <;> simpa [lit] using hclean

theorem splitRootSwitch_of_splits {value rest : List α} {root : Root α}
    (h : Splits value root rest) : splitRootSwitch value = .ok (root.text, rest) := by
  -- one case of the relation for each branch of the switch
  cases h with
  | relative hhead hmarker =>
      have hslash (leader : List α) : hasPrefix value (chr '/' :: leader) = false :=
        hasPrefix_cons_eq_false hhead
      have hdrive : hasDriveRoot value = false := hasDriveRoot_eq_false_of_marker hmarker
      have hdriveRelative : isDriveRelative value = false := by
        rw [isDriveRelative_eq, hmarker, Bool.false_and]
      simp [splitRootSwitch, lit, hslash, hdrive, hdriveRelative, Root.text]
  | posix hhead =>
      have hslash (leader : List α) : hasPrefix rest (chr '/' :: leader) = false :=
        hasPrefix_cons_eq_false hhead
      have hext : hasPrefix (chr '/' :: rest) (lit "//?/") = false := by
        exact hasPrefix_cons_cons.trans (hslash _)
      have hdouble : hasPrefix (chr '/' :: rest) (lit "//") = false := by
        exact hasPrefix_cons_cons.trans (hslash _)
      have hsingle : hasPrefix (chr '/' :: rest) (lit "/") = true :=
        hasPrefix_iff.2 ⟨rest, rfl⟩
      rw [splitRootSwitch, hext, hasDriveRoot_slash_cons, hdouble, hsingle]
      rfl
  | drive hd hrest =>
      rename_i d
      have hdrive : hasDriveRoot (d :: lit ":/" ++ rest) = true :=
        hasDriveRoot_iff.2 ⟨d, rest, hd, rfl⟩
      have hext : hasPrefix (d :: lit ":/" ++ rest) (lit "//?/") = false :=
        hasPrefix_cons_eq_false (head?_ne_slash_of_hasDriveRoot hdrive)
      rw [splitRootSwitch, hext, hdrive]
      rfl
  | unc hserver hshare hne htail hclean =>
      rename_i server share tail
      have hext : hasPrefix (lit "//" ++ (server ++ lit "/" ++ share ++ tail)) (lit "//?/") = false := by
        rw [List.append_assoc _ share]
        exact hasPrefix_extended_eq_false hserver hne
      have hdrive : hasDriveRoot (lit "//" ++ (server ++ lit "/" ++ share ++ tail)) = false :=
        hasDriveRoot_slash_cons
      rw [splitRootSwitch, hext, hdrive, hasPrefix_append,
        splitUNCRoot_eq_ok_of _ hserver hshare htail]
      rfl
  | extendedDrive hd hrest =>
      rename_i d
      have hdrive : hasDriveRoot (d :: lit ":/" ++ rest) = true :=
        hasDriveRoot_iff.2 ⟨d, rest, hd, rfl⟩
      have hdrop : (lit "//?/" ++ (d :: lit ":/" ++ rest)).drop 4 = d :: lit ":/" ++ rest := rfl
      rw [splitRootSwitch, hasPrefix_append, hdrop, hdrive]
      rfl
  | extendedUNC hserver hshare htail hclean =>
      rename_i server share tail
      have hdrop : (lit "//?/UNC/" ++ (server ++ lit "/" ++ share ++ tail)).drop 4 =
          lit "UNC/" ++ (server ++ lit "/" ++ share ++ tail) := rfl
      have hext : hasPrefix (lit "//?/UNC/" ++ (server ++ lit "/" ++ share ++ tail)) (lit "//?/") = true :=
        hasPrefix_iff.2 ⟨_, rfl⟩
      have hdrive : hasDriveRoot (lit "UNC/" ++ (server ++ lit "/" ++ share ++ tail)) = false := by
        simp [hasDriveRoot_eq, lit, Pattern.char]
      rw [splitRootSwitch, hext, hdrop, hdrive, hasPrefix_append,
        splitUNCRoot_eq_ok_of _ hserver hshare htail]
      rfl

theorem splitRoot_of_splits {value rest : List α} {root : Root α} (h : Splits value root rest) :
    splitRoot value = .ok (root.text, rest) :=
  splitRoot_eq_ok_of_switch (splitRootSwitch_of_splits h) h.backslash_not_mem

theorem exists_splits_of_splitRoot_eq_ok {value rootPrefix rest : List α}
    (h : splitRoot value = .ok (rootPrefix, rest)) :
    ∃ root, Splits value root rest ∧ rootPrefix = root.text := by
  rcases Outcome.bind_eq_ok_iff.1 h with ⟨⟨rootPrefix', rest'⟩, hswitch, hcheck⟩
  simp only at hcheck
  split_ifs at hcheck with hbad
  · exact absurd hcheck (by simp [newError])
  · simp only [Except.ok.injEq, Prod.mk.injEq] at hcheck
    rcases hcheck with ⟨rfl, rfl⟩
    -- the check behind the switch, read for whichever root the switch found
    have hbackslash (root : Root α) (hroot : rootPrefix' = root.text)
        (hwindows : root.isWindows = true) : chr '\\' ∉ value := by
      intro hmem
      exact hbad ⟨by rw [hroot, isWindowsRoot_text, hwindows], hmem⟩
    rw [splitRootSwitch] at hswitch
    split_ifs at hswitch with hext hextDrive hextUNC hdrive hunc hposix hdriveRelative
    · -- the extended drive root
      rcases hasPrefix_iff.1 hext with ⟨tail, rfl⟩
      rcases hasDriveRoot_iff.1 hextDrive with ⟨d, rest, hd, htail⟩
      have htail' : tail = d :: lit ":/" ++ rest := htail
      subst htail'
      simp only [Except.ok.injEq, Prod.mk.injEq] at hswitch
      rcases hswitch with ⟨rfl, rfl⟩
      have hclean : chr '\\' ∉ lit "//?/" ++ (d :: lit ":/" ++ rest) :=
        hbackslash (.extendedDrive d) rfl rfl
      refine ⟨.extendedDrive d, Splits.extendedDrive hd ?_, rfl⟩
      intro hmem
      exact hclean (by simp [hmem])
    · -- the extended UNC root
      rcases hasPrefix_iff.1 hext with ⟨tail, rfl⟩
      rcases hasPrefix_iff.1 hextUNC with ⟨body, hbody⟩
      have htail : tail = lit "UNC/" ++ body := hbody
      subst htail
      have hvalue : lit "//?/" ++ (lit "UNC/" ++ body) = lit "//?/UNC/" ++ body := rfl
      rw [hvalue] at hswitch hbackslash ⊢
      rcases exists_of_splitUNCRoot_eq_ok hswitch with
        ⟨server, share, tail, hserver, hshare, htail, rfl, hleads⟩
      have hclean := hbackslash (.extendedUNC server share) hleads rfl
      exact ⟨.extendedUNC server share,
        Splits.extendedUNC hserver hshare htail (htail.not_mem_body _ hclean), hleads⟩
    · exact absurd hswitch (by simp [newError])
    · -- the drive root
      rcases hasDriveRoot_iff.1 hdrive with ⟨d, rest, hd, rfl⟩
      simp only [Except.ok.injEq, Prod.mk.injEq] at hswitch
      rcases hswitch with ⟨rfl, rfl⟩
      have hclean := hbackslash (.drive d) rfl rfl
      refine ⟨.drive d, Splits.drive hd ?_, rfl⟩
      intro hmem
      exact hclean (by simp [hmem])
    · -- the UNC root
      rcases hasPrefix_iff.1 hunc with ⟨body, rfl⟩
      rcases exists_of_splitUNCRoot_eq_ok hswitch with
        ⟨server, share, tail, hserver, hshare, htail, rfl, hleads⟩
      have hclean := hbackslash (.unc server share) hleads rfl
      refine ⟨.unc server share,
        Splits.unc hserver hshare ?_ htail (htail.not_mem_body _ hclean), hleads⟩
      -- a server named `?` would have been taken by the extended branch
      rintro rfl
      exact hext (hasPrefix_iff.2 ⟨share ++ tail, rfl⟩)
    · -- the POSIX root
      rcases hasPrefix_iff.1 hposix with ⟨rest, rfl⟩
      simp only [Except.ok.injEq, Prod.mk.injEq] at hswitch
      rcases hswitch with ⟨rfl, rfl⟩
      refine ⟨.posix, Splits.posix ?_, rfl⟩
      intro hhead
      rw [← hasPrefix_slash_iff] at hhead
      exact hunc (hasPrefix_cons_cons.trans hhead)
    · exact absurd hswitch (by simp [newError])
    · -- no root
      simp only [Except.ok.injEq, Prod.mk.injEq] at hswitch
      rcases hswitch with ⟨rfl, rfl⟩
      refine ⟨.relative, Splits.relative ?_ ?_, rfl⟩
      · rwa [Ne, ← hasPrefix_slash_iff]
      · rw [isDriveRelative_eq, Bool.and_eq_true, Bool.not_eq_true'] at hdriveRelative
        rw [Bool.eq_false_iff]
        exact fun hmarker => hdriveRelative ⟨hmarker, by simpa using hdrive⟩

/-- `splitRoot` accepts exactly the strings that spell a root and a rest. -/
theorem splitRoot_eq_ok_iff {value rootPrefix rest : List α} :
    splitRoot value = .ok (rootPrefix, rest) ↔
      ∃ root, Splits value root rest ∧ rootPrefix = root.text := by
  constructor
  · exact exists_splits_of_splitRoot_eq_ok
  · rintro ⟨root, h, rfl⟩
    exact splitRoot_of_splits h

theorem Splits.valid {value rest : List α} {root : Root α} (h : Splits value root rest) :
    root.Valid := by
  cases h with
  | relative =>
      trivial
  | posix =>
      trivial
  | drive hd =>
      exact hd
  | unc hserver hshare hne =>
      exact ⟨hserver, hshare, hne⟩
  | extendedDrive hd =>
      exact hd
  | extendedUNC hserver hshare =>
      exact ⟨hserver, hshare⟩

/-- A string starts with the spelling of its root. -/
theorem Splits.exists_eq_append {value rest : List α} {root : Root α}
    (h : Splits value root rest) :
    ∃ tail, value = root.text ++ tail ∧ (tail = rest ∨ Remainder tail rest) := by
  cases h with
  | relative =>
      exact ⟨value, rfl, Or.inl rfl⟩
  | posix =>
      exact ⟨rest, rfl, Or.inl rfl⟩
  | drive =>
      exact ⟨rest, rfl, Or.inl rfl⟩
  | unc hserver hshare hne htail =>
      exact ⟨_, by simp [Root.text], Or.inr htail⟩
  | extendedDrive =>
      exact ⟨rest, rfl, Or.inl rfl⟩
  | extendedUNC hserver hshare htail =>
      exact ⟨_, by simp [Root.text], Or.inr htail⟩

theorem Splits.rest_eq {value rest rest' : List α} {root root' : Root α}
    (h : Splits value root rest) (h' : Splits value root' rest') :
    root.text = root'.text ∧ rest = rest' := by
  have heq := (splitRoot_of_splits h).symm.trans (splitRoot_of_splits h')
  simpa using heq

/-- The extended prefix belongs to the two extended roots only. -/
theorem Splits.hasPrefix_extended {value rest : List α} {root : Root α} (h : Splits value root rest) :
    hasPrefix value (lit "//?/") = root.isExtended := by
  have hslash {leader tail : List α} (hhead : tail.head? ≠ some (chr '/')) :
      hasPrefix tail (chr '/' :: leader) = false := hasPrefix_cons_eq_false hhead
  cases h with
  | relative hhead hmarker =>
      exact hslash hhead
  | posix hhead =>
      exact hasPrefix_cons_cons.trans (hslash hhead)
  | drive hd hrest =>
      exact hslash (head?_ne_slash_of_hasDriveRoot (hasDriveRoot_iff.2 ⟨_, rest, hd, rfl⟩))
  | unc hserver hshare hne htail hclean =>
      rw [List.append_assoc _ (_ : List α) (_ : List α)]
      exact hasPrefix_extended_eq_false hserver hne
  | extendedDrive hd hrest =>
      exact hasPrefix_append _ _
  | extendedUNC hserver hshare htail hclean =>
      exact hasPrefix_iff.2 ⟨_, rfl⟩

/-- Only a drive root starts with a drive. -/
theorem Splits.hasDriveRoot_eq {value rest : List α} {root : Root α} (h : Splits value root rest) :
    hasDriveRoot value = root.isDrive := by
  cases h with
  | relative hhead hmarker =>
      exact hasDriveRoot_eq_false_of_marker hmarker
  | posix hhead =>
      exact hasDriveRoot_slash_cons
  | drive hd hrest =>
      exact hasDriveRoot_iff.2 ⟨_, rest, hd, rfl⟩
  | unc hserver hshare hne htail hclean =>
      exact hasDriveRoot_slash_cons
  | extendedDrive hd hrest =>
      exact hasDriveRoot_slash_cons
  | extendedUNC hserver hshare htail hclean =>
      exact hasDriveRoot_slash_cons

/-- Only an extended drive root has a drive behind the extended prefix. -/
theorem Splits.hasDriveRoot_drop_eq {value rest : List α} {root : Root α}
    (h : Splits value root rest) :
    (hasPrefix value (lit "//?/") && hasDriveRoot (value.drop 4)) = root.isExtendedDrive := by
  rw [h.hasPrefix_extended]
  cases h with
  | relative hhead hmarker =>
      rfl
  | posix hhead =>
      rfl
  | drive hd hrest =>
      rfl
  | unc hserver hshare hne htail hclean =>
      rfl
  | extendedDrive hd hrest =>
      exact hasDriveRoot_iff.2 ⟨_, rest, hd, rfl⟩
  | extendedUNC hserver hshare htail hclean =>
      simp [Root.isExtendedDrive, hasDriveRoot, lit]

/-- The same tests on the spelling of a root alone. -/
theorem Root.hasDriveRoot_text {root : Root α} (hroot : root.Valid) :
    hasDriveRoot root.text = root.isDrive := by
  cases root with
  | relative =>
      rfl
  | posix =>
      exact hasDriveRoot_slash_cons
  | drive d =>
      exact hasDriveRoot_iff.2 ⟨d, [], hroot, rfl⟩
  | unc server share =>
      exact hasDriveRoot_slash_cons
  | extendedDrive d =>
      exact hasDriveRoot_slash_cons
  | extendedUNC server share =>
      exact hasDriveRoot_slash_cons

theorem Root.hasPrefix_extended_text {root : Root α} (hroot : root.Valid) :
    hasPrefix root.text (lit "//?/") = root.isExtended := by
  cases root with
  | relative =>
      rfl
  | posix =>
      simp [text, hasPrefix, lit, isExtended]
  | drive d =>
      have hhead : (Root.drive d).text.head? ≠ some (chr '/') := by
        simpa [text] using ne_slash_of_isLetter hroot
      exact hasPrefix_cons_eq_false hhead
  | unc server share =>
      -- the server follows the two slashes, and it is not `?`
      rw [text, List.append_assoc, List.append_assoc, ← List.append_assoc server]
      exact hasPrefix_extended_eq_false hroot.1 hroot.2.2
  | extendedDrive d =>
      exact hasPrefix_append _ _
  | extendedUNC server share =>
      exact hasPrefix_iff.2 ⟨lit "UNC/" ++ server ++ lit "/" ++ share, rfl⟩

/-- The first separator ends the server. -/
theorem share_inj {server share server' share' : List α} (h : IsName server) (h' : IsName server')
    (heq : server ++ lit "/" ++ share = server' ++ lit "/" ++ share') :
    server = server' ∧ share = share' := by
  have hleft : cut (chr '/') (server ++ (lit "/" ++ share)) = some (server, share) :=
    cut_eq_some_iff.2 ⟨rfl, h.slash_not_mem⟩
  have hright : cut (chr '/') (server' ++ (lit "/" ++ share')) = some (server', share') :=
    cut_eq_some_iff.2 ⟨rfl, h'.slash_not_mem⟩
  rw [List.append_assoc, List.append_assoc] at heq
  rw [heq, hright] at hleft
  exact Prod.mk.inj (Option.some.inj hleft.symm)

/-- A root is determined by its spelling. -/
theorem Root.text_inj {root root' : Root α} (h : root.Valid) (h' : root'.Valid)
    (heq : root.text = root'.text) : root = root' := by
  have hextended : root.isExtended = root'.isExtended := by
    rw [← hasPrefix_extended_text h, ← hasPrefix_extended_text h', heq]
  -- the first units tell two different forms apart
  cases root <;> cases root' <;> simp only [Root.isExtended, reduceCtorEq] at hextended <;>
    try (simp [Root.text, lit] at heq; done)
  case relative.relative =>
    rfl
  case posix.posix =>
    rfl
  case drive.drive d d' =>
    rw [(List.cons.inj heq).1]
  case unc.unc server share server' share' =>
    rw [Root.text, Root.text, List.append_assoc, List.append_assoc, List.append_assoc, List.append_assoc,
      List.append_right_inj, ← List.append_assoc, ← List.append_assoc] at heq
    obtain ⟨rfl, rfl⟩ := share_inj h.1 h'.1 heq
    rfl
  case extendedDrive.extendedDrive d d' =>
    rw [Root.text, Root.text, List.append_right_inj] at heq
    rw [(List.cons.inj heq).1]
  case extendedUNC.extendedUNC server share server' share' =>
    rw [Root.text, Root.text, List.append_assoc, List.append_assoc, List.append_assoc, List.append_assoc,
      List.append_right_inj, ← List.append_assoc, ← List.append_assoc] at heq
    obtain ⟨rfl, rfl⟩ := share_inj h.1 h'.1 heq
    rfl

theorem Root.hasDriveRoot_drop_text {root : Root α} (hroot : root.Valid) :
    (hasPrefix root.text (lit "//?/") && hasDriveRoot (root.text.drop 4)) = root.isExtendedDrive := by
  rw [Root.hasPrefix_extended_text hroot]
  cases root with
  | relative =>
      rfl
  | posix =>
      rfl
  | drive d =>
      rfl
  | unc server share =>
      rfl
  | extendedDrive d =>
      exact hasDriveRoot_iff.2 ⟨d, [], hroot, rfl⟩
  | extendedUNC server share =>
      simp [text, isExtendedDrive, hasDriveRoot_eq, lit, isLetterCode, Pattern.char]

theorem isDriveRoot_text {root : Root α} (hroot : root.Valid) :
    isDriveRoot root.text = (root.isDrive || root.isExtendedDrive) := by
  rw [isDriveRoot, Root.hasDriveRoot_text hroot, Root.hasDriveRoot_drop_text hroot]

/-- One leading separator and no more is the POSIX root. -/
theorem Splits.root_eq_posix_iff {value rest : List α} {root : Root α} (h : Splits value root rest) :
    root = .posix ↔ value = chr '/' :: rest ∧ rest.head? ≠ some (chr '/') := by
  constructor
  · rintro rfl
    cases h with
    | posix hhead =>
        exact ⟨rfl, hhead⟩
  · rintro ⟨rfl, hhead⟩
    -- the root of a string is unique, and no other root is spelled by one slash
    have htext := (h.rest_eq (Splits.posix hhead)).1
    cases root with
    | posix =>
        rfl
    | relative =>
        exact absurd htext (by simp [Root.text, lit])
    | drive d =>
        exact absurd htext (by simp [Root.text, lit])
    | unc server share =>
        exact absurd htext (by simp [Root.text, lit])
    | extendedDrive d =>
        exact absurd htext (by simp [Root.text, lit])
    | extendedUNC server share =>
        exact absurd htext (by simp [Root.text, lit])

theorem Splits.mem_text {value rest : List α} {root : Root α} {x : α}
    (h : Splits value root rest) (hx : x ∈ root.text) : x ∈ value := by
  rcases h.exists_eq_append with ⟨tail, rfl, -⟩
  exact List.mem_append_left _ hx

theorem Splits.mem_rest {value rest : List α} {root : Root α} {x : α}
    (h : Splits value root rest) (hx : x ∈ rest) : x ∈ value := by
  rcases h.exists_eq_append with ⟨tail, rfl, rfl | htail⟩
  · exact List.mem_append_right _ hx
  · cases htail with
    | bare =>
        simp at hx
    | slash =>
        exact List.mem_append_right _ (List.mem_cons_of_mem _ hx)

/-- A value has one root. -/
theorem Splits.root_eq {value rest rest' : List α} {root root' : Root α} (h : Splits value root rest)
    (h' : Splits value root' rest') : root = root' := by
  have hsplit : Except.ok (root.text, rest) = Except.ok (root'.text, rest') :=
    (splitRoot_of_splits h).symm.trans (splitRoot_of_splits h')
  exact Root.text_inj h.valid h'.valid (congrArg Prod.fst (Except.ok.inj hsplit))

end CanonicalPath
