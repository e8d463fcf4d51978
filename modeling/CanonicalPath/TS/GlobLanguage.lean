import CanonicalPath.Library.Wildcard
import CanonicalPath.TS.Glob

/-!
# TS glob language — what a matcher of a scoped query accepts

A row of cells says which fronts of the pattern have the path so far in their language.

* `GlobMatches` : the language of a glob
* `tokenize_matches_iff` : collapsing globstars keeps the language
* `Row.Reads` : the row behind a path; `resetCells_reads` and `advanceCells_reads` : the two loops
* `compileScopedGlob_answers` : a matcher answers as the language does, however often it is asked
-/

namespace CanonicalPath

namespace TS

open CodeUnit Outcome

open Wildcard (Atom Matches)

/-! ## The language of a glob -/

/-- A glob is read from the left: two stars wherever there are two, then one, a question mark, any other unit. -/
inductive GlobMatches : Units → Units → Prop
  | nil : GlobMatches [] []
  | globstar {skipped glob path : Units} : (∀ ch ∈ skipped, isLineTerminator ch = false) → GlobMatches glob path →
      GlobMatches (chr '*' :: chr '*' :: glob) (skipped ++ path)
  | star {skipped glob path : Units} : glob.head? ≠ some (chr '*') → (∀ ch ∈ skipped, ch ≠ chr '/') →
      GlobMatches glob path → GlobMatches (chr '*' :: glob) (skipped ++ path)
  | question {ch : UInt16} {glob path : Units} : ch ≠ chr '/' → GlobMatches glob path →
      GlobMatches (chr '?' :: glob) (ch :: path)
  | literal {ch : UInt16} {glob path : Units} : ch ≠ chr '*' → ch ≠ chr '?' → GlobMatches glob path →
      GlobMatches (ch :: glob) (ch :: path)

/-! ## Tokens -/

/-- What a token stands for. -/
def GlobToken.atom (token : GlobToken) : Atom UInt16 :=
  if token.isStar then .run fun ch => token.consumes ch = true else .one fun ch => token.equals ch = true

/-- The tokens of a glob, each globstar by itself. -/
def tokensOf : Units → List GlobToken
  | [] => []
  | [ch] => [.unit ch]
  | ch :: next :: more =>
      if ch = chr '*' ∧ next = chr '*' then .globstar :: tokensOf more else .unit ch :: tokensOf (next :: more)

def atoms (tokens : List GlobToken) : List (Atom UInt16) :=
  tokens.map GlobToken.atom

theorem atom_globstar : GlobToken.globstar.atom = .run fun ch => (!isLineTerminator ch) = true := rfl

theorem atom_star : (GlobToken.unit (chr '*')).atom = .run fun ch => decide (ch ≠ chr '/') = true := rfl

theorem atom_question : (GlobToken.unit (chr '?')).atom = .one fun ch => decide (ch ≠ chr '/') = true := rfl

theorem atom_literal {ch : UInt16} (hstar : ch ≠ chr '*') (hquestion : ch ≠ chr '?') :
    (GlobToken.unit ch).atom = .one fun value => decide (GlobToken.unit ch = .unit value) = true := by
  have hnot : (GlobToken.unit ch).isStar = false := by
    simp [GlobToken.isStar, hstar]
  have hequals : (GlobToken.unit ch).equals = fun value => decide (GlobToken.unit ch = .unit value) := by
    funext value
    simp [GlobToken.equals, hquestion]
  rw [GlobToken.atom, hnot, hequals]
  rfl

theorem tokensOf_cons {ch : UInt16} {glob : Units} (h : ¬(ch = chr '*' ∧ glob.head? = some (chr '*'))) :
    tokensOf (ch :: glob) = .unit ch :: tokensOf glob := by
  cases glob with
  | nil =>
      rfl
  | cons next more =>
      have hboth : ¬(ch = chr '*' ∧ next = chr '*') := fun hboth => h ⟨hboth.1, congrArg some hboth.2⟩
      rw [tokensOf, if_neg hboth]

theorem GlobMatches.of_unit {ch : UInt16} {glob path : Units} (hsplit : ¬(ch = chr '*' ∧ glob.head? = some (chr '*')))
    (hglob : ∀ path, Matches (atoms (tokensOf glob)) path → GlobMatches glob path)
    (h : Matches ((GlobToken.unit ch).atom :: atoms (tokensOf glob)) path) : GlobMatches (ch :: glob) path := by
  -- a single star, a question mark and any other unit have atoms of three kinds
  by_cases hstar : ch = chr '*'
  · subst hstar
    rw [atom_star] at h
    obtain ⟨skipped, rest, rfl, hskipped, hrest⟩ := Wildcard.matches_run_iff.1 h
    have hhead : glob.head? ≠ some (chr '*') := fun hhead => hsplit ⟨rfl, hhead⟩
    exact GlobMatches.star hhead (fun ch hch => of_decide_eq_true (hskipped ch hch)) (hglob rest hrest)
  by_cases hquestion : ch = chr '?'
  · subst hquestion
    rw [atom_question] at h
    cases h with
    | one hch hrest =>
        exact GlobMatches.question (of_decide_eq_true hch) (hglob _ hrest)
  · rw [atom_literal hstar hquestion] at h
    cases h with
    | one hch hrest =>
        cases of_decide_eq_true hch
        exact GlobMatches.literal hstar hquestion (hglob _ hrest)

/-- The language of a glob is that of its tokens. -/
theorem globMatches_iff {glob path : Units} : GlobMatches glob path ↔ Matches (atoms (tokensOf glob)) path := by
  constructor
  · intro h
    induction h with
    | nil =>
        exact Matches.nil
    | globstar hskipped _ ih =>
        rw [tokensOf, if_pos ⟨rfl, rfl⟩]
        apply Matches.run _ ih
        intro ch hch
        rw [GlobToken.consumes, if_neg (by decide), hskipped ch hch]
        rfl
    | star hhead hskipped _ ih =>
        rw [tokensOf_cons fun hboth => hhead hboth.2]
        apply Matches.run _ ih
        intro ch hch
        exact decide_eq_true (hskipped ch hch)
    | question hch _ ih =>
        rw [tokensOf_cons fun hboth => absurd hboth.1 (by decide)]
        exact Matches.one (decide_eq_true hch) ih
    | literal hstar hquestion _ ih =>
        rw [tokensOf_cons fun hboth => hstar hboth.1, atoms, List.map_cons, atom_literal hstar hquestion]
        exact Matches.one (decide_eq_true rfl) ih
  · intro h
    -- two stars are one token; the cases of the scan are those of the language
    induction glob using tokensOf.induct generalizing path with
    | case1 =>
        rw [Wildcard.matches_nil_iff.1 h]
        exact GlobMatches.nil
    | case2 ch =>
        have hsplit : ¬(ch = chr '*' ∧ ([] : Units).head? = some (chr '*')) := fun hboth => nomatch hboth.2
        apply GlobMatches.of_unit hsplit _ h
        intro path hnil
        rw [Wildcard.matches_nil_iff.1 hnil]
        exact GlobMatches.nil
    | case3 ch next more hboth ih =>
        obtain ⟨rfl, rfl⟩ := hboth
        rw [tokensOf, if_pos ⟨rfl, rfl⟩, atoms, List.map_cons, atom_globstar] at h
        obtain ⟨skipped, rest, rfl, hskipped, hrest⟩ := Wildcard.matches_run_iff.1 h
        apply GlobMatches.globstar _ (ih hrest)
        intro ch hch
        simpa using hskipped ch hch
    | case4 ch next more hboth ih =>
        have hsplit : ¬(ch = chr '*' ∧ (next :: more).head? = some (chr '*')) :=
          fun hsplit => hboth ⟨hsplit.1, Option.some.inj hsplit.2⟩
        rw [tokensOf_cons hsplit] at h
        exact GlobMatches.of_unit hsplit (fun path hpath => ih hpath) h

/-! ## Collapsed globstars -/

/-- What was collapsed in front of the rest does not count. -/
theorem matches_globstar_iff {tokens : List GlobToken} (hlast : tokens.getLast? = some .globstar)
    (more : List GlobToken) (path : Units) :
    Matches (atoms (tokens ++ .globstar :: more)) path ↔ Matches (atoms (tokens ++ more)) path := by
  obtain ⟨front, rfl⟩ := List.getLast?_eq_some_iff.1 hlast
  simp only [atoms, List.map_append, List.map_cons, List.append_assoc, List.cons_append, List.nil_append]
  apply Wildcard.matches_append_congr
  intro xs
  rw [atom_globstar]
  exact Wildcard.matches_run_run_iff

theorem tokenize_matches_iff (tokens : List GlobToken) (glob path : Units) :
    Matches (atoms (tokenize tokens glob)) path ↔ Matches (atoms (tokens ++ tokensOf glob)) path := by
  -- what the loop has collected stands in front of the tokens that are left
  induction tokens, glob using tokenize.induct with
  | case1 tokens =>
      rw [tokenize, tokensOf, List.append_nil]
  | case2 tokens ch =>
      rw [tokenize, tokensOf]
  | case3 tokens ch next more hboth ih =>
      rw [tokenize, if_pos hboth, tokensOf, if_pos hboth]
      by_cases hlast : tokens.getLast? = some .globstar
      · rw [if_pos hlast] at ih ⊢
        calc Matches (atoms (tokenize tokens more)) path
            ↔ Matches (atoms (tokens ++ tokensOf more)) path := ih
          _ ↔ Matches (atoms (tokens ++ .globstar :: tokensOf more)) path :=
              (matches_globstar_iff hlast (tokensOf more) path).symm
      · rw [if_neg hlast] at ih ⊢
        rw [ih, List.append_assoc]
        rfl
  | case4 tokens ch next more hboth ih =>
      rw [tokenize, if_neg hboth, ih, tokensOf, if_neg hboth, List.append_assoc]
      rfl

/-! ## Rows -/

/-- The cells up to this one say which fronts of the tokens have the path in their language. -/
structure Reads (tokens : List GlobToken) (path : Units) (n : Nat) (row : Row) : Prop where
  length_eq : row.length = tokens.length + 1
  cell_iff : ∀ i ≤ n, cell row i ≠ 0 ↔ Matches (atoms (tokens.take i)) path

section

variable {tokens done more : List GlobToken} {token : GlobToken} {path : Units} {row : Row} {ch : UInt16}

theorem cell_set (row : Row) (n i : Nat) (value : UInt8) (hn : n < row.length) :
    cell (row.set n value) i = if i = n then value else cell row i := by
  rw [cell, cell, List.getD_eq_getElem?_getD, List.getD_eq_getElem?_getD, List.getElem?_set]
  by_cases h : n = i
  · subst h
    simp [hn]
  · rw [if_neg h, if_neg (Ne.symm h)]

theorem take_succ_length : (done ++ token :: more).take (done.length + 1) = done ++ [token] := by
  have hlength : (done ++ [token]).length = done.length + 1 := List.length_append
  rw [List.append_cons, ← hlength]
  exact List.take_left

/-- The next cell of a row. -/
theorem Reads.set {value : UInt8} (h : Reads (done ++ token :: more) path done.length row)
    (hvalue : value ≠ 0 ↔ Matches (atoms done ++ [token.atom]) path) :
    Reads (done ++ token :: more) path (done ++ [token]).length (row.set (done.length + 1) value) where
  length_eq := by
    rw [List.length_set]
    exact h.length_eq
  cell_iff := by
    have hlength : (done ++ [token]).length = done.length + 1 := List.length_append
    have hinside : done.length + 1 < row.length := by
      rw [h.length_eq, List.length_append, List.length_cons]
      omega
    intro i hi
    rw [hlength] at hi
    rw [cell_set row _ i value hinside]
    -- the new cell is that of the front with the token, the others are kept
    by_cases hlast : i = done.length + 1
    · rw [if_pos hlast, hlast, take_succ_length, atoms, List.map_append]
      exact hvalue
    · rw [if_neg hlast]
      exact h.cell_iff i (by omega)

theorem Reads.left_iff (h : Reads (done ++ more) path done.length row) :
    cell row done.length ≠ 0 ↔ Matches (atoms done) path := by
  have hcell := h.cell_iff done.length (Nat.le_refl _)
  rw [List.take_left] at hcell
  exact hcell

/-- The first row: only stars match no unit at all. -/
theorem resetCells_reads (done : List GlobToken) {more : List GlobToken} {row : Row} (h : Reads (done ++ more) [] done.length row) :
    Reads (done ++ more) [] (done ++ more).length (resetCells more (done.length + 1) row) := by
  induction more generalizing done row with
  | nil =>
      rw [List.append_nil] at h ⊢
      exact h
  | cons token more ih =>
      have hvalue : (if token.isStar then cell row done.length else 0) ≠ 0 ↔ Matches (atoms done ++ [token.atom]) [] := by
        rw [GlobToken.atom]
        -- a star takes nothing, any other token asks for a unit
        split_ifs with hstar
        · rw [Wildcard.matches_concat_run_nil_iff]
          exact h.left_iff
        · exact iff_of_false (fun hzero => hzero rfl) Wildcard.not_matches_concat_one_nil
      have hnext := h.set hvalue
      rw [List.append_cons] at hnext ⊢
      rw [resetCells, Nat.add_sub_cancel]
      have hrest := ih (done ++ [token]) hnext
      have hlength : (done ++ [token]).length = done.length + 1 := List.length_append
      rw [hlength] at hrest
      exact hrest

theorem nextCell_ne_zero_iff {left corner above : UInt8} :
    nextCell token ch left corner above ≠ 0 ↔
      if token.isStar then left ≠ 0 ∨ (above ≠ 0 ∧ token.consumes ch = true)
      else corner ≠ 0 ∧ token.equals ch = true := by
  rw [nextCell]
  split_ifs with hstar hleft hconsumes hboth
  · exact iff_of_true hleft (Or.inl hleft)
  · simp [hleft, hconsumes]
  · simp [hleft, hconsumes]
  · exact iff_of_true (by decide) hboth
  · exact iff_of_false (fun hzero => hzero rfl) hboth

/-- The row of one more unit, from the row before it. -/
theorem advanceCells_reads (done : List GlobToken) {more : List GlobToken} {previous row : Row} (hprevious : Reads (done ++ more) path (done ++ more).length previous)
    (h : Reads (done ++ more) (path ++ [ch]) done.length row) :
    Reads (done ++ more) (path ++ [ch]) (done ++ more).length
      (advanceCells ch previous more (done.length + 1) row) := by
  induction more generalizing done row with
  | nil =>
      rw [List.append_nil] at h ⊢
      exact h
  | cons token more ih =>
      have hlength : done.length + 1 ≤ (done ++ token :: more).length := by
        rw [List.length_append, List.length_cons]
        omega
      -- the row above is complete, the new one is as far as the tokens that are done
      have hcorner : cell previous done.length ≠ 0 ↔ Matches (atoms done) path := by
        have hcell := hprevious.cell_iff done.length (Nat.le_of_succ_le hlength)
        rw [List.take_left] at hcell
        exact hcell
      have habove : cell previous (done.length + 1) ≠ 0 ↔ Matches (atoms done ++ [token.atom]) path := by
        have hcell := hprevious.cell_iff (done.length + 1) hlength
        rw [take_succ_length, atoms, List.map_append] at hcell
        exact hcell
      have hvalue : nextCell token ch (cell row done.length) (cell previous done.length)
          (cell previous (done.length + 1)) ≠ 0 ↔ Matches (atoms done ++ [token.atom]) (path ++ [ch]) := by
        rw [nextCell_ne_zero_iff, h.left_iff, hcorner, habove, GlobToken.atom]
        split_ifs with hstar
        · exact Wildcard.matches_concat_run_iff.symm
        · rw [Wildcard.matches_concat_one_iff]
      have hnext := h.set hvalue
      rw [List.append_cons] at hnext hprevious ⊢
      rw [advanceCells, Nat.add_sub_cancel]
      have hrest := ih (done ++ [token]) hprevious hnext
      have hsucc : (done ++ [token]).length = done.length + 1 := List.length_append
      rw [hsucc] at hrest
      exact hrest

/-- The rows of a call: whatever the matcher left in them, each is filled again before it is read. -/
theorem scanPath_reads {previous current : Row} (front rest : Units)
    (hprevious : Reads tokens front tokens.length previous) (hcurrent : current.length = tokens.length + 1) :
    Reads tokens (front ++ rest) tokens.length (scanPath tokens rest previous current).1 ∧
      (scanPath tokens rest previous current).2.length = tokens.length + 1 := by
  induction rest generalizing front previous current with
  | nil =>
      rw [List.append_nil]
      exact ⟨hprevious, hcurrent⟩
  | cons ch rest ih =>
      -- no token matches no unit more: the cell in front is cleared
      have hstart : Reads tokens (front ++ [ch]) 0 (current.set 0 0) := by
        refine ⟨?_, ?_⟩
        · rw [List.length_set]
          exact hcurrent
        · intro i hi
          rw [Nat.le_zero.1 hi, cell_set _ _ _ _ (by omega), if_pos rfl, List.take_zero]
          refine iff_of_false (fun hzero => hzero rfl) ?_
          intro hmatches
          exact absurd (Wildcard.matches_nil_iff.1 hmatches) (by simp)
      have hadvanced : Reads tokens (front ++ [ch]) tokens.length (advanceCells ch previous tokens 1 (current.set 0 0)) :=
        advanceCells_reads [] hprevious hstart
      -- the rows are swapped, and of the one to be filled next only the length is known
      have hrest := ih (front ++ [ch]) hadvanced hprevious.length_eq
      rw [List.append_assoc] at hrest
      exact hrest

end

/-! ## Matchers -/

/-- The rows of a matcher have a cell for each front of the tokens. -/
structure Matcher.Sized (m : Matcher) (tokens : List GlobToken) : Prop where
  tokens_eq : m.tokens = tokens
  previous : m.previous.length = tokens.length + 1
  current : m.current.length = tokens.length + 1

/-- What a call answers, and costs. -/
structure Answers (tokens : List GlobToken) (path : Units) (remaining : Nat)
    (answer : Except PathError (Bool × Nat)) : Prop where
  within : (tokens.length + 1) * (path.length + 1) ≤ remaining → ∃ found,
    answer = .ok (found, remaining - (tokens.length + 1) * (path.length + 1)) ∧
      (found = true ↔ Matches (atoms tokens) path)
  beyond : remaining < (tokens.length + 1) * (path.length + 1) → ∃ e, answer = .error e

theorem Matcher.Sized.test {m : Matcher} {tokens : List GlobToken} (h : m.Sized tokens) (path : Units)
    (remaining : Nat) :
    Answers tokens path remaining (m.test path remaining).1 ∧ (m.test path remaining).2.Sized tokens := by
  obtain ⟨rfl, hprevious, hcurrent⟩ := h
  have hreset : Reads m.tokens [] 0 (m.previous.set 0 1) := by
    refine ⟨?_, ?_⟩
    · rw [List.length_set]
      exact hprevious
    · intro i hi
      rw [Nat.le_zero.1 hi, cell_set _ _ _ _ (by omega), if_pos rfl, List.take_zero]
      exact iff_of_true (by decide) Matches.nil
  have hrow : Reads m.tokens [] m.tokens.length (resetCells m.tokens 1 (m.previous.set 0 1)) :=
    resetCells_reads [] hreset
  obtain ⟨hreads, hlength⟩ := scanPath_reads [] path hrow hcurrent
  have hcell := hreads.cell_iff m.tokens.length (Nat.le_refl _)
  rw [List.take_length] at hcell
  rw [Matcher.test, consume, Matcher.width]
  by_cases hbudget : (m.tokens.length + 1) * (path.length + 1) > remaining
  · -- a call over its budget does not touch the rows
    rw [if_pos hbudget]
    refine ⟨⟨fun hle => absurd hle (Nat.not_le.2 hbudget), fun _ => ⟨_, rfl⟩⟩, rfl, hprevious, hcurrent⟩
  · rw [if_neg hbudget]
    refine ⟨⟨fun _ => ⟨_, rfl, ?_⟩, fun hlt => absurd hlt hbudget⟩, rfl, hreads.length_eq, hlength⟩
    rw [decide_eq_true_iff]
    exact hcell

theorem compileScopedGlob_sized (glob : Units) : (compileScopedGlob glob).Sized (tokenize [] glob) where
  tokens_eq := rfl
  previous := List.length_replicate
  current := List.length_replicate

theorem Matcher.Sized.testAll {m : Matcher} {tokens : List GlobToken} (h : m.Sized tokens)
    (calls : List (Units × Nat)) :
    List.Forall₂ (fun call answer => Answers tokens call.1 call.2 answer) calls (m.testAll calls) := by
  induction calls generalizing m with
  | nil =>
      exact List.Forall₂.nil
  | cons call calls ih =>
      obtain ⟨hanswer, hsized⟩ := h.test call.1 call.2
      exact List.Forall₂.cons hanswer (ih hsized)

/-- Every call of a matcher within its budget answers whether the path is in the language of the glob, whatever paths
the matcher has been asked for before. -/
theorem compileScopedGlob_answers (glob : Units) (calls : List (Units × Nat)) :
    List.Forall₂ (fun call answer =>
      (compileScopedGlob glob).width * (call.1.length + 1) ≤ call.2 →
        ∃ found remaining, answer = .ok (found, remaining) ∧ (found = true ↔ GlobMatches glob call.1))
      calls ((compileScopedGlob glob).testAll calls) := by
  have hanswers := (compileScopedGlob_sized glob).testAll calls
  apply hanswers.imp
  intro call answer hanswer hbudget
  obtain ⟨found, hok, hfound⟩ := hanswer.within hbudget
  refine ⟨found, _, hok, ?_⟩
  rw [hfound, tokenize_matches_iff, List.nil_append]
  exact globMatches_iff.symm

/-- One matcher that is asked twice. -/
theorem compileScopedGlob_answers_sample :
    (compileScopedGlob (lit "**/*.cs")).testAll [(lit "a/b.cs", 1000), (lit "a/b.txt", 1000)] =
      [.ok (true, 951), .ok (false, 944)] ∧
      GlobMatches (lit "**/*.cs") (lit "a/b.cs") ∧ ¬GlobMatches (lit "**/*.cs") (lit "a/b.txt") := by
  have hrun : (compileScopedGlob (lit "**/*.cs")).testAll [(lit "a/b.cs", 1000), (lit "a/b.txt", 1000)] =
      [.ok (true, 951), .ok (false, 944)] := by
    decide +kernel
  have hanswers := compileScopedGlob_answers (lit "**/*.cs") [(lit "a/b.cs", 1000), (lit "a/b.txt", 1000)]
  rw [hrun, List.forall₂_cons, List.forall₂_cons] at hanswers
  obtain ⟨hfirst, hsecond, -⟩ := hanswers
  obtain ⟨found, remaining, hfound, hmatches⟩ := hfirst (by decide)
  cases hfound
  obtain ⟨missed, remaining, hmissed, hmatches'⟩ := hsecond (by decide)
  cases hmissed
  exact ⟨hrun, hmatches.1 rfl, fun h => Bool.false_ne_true (hmatches'.2 h)⟩

end TS

end CanonicalPath
