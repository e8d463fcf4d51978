import Mathlib.Data.List.Basic
import Mathlib.Data.List.TakeDrop

/-!
# Wildcard — patterns of single symbols and runs

A pattern is a list of atoms: an atom takes one symbol or a run of symbols, all of which it accepts.  `Matches` is the
language of a pattern, read from the left.

* `matches_append_iff` : a pattern cut in two cuts the text in two
* `matches_concat_one_iff`, `matches_concat_run_iff` : the last atom, as an automaton with one row of states looks at it
* `matches_run_run_iff` : two equal runs are one
-/

namespace Wildcard

variable {α : Type*}

/-- An atom, with the symbols that it accepts. -/
inductive Atom (α : Type*)
  | one (accepts : α → Prop)
  | run (accepts : α → Prop)

/-- The text is in the language of the pattern. -/
inductive Matches : List (Atom α) → List α → Prop
  | nil : Matches [] []
  | one {accepts : α → Prop} {x : α} {ps : List (Atom α)} {xs : List α} :
      accepts x → Matches ps xs → Matches (.one accepts :: ps) (x :: xs)
  | run {accepts : α → Prop} {skipped : List α} {ps : List (Atom α)} {xs : List α} :
      (∀ x ∈ skipped, accepts x) → Matches ps xs → Matches (.run accepts :: ps) (skipped ++ xs)

variable {accepts : α → Prop} {ps qs : List (Atom α)} {xs ys : List α} {x : α}

theorem matches_nil_iff : Matches ([] : List (Atom α)) xs ↔ xs = [] := by
  constructor
  · intro h
    cases h
    rfl
  · rintro rfl
    exact Matches.nil

theorem matches_run_iff :
    Matches (.run accepts :: ps) ys ↔ ∃ skipped xs, ys = skipped ++ xs ∧ (∀ x ∈ skipped, accepts x) ∧ Matches ps xs := by
  constructor
  · intro h
    cases h with
    | run hskipped hrest =>
        exact ⟨_, _, rfl, hskipped, hrest⟩
  · rintro ⟨skipped, xs, rfl, hskipped, hrest⟩
    exact Matches.run hskipped hrest

theorem Matches.append (h : Matches ps xs) (h' : Matches qs ys) : Matches (ps ++ qs) (xs ++ ys) := by
  induction h with
  | nil =>
      exact h'
  | one hx _ ih =>
      exact Matches.one hx ih
  | run hskipped _ ih =>
      rw [List.append_assoc]
      exact Matches.run hskipped ih

/-- A pattern cut in two cuts its texts in two. -/
theorem matches_append_iff :
    Matches (ps ++ qs) ys ↔ ∃ front back, ys = front ++ back ∧ Matches ps front ∧ Matches qs back := by
  constructor
  · intro h
    induction ps generalizing ys with
    | nil =>
        exact ⟨[], ys, rfl, Matches.nil, h⟩
    | cons p ps ih =>
        cases h with
        | one hx hrest =>
            obtain ⟨front, back, rfl, hfront, hback⟩ := ih hrest
            exact ⟨_ :: front, back, rfl, Matches.one hx hfront, hback⟩
        | run hskipped hrest =>
            obtain ⟨front, back, rfl, hfront, hback⟩ := ih hrest
            exact ⟨_ ++ front, back, (List.append_assoc _ _ _).symm, Matches.run hskipped hfront, hback⟩
  · rintro ⟨front, back, rfl, hfront, hback⟩
    exact hfront.append hback

/-! ## The last atom -/

theorem matches_singleton_one_iff : Matches [.one accepts] ys ↔ ∃ x, ys = [x] ∧ accepts x := by
  constructor
  · intro h
    cases h with
    | one hx hrest =>
        cases hrest
        exact ⟨_, rfl, hx⟩
  · rintro ⟨x, rfl, hx⟩
    exact Matches.one hx Matches.nil

theorem matches_singleton_run_iff : Matches [.run accepts] ys ↔ ∀ x ∈ ys, accepts x := by
  constructor
  · intro h
    obtain ⟨skipped, xs, rfl, hskipped, hrest⟩ := matches_run_iff.1 h
    rw [matches_nil_iff.1 hrest, List.append_nil]
    exact hskipped
  · intro h
    exact matches_run_iff.2 ⟨ys, [], (List.append_nil ys).symm, h, Matches.nil⟩

/-- A last single symbol needs a symbol. -/
theorem not_matches_concat_one_nil : ¬Matches (ps ++ [.one accepts]) [] := by
  intro h
  obtain ⟨front, back, hnil, -, hback⟩ := matches_append_iff.1 h
  obtain ⟨x, rfl, -⟩ := matches_singleton_one_iff.1 hback
  simp at hnil

/-- A last single symbol takes the last symbol of the text. -/
theorem matches_concat_one_iff : Matches (ps ++ [.one accepts]) (xs ++ [x]) ↔ Matches ps xs ∧ accepts x := by
  constructor
  · intro h
    obtain ⟨front, back, hsplit, hfront, hback⟩ := matches_append_iff.1 h
    obtain ⟨y, rfl, hy⟩ := matches_singleton_one_iff.1 hback
    obtain ⟨rfl, hxy⟩ := List.append_inj' hsplit rfl
    cases hxy
    exact ⟨hfront, hy⟩
  · rintro ⟨hfront, hx⟩
    exact hfront.append (Matches.one hx Matches.nil)

/-- Without a symbol a last run takes nothing. -/
theorem matches_concat_run_nil_iff : Matches (ps ++ [.run accepts]) [] ↔ Matches ps [] := by
  constructor
  · intro h
    obtain ⟨front, back, hnil, hfront, -⟩ := matches_append_iff.1 h
    rw [(List.append_eq_nil_iff.1 hnil.symm).1] at hfront
    exact hfront
  · intro h
    exact h.append (matches_singleton_run_iff.2 fun x hx => absurd hx List.not_mem_nil)

/-- A last run takes nothing, or the last symbol and goes on with what is before it. -/
theorem matches_concat_run_iff :
    Matches (ps ++ [.run accepts]) (xs ++ [x]) ↔
      Matches ps (xs ++ [x]) ∨ (Matches (ps ++ [.run accepts]) xs ∧ accepts x) := by
  constructor
  · intro h
    obtain ⟨front, back, hsplit, hfront, hback⟩ := matches_append_iff.1 h
    have hall := matches_singleton_run_iff.1 hback
    by_cases hnil : back = []
    · rw [hnil, List.append_nil] at hsplit
      rw [hsplit]
      exact Or.inl hfront
    · -- the last symbol is that of the run
      obtain ⟨middle, y, rfl⟩ := (List.eq_nil_or_concat back).resolve_left hnil
      rw [List.concat_eq_append, ← List.append_assoc] at hsplit
      obtain ⟨rfl, hxy⟩ := List.append_inj' hsplit rfl
      cases hxy
      rw [List.concat_eq_append] at hall
      right
      constructor
      · apply hfront.append
        exact matches_singleton_run_iff.2 fun z hz => hall z (List.mem_append_left _ hz)
      · exact hall x (List.mem_append_right _ List.mem_cons_self)
  · intro h
    cases h with
    | inl hfront =>
        have hnothing : Matches (ps ++ [.run accepts]) ((xs ++ [x]) ++ []) :=
          hfront.append (matches_singleton_run_iff.2 fun y hy => absurd hy List.not_mem_nil)
        rwa [List.append_nil] at hnothing
    | inr hlast =>
        obtain ⟨front, back, rfl, hfront, hback⟩ := matches_append_iff.1 hlast.1
        rw [List.append_assoc]
        apply hfront.append
        apply matches_singleton_run_iff.2
        intro y hy
        cases List.mem_append.1 hy with
        | inl hold =>
            exact matches_singleton_run_iff.1 hback y hold
        | inr hnew =>
            rw [List.mem_singleton.1 hnew]
            exact hlast.2

/-! ## Adjacent runs -/

/-- Two equal runs are one. -/
theorem matches_run_run_iff : Matches (.run accepts :: .run accepts :: ps) ys ↔ Matches (.run accepts :: ps) ys := by
  constructor
  · intro h
    obtain ⟨skipped, xs, rfl, hskipped, hrest⟩ := matches_run_iff.1 h
    obtain ⟨skipped', xs', rfl, hskipped', hrest'⟩ := matches_run_iff.1 hrest
    rw [← List.append_assoc]
    apply Matches.run _ hrest'
    intro x hx
    cases List.mem_append.1 hx with
    | inl hfirst =>
        exact hskipped x hfirst
    | inr hsecond =>
        exact hskipped' x hsecond
  · intro h
    have hnothing : ∀ x ∈ ([] : List α), accepts x := fun x hx => absurd hx List.not_mem_nil
    exact Matches.run hnothing h

/-- What stands before two patterns of one language does not tell them apart. -/
theorem matches_append_congr {qs' : List (Atom α)} (h : ∀ xs, Matches qs xs ↔ Matches qs' xs) (ps : List (Atom α))
    (ys : List α) : Matches (ps ++ qs) ys ↔ Matches (ps ++ qs') ys := by
  simp only [matches_append_iff, h]

end Wildcard
