import Mathlib.Tactic.Common

/-!
# Outcome — reasoning about `Except` computations

The bind rules that take a sequence of fallible steps apart, the transport of a computation along
maps of its values, and a relation between two computations that follows their steps.
-/

namespace Outcome

variable {ε ε' α β γ δ : Type}

theorem bind_eq_ok_iff {x : Except ε α} {f : α → Except ε β} {b : β} :
    (x >>= f) = .ok b ↔ ∃ a, x = .ok a ∧ f a = .ok b := by
  cases x with
  | error e =>
      simp [Bind.bind, Except.bind]
  | ok a =>
      simp [Bind.bind, Except.bind]

@[simp] theorem ok_bind {a : α} {f : α → Except ε β} : (Except.ok a >>= f) = f a := rfl

@[simp] theorem error_bind {e : ε} {f : α → Except ε β} :
    ((Except.error e : Except ε α) >>= f) = .error e := rfl

/-- A guarded step succeeds where its guard is not met and the rest succeeds. -/
theorem ite_error_eq_ok_iff {guarded : Prop} [Decidable guarded] {e : ε} {x : Except ε α} {a : α} :
    (if guarded then .error e else x) = .ok a ↔ ¬guarded ∧ x = .ok a := by
  by_cases h : guarded
  · simp [h]
  · simp [h]

/-- What every step of a fold keeps holds behind it. -/
theorem foldlM_keeps {P : β → Prop} {step : β → α → Except ε β} {entries : List α} {b b' : β}
    (h : entries.foldlM step b = .ok b') (hstart : P b) (hstep : ∀ b a b', P b → step b a = .ok b' → P b') : P b' := by
  induction entries generalizing b with
  | nil =>
      cases h
      exact hstart
  | cons entry entries ih =>
      rw [List.foldlM_cons] at h
      obtain ⟨next, hnext, hrest⟩ := bind_eq_ok_iff.1 h
      exact ih hrest (hstep b entry next hstart hnext)

/-- Map a successful value. -/
def mapOk (f : α → β) : Except ε α → Except ε β
  | .ok a => .ok (f a)
  | .error e => .error e

@[simp] theorem mapOk_ok (f : α → β) (a : α) : mapOk f (.ok a : Except ε α) = .ok (f a) := rfl

@[simp] theorem mapOk_error (f : α → β) (e : ε) : mapOk f (.error e : Except ε α) = .error e := rfl

theorem mapOk_eq_ok_iff {f : α → β} {x : Except ε α} {b : β} :
    mapOk f x = .ok b ↔ ∃ a, x = .ok a ∧ f a = b := by
  cases x with
  | error e =>
      simp
  | ok a =>
      simp

/-- A step that commutes with the transport keeps it through a bind. -/
theorem bind_mapOk {x : Except ε α} {f : α → Except ε γ} {g : α → β} {f' : β → Except ε δ}
    {h : γ → δ} (hf : ∀ a, f' (g a) = mapOk h (f a)) :
    (mapOk g x >>= f') = mapOk h (x >>= f) := by
  cases x with
  | error e =>
      rfl
  | ok a =>
      exact hf a

/-! ## Two computations side by side -/

/-- Two computations both succeed with related values or both fail with related errors. -/
inductive Rel (E : ε → ε' → Prop) (R : α → β → Prop) : Except ε α → Except ε' β → Prop
  | ok {a : α} {b : β} : R a b → Rel E R (.ok a) (.ok b)
  | error {e : ε} {e' : ε'} : E e e' → Rel E R (.error e) (.error e')

variable {E : ε → ε' → Prop} {R : α → β → Prop} {S : γ → δ → Prop}

/-- Related steps after related computations; the steps may use that the first one succeeded. -/
theorem Rel.bind {x : Except ε α} {y : Except ε' β} {f : α → Except ε γ} {g : β → Except ε' δ}
    (h : Rel E R x y) (hfg : ∀ a b, x = .ok a → R a b → Rel E S (f a) (g b)) :
    Rel E S (x >>= f) (y >>= g) := by
  cases h with
  | ok hab =>
      exact hfg _ _ rfl hab
  | error he =>
      exact Rel.error he

theorem Rel.imp {T : α → β → Prop} {x : Except ε α} {y : Except ε' β} (h : Rel E R x y) (hRT : ∀ a b, R a b → T a b) :
    Rel E T x y := by
  cases h with
  | ok hab =>
      exact Rel.ok (hRT _ _ hab)
  | error he =>
      exact Rel.error he

/-- Two folds over one list are related where their steps are. -/
theorem Rel.foldlM {step : γ → α → Except ε γ} {step' : δ → α → Except ε' δ} (entries : List α)
    (hstep : ∀ c d entry, S c d → Rel E S (step c entry) (step' d entry)) {c : γ} {d : δ} (h : S c d) :
    Rel E S (entries.foldlM step c) (entries.foldlM step' d) := by
  induction entries generalizing c d with
  | nil =>
      exact Rel.ok h
  | cons entry entries ih =>
      rw [List.foldlM_cons, List.foldlM_cons]
      apply Rel.bind (hstep c d entry h)
      intro next next' _ hnext
      exact ih hnext

/-- A map behind the second computation goes into the relation. -/
theorem rel_mapOk_right_iff {T : α → γ → Prop} {f : β → γ} {x : Except ε α} {y : Except ε' β} :
    Rel E T x (mapOk f y) ↔ Rel E (fun a b => T a (f b)) x y := by
  constructor
  · intro h
    cases y with
    | ok b =>
        cases h with
        | ok hab =>
            exact Rel.ok hab
    | error e' =>
        cases h with
        | error he =>
            exact Rel.error he
  · intro h
    cases h with
    | ok hab =>
        exact Rel.ok hab
    | error he =>
        exact Rel.error he

theorem rel_ok_ok_iff {a : α} {b : β} : Rel E R (.ok a) (.ok b) ↔ R a b := by
  constructor
  · intro h
    cases h with
    | ok hab =>
        exact hab
  · exact Rel.ok

theorem rel_ok_left_iff {a : α} {y : Except ε' β} : Rel E R (.ok a) y ↔ ∃ b, y = .ok b ∧ R a b := by
  constructor
  · intro h
    cases h with
    | ok hab =>
        exact ⟨_, rfl, hab⟩
  · rintro ⟨b, rfl, hab⟩
    exact Rel.ok hab

theorem rel_error_left_iff {e : ε} {y : Except ε' β} :
    Rel E R (.error e) y ↔ ∃ e', y = .error e' ∧ E e e' := by
  constructor
  · intro h
    cases h with
    | error he =>
        exact ⟨_, rfl, he⟩
  · rintro ⟨e', rfl, he⟩
    exact Rel.error he

theorem not_rel_ok_error {a : α} {e' : ε'} : ¬Rel E R (.ok a) (.error e') := by
  intro h
  cases h

/-- Two computations both succeed with related values or both fail, whatever their errors. -/
abbrev SameOutcome (R : α → β → Prop) : Except ε α → Except ε' β → Prop :=
  Rel (fun _ _ => True) R

theorem sameOutcome_eq_iff {x : Except ε α} {y : Except ε' α} :
    SameOutcome Eq x y ↔ ∀ a, x = .ok a ↔ y = .ok a := by
  cases x with
  | ok a =>
      rw [SameOutcome, rel_ok_left_iff]
      constructor
      · rintro ⟨b, rfl, rfl⟩ c
        simp
      · intro h
        exact ⟨a, (h a).1 rfl, rfl⟩
  | error e =>
      rw [SameOutcome, rel_error_left_iff]
      constructor
      · rintro ⟨e', rfl, -⟩ c
        simp
      · intro h
        cases y with
        | ok b =>
            exact absurd ((h b).2 rfl) (by simp)
        | error e' =>
            exact ⟨e', rfl, trivial⟩

end Outcome
