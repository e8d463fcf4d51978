import Mathlib.Tactic.Common

/-!
# Effect — fallible computations that change a state

A computation runs from a state, succeeds with a value or fails with an error, and leaves a state either way.  A
triple says what holds behind a success and behind a failure of a computation whose precondition holds.

* `Triple` : its rules, one for each way to build a computation
* `Quiet` : a computation that leaves what is observed of the state as it was
-/

/-- A computation over a state. -/
def Effect (σ ε β : Type) : Type :=
  σ → Except ε β × σ

namespace Effect

variable {σ ε β γ ω : Type}

instance : Monad (Effect σ ε) where
  pure b := fun s => (.ok b, s)
  bind x f := fun s =>
    match x s with
    | (.ok b, s) => f b s
    | (.error e, s) => (.error e, s)

/-! ## Primitives -/

/-- Fail, and leave the state. -/
def fail (e : ε) : Effect σ ε β := fun s =>
  (.error e, s)

/-- An outcome that is known already. -/
def finish (outcome : Except ε β) : Effect σ ε β := fun s =>
  (outcome, s)

/-- Read the state. -/
def observe (f : σ → β) : Effect σ ε β := fun s =>
  (.ok (f s), s)

/-- Change the state. -/
def modify (f : σ → σ) : Effect σ ε Unit := fun s =>
  (.ok (), f s)

/-- Run to the end and hand a failure on as a value. -/
def attempt (x : Effect σ ε β) : Effect σ ε (Except ε β) := fun s =>
  (.ok (x s).1, (x s).2)

/-- Tell a failure in other terms. -/
def mapError {ε' : Type} (f : ε → ε') (x : Effect σ ε β) : Effect σ ε' β := fun s =>
  ((x s).1.mapError f, (x s).2)

theorem bind_ok {x : Effect σ ε β} {f : β → Effect σ ε γ} {s s' : σ} {b : β} (h : x s = (.ok b, s')) :
    (x >>= f) s = f b s' := by
  change (match x s with
    | (.ok b, s) => f b s
    | (.error e, s) => (.error e, s)) = f b s'
  rw [h]

theorem bind_error {x : Effect σ ε β} {f : β → Effect σ ε γ} {s s' : σ} {e : ε} (h : x s = (.error e, s')) :
    (x >>= f) s = (.error e, s') := by
  change (match x s with
    | (.ok b, s) => f b s
    | (.error e, s) => (.error e, s)) = (.error e, s')
  rw [h]

/-- A success is a success of both parts. -/
theorem bind_eq_ok_iff {x : Effect σ ε β} {f : β → Effect σ ε γ} {s s' : σ} {c : γ} :
    (x >>= f) s = (.ok c, s') ↔ ∃ b middle, x s = (.ok b, middle) ∧ f b middle = (.ok c, s') := by
  rcases hrun : x s with ⟨e | b, middle⟩
  · rw [bind_error hrun]
    constructor
    · intro h
      cases h
    · rintro ⟨b, middle', hfirst, -⟩
      cases hfirst
  · rw [bind_ok hrun]
    constructor
    · intro h
      exact ⟨b, middle, rfl, h⟩
    · rintro ⟨b', middle', hfirst, hrest⟩
      cases hfirst
      exact hrest

theorem pure_bind (b : β) (f : β → Effect σ ε γ) : ((pure b : Effect σ ε β) >>= f) = f b := rfl

theorem finish_ok_bind (b : β) (f : β → Effect σ ε γ) : (finish (.ok b) >>= f) = f b := rfl

theorem finish_error_bind (e : ε) (f : β → Effect σ ε γ) : (finish (.error e) >>= f) = fail e := rfl

theorem bind_assoc {δ : Type} (x : Effect σ ε β) (f : β → Effect σ ε γ) (g : γ → Effect σ ε δ) :
    (x >>= f) >>= g = x >>= fun b => f b >>= g := by
  funext s
  rcases hrun : x s with ⟨e | b, s'⟩
  · rw [bind_error (bind_error hrun), bind_error hrun]
  · have hboth : (x >>= f) s = f b s' := bind_ok hrun
    rw [bind_ok hrun]
    rcases hrest : f b s' with ⟨e | c, s''⟩
    · rw [bind_error (hboth.trans hrest), bind_error hrest]
    · rw [bind_ok (hboth.trans hrest), bind_ok hrest]

/-! ## Triples -/

/-- Behind a success `Q` holds of the value and the state, behind a failure `E` of the error and the state. -/
def Triple (P : σ → Prop) (x : Effect σ ε β) (Q : β → σ → Prop) (E : ε → σ → Prop) : Prop :=
  ∀ s, P s → (∀ b, (x s).1 = .ok b → Q b (x s).2) ∧ ∀ e, (x s).1 = .error e → E e (x s).2

variable {P P' : σ → Prop} {x : Effect σ ε β} {f : β → Effect σ ε γ} {Q Q' : β → σ → Prop} {R : γ → σ → Prop}
  {E E' : ε → σ → Prop}

namespace Triple

theorem conseq (h : Triple P x Q E) (hP : ∀ s, P' s → P s) (hQ : ∀ b s, Q b s → Q' b s)
    (hE : ∀ e s, E e s → E' e s) : Triple P' x Q' E' := by
  intro s hs
  obtain ⟨hok, herror⟩ := h s (hP s hs)
  exact ⟨fun b hb => hQ b _ (hok b hb), fun e he => hE e _ (herror e he)⟩

theorem pre (h : Triple P x Q E) (hP : ∀ s, P' s → P s) : Triple P' x Q E :=
  h.conseq hP (fun _ _ hq => hq) fun _ _ he => he

theorem pure {b : β} (h : ∀ s, P s → Q b s) : Triple P (pure b : Effect σ ε β) Q E := by
  intro s hs
  constructor
  · intro b' hb
    cases hb
    exact h s hs
  · intro e he
    cases he

theorem fail {e : ε} (h : ∀ s, P s → E e s) : Triple P (fail e : Effect σ ε β) Q E := by
  intro s hs
  constructor
  · intro b hb
    cases hb
  · intro e' he
    cases he
    exact h s hs

theorem finish {outcome : Except ε β} (hok : ∀ b, outcome = .ok b → ∀ s, P s → Q b s)
    (herror : ∀ e, outcome = .error e → ∀ s, P s → E e s) : Triple P (finish outcome) Q E := by
  intro s hs
  exact ⟨fun b hb => hok b hb s hs, fun e he => herror e he s hs⟩

theorem modify {change : σ → σ} {Q : Unit → σ → Prop} (h : ∀ s, P s → Q () (change s)) :
    Triple P (modify change : Effect σ ε Unit) Q E := by
  intro s hs
  constructor
  · intro b hb
    exact h s hs
  · intro e he
    cases he

/-- A value read from the state is a fact about it. -/
theorem observe {read : σ → β} (h : ∀ s, P s → Q (read s) s) : Triple P (observe read : Effect σ ε β) Q E := by
  intro s hs
  constructor
  · intro b hb
    cases hb
    exact h s hs
  · intro e he
    cases he

theorem bind (hx : Triple P x Q E) (hf : ∀ b, Triple (Q b) (f b) R E) : Triple P (x >>= f) R E := by
  intro s hs
  obtain ⟨hok, herror⟩ := hx s hs
  rcases hrun : x s with ⟨e | b, s'⟩
  · rw [hrun] at herror
    rw [bind_error hrun]
    refine ⟨?_, ?_⟩
    · intro b hb
      cases hb
    · intro e' he
      cases he
      exact herror e rfl
  · rw [hrun] at hok
    rw [bind_ok hrun]
    exact hf b s' (hok b rfl)

/-- What is read is known to come from the state. -/
theorem observe_bind {read : σ → β} (h : ∀ s, P s → Triple (fun s' => s' = s) (f (read s)) R E) :
    Triple P (Effect.observe read >>= f) R E := by
  intro s hs
  have hread : (Effect.observe read : Effect σ ε β) s = (.ok (read s), s) := rfl
  rw [bind_ok hread]
  exact h s hs s rfl

/-- Behind an attempt a failure is a value. -/
theorem attempt {Q : Except ε β → σ → Prop} (h : Triple P x (fun b => Q (.ok b)) fun e => Q (.error e)) :
    Triple P (attempt x) Q E := by
  intro s hs
  obtain ⟨hok, herror⟩ := h s hs
  constructor
  · intro outcome houtcome
    cases houtcome
    cases hrun : (x s).1 with
    | ok b =>
        exact hok b hrun
    | error e =>
        exact herror e hrun
  · intro e he
    cases he

/-- An attempt is taken apart by its outcome. -/
theorem attempt_bind {f : Except ε β → Effect σ ε γ} (h : Triple P x Q E') (hok : ∀ b, Triple (Q b) (f (.ok b)) R E)
    (herror : ∀ e, Triple (E' e) (f (.error e)) R E) : Triple P (Effect.attempt x >>= f) R E := by
  intro s hs
  obtain ⟨hx, hfail⟩ := h s hs
  have hrun : Effect.attempt x s = (.ok (x s).1, (x s).2) := rfl
  rw [bind_ok hrun]
  cases hcase : (x s).1 with
  | ok b =>
      exact hok b _ (hx b hcase)
  | error e =>
      exact herror e _ (hfail e hcase)

theorem mapError {ε' : Type} {f : ε → ε'} {E : ε' → σ → Prop} (h : Triple P x Q fun e => E (f e)) :
    Triple P (mapError f x) Q E := by
  intro s hs
  obtain ⟨hok, herror⟩ := h s hs
  constructor
  · intro b hb
    cases hrun : (x s).1 with
    | ok b' =>
        rw [Effect.mapError, hrun] at hb
        cases hb
        exact hok b hrun
    | error e =>
        rw [Effect.mapError, hrun] at hb
        cases hb
  · intro e he
    cases hrun : (x s).1 with
    | ok b =>
        rw [Effect.mapError, hrun] at he
        cases he
    | error e' =>
        rw [Effect.mapError, hrun] at he
        cases he
        exact herror e' hrun

/-- A fact that does not depend on the state. -/
theorem lift {A : Prop} (h : A → Triple P x Q E) : Triple (fun s => A ∧ P s) x Q E := by
  intro s hs
  exact h hs.1 s hs.2

/-- A parameter of the precondition. -/
theorem exists_pre {ι : Sort*} {P : ι → σ → Prop} (h : ∀ i, Triple (P i) x Q E) : Triple (fun s => ∃ i, P i s) x Q E := by
  intro s hs
  obtain ⟨i, hi⟩ := hs
  exact h i s hi

theorem or_pre (h : Triple P x Q E) (h' : Triple P' x Q E) : Triple (fun s => P s ∨ P' s) x Q E := by
  rintro s (hs | hs)
  · exact h s hs
  · exact h' s hs

theorem ite {A : Prop} [Decidable A] {y : Effect σ ε β} (hx : A → Triple P x Q E) (hy : ¬A → Triple P y Q E) :
    Triple P (if A then x else y) Q E := by
  by_cases h : A
  · rw [if_pos h]
    exact hx h
  · rw [if_neg h]
    exact hy h

/-- What holds behind a success and behind a failure holds behind the computation. -/
theorem final {F : σ → Prop} (h : Triple P x Q E) (hQ : ∀ b s, Q b s → F s) (hE : ∀ e s, E e s → F s) {s : σ}
    (hs : P s) : F (x s).2 := by
  obtain ⟨hok, herror⟩ := h s hs
  cases hrun : (x s).1 with
  | ok b =>
      exact hQ b _ (hok b hrun)
  | error e =>
      exact hE e _ (herror e hrun)

end Triple

/-! ## Quiet computations -/

/-- The observed part of the state is left as it was. -/
def Quiet (view : σ → ω) (x : Effect σ ε β) : Prop :=
  ∀ s, view (x s).2 = view s

variable {view : σ → ω}

namespace Quiet

theorem pure (b : β) : Quiet view (pure b : Effect σ ε β) := fun _ => rfl

theorem finish (outcome : Except ε β) : Quiet view (finish outcome : Effect σ ε β) := fun _ => rfl

theorem attempt (h : Quiet view x) : Quiet view (attempt x) := h

theorem bind (hx : Quiet view x) (hf : ∀ b, Quiet view (f b)) : Quiet view (x >>= f) := by
  intro s
  have hfirst := hx s
  rcases hrun : x s with ⟨e | b, s'⟩
  · rw [hrun] at hfirst
    rw [bind_error hrun]
    exact hfirst
  · rw [hrun] at hfirst
    rw [bind_ok hrun, hf b s']
    exact hfirst

theorem ite {A : Prop} [Decidable A] {y : Effect σ ε β} (hx : Quiet view x) (hy : Quiet view y) :
    Quiet view (if A then x else y) := by
  by_cases h : A
  · rw [if_pos h]
    exact hx
  · rw [if_neg h]
    exact hy

/-- What is known of the observed part is still known. -/
theorem triple (h : Quiet view x) (P : ω → Prop) :
    Triple (fun s => P (view s)) x (fun _ s => P (view s)) fun _ s => P (view s) := by
  intro s hs
  have hsame : P (view (x s).2) := by
    rw [h s]
    exact hs
  exact ⟨fun _ _ => hsame, fun _ _ => hsame⟩

end Quiet

end Effect
