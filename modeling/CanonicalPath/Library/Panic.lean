import Mathlib.Tactic.Common

/-!
# Panic — fallible computations that may panic

A computation returns a value or an error, or it panics: then it returns nothing.

* `Safe` : no panic, and what holds of a value that is returned
* `returned` : a result that is known
-/

/-- A fallible computation that may panic. -/
abbrev Panicking (ε : Type) := ExceptT ε Option

namespace Panicking

variable {ε β γ : Type} {P : β → Prop} {Q : γ → Prop}

/-- A result that is known. -/
def returned (result : Except ε β) : Panicking ε β :=
  ExceptT.mk (some result)

@[simp] theorem returned_ok_bind (b : β) (f : β → Panicking ε γ) : (returned (.ok b) >>= f) = f b := rfl

@[simp] theorem some_lift_bind (b : β) (f : β → Panicking ε γ) : ((liftM (some b) : Panicking ε β) >>= f) = f b := rfl

/-- Steps that are known make a result that is known. -/
theorem returned_bind (x : Except ε β) {f : β → Panicking ε γ} {g : β → Except ε γ}
    (h : ∀ b, x = .ok b → f b = returned (g b)) : (returned x >>= f) = returned (x >>= g) := by
  cases x with
  | error e =>
      rfl
  | ok b =>
      exact h b rfl

/-! ## Computations that do not panic -/

/-- The computation does not panic, and a value that it returns satisfies `P`. -/
def Safe (x : Panicking ε β) (P : β → Prop) : Prop :=
  ∃ result, x.run = some result ∧ ∀ b, result = .ok b → P b

theorem Safe.pure {b : β} (h : P b) : Safe (pure b : Panicking ε β) P :=
  ⟨.ok b, rfl, fun _ hb => Except.ok.inj hb ▸ h⟩

theorem Safe.throw (e : ε) : Safe (throw e : Panicking ε β) P :=
  ⟨.error e, rfl, fun _ hb => by cases hb⟩

theorem Safe.returned {result : Except ε β} (h : ∀ b, result = .ok b → P b) : Safe (returned result) P :=
  ⟨result, rfl, h⟩

theorem Safe.bind {x : Panicking ε β} {f : β → Panicking ε γ} (hx : Safe x P) (hf : ∀ b, P b → Safe (f b) Q) :
    Safe (x >>= f) Q := by
  obtain ⟨result, hrun, hvalue⟩ := hx
  cases result with
  | error e =>
      refine ⟨.error e, ?_, fun _ hb => by cases hb⟩
      rw [ExceptT.run_bind, hrun]
      rfl
  | ok b =>
      obtain ⟨result, hrun', hvalue'⟩ := hf b (hvalue b rfl)
      refine ⟨result, ?_, hvalue'⟩
      rw [ExceptT.run_bind, hrun]
      exact hrun'

theorem Safe.of_lift {x : Option β} (hx : ∃ b, x = some b ∧ P b) : Safe (liftM x : Panicking ε β) P := by
  obtain ⟨b, rfl, hb⟩ := hx
  exact Safe.pure hb

/-- A step without an error of its own. -/
theorem Safe.lift {x : Option β} {f : β → Panicking ε γ} (hx : ∃ b, x = some b ∧ P b)
    (hf : ∀ b, P b → Safe (f b) Q) : Safe (liftM x >>= f) Q := by
  obtain ⟨b, rfl, hb⟩ := hx
  exact hf b hb

theorem Safe.ite {guarded : Prop} [Decidable guarded] {x y : Panicking ε β} (hx : guarded → Safe x P)
    (hy : ¬guarded → Safe y P) : Safe (if guarded then x else y) P := by
  split_ifs with h
  · exact hx h
  · exact hy h

theorem Safe.ne_none {x : Panicking ε β} (h : Safe x P) : x.run ≠ none := by
  obtain ⟨result, hrun, -⟩ := h
  rw [hrun]
  exact Option.some_ne_none result

end Panicking
