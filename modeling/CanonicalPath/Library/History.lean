import Mathlib.Data.List.Basic
import Mathlib.Tactic.Common

/-!
# History — logs in which every event is allowed by the events before it

* `Lawful` : every event was allowed when it was appended
* `Lawful.concat` : the step, one event more
* `Lasting` : a statement about a log that stays true when events are appended
-/

/-- Every event was allowed by the ones before it. -/
def Lawful {ε : Type} (Allowed : List ε → ε → Prop) (log : List ε) : Prop :=
  ∀ front event back, log = front ++ event :: back → Allowed front event

namespace Lawful

variable {ε : Type} {Allowed : List ε → ε → Prop} {log : List ε} {event : ε}

theorem nil : Lawful Allowed [] := by
  intro front event back h
  cases front with
  | nil =>
      cases h
  | cons first front =>
      cases h

/-- An event that is allowed by all of the log may come next. -/
theorem concat (h : Lawful Allowed log) (hevent : Allowed log event) : Lawful Allowed (log ++ [event]) := by
  intro front other back hsplit
  rcases List.eq_nil_or_concat back with rfl | ⟨back, last, rfl⟩
  · obtain ⟨rfl, hlast⟩ := List.append_inj' hsplit rfl
    cases hlast
    exact hevent
  · rw [List.concat_eq_append, ← List.cons_append, ← List.append_assoc] at hsplit
    exact h front other back (List.append_inj' hsplit rfl).1

end Lawful

/-! ## Statements that last -/

/-- A statement about a log that every further event leaves true. -/
structure Lasting (ε : Type) where
  Holds : List ε → Prop
  lasts : ∀ {log : List ε} (event : ε), Holds log → Holds (log ++ [event])

namespace Lasting

variable {ε : Type}

theorem append (F : Lasting ε) {front : List ε} (h : F.Holds front) (back : List ε) : F.Holds (front ++ back) := by
  induction back generalizing front with
  | nil =>
      rw [List.append_nil]
      exact h
  | cons event back ih =>
      rw [List.append_cons]
      exact ih (F.lasts event h)

/-- The event has happened. -/
def mem (event : ε) : Lasting ε where
  Holds log := event ∈ log
  lasts _ h := List.mem_append_left _ h

def both (F G : Lasting ε) : Lasting ε where
  Holds log := F.Holds log ∧ G.Holds log
  lasts event h := ⟨F.lasts event h.1, G.lasts event h.2⟩

/-- One statement for each of some values. -/
def every {ι : Type} (A : ι → Prop) (F : ι → Lasting ε) : Lasting ε where
  Holds log := ∀ i, A i → (F i).Holds log
  lasts event h i hi := (F i).lasts event (h i hi)

/-- A statement of some value that is known. -/
def some {ι : Type} (A : ι → Prop) (F : ι → Lasting ε) : Lasting ε where
  Holds log := ∃ i, A i ∧ (F i).Holds log
  lasts event h := by
    obtain ⟨i, hi, h⟩ := h
    exact ⟨i, hi, (F i).lasts event h⟩

end Lasting
