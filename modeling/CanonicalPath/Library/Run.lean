/-!
# Run — systems that take steps and log events

A system is a partial step function on states: an action that is not enabled yields nothing, an
enabled one yields the next state and the events it emits.  `Run` is any number of such steps in any
order, so a fact about every run is a fact about every interleaving.

* `Run.invariant` : what every step keeps holds after every run
* `Run.logged` : the same for facts about the state and the log together
* `Run.never` : a state from which an event is never emitted again
* `Run.recorded` : what an event leaves behind
* `Run.once` : an event that happens at most once
-/

namespace Transition

variable {σ α ε : Type}

/-- A run from a state, with the events it emitted, to a state. -/
inductive Run (step : σ → α → Option (σ × List ε)) : σ → List ε → σ → Prop
  | nil (s : σ) : Run step s [] s
  | snoc {s s' s'' : σ} {log events : List ε} {action : α} :
      Run step s log s' → step s' action = some (s'', events) → Run step s (log ++ events) s''

variable {step : σ → α → Option (σ × List ε)}

namespace Run

theorem single {s s' : σ} {events : List ε} {action : α} (h : step s action = some (s', events)) :
    Run step s events s' :=
  .snoc (.nil s) h

/-- One run after another. -/
theorem trans {s s' s'' : σ} {log log' : List ε} (h : Run step s log s') (h' : Run step s' log' s'') :
    Run step s (log ++ log') s'' := by
  induction h' with
  | nil =>
      rw [List.append_nil]
      exact h
  | snoc _ hstep ih =>
      rw [← List.append_assoc]
      exact .snoc ih hstep

/-- A fact about the log and the state that every step keeps. -/
theorem logged {P : List ε → σ → Prop} {s s' : σ} {log : List ε} (h : Run step s log s')
    (hinit : P [] s)
    (hstep : ∀ log s action s' events, P log s → step s action = some (s', events) →
      P (log ++ events) s') : P log s' := by
  induction h with
  | nil =>
      exact hinit
  | snoc _ hnext ih =>
      exact hstep _ _ _ _ _ ih hnext

/-- A fact about the state that every step keeps. -/
theorem invariant {P : σ → Prop} {s s' : σ} {log : List ε} (h : Run step s log s') (hinit : P s)
    (hstep : ∀ s action s' events, P s → step s action = some (s', events) → P s') : P s' :=
  h.logged (P := fun _ s => P s) hinit fun _ s action s' events => hstep s action s' events

/-- Where a kept fact excludes an event at every step, no run emits the event. -/
theorem never {P : σ → Prop} {event : ε} {s s' : σ} {log : List ε} (h : Run step s log s') (hinit : P s)
    (hstep : ∀ s action s' events, P s → step s action = some (s', events) →
      P s' ∧ event ∉ events) : event ∉ log := by
  have hboth : P s' ∧ event ∉ log := by
    refine h.logged (P := fun log s => P s ∧ event ∉ log) ⟨hinit, List.not_mem_nil⟩ ?_
    rintro log s action s' events ⟨hs, hlog⟩ hnext
    have hkeep := hstep s action s' events hs hnext
    refine ⟨hkeep.1, ?_⟩
    rw [List.mem_append, not_or]
    exact ⟨hlog, hkeep.2⟩
  exact hboth.2

/-- What an emitted event leaves behind, where every step keeps it. -/
theorem recorded {I P : σ → Prop} {event : ε} {s s' : σ} {log : List ε} (h : Run step s log s')
    (hinit : I s)
    (hinv : ∀ s action s' events, I s → step s action = some (s', events) → I s')
    (hstep : ∀ s action s' events, I s → step s action = some (s', events) →
      (P s → P s') ∧ (event ∈ events → P s'))
    (hevent : event ∈ log) : P s' := by
  have hboth : I s' ∧ (event ∈ log → P s') := by
    refine h.logged (P := fun log s => I s ∧ (event ∈ log → P s)) ?_ ?_
    · exact ⟨hinit, fun hmem => absurd hmem List.not_mem_nil⟩
    · rintro log s action s' events ⟨hs, hlog⟩ hnext
      obtain ⟨hkeep, hemit⟩ := hstep s action s' events hs hnext
      refine ⟨hinv s action s' events hs hnext, ?_⟩
      intro hmem
      rcases List.mem_append.1 hmem with hold | hnew
      · exact hkeep (hlog hold)
      · exact hemit hnew
  exact hboth.2 hevent

/-- An event that leaves behind what excludes it happens once. -/
theorem once [DecidableEq ε] {P : σ → Prop} {event : ε} {s s' : σ} {log : List ε}
    (h : Run step s log s')
    (hstep : ∀ s action s' events, step s action = some (s', events) →
      (P s → P s' ∧ event ∉ events) ∧ events.count event ≤ 1 ∧ (event ∈ events → P s')) :
    log.count event ≤ 1 := by
  have hboth : log.count event ≤ 1 ∧ (event ∈ log → P s') := by
    refine h.logged (P := fun log s => log.count event ≤ 1 ∧ (event ∈ log → P s)) ?_ ?_
    · exact ⟨Nat.zero_le 1, fun hmem => absurd hmem List.not_mem_nil⟩
    · rintro log s action s' events ⟨hcount, hlog⟩ hnext
      obtain ⟨hkeep, hevents, hemit⟩ := hstep s action s' events hnext
      rw [List.count_append]
      by_cases hold : event ∈ log
      · obtain ⟨hP, hnot⟩ := hkeep (hlog hold)
        rw [List.count_eq_zero_of_not_mem hnot]
        exact ⟨hcount, fun _ => hP⟩
      · rw [List.count_eq_zero_of_not_mem hold, Nat.zero_add]
        refine ⟨hevents, ?_⟩
        intro hmem
        exact hemit ((List.mem_append.1 hmem).resolve_left hold)
  exact hboth.1

end Run

/-- What a list of actions does, one after the other. -/
def exec (step : σ → α → Option (σ × List ε)) : List α → σ → Option (σ × List ε)
  | [], s => some (s, [])
  | action :: actions, s =>
    match step s action with
    | none => none
    | some (s, events) => (exec step actions s).map fun next => (next.1, events ++ next.2)

theorem run_of_exec {actions : List α} {s s' : σ} {log : List ε} (h : exec step actions s = some (s', log)) :
    Run step s log s' := by
  induction actions generalizing s log with
  | nil =>
      cases h
      exact .nil _
  | cons action actions ih =>
      rw [exec] at h
      rcases hstep : step s action with _ | ⟨s₁, events⟩ <;> rw [hstep] at h
      · cases h
      · obtain ⟨next, hexec, hnext⟩ := Option.map_eq_some_iff.1 h
        cases hnext
        exact (Run.single hstep).trans (ih hexec)

end Transition
