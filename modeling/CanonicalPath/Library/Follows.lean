import CanonicalPath.Library.Effect
import CanonicalPath.Library.Traced

/-!
# Follows — a computation over a state that a traced one outlines

A traced computation asks a host that may answer anything.  A computation over a state follows it where every outcome
is one that some answers of the host lead the traced one to; what takes many calls there may be one question here.

* `Answers` : what a host answers from a call on
* `Follows` : the relation, from every state
* `Follows.bind`, `follows_ask`, `Follows.deferred` : the rules
* `Follows.exists_host` : a host for a whole run
-/

namespace Traced

variable {σ ε χ ν κ β β' γ γ' : Type}

/-! ## Outcomes -/

/-- The error that a failure of the traced computation stands for. -/
def Failure.told (own : χ → ε) : Failure χ ε → ε
  | .checked e => own e
  | .host e => e

/-- Both succeed with related values, or both fail with one error. -/
def Agree (own : χ → ε) (R : β → γ → Prop) : Except (Failure χ ε) β → Except ε γ → Prop
  | .ok b, .ok c => R b c
  | .error f, .error e => f.told own = e
  | _, _ => False

/-! ## Hosts -/

/-- From its calls on the host answers this, whatever it is asked. -/
def Answers (host : Nat → κ → Option ε) (calls : Nat) (answers : List (Option ε)) : Prop :=
  ∀ i answer, answers[i]? = some answer → ∀ call, host (calls + i) call = answer

theorem answers_append {host : Nat → κ → Option ε} {calls : Nat} {front back : List (Option ε)}
    (h : Answers host calls (front ++ back)) :
    Answers host calls front ∧ Answers host (calls + front.length) back := by
  constructor
  · intro i answer hanswer call
    have hlt := (List.getElem?_eq_some_iff.1 hanswer).1
    exact h i answer (by rw [List.getElem?_append_left hlt, hanswer]) call
  · intro i answer hanswer call
    rw [Nat.add_assoc]
    have hback : (front ++ back)[front.length + i]? = some answer := by
      rw [List.getElem?_append_right (Nat.le_add_right _ _), Nat.add_sub_cancel_left, hanswer]
    exact h (front.length + i) answer hback call

theorem exists_answers (answers : List (Option ε)) : ∃ host : Nat → κ → Option ε, Answers host 0 answers := by
  refine ⟨fun i _ => answers[i]?.join, ?_⟩
  intro i answer hanswer call
  change answers[0 + i]?.join = answer
  rw [Nat.zero_add, hanswer]
  rfl

/-! ## Following -/

/-- From every state some answers lead the traced computation to an outcome that agrees. -/
def Follows (own : χ → ε) (R : β → γ → Prop) (x : (Nat → κ → Option ε) → Traced ν χ ε β) (y : Effect σ ε γ) : Prop :=
  ∀ s, ∃ answers outcome, Agree own R outcome (y s).1 ∧ ∀ host t, Answers host t.calls answers →
    (x host t).1 = outcome ∧ (x host t).2.calls = t.calls + answers.length

variable {own : χ → ε} {R : β → γ → Prop} {R' : β' → γ' → Prop} {x : (Nat → κ → Option ε) → Traced ν χ ε β}
  {y : Effect σ ε γ} {F : (Nat → κ → Option ε) → β → Traced ν χ ε β'} {f : γ → Effect σ ε γ'}

theorem Follows.bind (h : Follows own R x y) (hf : ∀ b c, R b c → Follows own R' (fun host => F host b) (f c)) :
    Follows own R' (fun host => x host >>= F host) (y >>= f) := by
  intro s
  obtain ⟨answers, outcome, hagree, hrun⟩ := h s
  cases hy : y s with
  | mk outcome' s' =>
      rw [hy] at hagree
      cases outcome with
      | error failure =>
          cases outcome' with
          | ok c =>
              exact hagree.elim
          | error e =>
              refine ⟨answers, .error failure, ?_, ?_⟩
              · rw [Effect.bind_error hy]
                exact hagree
              · intro host t hanswers
                obtain ⟨hfailed, hcalls⟩ := hrun host t hanswers
                have hboth : (x host >>= F host) t = (.error failure, (x host t).2) := bind_error (Prod.ext hfailed rfl)
                change ((x host >>= F host) t).1 = _ ∧ ((x host >>= F host) t).2.calls = _
                rw [hboth]
                exact ⟨rfl, hcalls⟩
      | ok b =>
          cases outcome' with
          | error e =>
              exact hagree.elim
          | ok c =>
              obtain ⟨answers', outcome, hagree', hrun'⟩ := hf b c hagree s'
              refine ⟨answers ++ answers', outcome, ?_, ?_⟩
              · rw [Effect.bind_ok hy]
                exact hagree'
              · intro host t hanswers
                obtain ⟨hfront, hback⟩ := answers_append hanswers
                obtain ⟨hdone, hcalls⟩ := hrun host t hfront
                rw [← hcalls] at hback
                obtain ⟨houtcome, hcalls'⟩ := hrun' host _ hback
                have hboth : (x host >>= F host) t = F host b (x host t).2 := bind_ok (Prod.ext hdone rfl)
                change ((x host >>= F host) t).1 = _ ∧ ((x host >>= F host) t).2.calls = _
                rw [hboth]
                refine ⟨houtcome, ?_⟩
                rw [hcalls', hcalls, List.length_append, Nat.add_assoc]

theorem ask_run {host : Nat → κ → Option ε} {call : κ} {t : Trace ν} {answer : Option ε}
    (h : host t.calls call = answer) :
    ((ask host call : Traced ν χ ε Unit) t).1 = (answer.elim (.ok ()) fun e => .error (.host e)) ∧
      ((ask host call : Traced ν χ ε Unit) t).2.calls = t.calls + 1 := by
  rw [ask, h]
  cases answer with
  | none =>
      exact ⟨rfl, rfl⟩
  | some e =>
      exact ⟨rfl, rfl⟩

/-- One question stands for whatever a computation does. -/
theorem follows_ask (call : κ) (y : Effect σ ε γ) :
    Follows own (fun _ _ => True) (fun host => (ask host call : Traced ν χ ε Unit)) y := by
  intro s
  cases hy : (y s).1 with
  | ok c =>
      refine ⟨[none], .ok (), trivial, ?_⟩
      intro host t hanswers
      exact ask_run (hanswers 0 none rfl call)
  | error e =>
      refine ⟨[some e], .error (.host e), rfl, ?_⟩
      intro host t hanswers
      exact ask_run (hanswers 0 (some e) rfl call)

theorem follows_ask_bind (call : κ) (y : Effect σ ε γ) {F : (Nat → κ → Option ε) → Traced ν χ ε β'}
    (hf : ∀ c, Follows own R' F (f c)) :
    Follows own R' (fun host => ask host call >>= fun _ => F host) (y >>= f) :=
  (follows_ask call y).bind fun _ c _ => hf c

/-- The same of a computation in two steps. -/
theorem follows_ask_bind₂ {δ : Type} (call : κ) (y : Effect σ ε δ) (y' : δ → Effect σ ε γ)
    {F : (Nat → κ → Option ε) → Traced ν χ ε β'} (hf : ∀ c, Follows own R' F (f c)) :
    Follows own R' (fun host => ask host call >>= fun _ => F host) (y >>= fun d => y' d >>= f) := by
  rw [← Effect.bind_assoc]
  exact follows_ask_bind call (y >>= y') hf

theorem follows_finish {outcome : Except (Failure χ ε) β} {outcome' : Except ε γ} (h : Agree own R outcome outcome') :
    Follows own R (fun _ : Nat → κ → Option ε => (finish outcome : Traced ν χ ε β))
      (Effect.finish outcome' : Effect σ ε γ) :=
  fun _ => ⟨[], outcome, h, fun _ _ _ => ⟨rfl, rfl⟩⟩

theorem follows_pure {b : β} {c : γ} (h : R b c) :
    Follows own R (fun _ : Nat → κ → Option ε => (pure b : Traced ν χ ε β)) (pure c : Effect σ ε γ) :=
  fun _ => ⟨[], .ok b, h, fun _ _ _ => ⟨rfl, rfl⟩⟩

theorem follows_check (outcome : Except χ β) :
    Follows own Eq (fun _ : Nat → κ → Option ε => (check outcome : Traced ν χ ε β))
      (Effect.finish (outcome.mapError own) : Effect σ ε β) := by
  intro s
  cases outcome with
  | ok b =>
      exact ⟨[], .ok b, rfl, fun _ _ _ => ⟨rfl, rfl⟩⟩
  | error e =>
      exact ⟨[], .error (.checked e), rfl, fun _ _ _ => ⟨rfl, rfl⟩⟩

/-- A failure that is handed on as a value. -/
theorem Follows.attempt (h : Follows own R x y) :
    Follows own (Agree own R) (fun host => Traced.attempt (x host)) (Effect.attempt y) := by
  intro s
  obtain ⟨answers, outcome, hagree, hrun⟩ := h s
  refine ⟨answers, .ok outcome, hagree, ?_⟩
  intro host t hanswers
  obtain ⟨houtcome, hcalls⟩ := hrun host t hanswers
  exact ⟨congrArg Except.ok houtcome, hcalls⟩

/-- A name that is touched asks nothing. -/
theorem Follows.touch (h : Follows own R x y) (name : ν) :
    Follows own R (fun host => Traced.touch name >>= fun _ => x host) y := by
  intro s
  obtain ⟨answers, outcome, hagree, hrun⟩ := h s
  exact ⟨answers, outcome, hagree, fun host t hanswers => hrun host { t with names := t.names ++ [name] } hanswers⟩

/-- A step that cannot fail is in front. -/
theorem Follows.behind {δ : Type} {z : Effect σ ε δ} (hz : ∀ s, ∃ d s', z s = (.ok d, s')) {g : δ → Effect σ ε γ}
    (h : ∀ d, Follows own R x (g d)) : Follows own R x (z >>= g) := by
  intro s
  obtain ⟨d, s', hstep⟩ := hz s
  rw [Effect.bind_ok hstep]
  exact h d s'

/-- A tail that cannot fail. -/
theorem Follows.before {R' : β → γ' → Prop} (h : Follows own R x y)
    (hf : ∀ b c s, R b c → ∃ c', (f c s).1 = .ok c' ∧ R' b c') : Follows own R' x (y >>= f) := by
  intro s
  obtain ⟨answers, outcome, hagree, hrun⟩ := h s
  refine ⟨answers, outcome, ?_, hrun⟩
  cases hy : y s with
  | mk outcome' s' =>
      rw [hy] at hagree
      cases outcome' with
      | error e =>
          rw [Effect.bind_error hy]
          cases outcome with
          | error failure =>
              exact hagree
          | ok b =>
              exact hagree
      | ok c =>
          rw [Effect.bind_ok hy]
          cases outcome with
          | error failure =>
              exact hagree.elim
          | ok b =>
              obtain ⟨c', hc', hrelated⟩ := hf b c s' hagree
              rw [hc']
              exact hrelated

theorem Follows.map {R' : β → γ' → Prop} (h : Follows own R x y) {g : γ → γ'} (hR : ∀ b c, R b c → R' b (g c)) :
    Follows own R' x (y >>= fun c => pure (g c)) :=
  h.before fun b c _ hc => ⟨g c, rfl, hR b c hc⟩

/-! ## What is deferred -/

/-- What is done at the end, whatever comes of it, and its error dropped. -/
theorem Follows.deferred {δ : Type} (h : Follows own R x y) (z : Effect σ ε δ) :
    Follows own R x (Effect.attempt y >>= fun outcome => Effect.attempt z >>= fun _ => Effect.finish outcome) :=
  h

theorem Follows.deferred_bind {δ : Type} (h : Follows own R x y) (z : Effect σ ε δ)
    (hf : ∀ b c, R b c → Follows own R' (fun host => F host b) (f c)) :
    Follows own R' (fun host => x host >>= F host)
      (Effect.attempt y >>= fun outcome => Effect.attempt z >>= fun _ => Effect.finish outcome >>= f) := by
  have hsplit : (Effect.attempt y >>= fun outcome => Effect.attempt z >>= fun _ => Effect.finish outcome >>= f) =
      (Effect.attempt y >>= fun outcome => Effect.attempt z >>= fun _ => Effect.finish outcome) >>= f := by
    simp only [Effect.bind_assoc]
  rw [hsplit]
  exact (h.deferred z).bind hf

theorem Follows.deferred_map {δ : Type} {R' : β → γ' → Prop} (h : Follows own R x y) (z : Effect σ ε δ) {g : γ → γ'}
    (hR : ∀ b c, R b c → R' b (g c)) :
    Follows own R' x (Effect.attempt y >>= fun outcome => Effect.attempt z >>= fun _ =>
      Effect.finish outcome >>= fun c => pure (g c)) := by
  have hmapped := (h.deferred z).map hR
  simp only [Effect.bind_assoc] at hmapped
  exact hmapped

/-- What is deferred can come from a step before. -/
theorem Follows.deferred_behind {δ δ' : Type} {first : Effect σ ε δ} {rest : δ → Effect σ ε γ}
    (h : Follows own R x (first >>= rest)) (z : δ → Effect σ ε δ') :
    Follows own R x (first >>= fun d =>
      Effect.attempt (rest d) >>= fun outcome => Effect.attempt (z d) >>= fun _ => Effect.finish outcome) := by
  intro s
  obtain ⟨answers, outcome, hagree, hrun⟩ := h s
  refine ⟨answers, outcome, ?_, hrun⟩
  cases hfirst : first s with
  | mk outcome' s' =>
      cases outcome' with
      | error e =>
          rw [Effect.bind_error hfirst] at hagree ⊢
          exact hagree
      | ok d =>
          rw [Effect.bind_ok hfirst] at hagree ⊢
          exact hagree

/-! ## Runs -/

/-- Every run has a host that leads the traced computation to its outcome. -/
theorem Follows.exists_host (h : Follows own R x y) (s : σ) :
    ∃ host : Nat → κ → Option ε, Agree own R (x host {}).1 (y s).1 := by
  obtain ⟨answers, outcome, hagree, hrun⟩ := h s
  obtain ⟨host, hhost⟩ := exists_answers (κ := κ) answers
  refine ⟨host, ?_⟩
  rw [(hrun host {} hhost).1]
  exact hagree

end Traced
