import Mathlib.Tactic.Common

/-!
# Traced — computations that ask a host and log what they touch

A computation runs against a host that answers its calls one after the other, each with success or
with an error of its own.  Next to the host's errors there are those the program raises itself.  The
names the program touches are logged, and the log outlives a failure.

* `Safe` : only good names are touched, and the program raises no error of its own
* `Covers` : against a host that never fails, either a bad name is touched or all of a list is
-/

namespace Traced

/-- A failure: raised by the program, or by the host. -/
inductive Failure (χ ε : Type)
  | checked (error : χ)
  | host (error : ε)
  deriving DecidableEq, Repr

structure Trace (ν : Type) where
  calls : Nat := 0
  names : List ν := []

end Traced

/-- A computation over a trace. -/
def Traced (ν χ ε β : Type) : Type :=
  Traced.Trace ν → Except (Traced.Failure χ ε) β × Traced.Trace ν

namespace Traced

variable {ν χ ε κ β γ : Type}

instance : Monad (Traced ν χ ε) where
  pure b := fun t => (.ok b, t)
  bind x f := fun t =>
    match x t with
    | (.ok b, t) => f b t
    | (.error e, t) => (.error e, t)

/-! ## Primitives -/

/-- The next call of the host. -/
def ask (host : Nat → κ → Option ε) (call : κ) : Traced ν χ ε Unit := fun t =>
  match host t.calls call with
  | none => (.ok (), { t with calls := t.calls + 1 })
  | some e => (.error (.host e), { t with calls := t.calls + 1 })

/-- A check of the program's own. -/
def check (x : Except χ β) : Traced ν χ ε β := fun t =>
  match x with
  | .ok b => (.ok b, t)
  | .error e => (.error (.checked e), t)

/-- Touch a name. -/
def touch (name : ν) : Traced ν χ ε Unit := fun t =>
  (.ok (), { t with names := t.names ++ [name] })

/-- Touch a name and check it. -/
def validate (valid : ν → Except χ β) (name : ν) : Traced ν χ ε β :=
  touch name >>= fun _ => check (valid name)

/-- Run to the end and hand a failure on as a value. -/
def attempt (x : Traced ν χ ε β) : Traced ν χ ε (Except (Failure χ ε) β) := fun t =>
  (.ok (x t).1, (x t).2)

/-- End with an outcome. -/
def finish (outcome : Except (Failure χ ε) β) : Traced ν χ ε β := fun t =>
  (outcome, t)

/-! ## Safety -/

/-- From a trace of good names the computation touches good names only, and raises no error of its
own. -/
def Safe (P : ν → Prop) (x : Traced ν χ ε β) : Prop :=
  ∀ t, (∀ name ∈ t.names, P name) →
    (∀ name ∈ (x t).2.names, P name) ∧ ∀ error, (x t).1 ≠ .error (.checked error)

variable {P : ν → Prop} {x : Traced ν χ ε β} {f : β → Traced ν χ ε γ} {host : Nat → κ → Option ε}

theorem safe_pure (b : β) : Safe P (pure b : Traced ν χ ε β) := by
  intro t ht
  exact ⟨ht, fun _ h => nomatch h⟩

theorem bind_ok {t t' : Trace ν} {b : β} (h : x t = (.ok b, t')) : (x >>= f) t = f b t' := by
  change (match x t with
    | (.ok b, t) => f b t
    | (.error e, t) => (.error e, t)) = f b t'
  rw [h]

theorem bind_error {t t' : Trace ν} {e : Failure χ ε} (h : x t = (.error e, t')) :
    (x >>= f) t = (.error e, t') := by
  change (match x t with
    | (.ok b, t) => f b t
    | (.error e, t) => (.error e, t)) = _
  rw [h]

/-- A run that succeeds, taken apart. -/
theorem bind_run_ok {t t' : Trace ν} {c : γ} (h : (x >>= f) t = (.ok c, t')) :
    ∃ b t₁, x t = (.ok b, t₁) ∧ f b t₁ = (.ok c, t') := by
  rcases hrun : x t with ⟨e | b, t₁⟩
  · rw [bind_error hrun] at h
    cases h
  · rw [bind_ok hrun] at h
    exact ⟨b, t₁, rfl, h⟩

theorem bind_assoc {δ : Type} (x : Traced ν χ ε β) (f : β → Traced ν χ ε γ) (g : γ → Traced ν χ ε δ) :
    (x >>= f) >>= g = x >>= fun b => f b >>= g := by
  funext t
  rcases hrun : x t with ⟨e | b, t'⟩
  · rw [bind_error (bind_error hrun), bind_error hrun]
  · have hboth : (x >>= f) t = f b t' := bind_ok hrun
    rw [bind_ok hrun]
    rcases hrest : f b t' with ⟨e | c, t''⟩
    · rw [bind_error (hboth.trans hrest), bind_error hrest]
    · rw [bind_ok (hboth.trans hrest), bind_ok hrest]

theorem check_run_ok {valid : Except χ β} {t t' : Trace ν} {b : β}
    (h : (check valid : Traced ν χ ε β) t = (.ok b, t')) : valid = .ok b := by
  rcases valid with e | b'
  · cases h
  · cases h
    rfl

theorem Safe.bind (hx : Safe P x) (hf : ∀ b, Safe P (f b)) : Safe P (x >>= f) := by
  intro t ht
  have hfirst := hx t ht
  rcases hrun : x t with ⟨e | b, t'⟩
  · rw [hrun] at hfirst
    rw [bind_error hrun]
    exact ⟨hfirst.1, fun error herror => hfirst.2 error (congrArg Except.error (Except.error.inj herror))⟩
  · rw [hrun] at hfirst
    rw [bind_ok hrun]
    exact hf b t' hfirst.1

theorem safe_ask (call : κ) : Safe P (ask host call : Traced ν χ ε Unit) := by
  intro t ht
  rw [ask]
  rcases host t.calls call with _ | e
  · exact ⟨ht, fun _ h => nomatch h⟩
  · exact ⟨ht, fun _ h => nomatch h⟩

theorem safe_check {valid : Except χ β} (h : ∃ b, valid = .ok b) :
    Safe P (check valid : Traced ν χ ε β) := by
  obtain ⟨b, rfl⟩ := h
  exact safe_pure b

theorem safe_touch {name : ν} (h : P name) : Safe P (touch name : Traced ν χ ε Unit) := by
  intro t ht
  refine ⟨?_, fun _ h => nomatch h⟩
  intro name' hname
  rcases List.mem_append.1 hname with hold | hnew
  · exact ht name' hold
  · rw [List.mem_singleton] at hnew
    rw [hnew]
    exact h

/-- A name is good where its check succeeds. -/
theorem safe_validate {valid : ν → Except χ β} {name : ν} (h : ∃ b, valid name = .ok b) :
    Safe (fun name => ∃ b, valid name = .ok b) (validate valid name : Traced ν χ ε β) := by
  have htouch : Safe (fun name => ∃ b, valid name = .ok b) (touch name : Traced ν χ ε Unit) :=
    safe_touch h
  exact htouch.bind fun _ => safe_check h

/-- Behind an attempt only host errors are left to hand on. -/
theorem Safe.attempt_bind {f : Except (Failure χ ε) β → Traced ν χ ε γ} (hx : Safe P x)
    (hf : ∀ outcome, (∀ error, outcome ≠ .error (.checked error)) → Safe P (f outcome)) :
    Safe P (attempt x >>= f) := by
  intro t ht
  obtain ⟨hnames, herror⟩ := hx t ht
  have hrun : attempt x t = (.ok (x t).1, (x t).2) := rfl
  rw [bind_ok hrun]
  exact hf (x t).1 herror (x t).2 hnames

theorem safe_finish {outcome : Except (Failure χ ε) β} (h : ∀ error, outcome ≠ .error (.checked error)) :
    Safe P (finish outcome : Traced ν χ ε β) := by
  intro t ht
  exact ⟨ht, h⟩

/-! ## Coverage -/

/-- The computation only adds names. -/
def Grows (x : Traced ν χ ε β) : Prop :=
  ∀ t, t.names ⊆ (x t).2.names

theorem Grows.bind (hx : Grows x) (hf : ∀ b, Grows (f b)) : Grows (x >>= f) := by
  intro t
  have hfirst := hx t
  rcases hrun : x t with ⟨e | b, t'⟩
  · rw [hrun] at hfirst
    rw [bind_error hrun]
    exact hfirst
  · rw [hrun] at hfirst
    rw [bind_ok hrun]
    exact List.Subset.trans hfirst (hf b t')

theorem grows_ask (call : κ) : Grows (ask host call : Traced ν χ ε Unit) := by
  intro t
  rw [ask]
  rcases host t.calls call with _ | e
  · exact List.Subset.refl _
  · exact List.Subset.refl _

theorem grows_check (valid : Except χ β) : Grows (check valid : Traced ν χ ε β) := by
  intro t
  rcases valid with e | b
  · exact List.Subset.refl _
  · exact List.Subset.refl _

theorem grows_touch (name : ν) : Grows (touch name : Traced ν χ ε Unit) := by
  intro t
  exact List.subset_append_left _ _

theorem grows_validate (valid : ν → Except χ β) (name : ν) :
    Grows (validate valid name : Traced ν χ ε β) :=
  (grows_touch name).bind fun _ => grows_check _

theorem Grows.attempt (hx : Grows x) : Grows (attempt x) :=
  hx

theorem grows_finish (outcome : Except (Failure χ ε) β) :
    Grows (finish outcome : Traced ν χ ε β) := by
  intro t
  exact List.Subset.refl _

/-- The computation adds names, and unless it touches a bad one it succeeds and touches all of the
list. -/
def Covers (P : ν → Prop) (names : List ν) (x : Traced ν χ ε β) : Prop :=
  Grows x ∧ ∀ t, (∀ name ∈ (x t).2.names, P name) →
    (∃ b, (x t).1 = .ok b) ∧ names ⊆ (x t).2.names

theorem covers_pure (b : β) : Covers P [] (pure b : Traced ν χ ε β) := by
  refine ⟨fun t => List.Subset.refl _, ?_⟩
  intro t _
  exact ⟨⟨b, rfl⟩, List.nil_subset _⟩

theorem Covers.bind {names more : List ν} (hx : Covers P names x) (hf : ∀ b, Covers P more (f b)) :
    Covers P (names ++ more) (x >>= f) := by
  refine ⟨hx.1.bind fun b => (hf b).1, ?_⟩
  intro t hgood
  have hfirst := hx.2 t
  rcases hrun : x t with ⟨e | b, t'⟩
  · rw [hrun] at hfirst
    rw [bind_error hrun] at hgood
    obtain ⟨⟨b, hb⟩, -⟩ := hfirst hgood
    cases hb
  · rw [hrun] at hfirst
    rw [bind_ok hrun] at hgood ⊢
    have hgrow := (hf b).1 t'
    have hnames := (hfirst fun name hname => hgood name (hgrow hname)).2
    obtain ⟨hok, hmore⟩ := (hf b).2 t' hgood
    exact ⟨hok, List.append_subset.2 ⟨List.Subset.trans hnames hgrow, hmore⟩⟩

theorem Covers.mono {names more : List ν} (h : Covers P more x) (hsub : names ⊆ more) :
    Covers P names x := by
  refine ⟨h.1, ?_⟩
  intro t hgood
  obtain ⟨hok, hnames⟩ := h.2 t hgood
  exact ⟨hok, List.Subset.trans hsub hnames⟩

/-- A host that never fails. -/
def obliging : Nat → κ → Option ε :=
  fun _ _ => none

theorem covers_ask (call : κ) : Covers P [] (ask obliging call : Traced ν χ ε Unit) := by
  refine ⟨grows_ask call, ?_⟩
  intro t _
  exact ⟨⟨(), rfl⟩, List.nil_subset _⟩

theorem covers_ask_bind {names : List ν} (call : κ) {f : Unit → Traced ν χ ε γ}
    (hf : ∀ b, Covers P names (f b)) :
    Covers P names ((ask obliging call : Traced ν χ ε Unit) >>= f) :=
  (covers_ask call).bind hf

theorem covers_validate (valid : ν → Except χ β) (name : ν) :
    Covers (fun name => ∃ b, valid name = .ok b) [name]
      (validate valid name : Traced ν χ ε β) := by
  refine ⟨grows_validate valid name, ?_⟩
  intro t hgood
  have hrun : touch name t = ((.ok () : Except (Failure χ ε) Unit), _) := rfl
  rw [validate, bind_ok hrun] at hgood ⊢
  rcases hvalid : valid name with e | b <;> rw [hvalid] at hgood
  · obtain ⟨b, hb⟩ := hgood name (List.mem_append_right _ List.mem_cons_self)
    rw [hvalid] at hb
    cases hb
  · exact ⟨⟨b, rfl⟩, List.subset_append_right _ _⟩

/-- An attempt that goes through. -/
theorem Covers.attempt_bind {f : Except (Failure χ ε) β → Traced ν χ ε γ} {names more : List ν}
    (hx : Covers P names x) (hf : ∀ b, Covers P more (f (.ok b))) (hgrows : ∀ e, Grows (f (.error e))) :
    Covers P (names ++ more) (attempt x >>= f) := by
  have hgrows' : ∀ outcome, Grows (f outcome) := by
    rintro (e | b)
    · exact hgrows e
    · exact (hf b).1
  refine ⟨hx.1.attempt.bind hgrows', ?_⟩
  intro t hgood
  have hrun : attempt x t = (.ok (x t).1, (x t).2) := rfl
  rw [bind_ok hrun] at hgood ⊢
  have hgrow := hgrows' (x t).1 (x t).2
  obtain ⟨⟨b, hb⟩, hnames⟩ := hx.2 t fun name hname => hgood name (hgrow hname)
  rw [hb] at hgood hgrow ⊢
  obtain ⟨hok, hmore⟩ := (hf b).2 (x t).2 hgood
  exact ⟨hok, List.append_subset.2 ⟨List.Subset.trans hnames hgrow, hmore⟩⟩

end Traced
