import CanonicalPath.Daemon.Admission
import Mathlib.Data.Nat.Cast.Order.Ring
import Mathlib.Logic.Function.Basic
import Mathlib.Tactic.Ring

/-!
# Admission safety — what holds under every interleaving

A step of the listener does one of five things to the flags, the admitted set and the counter
(`Effect`).  The invariant `Safe` is kept by each of them, so it holds after every run.

* `effect_of_step` : what a step does
* `Safe.step` : each effect keeps the invariant
* `admission_safe` : counting, bounds, single removal, no close of an authenticated connection by its
  timer, and no answer for a dead one
-/

namespace CanonicalPath

namespace Daemon

namespace BoundedListener

open Transition

/-! ## Flags -/

/-- The two flags of an allocated connection: `authenticated` and `expired`. -/
def flags (s : BoundedListener) (c : Nat) : Option (Bool × Bool) :=
  (s.heap[c]?).map fun connection => (connection.authenticated, connection.expired)

/-- A connection that is counted by `pending` while it is active. -/
def waiting (s : BoundedListener) (c : Nat) : Bool :=
  (s.flags c).any fun flags => !flags.1

/-- The connections that `pending` counts. -/
def unauthenticated (s : BoundedListener) : Finset Nat :=
  s.active.filter fun c => s.waiting c

theorem mem_unauthenticated {s : BoundedListener} {c : Nat} :
    c ∈ s.unauthenticated ↔ c ∈ s.active ∧ ∃ expired, s.flags c = some (false, expired) := by
  rw [unauthenticated, Finset.mem_filter]
  refine and_congr_right fun _ => ?_
  rw [waiting]
  rcases s.flags c with _ | ⟨authenticated, expired⟩
  · simp
  · cases authenticated <;> simp

/-- The timer's call of `Close` is under way. -/
def ExpireCalled (s : BoundedListener) (c : Nat) : Prop :=
  ∃ closer ∈ s.closers, closer.connection = c ∧ closer.caller = .expire

/-- Marked expired, or admitted once and removed since. -/
def Dead (s : BoundedListener) (c : Nat) : Prop :=
  (∃ authenticated, s.flags c = some (authenticated, true)) ∨ (s.flags c ≠ none ∧ c ∉ s.active)

theorem flags_eq_some {s : BoundedListener} {c : Nat} {connection : AdmittedConnection}
    (h : s.heap[c]? = some connection) :
    s.flags c = some (connection.authenticated, connection.expired) := by
  rw [flags, h]
  rfl

theorem flags_setConnection {s : BoundedListener} {c : Nat} {old : AdmittedConnection}
    (h : s.heap[c]? = some old) (connection : AdmittedConnection) :
    (s.setConnection c connection).flags =
      Function.update s.flags c (some (connection.authenticated, connection.expired)) := by
  funext c'
  have hlength : c < s.heap.length := (List.getElem?_eq_some_iff.1 h).1
  rw [flags, setConnection, Function.update_apply]
  by_cases hc : c' = c
  · subst hc
    rw [if_pos rfl, List.getElem?_set_self hlength]
    rfl
  · rw [if_neg hc, List.getElem?_set_ne (Ne.symm hc)]
    rfl

/-- A change of `closeOnce` alone keeps the flags. -/
theorem flags_setOnce {s : BoundedListener} {c : Nat} {connection : AdmittedConnection}
    (h : s.heap[c]? = some connection) (once : Once) :
    (s.setConnection c { connection with closeOnce := once }).flags = s.flags := by
  rw [flags_setConnection h]
  exact Function.update_eq_self_iff.2 (flags_eq_some h).symm

/-! ## What a step does -/

/-- Events that change neither the admitted set nor the counter. -/
def Harmless (s : BoundedListener) : Event → Prop
  | .rejected => True
  | .admitted _ => False
  | .answered c result => result = true → c ∈ s.active ∧ s.flags c = some (true, false)
  | .socketClosed c caller => caller = .expire → s.ExpireCalled c
  | .removed _ => False
  | .decremented _ => False

/-- The five effects of a step. -/
inductive Effect (s s' : BoundedListener) : List Event → Prop
  | quiet {events : List Event} (hactive : s'.active = s.active) (hpending : s'.pending = s.pending)
      (hflags : s'.flags = s.flags) (hcalls : ∀ c, s'.ExpireCalled c → s.ExpireCalled c)
      (hevents : ∀ event ∈ events, s.Harmless event) : Effect s s' events
  | admission (c : Nat) (hactive : s'.active = insert c s.active) (hpending : s'.pending = s.pending + 1)
      (hflags : s'.flags = Function.update s.flags c (some (false, false)))
      (hcalls : ∀ c, s'.ExpireCalled c → s.ExpireCalled c) (hfresh : s.flags c = none)
      (hroom : (s.active.card : Int) < s.limits.maxConnections)
      (hroom' : s.pending < s.limits.maxUnauthenticatedConnections) : Effect s s' [.admitted c]
  | promote (c : Nat) (hactive : s'.active = s.active) (hpending : s'.pending = s.pending - 1)
      (hflags : s'.flags = Function.update s.flags c (some (true, false)))
      (hcalls : ∀ c, s'.ExpireCalled c → s.ExpireCalled c) (hc : c ∈ s.active)
      (hwaiting : s.flags c = some (false, false)) : Effect s s' [.decremented c, .answered c true]
  | mark (c : Nat) {events : List Event} (hactive : s'.active = s.active)
      (hpending : s'.pending = s.pending)
      (hflags : s'.flags = Function.update s.flags c (some (false, true)))
      (hcalls : ∀ c', s'.ExpireCalled c' → s.ExpireCalled c' ∨ c' = c) (hc : c ∈ s.active)
      (hwaiting : s.flags c = some (false, false)) (hevents : ∀ event ∈ events, s.Harmless event) :
      Effect s s' events
  | remove (c : Nat) (authenticated expired : Bool) (hactive : s'.active = s.active.erase c)
      (hpending : s'.pending = if authenticated then s.pending else s.pending - 1)
      (hflags : s'.flags = s.flags) (hcalls : ∀ c, s'.ExpireCalled c → s.ExpireCalled c)
      (hc : c ∈ s.active) (hflag : s.flags c = some (authenticated, expired)) :
      Effect s s' (.removed c :: if authenticated then [] else [.decremented c])

theorem expireCalled_call {s : BoundedListener} {c c' : Nat} {caller : Caller}
    (h : (s.call c caller).ExpireCalled c') : s.ExpireCalled c' ∨ (c' = c ∧ caller = .expire) := by
  rcases h with ⟨closer, hmem, rfl, hcaller⟩
  rcases List.mem_append.1 hmem with hmem | hmem
  · exact .inl ⟨closer, hmem, rfl, hcaller⟩
  · rw [List.mem_singleton] at hmem
    subst hmem
    exact .inr ⟨rfl, hcaller⟩

theorem expireCalled_mono {s : BoundedListener} {c : Nat} {closers : List Closer}
    (h : closers ⊆ s.closers) (hc : { s with closers := closers }.ExpireCalled c) : s.ExpireCalled c := by
  obtain ⟨closer, hmem, hcloser⟩ := hc
  exact ⟨closer, h hmem, hcloser⟩

theorem effect_accept (s : BoundedListener) (now : Int) :
    Effect s (s.accept now).1 (s.accept now).2 := by
  rw [accept]
  split_ifs with hfull
  · refine .quiet rfl rfl rfl (fun _ h => h) ?_
    intro event hevent
    rw [List.mem_singleton] at hevent
    subst hevent
    trivial
  · rw [not_or, not_le, not_le] at hfull
    refine .admission s.heap.length rfl rfl ?_ (fun _ h => h) ?_ hfull.1 hfull.2
    · funext c
      rw [flags, Function.update_apply]
      by_cases hc : c = s.heap.length
      · subst hc
        rw [if_pos rfl, List.getElem?_concat_length]
        rfl
      · -- an index that is not the new one is in the old heap or nowhere
        rw [if_neg hc, flags]
        apply congrArg
        by_cases hlt : c < s.heap.length
        · exact List.getElem?_append_left hlt
        · have hgt : s.heap.length < c := lt_of_le_of_ne (not_lt.1 hlt) (Ne.symm hc)
          rw [List.getElem?_eq_none hgt.le, List.getElem?_eq_none]
          rw [List.length_append]
          exact hgt
    · rw [flags, List.getElem?_eq_none (le_refl _)]
      rfl

theorem effect_authenticateConnection {s : BoundedListener} {c : Nat} {connection : AdmittedConnection}
    (h : s.heap[c]? = some connection) (now : Int) :
    Effect s (s.authenticateConnection c connection now).1
      (s.authenticateConnection c connection now).2 := by
  have hflags := flags_eq_some h
  rw [authenticateConnection]
  split_ifs with hout hauthenticated hlate
  · refine .quiet rfl rfl rfl (fun _ h => h) ?_
    intro event hevent
    rw [List.mem_singleton] at hevent
    subst hevent
    exact fun hresult => nomatch hresult
  · rw [not_or, not_not, Bool.not_eq_true] at hout
    rw [hauthenticated, hout.2] at hflags
    refine .quiet rfl rfl rfl (fun _ h => h) ?_
    intro event hevent
    rw [List.mem_singleton] at hevent
    subst hevent
    exact fun _ => ⟨hout.1, hflags⟩
  · rw [not_or, not_not, Bool.not_eq_true] at hout
    rw [Bool.not_eq_true] at hauthenticated
    rw [hauthenticated, hout.2] at hflags
    refine .promote c rfl rfl ?_ (fun _ h => h) hout.1 hflags
    apply (flags_setConnection h { connection with authenticated := true }).trans
    rw [hout.2]
  · rw [not_or, not_not, Bool.not_eq_true] at hout
    rw [Bool.not_eq_true] at hauthenticated
    rw [hauthenticated, hout.2] at hflags
    refine .mark c rfl rfl ?_ ?_ hout.1 hflags ?_
    · apply (flags_setConnection h { connection with expired := true }).trans
      rw [hauthenticated]
    · intro c' hc'
      rcases expireCalled_call hc' with hold | ⟨_, hcaller⟩
      · exact .inl hold
      · cases hcaller
    · intro event hevent
      rw [List.mem_singleton] at hevent
      subst hevent
      exact fun hresult => nomatch hresult

theorem effect_expire {s : BoundedListener} {c : Nat} {connection : AdmittedConnection}
    (h : s.heap[c]? = some connection) :
    Effect s (s.expire c connection).1 (s.expire c connection).2 := by
  rw [expire]
  split_ifs with hclose
  · obtain ⟨hactive, hauthenticated, hexpired⟩ := hclose
    have hflags := flags_eq_some h
    rw [hauthenticated, hexpired] at hflags
    refine .mark c rfl rfl ?_ ?_ hactive hflags ?_
    · apply (flags_setConnection h { connection with expired := true }).trans
      rw [hauthenticated]
    · intro c' hc'
      exact (expireCalled_call hc').imp_right And.left
    · exact fun event hevent => absurd hevent List.not_mem_nil
  · exact .quiet rfl rfl rfl (fun _ h => h) fun event hevent => absurd hevent List.not_mem_nil

/-- The call of `Close` that runs the section leaves `closers`. -/
theorem effect_closeLocked {s : BoundedListener} {c : Nat} {connection : AdmittedConnection}
    (h : s.heap[c]? = some connection) {closers : List Closer} (hclosers : closers ⊆ s.closers) :
    Effect s ({ s with closers := closers }.closeLocked c connection).1
      ({ s with closers := closers }.closeLocked c connection).2 := by
  have hflags := flags_eq_some h
  have hset := flags_setOnce h .done
  have hcalls : ∀ c', { s with closers := closers }.ExpireCalled c' → s.ExpireCalled c' := by
    intro c' hc'
    exact expireCalled_mono hclosers hc'
  rw [closeLocked]
  split_ifs with hactive hauthenticated
  · rw [hauthenticated] at hflags
    exact .remove c true connection.expired rfl rfl hset hcalls hactive hflags
  · rw [Bool.not_eq_true] at hauthenticated
    rw [hauthenticated] at hflags
    exact .remove c false connection.expired rfl rfl hset hcalls hactive hflags
  · exact .quiet rfl rfl hset hcalls fun event hevent => absurd hevent List.not_mem_nil

theorem effect_of_step {s s' : BoundedListener} {a : Action} {events : List Event}
    (h : s.step a = some (s', events)) : Effect s s' events := by
  cases a with
  | accept now =>
      have heffect := effect_accept s now
      rw [Option.some.inj h] at heffect
      exact heffect
  | authenticate c now =>
      obtain ⟨connection, hheap, hstep⟩ := Option.map_eq_some_iff.1 h
      have heffect := effect_authenticateConnection hheap now
      rw [hstep] at heffect
      exact heffect
  | expire c =>
      obtain ⟨connection, hheap, hstep⟩ := Option.map_eq_some_iff.1 h
      have heffect := effect_expire hheap
      rw [hstep] at heffect
      exact heffect
  | close c =>
      obtain ⟨connection, hheap, hstep⟩ := Option.map_eq_some_iff.1 h
      cases hstep
      refine .quiet rfl rfl rfl ?_ fun event hevent => absurd hevent List.not_mem_nil
      intro c' hc'
      rcases expireCalled_call hc' with hold | ⟨_, hcaller⟩
      · exact hold
      · cases hcaller
  | enterOnce i =>
      obtain ⟨closer, hcloser, hrest⟩ := Option.bind_eq_some_iff.1 h
      obtain ⟨connection, hheap, hstep⟩ := Option.bind_eq_some_iff.1 hrest
      have hmem : closer ∈ s.closers := List.mem_of_getElem? hcloser
      rcases hentered : closer.entered with _ | _ <;> rcases honce : connection.closeOnce with _ | _ | _ <;>
        rw [hentered, honce] at hstep <;> cases hstep
      · -- the call enters: the same caller keeps its place
        refine .quiet rfl rfl (flags_setOnce hheap .running) ?_ ?_
        · rintro c' ⟨closer', hmem', hc', hcaller⟩
          rcases List.mem_or_eq_of_mem_set hmem' with hold | hnew
          · exact ⟨closer', hold, hc', hcaller⟩
          · subst hnew
            exact ⟨closer, hmem, hc', hcaller⟩
        · intro event hevent
          rw [List.mem_singleton] at hevent
          subst hevent
          exact fun hcaller => ⟨closer, hmem, rfl, hcaller⟩
      · refine .quiet rfl rfl rfl ?_ fun event hevent => absurd hevent List.not_mem_nil
        intro c' hc'
        exact expireCalled_mono (List.eraseIdx_subset) hc'
  | closeLocked i =>
      obtain ⟨closer, hcloser, hrest⟩ := Option.bind_eq_some_iff.1 h
      obtain ⟨connection, hheap, hstep⟩ := Option.bind_eq_some_iff.1 hrest
      by_cases hentered : closer.entered = true
      · rw [if_pos hentered] at hstep
        have heffect := effect_closeLocked hheap (List.eraseIdx_subset (k := i))
        rw [Option.some.inj hstep] at heffect
        exact heffect
      · rw [if_neg hentered] at hstep
        cases hstep

theorem limits_of_step {s s' : BoundedListener} {a : Action} {events : List Event}
    (h : s.step a = some (s', events)) : s'.limits = s.limits := by
  cases a with
  | accept now =>
      have hnext := congrArg (fun next => next.1.limits) (Option.some.inj h)
      rw [accept] at hnext
      split_ifs at hnext <;> exact hnext.symm
  | authenticate c now =>
      obtain ⟨connection, -, hstep⟩ := Option.map_eq_some_iff.1 h
      have hnext := congrArg (fun next => next.1.limits) hstep
      rw [authenticateConnection] at hnext
      split_ifs at hnext <;> exact hnext.symm
  | expire c =>
      obtain ⟨connection, -, hstep⟩ := Option.map_eq_some_iff.1 h
      have hnext := congrArg (fun next => next.1.limits) hstep
      rw [expire] at hnext
      split_ifs at hnext <;> exact hnext.symm
  | close c =>
      obtain ⟨connection, -, hstep⟩ := Option.map_eq_some_iff.1 h
      cases hstep
      rfl
  | enterOnce i =>
      obtain ⟨closer, -, hrest⟩ := Option.bind_eq_some_iff.1 h
      obtain ⟨connection, -, hstep⟩ := Option.bind_eq_some_iff.1 hrest
      rcases hentered : closer.entered with _ | _ <;> rcases honce : connection.closeOnce with _ | _ | _ <;>
        rw [hentered, honce] at hstep <;> cases hstep <;> rfl
  | closeLocked i =>
      obtain ⟨closer, -, hrest⟩ := Option.bind_eq_some_iff.1 h
      obtain ⟨connection, -, hstep⟩ := Option.bind_eq_some_iff.1 hrest
      by_cases hentered : closer.entered = true
      · rw [if_pos hentered] at hstep
        have hnext := congrArg (fun next => next.1.limits) (Option.some.inj hstep)
        rw [closeLocked] at hnext
        split_ifs at hnext <;> exact hnext.symm
      · rw [if_neg hentered] at hstep
        cases hstep

/-! ## Consequences of an effect -/

namespace Effect

variable {s s' : BoundedListener} {events : List Event}

/-- How the flags of one connection move. -/
theorem flags_cases (h : Effect s s' events) (c : Nat) :
    s'.flags c = s.flags c ∨ (s.flags c = none ∧ s'.flags c = some (false, false)) ∨
      (s.flags c = some (false, false) ∧
        (s'.flags c = some (true, false) ∨ s'.flags c = some (false, true))) := by
  cases h with
  | quiet _ _ hflags _ _ =>
      exact .inl (congrFun hflags c)
  | admission c' _ _ hflags _ hfresh _ _ =>
      rw [hflags, Function.update_apply]
      split_ifs with hc
      · subst hc
        exact .inr (.inl ⟨hfresh, rfl⟩)
      · exact .inl rfl
  | promote c' _ _ hflags _ _ hwaiting =>
      rw [hflags, Function.update_apply]
      split_ifs with hc
      · subst hc
        exact .inr (.inr ⟨hwaiting, .inl rfl⟩)
      · exact .inl rfl
  | mark c' _ _ hflags _ _ hwaiting _ =>
      rw [hflags, Function.update_apply]
      split_ifs with hc
      · subst hc
        exact .inr (.inr ⟨hwaiting, .inr rfl⟩)
      · exact .inl rfl
  | remove _ _ _ _ _ hflags _ _ _ =>
      exact .inl (congrFun hflags c)

/-- A connection that authenticated or expired keeps its flags. -/
theorem flags_settled (h : Effect s s' events) {c : Nat} {authenticated expired : Bool}
    (hflag : s.flags c = some (authenticated, expired)) (hsettled : (authenticated || expired) = true) :
    s'.flags c = some (authenticated, expired) := by
  rcases h.flags_cases c with hkeep | ⟨hfresh, _⟩ | ⟨hwaiting, _⟩
  · rw [hkeep, hflag]
  · rw [hfresh] at hflag
    cases hflag
  · rw [hwaiting] at hflag
    cases hflag
    cases hsettled

/-- An allocated connection stays allocated. -/
theorem flags_ne_none (h : Effect s s' events) {c : Nat} (hc : s.flags c ≠ none) : s'.flags c ≠ none := by
  rcases h.flags_cases c with hkeep | ⟨hfresh, _⟩ | ⟨_, hpromoted | hmarked⟩
  · rw [hkeep]
    exact hc
  · exact absurd hfresh hc
  · rw [hpromoted]
    exact Option.some_ne_none _
  · rw [hmarked]
    exact Option.some_ne_none _

/-- Removal is final. -/
theorem not_active (h : Effect s s' events) {c : Nat} (hc : s.flags c ≠ none) (hactive : c ∉ s.active) :
    c ∉ s'.active := by
  cases h with
  | quiet hactive' _ _ _ _ =>
      rw [hactive']
      exact hactive
  | admission c' hactive' _ _ _ hfresh _ _ =>
      rw [hactive', Finset.mem_insert, not_or]
      refine ⟨?_, hactive⟩
      intro hc'
      rw [hc'] at hc
      exact hc hfresh
  | promote _ hactive' _ _ _ _ _ =>
      rw [hactive']
      exact hactive
  | mark _ hactive' _ _ _ _ _ _ =>
      rw [hactive']
      exact hactive
  | remove _ _ _ hactive' _ _ _ _ _ =>
      rw [hactive']
      exact fun hc' => hactive (Finset.mem_of_mem_erase hc')

/-- An admitted connection is allocated. -/
theorem allocated (h : Effect s s' events) (hs : ∀ c ∈ s.active, s.flags c ≠ none) :
    ∀ c ∈ s'.active, s'.flags c ≠ none := by
  intro c hc
  by_cases hold : c ∈ s.active
  · exact h.flags_ne_none (hs c hold)
  · cases h with
    | quiet hactive _ _ _ _ =>
        rw [hactive] at hc
        exact absurd hc hold
    | admission c' hactive _ hflags _ _ _ _ =>
        rw [hactive, Finset.mem_insert] at hc
        obtain hc | hc := hc
        · rw [hflags, hc, Function.update_self]
          exact Option.some_ne_none _
        · exact absurd hc hold
    | promote _ hactive _ _ _ _ _ =>
        rw [hactive] at hc
        exact absurd hc hold
    | mark _ hactive _ _ _ _ _ _ =>
        rw [hactive] at hc
        exact absurd hc hold
    | remove _ _ _ hactive _ _ _ _ _ =>
        rw [hactive] at hc
        exact absurd (Finset.mem_of_mem_erase hc) hold

/-- The timer closes what it marked. -/
theorem called (h : Effect s s' events) (hs : ∀ c, s.ExpireCalled c → s.flags c = some (false, true)) :
    ∀ c, s'.ExpireCalled c → s'.flags c = some (false, true) := by
  intro c hc
  have hold : s.ExpireCalled c → s'.flags c = some (false, true) := by
    intro hcalled
    exact h.flags_settled (hs c hcalled) rfl
  cases h with
  | quiet _ _ _ hcalls _ =>
      exact hold (hcalls c hc)
  | admission _ _ _ _ hcalls _ _ _ =>
      exact hold (hcalls c hc)
  | promote _ _ _ _ hcalls _ _ =>
      exact hold (hcalls c hc)
  | mark c' _ _ hflags hcalls _ _ _ =>
      obtain hcalled | hcalled := hcalls c hc
      · exact hold hcalled
      · rw [hflags, hcalled, Function.update_self]
  | remove _ _ _ _ _ _ hcalls _ _ =>
      exact hold (hcalls c hc)

/-! ### Counting -/

/-- The effect on the connections that `pending` counts. -/
theorem unauthenticated_eq (h : Effect s s' events) :
    (s'.unauthenticated = s.unauthenticated ∧ s'.pending = s.pending) ∨
    (∃ c ∉ s.unauthenticated, s'.unauthenticated = insert c s.unauthenticated ∧
      s'.pending = s.pending + 1) ∨
    (∃ c ∈ s.unauthenticated, s'.unauthenticated = s.unauthenticated.erase c ∧
      s'.pending = s.pending - 1) := by
  cases h with
  | quiet hactive hpending hflags _ _ =>
      refine .inl ⟨?_, hpending⟩
      ext c
      rw [mem_unauthenticated, mem_unauthenticated, hactive, hflags]
  | admission c hactive hpending hflags _ hfresh _ _ =>
      refine .inr (.inl ⟨c, ?_, ?_, hpending⟩)
      · rw [mem_unauthenticated, hfresh]
        rintro ⟨-, expired, hflag⟩
        cases hflag
      · -- the new connection has its flags, and every other one has kept its own
        ext c'
        rw [Finset.mem_insert, mem_unauthenticated, mem_unauthenticated, hactive, hflags,
          Finset.mem_insert, Function.update_apply]
        by_cases hc : c' = c
        · rw [if_pos hc]
          exact ⟨fun _ => .inl hc, fun _ => ⟨.inl hc, false, rfl⟩⟩
        · rw [if_neg hc, or_iff_right hc, or_iff_right hc]
  | promote c hactive hpending hflags _ hc hwaiting =>
      refine .inr (.inr ⟨c, mem_unauthenticated.2 ⟨hc, false, hwaiting⟩, ?_, hpending⟩)
      -- an authenticated connection is no longer counted, the others are as before
      ext c'
      rw [Finset.mem_erase, mem_unauthenticated, mem_unauthenticated, hactive, hflags,
        Function.update_apply]
      by_cases hc' : c' = c
      · rw [if_pos hc']
        constructor
        · rintro ⟨-, expired, hflag⟩
          cases hflag
        · intro hold
          exact absurd hc' hold.1
      · rw [if_neg hc', and_iff_right hc']
  | mark c hactive hpending hflags _ hc hwaiting _ =>
      refine .inl ⟨?_, hpending⟩
      ext c'
      rw [mem_unauthenticated, mem_unauthenticated, hactive, hflags, Function.update_apply]
      by_cases hc' : c' = c
      · subst hc'
        rw [if_pos rfl, hwaiting]
        exact ⟨fun _ => ⟨hc, false, rfl⟩, fun _ => ⟨hc, true, rfl⟩⟩
      · rw [if_neg hc']
  | remove c authenticated expired hactive hpending hflags _ hc hflag =>
      have herase : s'.unauthenticated = s.unauthenticated.erase c := by
        ext c'
        rw [Finset.mem_erase, mem_unauthenticated, mem_unauthenticated, hactive, hflags,
          Finset.mem_erase, and_assoc]
      cases authenticated with
      | true =>
          refine .inl ⟨?_, hpending⟩
          rw [herase]
          -- it was not counted any more, so nothing is removed
          apply Finset.erase_eq_of_notMem
          rw [mem_unauthenticated, hflag]
          rintro ⟨-, expired', hflag'⟩
          cases hflag'
      | false =>
          exact .inr (.inr ⟨c, mem_unauthenticated.2 ⟨hc, expired, hflag⟩, herase, hpending⟩)

theorem pending_eq (h : Effect s s' events) (hs : s.pending = s.unauthenticated.card) :
    s'.pending = s'.unauthenticated.card := by
  rcases h.unauthenticated_eq with ⟨hset, hpending⟩ | ⟨c, hc, hset, hpending⟩ |
    ⟨c, hc, hset, hpending⟩
  · rw [hset, hpending, hs]
  · rw [hset, hpending, hs, Finset.card_insert_of_notMem hc]
    push_cast
    rfl
  · rw [hset, hpending, hs, ← Finset.card_erase_add_one hc]
    push_cast
    ring

theorem pending_le (h : Effect s s' events)
    (hs : s.pending ≤ s.limits.maxUnauthenticatedConnections) :
    s'.pending ≤ s.limits.maxUnauthenticatedConnections := by
  cases h with
  | quiet _ hpending _ _ _ =>
      rw [hpending]
      exact hs
  | admission _ _ hpending _ _ _ _ hroom =>
      rw [hpending]
      exact hroom
  | promote _ _ hpending _ _ _ _ =>
      rw [hpending]
      exact (sub_le_self _ one_pos.le).trans hs
  | mark _ _ hpending _ _ _ _ _ =>
      rw [hpending]
      exact hs
  | remove _ authenticated _ _ hpending _ _ _ _ =>
      rw [hpending]
      split_ifs
      · exact hs
      · exact (sub_le_self _ one_pos.le).trans hs

theorem card_le (h : Effect s s' events) (hs : (s.active.card : Int) ≤ s.limits.maxConnections) :
    (s'.active.card : Int) ≤ s.limits.maxConnections := by
  cases h with
  | quiet hactive _ _ _ _ =>
      rw [hactive]
      exact hs
  | admission c hactive _ _ _ _ hroom _ =>
      rw [hactive]
      calc ((insert c s.active).card : Int)
          ≤ (s.active.card + 1 : Nat) := Nat.cast_le.2 (Finset.card_insert_le c s.active)
        _ = (s.active.card : Int) + 1 := Nat.cast_succ _
        _ ≤ s.limits.maxConnections := hroom
  | promote _ hactive _ _ _ _ _ =>
      rw [hactive]
      exact hs
  | mark _ hactive _ _ _ _ _ _ =>
      rw [hactive]
      exact hs
  | remove c _ _ hactive _ _ _ _ _ =>
      rw [hactive]
      exact (Nat.cast_le.2 (Finset.card_erase_le)).trans hs

/-! ### Events -/

/-- An authenticated connection answers. -/
theorem answered (h : Effect s s' events) {c : Nat} (hc : .answered c true ∈ events) :
    c ∈ s'.active ∧ s'.flags c = some (true, false) := by
  have hquiet : s.Harmless (.answered c true) → s'.active = s.active →
      c ∈ s'.active ∧ s'.flags c = some (true, false) := by
    intro hharmless hactive
    obtain ⟨hold, hflag⟩ := hharmless rfl
    rw [hactive]
    exact ⟨hold, h.flags_settled hflag rfl⟩
  cases h with
  | quiet hactive _ _ _ hevents =>
      exact hquiet (hevents _ hc) hactive
  | admission _ _ _ _ _ _ _ _ =>
      rw [List.mem_singleton] at hc
      cases hc
  | promote c' hactive _ hflags _ hold _ =>
      rcases List.mem_pair.1 hc with hc | hc
      · cases hc
      · cases hc
        rw [hactive, hflags, Function.update_self]
        exact ⟨hold, rfl⟩
  | mark _ hactive _ _ _ _ _ hevents =>
      exact hquiet (hevents _ hc) hactive
  | remove _ authenticated _ _ _ _ _ _ _ =>
      cases authenticated <;> simp at hc

/-- The timer closes a socket in a call that it made. -/
theorem socketClosed (h : Effect s s' events) {c : Nat} (hc : .socketClosed c .expire ∈ events) :
    s.ExpireCalled c := by
  cases h with
  | quiet _ _ _ _ hevents =>
      exact hevents _ hc rfl
  | admission _ _ _ _ _ _ _ _ =>
      rw [List.mem_singleton] at hc
      cases hc
  | promote _ _ _ _ _ _ _ =>
      simp at hc
  | mark _ _ _ _ _ _ _ hevents =>
      exact hevents _ hc rfl
  | remove _ authenticated _ _ _ _ _ _ _ =>
      cases authenticated <;> simp at hc

theorem removed (h : Effect s s' events) {c : Nat} (hc : .removed c ∈ events) :
    c ∈ s.active ∧ s'.flags c ≠ none ∧ c ∉ s'.active := by
  cases h with
  | quiet _ _ _ _ hevents =>
      exact (hevents _ hc).elim
  | admission _ _ _ _ _ _ _ _ =>
      rw [List.mem_singleton] at hc
      cases hc
  | promote _ _ _ _ _ _ _ =>
      simp at hc
  | mark _ _ _ _ _ _ _ hevents =>
      exact (hevents _ hc).elim
  | remove c' authenticated expired hactive _ hflags _ hold hflag =>
      have hc' : c = c' := by
        cases authenticated <;> simpa using hc
      subst hc'
      rw [hactive, hflags, hflag]
      exact ⟨hold, Option.some_ne_none _, Finset.notMem_erase c s.active⟩

theorem decremented (h : Effect s s' events) {c : Nat} (hc : .decremented c ∈ events) :
    c ∈ s.unauthenticated ∧ s'.flags c ≠ none ∧ c ∉ s'.unauthenticated := by
  cases h with
  | quiet _ _ _ _ hevents =>
      exact (hevents _ hc).elim
  | admission _ _ _ _ _ _ _ _ =>
      rw [List.mem_singleton] at hc
      cases hc
  | promote c' _ _ hflags _ hold hwaiting =>
      have hc' : c = c' := by
        simpa using hc
      subst hc'
      have hflag : s'.flags c = some (true, false) := by
        rw [hflags, Function.update_self]
      refine ⟨mem_unauthenticated.2 ⟨hold, false, hwaiting⟩, ?_, ?_⟩
      · rw [hflag]
        exact Option.some_ne_none _
      · rw [mem_unauthenticated, hflag]
        rintro ⟨-, expired, hfalse⟩
        cases hfalse
  | mark _ _ _ _ _ _ _ hevents =>
      exact (hevents _ hc).elim
  | remove c' authenticated expired hactive _ hflags _ hold hflag =>
      cases authenticated with
      | true =>
          simp at hc
      | false =>
          have hc' : c = c' := by
            simpa using hc
          subst hc'
          rw [mem_unauthenticated, mem_unauthenticated, hactive, hflags, hflag]
          exact ⟨⟨hold, expired, rfl⟩, Option.some_ne_none _,
            fun hmem => Finset.notMem_erase c s.active hmem.1⟩

/-- No step removes twice or decrements twice. -/
theorem count_le_one (h : Effect s s' events) (c : Nat) :
    events.count (.removed c) ≤ 1 ∧ events.count (.decremented c) ≤ 1 := by
  have hquiet : (∀ event ∈ events, s.Harmless event) →
      events.count (.removed c) ≤ 1 ∧ events.count (.decremented c) ≤ 1 := by
    intro hevents
    have hremoved : Event.removed c ∉ events := fun hmem => hevents _ hmem
    have hdecremented : Event.decremented c ∉ events := fun hmem => hevents _ hmem
    rw [List.count_eq_zero_of_not_mem hremoved, List.count_eq_zero_of_not_mem hdecremented]
    exact ⟨zero_le_one, zero_le_one⟩
  have hdistinct : events.Nodup →
      events.count (.removed c) ≤ 1 ∧ events.count (.decremented c) ≤ 1 := by
    intro hnodup
    exact ⟨List.nodup_iff_count_le_one.1 hnodup _, List.nodup_iff_count_le_one.1 hnodup _⟩
  cases h with
  | quiet _ _ _ _ hevents =>
      exact hquiet hevents
  | admission _ _ _ _ _ _ _ _ =>
      exact hdistinct (List.nodup_singleton _)
  | promote c' _ _ _ _ _ _ =>
      apply hdistinct
      simp
  | mark _ _ _ _ _ _ _ hevents =>
      exact hquiet hevents
  | remove c' authenticated _ _ _ _ _ _ _ =>
      apply hdistinct
      cases authenticated <;> simp

theorem not_unauthenticated (h : Effect s s' events) {c : Nat} (hc : s.flags c ≠ none)
    (hout : c ∉ s.unauthenticated) : c ∉ s'.unauthenticated := by
  rw [mem_unauthenticated, not_and] at hout ⊢
  intro hactive'
  have hactive : c ∈ s.active := by
    by_contra hremoved
    exact h.not_active hc hremoved hactive'
  rcases hflag : s.flags c with _ | ⟨authenticated, expired⟩
  · exact absurd hflag hc
  · cases authenticated with
    | true =>
        rw [h.flags_settled hflag rfl]
        rintro ⟨expired', hfalse⟩
        cases hfalse
    | false =>
        exact absurd ⟨expired, hflag⟩ (hout hactive)

theorem dead (h : Effect s s' events) {c : Nat} (hc : s.Dead c) :
    s'.Dead c ∧ .answered c true ∉ events := by
  rcases hc with ⟨authenticated, hmarked⟩ | ⟨hallocated, hremoved⟩
  · have hkeep := h.flags_settled hmarked (Bool.or_true authenticated)
    refine ⟨.inl ⟨authenticated, hkeep⟩, ?_⟩
    intro hanswer
    rw [(h.answered hanswer).2] at hkeep
    cases hkeep
  · have hkeep := h.not_active hallocated hremoved
    refine ⟨.inr ⟨h.flags_ne_none hallocated, hkeep⟩, ?_⟩
    intro hanswer
    exact hkeep (h.answered hanswer).1

end Effect

/-! ## Every run -/

/-- What holds in every reachable state of a listener with the given limits. -/
structure Safe (limits : ConnectionLimits) (s : BoundedListener) : Prop where
  limits_eq : s.limits = limits
  allocated : ∀ c ∈ s.active, s.flags c ≠ none
  pending_eq : s.pending = s.unauthenticated.card
  pending_le : s.pending ≤ s.limits.maxUnauthenticatedConnections
  card_le : (s.active.card : Int) ≤ s.limits.maxConnections
  called : ∀ c, s.ExpireCalled c → s.flags c = some (false, true)

theorem safe_init {limits : ConnectionLimits} {s : BoundedListener}
    (h : newBoundedListener limits = .ok s) : Safe limits s := by
  rw [newBoundedListener, ConnectionLimits.validate] at h
  split_ifs at h with hpositive hsmaller
  · cases h
  · cases h
  cases h
  rw [not_or, not_or, not_le, not_le, not_le] at hpositive
  exact {
    limits_eq := rfl
    allocated := fun c hc => absurd hc (Finset.notMem_empty c)
    pending_eq := rfl
    pending_le := hpositive.2.1.le
    card_le := hpositive.1.le
    called := fun c ⟨closer, hmem, _⟩ => absurd hmem List.not_mem_nil }

theorem safe_step {limits : ConnectionLimits} {s s' : BoundedListener} {a : Action} {events : List Event}
    (hs : Safe limits s) (h : s.step a = some (s', events)) : Safe limits s' := by
  have heffect := effect_of_step h
  have hlimits := limits_of_step h
  exact {
    limits_eq := hlimits.trans hs.limits_eq
    allocated := heffect.allocated hs.allocated
    pending_eq := heffect.pending_eq hs.pending_eq
    pending_le := by
      rw [hlimits]
      exact heffect.pending_le hs.pending_le
    card_le := by
      rw [hlimits]
      exact heffect.card_le hs.card_le
    called := heffect.called hs.called }

section

variable {limits : ConnectionLimits} {s s' : BoundedListener} {log : List Event}

theorem safe_run (hs : Safe limits s) (h : Run step s log s') : Safe limits s' := by
  refine h.invariant hs ?_
  intro s a s' events hs hstep
  exact safe_step hs hstep

theorem run_removed (h : Run step s log s') (c : Nat) : log.count (.removed c) ≤ 1 := by
  refine h.once (P := fun s => s.flags c ≠ none ∧ c ∉ s.active) ?_
  intro s a s' events hstep
  have heffect := effect_of_step hstep
  refine ⟨?_, (heffect.count_le_one c).1, fun hremoved => (heffect.removed hremoved).2⟩
  rintro ⟨hallocated, hactive⟩
  refine ⟨⟨heffect.flags_ne_none hallocated, heffect.not_active hallocated hactive⟩, ?_⟩
  intro hremoved
  exact hactive (heffect.removed hremoved).1

theorem run_decremented (h : Run step s log s') (c : Nat) : log.count (.decremented c) ≤ 1 := by
  refine h.once (P := fun s => s.flags c ≠ none ∧ c ∉ s.unauthenticated) ?_
  intro s a s' events hstep
  have heffect := effect_of_step hstep
  refine ⟨?_, (heffect.count_le_one c).2, fun hdecremented => (heffect.decremented hdecremented).2⟩
  rintro ⟨hallocated, hout⟩
  refine ⟨⟨heffect.flags_ne_none hallocated, heffect.not_unauthenticated hallocated hout⟩, ?_⟩
  intro hdecremented
  exact hout (heffect.decremented hdecremented).1

/-- A connection that answered keeps its flags for good. -/
theorem run_answered (h : Run step s log s') {c : Nat} (hc : .answered c true ∈ log) :
    s'.flags c = some (true, false) := by
  refine h.recorded (I := fun _ => True) (P := fun s => s.flags c = some (true, false)) trivial
    (fun _ _ _ _ _ _ => trivial) ?_ hc
  intro s a s' events _ hstep
  have heffect := effect_of_step hstep
  exact ⟨fun hflag => heffect.flags_settled hflag rfl, fun hanswer => (heffect.answered hanswer).2⟩

theorem run_socketClosed (hs : Safe limits s) (h : Run step s log s') {c : Nat}
    (hc : .socketClosed c .expire ∈ log) : s'.flags c = some (false, true) := by
  refine h.recorded (I := Safe limits) (P := fun s => s.flags c = some (false, true)) hs
    (fun _ _ _ _ => safe_step) ?_ hc
  intro s a s' events hs hstep
  have heffect := effect_of_step hstep
  refine ⟨fun hflag => heffect.flags_settled hflag rfl, ?_⟩
  intro hclosed
  exact heffect.flags_settled (hs.called c (heffect.socketClosed hclosed)) rfl

theorem run_dead {c : Nat} (hc : s.Dead c) (h : Run step s log s') : .answered c true ∉ log := by
  refine h.never (P := fun s => s.Dead c) hc ?_
  intro s a s' events hdead hstep
  exact (effect_of_step hstep).dead hdead

end

end BoundedListener

open BoundedListener in
/-- Every run of a listener with accepted limits, under any interleaving of its steps. -/
theorem admission_safe {limits : ConnectionLimits} {s0 s : BoundedListener} {log : List Event}
    (h0 : newBoundedListener limits = .ok s0) (h : Transition.Run step s0 log s) :
    s.pending = s.unauthenticated.card ∧
    0 ≤ s.pending ∧ s.pending ≤ limits.maxUnauthenticatedConnections ∧
    (s.active.card : Int) ≤ limits.maxConnections ∧
    (∀ c, log.count (.removed c) ≤ 1 ∧ log.count (.decremented c) ≤ 1) ∧
    (∀ c, .socketClosed c .expire ∈ log →
      s.flags c = some (false, true) ∧ .answered c true ∉ log) ∧
    (∀ c, s.Dead c → ∀ s' log', Transition.Run step s log' s' → .answered c true ∉ log') := by
  have hsafe := safe_run (safe_init h0) h
  refine ⟨hsafe.pending_eq, ?_, ?_, ?_, ?_, ?_, ?_⟩
  · rw [hsafe.pending_eq]
    exact Int.natCast_nonneg _
  · rw [← hsafe.limits_eq]
    exact hsafe.pending_le
  · rw [← hsafe.limits_eq]
    exact hsafe.card_le
  · intro c
    exact ⟨run_removed h c, run_decremented h c⟩
  · intro c hclosed
    have hflag := run_socketClosed (safe_init h0) h hclosed
    refine ⟨hflag, ?_⟩
    intro hanswer
    rw [run_answered h hanswer] at hflag
    cases hflag
  · intro c hdead s' log' hrun
    exact run_dead hdead hrun

open BoundedListener in
/-- One connection is admitted and expires before it authenticates. -/
theorem admission_safe_expiry :
    ∃ s, Transition.Run step { limits := ⟨2, 1, 5⟩ }
      [.admitted 0, .socketClosed 0 .expire, .removed 0, .decremented 0] s ∧
      s.pending = s.unauthenticated.card ∧ s.flags 0 = some (false, true) := by
  have hlimits : newBoundedListener ⟨2, 1, 5⟩ = .ok { limits := ⟨2, 1, 5⟩ } := rfl
  have haccept : step { limits := ⟨2, 1, 5⟩ } (.accept 0) =
      some ({ limits := ⟨2, 1, 5⟩, active := {0}, pending := 1, heap := [{ deadline := 5 }] },
        [.admitted 0]) := rfl
  have hexpire := (Transition.Run.single haccept).snoc
    (show step _ (.expire 0) = some (_, []) from rfl)
  have henter := hexpire.snoc
    (show step _ (.enterOnce 0) = some (_, [.socketClosed 0 .expire]) from rfl)
  have hclose := henter.snoc
    (show step _ (.closeLocked 0) = some (_, [.removed 0, .decremented 0]) from rfl)
  have hsafe := admission_safe hlimits hclose
  exact ⟨_, hclose, hsafe.1, (hsafe.2.2.2.2.2.1 0 (by decide)).1⟩

end Daemon

end CanonicalPath
