import CanonicalPath.Library.Run
import Mathlib.Algebra.BigOperators.Group.Finset.Basic
import Mathlib.Algebra.Order.Group.Multiset
import Mathlib.Tactic.Abel

/-!
# Threads — programs that share a state under a lock

A program asks its environment, takes the lock together with the state it guards, and gives both back.  A pool runs
any number of programs; a step is one question of one of them, so a fact about every run is a fact about every
interleaving.

A discipline says which questions a program may ask, what the others may do to the world meanwhile, and which
resources a question opens and closes.  A resource belongs to the thread that opened it or, while nobody holds the
lock, to the shared state.

* `Sound` : a program keeps the discipline, whatever the answers are
* `Sound.bind` : one program after another
* `accounts_run` : in every run of sound programs each question was allowed, and every open resource has one owner
* `acc_moves` : a pool without new threads comes to rest
* `Accounts.at_rest` : there every program is over and the lock is free
* `yields_run` : what a program alone establishes about its questions and its result, it establishes in every run
-/

namespace Threads

/-! ## Programs -/

/-- `σ` is the guarded state, `ι` the questions with their answers `ρ`. -/
inductive Program (σ ι : Type) (ρ : ι → Type) (α : Type)
  | done (a : α)
  | ask (i : ι) (next : ρ i → Program σ ι ρ α)
  | lock (next : σ → Program σ ι ρ α)
  | unlock (s : σ) (next : Program σ ι ρ α)

namespace Program

variable {σ ι α β : Type} {ρ : ι → Type}

def bind : Program σ ι ρ α → (α → Program σ ι ρ β) → Program σ ι ρ β
  | .done a, f => f a
  | .ask i next, f => .ask i fun answer => (next answer).bind f
  | .lock next, f => .lock fun s => (next s).bind f
  | .unlock s next, f => .unlock s (next.bind f)

instance : Monad (Program σ ι ρ) where
  pure := .done
  bind := bind

/-- A question. -/
def request (i : ι) : Program σ ι ρ (ρ i) :=
  .ask i .done

/-- The lock, with the state it guards. -/
def acquire : Program σ ι ρ σ :=
  .lock .done

def release (s : σ) : Program σ ι ρ Unit :=
  .unlock s (.done ())

end Program

/-! ## Pools -/

section Pools

variable (κ σ ω ι : Type) (ρ : ι → Type) (α χ : Type)

/-- The environment of a task answers a question in a world; `χ` is what it chooses from. -/
structure Environment where
  answer : κ → ω → (i : ι) → χ → ω × ρ i

structure Pool where
  shared : σ
  world : ω
  /-- The thread that holds the lock. -/
  holder : Option Nat := none
  threads : List (κ × Program σ ι ρ α) := []

inductive Action
  | spawn (task : κ)
  | next (thread : Nat) (choice : χ)

/-- A question that was answered, and whether its thread held the lock. -/
structure Asked where
  thread : Nat
  task : κ
  inside : Bool
  call : ι
  answer : ρ call

end Pools

variable {κ σ ω ι α χ η : Type} {ρ : ι → Type}

namespace Pool

def step (environment : Environment κ ω ι ρ χ) (start : κ → Program σ ι ρ α) (pool : Pool κ σ ω ι ρ α) :
    Action κ χ → Option (Pool κ σ ω ι ρ α × List (Asked κ ι ρ))
  | .spawn task => some ({ pool with threads := pool.threads ++ [(task, start task)] }, [])
  | .next thread choice =>
    match pool.threads[thread]? with
    | none => none
    | some (_, .done _) => none
    | some (task, .ask i next) =>
      let (world, answer) := environment.answer task pool.world i choice
      some ({ pool with world := world, threads := pool.threads.set thread (task, next answer) },
        [⟨thread, task, decide (pool.holder = some thread), i, answer⟩])
    | some (task, .lock next) =>
      if pool.holder = none then
        some ({ pool with
          holder := some thread, threads := pool.threads.set thread (task, next pool.shared) }, [])
      else
        none
    | some (task, .unlock s next) =>
      if pool.holder = some thread then
        some ({ pool with
          shared := s, holder := none, threads := pool.threads.set thread (task, next) }, [])
      else
        none

end Pool

/-- What a step does: it starts a task, or takes one thread one question, lock or unlock further. -/
theorem Pool.step_cases {environment : Environment κ ω ι ρ χ} {start : κ → Program σ ι ρ α} {pool pool' : Pool κ σ ω ι ρ α}
    {action : Action κ χ} {events : List (Asked κ ι ρ)} (h : pool.step environment start action = some (pool', events)) :
    (∃ task, action = .spawn task ∧ pool' = { pool with threads := pool.threads ++ [(task, start task)] } ∧ events = []) ∨
    (∃ thread choice task i next, action = .next thread choice ∧ pool.threads[thread]? = some (task, .ask i next) ∧
      pool' = { pool with
        world := (environment.answer task pool.world i choice).1
        threads := pool.threads.set thread (task, next (environment.answer task pool.world i choice).2) } ∧
      events =
        [⟨thread, task, decide (pool.holder = some thread), i, (environment.answer task pool.world i choice).2⟩]) ∨
    (∃ thread choice task next, action = .next thread choice ∧ pool.threads[thread]? = some (task, .lock next) ∧
      pool.holder = none ∧
      pool' = { pool with
        holder := some thread, threads := pool.threads.set thread (task, next pool.shared) } ∧ events = []) ∨
    (∃ thread choice task s next, action = .next thread choice ∧ pool.threads[thread]? = some (task, .unlock s next) ∧
      pool.holder = some thread ∧
      pool' = { pool with
        shared := s, holder := none, threads := pool.threads.set thread (task, next) } ∧ events = []) := by
  cases action with
  | spawn task =>
      rw [Pool.step, Option.some.injEq, Prod.mk.injEq] at h
      exact .inl ⟨task, rfl, h.1.symm, h.2.symm⟩
  | next thread choice =>
      rw [Pool.step] at h
      rcases hthread : pool.threads[thread]? with _ | ⟨task, program⟩
      · rw [hthread] at h
        cases h
      · rw [hthread] at h
        cases program with
        | done a =>
            cases h
        | ask i next =>
            rw [Option.some.injEq, Prod.mk.injEq] at h
            exact .inr (.inl ⟨thread, choice, task, i, next, rfl, hthread, h.1.symm, h.2.symm⟩)
        | lock next =>
            simp only [Option.ite_none_right_eq_some, Option.some.injEq, Prod.mk.injEq] at h
            exact .inr (.inr (.inl ⟨thread, choice, task, next, rfl, hthread, h.1, h.2.1.symm, h.2.2.symm⟩))
        | unlock s next =>
            simp only [Option.ite_none_right_eq_some, Option.some.injEq, Prod.mk.injEq] at h
            exact .inr (.inr (.inr ⟨thread, choice, task, s, next, rfl, hthread, h.1, h.2.1.symm, h.2.2.symm⟩))

/-! ## Disciplines -/

/-- What programs may do.  `stable inside` is what the others do to the world while a thread is inside its section, or
outside of one. -/
structure Discipline (κ σ η : Type) {ω ι χ : Type} {ρ : ι → Type} (environment : Environment κ ω ι ρ χ) where
  stable : Bool → ω → ω → Prop
  stable_refl : ∀ inside w, stable inside w w
  stable_trans : ∀ {inside w w' w''}, stable inside w w' → stable inside w' w'' → stable inside w w''
  stable_weaken : ∀ {inside w w'}, stable inside w w' → stable false w w'
  /-- What holds of the guarded state while nobody has the lock. -/
  invariant : σ → ω → Prop
  invariant_stable : ∀ {s w w'}, stable true w w' → invariant s w → invariant s w'
  allowed : κ → Bool → ω → ι → Prop
  opens : (i : ι) → ρ i → Multiset η
  closes : ι → Multiset η
  /-- The resources that a question needs and does not close. -/
  uses : ι → Multiset η
  /-- The resources of the guarded state. -/
  owned : σ → Multiset η
  answer_stable : ∀ {task inside w i} (choice : χ), allowed task inside w i →
    stable (!inside) w (environment.answer task w i choice).1

variable {environment : Environment κ ω ι ρ χ} (d : Discipline κ σ η environment) (task : κ)

/-- A program keeps the discipline from a world and with the resources it holds, whatever it is answered and whatever
the others do; `Q` holds where it is done. -/
def Sound (Q : Bool → Multiset η → ω → α → Prop) :
    Program σ ι ρ α → Bool → Multiset η → ω → Prop
  | .done a, inside, held, w => ∀ w', d.stable inside w w' → Q inside held w' a
  | .ask i next, inside, held, w => ∃ kept, held = d.closes i + kept ∧ d.uses i ≤ kept ∧ ∀ w', d.stable inside w w' →
      d.allowed task inside w' i ∧ ∀ choice, Sound Q (next (environment.answer task w' i choice).2) inside
        (d.opens i (environment.answer task w' i choice).2 + kept) (environment.answer task w' i choice).1
  | .lock next, inside, held, w => inside = false ∧ ∀ w', d.stable false w w' → ∀ s, d.invariant s w' →
      Sound Q (next s) true (d.owned s + held) w'
  | .unlock s next, inside, held, w => inside = true ∧ ∃ kept, held = d.owned s + kept ∧
      ∀ w', d.stable true w w' → d.invariant s w' ∧ Sound Q next false kept w'

/-- A program that is over holds nothing. -/
def Quits (inside : Bool) (held : Multiset η) (_ : ω) (_ : α) : Prop :=
  inside = false ∧ held = 0

namespace Sound

variable {d} {task} {Q : Bool → Multiset η → ω → α → Prop} {inside : Bool} {held : Multiset η} {w w' : ω}

theorem stable {program : Program σ ι ρ α} (h : Sound d task Q program inside held w) (hw : d.stable inside w w') :
    Sound d task Q program inside held w' := by
  cases program with
  | done a =>
      intro w'' hw'
      exact h w'' (d.stable_trans hw hw')
  | ask i next =>
      obtain ⟨kept, hheld, huses, hnext⟩ := h
      exact ⟨kept, hheld, huses, fun w'' hw' => hnext w'' (d.stable_trans hw hw')⟩
  | lock next =>
      obtain ⟨rfl, hnext⟩ := h
      exact ⟨rfl, fun w'' hw' => hnext w'' (d.stable_trans hw hw')⟩
  | unlock s next =>
      obtain ⟨rfl, kept, hheld, hnext⟩ := h
      exact ⟨rfl, kept, hheld, fun w'' hw' => hnext w'' (d.stable_trans hw hw')⟩

theorem weaken {R : Bool → Multiset η → ω → α → Prop} {program : Program σ ι ρ α}
    (h : Sound d task Q program inside held w) (hR : ∀ a inside held w, Q inside held w a → R inside held w a) :
    Sound d task R program inside held w := by
  induction program generalizing inside held w with
  | done a =>
      exact fun w' hw => hR a inside held w' (h w' hw)
  | ask i next ih =>
      obtain ⟨kept, hheld, huses, hnext⟩ := h
      refine ⟨kept, hheld, huses, fun w' hw => ?_⟩
      obtain ⟨hallowed, hsound⟩ := hnext w' hw
      exact ⟨hallowed, fun choice => ih _ (hsound choice)⟩
  | lock next ih =>
      obtain ⟨hinside, hnext⟩ := h
      exact ⟨hinside, fun w' hw s hs => ih s (hnext w' hw s hs)⟩
  | unlock s next ih =>
      obtain ⟨hinside, kept, hheld, hnext⟩ := h
      refine ⟨hinside, kept, hheld, fun w' hw => ?_⟩
      obtain ⟨hs, hsound⟩ := hnext w' hw
      exact ⟨hs, ih hsound⟩

theorem bind {β : Type} {R : Bool → Multiset η → ω → β → Prop} {program : Program σ ι ρ α} {f : α → Program σ ι ρ β}
    (h : Sound d task Q program inside held w)
    (hf : ∀ a inside held w, Q inside held w a → Sound d task R (f a) inside held w) :
    Sound d task R (program.bind f) inside held w := by
  induction program generalizing inside held w with
  | done a =>
      exact hf a inside held w (h w (d.stable_refl inside w))
  | ask i next ih =>
      obtain ⟨kept, hheld, huses, hnext⟩ := h
      refine ⟨kept, hheld, huses, fun w' hw => ?_⟩
      obtain ⟨hallowed, hsound⟩ := hnext w' hw
      exact ⟨hallowed, fun choice => ih _ (hsound choice)⟩
  | lock next ih =>
      obtain ⟨hinside, hnext⟩ := h
      exact ⟨hinside, fun w' hw s hs => ih s (hnext w' hw s hs)⟩
  | unlock s next ih =>
      obtain ⟨hinside, kept, hheld, hnext⟩ := h
      refine ⟨hinside, kept, hheld, fun w' hw => ?_⟩
      obtain ⟨hs, hsound⟩ := hnext w' hw
      exact ⟨hs, ih hsound⟩

end Sound

/-! ## The balance of a pool -/

/-- The resources that the questions of a log opened, with repetitions. -/
def openedBy (log : List (Asked κ ι ρ)) : Multiset η :=
  (log.map fun asked => d.opens asked.call asked.answer).sum

def closedBy (log : List (Asked κ ι ρ)) : Multiset η :=
  (log.map fun asked => d.closes asked.call).sum

theorem openedBy_append (log more : List (Asked κ ι ρ)) : openedBy d (log ++ more) = openedBy d log + openedBy d more := by
  rw [openedBy, List.map_append, List.sum_append]
  rfl

theorem closedBy_append (log more : List (Asked κ ι ρ)) : closedBy d (log ++ more) = closedBy d log + closedBy d more := by
  rw [closedBy, List.map_append, List.sum_append]
  rfl

/-- A question that was allowed in the world in which it was asked, which the world after it has grown from. -/
def Asked.Allowed (asked : Asked κ ι ρ) (w : ω) : Prop :=
  ∃ w' choice, d.allowed asked.task asked.inside w' asked.call ∧
    (environment.answer asked.task w' asked.call choice).2 = asked.answer ∧
    d.stable false (environment.answer asked.task w' asked.call choice).1 w

theorem Asked.Allowed.stable {asked : Asked κ ι ρ} {w w' : ω} (h : asked.Allowed d w) (hw : d.stable false w w') :
    asked.Allowed d w' := by
  obtain ⟨w₀, choice, hallowed, hanswer, hstable⟩ := h
  exact ⟨w₀, choice, hallowed, hanswer, d.stable_trans hstable hw⟩

/-- The resources of the guarded state, while nobody holds the lock. -/
def guarded (pool : Pool κ σ ω ι ρ α) : Multiset η :=
  if pool.holder = none then d.owned pool.shared else 0

/-- What was there in the beginning or opened since is closed, the guarded state's or one thread's. -/
structure Accounts (initial : Multiset η) (log : List (Asked κ ι ρ)) (pool : Pool κ σ ω ι ρ α) : Prop where
  balance : ∃ held : Nat → Multiset η,
    (∀ thread task program, pool.threads[thread]? = some (task, program) →
      Sound d task Quits program (decide (pool.holder = some thread)) (held thread) pool.world) ∧
    initial + openedBy d log =
      closedBy d log + (guarded d pool + ∑ thread ∈ Finset.range pool.threads.length, held thread)
  /-- What a question needed or closed was open. -/
  open_before : ∀ before asked after, log = before ++ asked :: after →
    closedBy d before + (d.closes asked.call + d.uses asked.call) ≤ initial + openedBy d before
  invariant : pool.holder = none → d.invariant pool.shared pool.world
  holder_lt : ∀ thread, pool.holder = some thread → thread < pool.threads.length
  allowed : ∀ asked ∈ log, asked.Allowed d pool.world

variable {d}

/-- One summand of a sum is exchanged. -/
theorem sum_update {n thread : Nat} (h : thread < n) (held : Nat → Multiset η) (now : Multiset η) :
    ∃ others, ∑ i ∈ Finset.range n, held i = held thread + others ∧
      ∑ i ∈ Finset.range n, Function.update held thread now i = now + others := by
  have hmem : thread ∈ Finset.range n := Finset.mem_range.2 h
  refine ⟨∑ i ∈ (Finset.range n).erase thread, held i, (Finset.add_sum_erase _ _ hmem).symm, ?_⟩
  rw [← Finset.add_sum_erase _ _ hmem, Function.update_self]
  congr 1
  refine Finset.sum_congr rfl fun i hi => ?_
  rw [Function.update_of_ne (Finset.ne_of_mem_erase hi)]

/-- What one thread does to the world is what another one tolerates. -/
theorem stable_other {holder : Option Nat} {thread other : Nat} {w w' : ω} (hne : other ≠ thread)
    (h : d.stable (!decide (holder = some thread)) w w') : d.stable (decide (holder = some other)) w w' := by
  by_cases hother : holder = some other
  · have hthread : holder ≠ some thread := by
      rw [hother]
      exact fun hsame => hne (Option.some.inj hsame)
    rwa [decide_eq_false hthread, Bool.not_false, ← decide_eq_true hother] at h
  · rw [decide_eq_false hother]
    exact d.stable_weaken h

/-- A thread that has moved on holds something else; the others hold what they held. -/
theorem sound_set {threads : List (κ × Program σ ι ρ α)} {thread : Nat} {moved : κ × Program σ ι ρ α}
    {inside inside' : Nat → Bool} {held : Nat → Multiset η} {now : Multiset η} {w w' : ω}
    (hold : ∀ i task program, threads[i]? = some (task, program) → Sound d task Quits program (inside i) (held i) w)
    (hmoved : Sound d moved.1 Quits moved.2 (inside' thread) now w')
    (hinside : ∀ i, i ≠ thread → inside' i = inside i) (hstable : ∀ i, i ≠ thread → d.stable (inside i) w w') :
    ∀ i task program, (threads.set thread moved)[i]? = some (task, program) →
      Sound d task Quits program (inside' i) (Function.update held thread now i) w' := by
  intro i task program hi
  by_cases hsame : i = thread
  · subst hsame
    have hlt : i < threads.length := by
      have hlength := (List.getElem?_eq_some_iff.1 hi).1
      rwa [List.length_set] at hlength
    rw [List.getElem?_set_self hlt, Option.some.injEq] at hi
    rw [Function.update_self]
    rwa [hi] at hmoved
  · rw [List.getElem?_set_ne (Ne.symm hsame)] at hi
    rw [Function.update_of_ne hsame, hinside i hsame]
    exact (hold i task program hi).stable (hstable i hsame)

variable {start : κ → Program σ ι ρ α} {initial : Multiset η} {log : List (Asked κ ι ρ)}
  {pool pool' : Pool κ σ ω ι ρ α} {events : List (Asked κ ι ρ)}

theorem Accounts.spawn (h : Accounts d initial log pool)
    (hstart : ∀ w, Sound d task Quits (start task) false 0 w) :
    Accounts d initial log { pool with threads := pool.threads ++ [(task, start task)] } := by
  obtain ⟨held, hsound, hbalance⟩ := h.balance
  refine ⟨⟨Function.update held pool.threads.length 0, ?_, ?_⟩, h.open_before, h.invariant, ?_, h.allowed⟩
  · intro i task' program hi
    by_cases hlt : i < pool.threads.length
    · rw [List.getElem?_append_left hlt] at hi
      rw [Function.update_of_ne (Nat.ne_of_lt hlt)]
      exact hsound i task' program hi
    · have hlast : i = pool.threads.length := by
        have hlength := (List.getElem?_eq_some_iff.1 hi).1
        rw [List.length_append, List.length_singleton] at hlength
        omega
      subst hlast
      rw [List.getElem?_concat_length, Option.some.injEq, Prod.mk.injEq] at hi
      obtain ⟨rfl, rfl⟩ := hi
      have hout : pool.holder ≠ some pool.threads.length := fun hholder => Nat.lt_irrefl _ (h.holder_lt _ hholder)
      rw [Function.update_self, decide_eq_false hout]
      exact hstart pool.world
  · have hsame : ∑ i ∈ Finset.range pool.threads.length, Function.update held pool.threads.length 0 i =
        ∑ i ∈ Finset.range pool.threads.length, held i := by
      refine Finset.sum_congr rfl fun i hi => ?_
      rw [Function.update_of_ne (Nat.ne_of_lt (Finset.mem_range.1 hi))]
    rw [hbalance, List.length_append, List.length_singleton, Finset.sum_range_succ, hsame, Function.update_self,
      add_zero]
    rfl
  · intro thread hthread
    rw [List.length_append]
    exact Nat.lt_of_lt_of_le (h.holder_lt thread hthread) (Nat.le_add_right _ _)

theorem Accounts.ask (h : Accounts d initial log pool) {thread : Nat} {i : ι} {next : ρ i → Program σ ι ρ α}
    (hthread : pool.threads[thread]? = some (task, .ask i next)) (choice : χ) :
    Accounts d initial
      (log ++ [⟨thread, task, decide (pool.holder = some thread), i, (environment.answer task pool.world i choice).2⟩])
      { pool with
        world := (environment.answer task pool.world i choice).1
        threads := pool.threads.set thread (task, next (environment.answer task pool.world i choice).2) } := by
  obtain ⟨held, hsound, hbalance⟩ := h.balance
  obtain ⟨kept, hheld, huses, hnext⟩ := hsound thread task _ hthread
  obtain ⟨hallowed, hnext⟩ := hnext pool.world (d.stable_refl _ _)
  have hstable := d.answer_stable choice hallowed
  have hlt : thread < pool.threads.length := (List.getElem?_eq_some_iff.1 hthread).1
  generalize hanswer : environment.answer task pool.world i choice = answered at hnext hstable ⊢
  have hsound' := hnext choice
  rw [hanswer] at hsound'
  refine ⟨⟨Function.update held thread (d.opens i answered.2 + kept), ?_, ?_⟩, ?_, ?_, ?_, ?_⟩
  · exact sound_set hsound hsound' (fun _ _ => rfl) fun other hne => stable_other hne hstable
  · obtain ⟨others, hsum, hsum'⟩ := sum_update hlt held (d.opens i answered.2 + kept)
    have hopens : openedBy d [⟨thread, task, decide (pool.holder = some thread), i, answered.2⟩] = d.opens i answered.2 :=
      add_zero _
    have hcloses : closedBy d [⟨thread, task, decide (pool.holder = some thread), i, answered.2⟩] = d.closes i :=
      add_zero _
    rw [openedBy_append, closedBy_append, hopens, hcloses, ← add_assoc, hbalance, List.length_set, hsum', hsum, hheld]
    change _ = _ + (guarded d pool + _)
    abel
  · intro before asked after hlog
    rcases List.eq_nil_or_concat after with rfl | ⟨later, last, rfl⟩
    · -- the question that is asked now
      obtain ⟨hbefore, hasked⟩ := List.append_inj' hlog rfl
      obtain ⟨hasked, -⟩ := List.cons_eq_cons.1 hasked
      subst hbefore
      subst hasked
      obtain ⟨others, hsum, -⟩ := sum_update hlt held 0
      have hneeds : d.closes i + d.uses i ≤ held thread := by
        rw [hheld]
        exact add_le_add_right huses _
      rw [hbalance, hsum]
      exact add_le_add_right (hneeds.trans ((Multiset.le_add_right _ _).trans (Multiset.le_add_left _ _))) _
    · rw [List.concat_eq_append, ← List.cons_append, ← List.append_assoc] at hlog
      exact h.open_before before asked later (List.append_inj' hlog rfl).1
  · intro (hholder : pool.holder = none)
    have hout : decide (pool.holder = some thread) = false := by
      rw [hholder]
      rfl
    rw [hout, Bool.not_false] at hstable
    exact d.invariant_stable hstable (h.invariant hholder)
  · intro other hother
    rw [List.length_set]
    exact h.holder_lt other hother
  · intro asked hasked
    rcases List.mem_append.1 hasked with hold | hlast
    · exact (h.allowed asked hold).stable d (d.stable_weaken hstable)
    · rw [List.mem_singleton] at hlast
      subst hlast
      refine ⟨pool.world, choice, hallowed, ?_, ?_⟩
      · rw [hanswer]
      · rw [hanswer]
        exact d.stable_refl _ _

theorem Accounts.lock (h : Accounts d initial log pool) {thread : Nat} {next : σ → Program σ ι ρ α}
    (hthread : pool.threads[thread]? = some (task, .lock next)) (hholder : pool.holder = none) :
    Accounts d initial log { pool with
      holder := some thread, threads := pool.threads.set thread (task, next pool.shared) } := by
  obtain ⟨held, hsound, hbalance⟩ := h.balance
  have hlt : thread < pool.threads.length := (List.getElem?_eq_some_iff.1 hthread).1
  have hthis := hsound thread task _ hthread
  rw [hholder] at hthis
  have hnext := hthis.2 pool.world (d.stable_refl _ _) pool.shared (h.invariant hholder)
  refine ⟨⟨Function.update held thread (d.owned pool.shared + held thread), ?_, ?_⟩, h.open_before, ?_, ?_, h.allowed⟩
  · refine sound_set hsound ?_ ?_ fun other _ => d.stable_refl _ _
    · rw [decide_eq_true rfl]
      exact hnext
    · intro other hne
      rw [hholder, decide_eq_false fun hsame => hne (Option.some.inj hsame).symm]
      rfl
  · obtain ⟨others, hsum, hsum'⟩ := sum_update hlt held (d.owned pool.shared + held thread)
    rw [List.length_set, hsum', hbalance, hsum, guarded, if_pos hholder]
    change _ = _ + (0 + _)
    abel
  · intro hnone
    cases hnone
  · intro other hother
    rw [List.length_set]
    exact Option.some.inj hother ▸ hlt

theorem Accounts.unlock (h : Accounts d initial log pool) {thread : Nat} {s : σ} {next : Program σ ι ρ α}
    (hthread : pool.threads[thread]? = some (task, .unlock s next)) (hholder : pool.holder = some thread) :
    Accounts d initial log { pool with
      shared := s, holder := none, threads := pool.threads.set thread (task, next) } := by
  obtain ⟨held, hsound, hbalance⟩ := h.balance
  have hlt : thread < pool.threads.length := (List.getElem?_eq_some_iff.1 hthread).1
  obtain ⟨-, kept, hheld, hnext⟩ := hsound thread task _ hthread
  obtain ⟨hs, hnext⟩ := hnext pool.world (d.stable_refl _ _)
  refine ⟨⟨Function.update held thread kept, ?_, ?_⟩, h.open_before, fun _ => hs, ?_, h.allowed⟩
  · refine sound_set hsound hnext ?_ fun other _ => d.stable_refl _ _
    intro other hne
    rw [hholder, decide_eq_false fun hsame => hne (Option.some.inj hsame).symm]
    rfl
  · obtain ⟨others, hsum, hsum'⟩ := sum_update hlt held kept
    have hnone : pool.holder ≠ none := by
      rw [hholder]
      exact Option.some_ne_none thread
    rw [List.length_set, hsum', hbalance, hsum, hheld, guarded, if_neg hnone]
    change _ = _ + (d.owned s + _)
    abel
  · intro other hother
    cases hother

/-- One step of a pool of sound programs. -/
theorem accounts_step (hstart : ∀ task w, Sound d task Quits (start task) false 0 w)
    (h : Accounts d initial log pool) {action : Action κ χ}
    (hstep : pool.step environment start action = some (pool', events)) :
    Accounts d initial (log ++ events) pool' := by
  rcases Pool.step_cases hstep with ⟨task, rfl, rfl, rfl⟩ | ⟨thread, choice, task, i, next, rfl, hthread, rfl, rfl⟩ |
    ⟨thread, choice, task, next, rfl, hthread, hholder, rfl, rfl⟩ |
    ⟨thread, choice, task, s, next, rfl, hthread, hholder, rfl, rfl⟩
  · rw [List.append_nil]
    exact h.spawn task (hstart task)
  · exact h.ask task hthread choice
  · rw [List.append_nil]
    exact h.lock task hthread hholder
  · rw [List.append_nil]
    exact h.unlock task hthread hholder

/-- Every run of sound programs from a pool without threads. -/
theorem accounts_run (hstart : ∀ task w, Sound d task Quits (start task) false 0 w) {s : σ} {w : ω}
    (hs : d.invariant s w)
    (h : Transition.Run (Pool.step environment start) { shared := s, world := w } log pool) :
    Accounts d (d.owned s) log pool := by
  refine h.logged (P := fun log pool => Accounts d (d.owned s) log pool) ?_ ?_
  · refine ⟨⟨fun _ => 0, ?_, ?_⟩, ?_, fun _ => hs, ?_, ?_⟩
    · intro i task program hi
      cases hi
    · rw [guarded, if_pos rfl]
      simp [openedBy, closedBy]
    · intro before asked after hlog
      exact absurd (congrArg List.length hlog) (by simp)
    · intro thread hthread
      cases hthread
    · intro asked hasked
      cases hasked
  · intro log pool action pool' events haccounts hstep
    exact accounts_step hstart haccounts hstep

/-! ## Progress -/

def Program.result : Program σ ι ρ α → Option α
  | .done a => some a
  | _ => none

def Program.isDone (program : Program σ ι ρ α) : Bool :=
  program.result.isSome

/-- Whoever holds the lock is not over and does not take it again. -/
theorem Accounts.holder_moves (h : Accounts d initial log pool) (start : κ → Program σ ι ρ α) {mover : Nat} (hholder : pool.holder = some mover)
    (choice : χ) : (pool.step environment start (.next mover choice)).isSome := by
  obtain ⟨held, hsound, -⟩ := h.balance
  obtain ⟨task, program, hmover⟩ : ∃ task program, pool.threads[mover]? = some (task, program) :=
    ⟨_, _, List.getElem?_eq_getElem (h.holder_lt mover hholder)⟩
  have hthis := hsound mover task program hmover
  rw [hholder, decide_eq_true rfl] at hthis
  cases program with
  | done a =>
      cases (hthis pool.world (d.stable_refl _ _)).1
  | ask i next =>
      simp [Pool.step, hmover]
  | lock next =>
      cases hthis.1
  | unlock s next =>
      simp [Pool.step, hmover, hholder]

/-- While the lock is free, every thread that is not over can move. -/
theorem Accounts.free_moves (h : Accounts d initial log pool) (start : κ → Program σ ι ρ α)
    (hholder : pool.holder = none) {task : κ} {thread : Nat} {program : Program σ ι ρ α} (hthread : pool.threads[thread]? = some (task, program))
    (hmore : program.isDone = false) (choice : χ) : (pool.step environment start (.next thread choice)).isSome := by
  obtain ⟨held, hsound, -⟩ := h.balance
  have hthis := hsound thread task program hthread
  rw [hholder] at hthis
  cases program with
  | done a =>
      cases hmore
  | ask i next =>
      simp [Pool.step, hthread]
  | lock next =>
      simp [Pool.step, hthread, hholder]
  | unlock s next =>
      cases hthis.1

/-- Where every program is over, what was opened is closed or in the guarded state. -/
theorem Accounts.settled (h : Accounts d initial log pool)
    (hdone : ∀ (thread : Nat) task program, pool.threads[thread]? = some (task, program) → program.isDone = true) :
    pool.holder = none ∧ initial + openedBy d log = closedBy d log + d.owned pool.shared := by
  obtain ⟨held, hsound, hbalance⟩ := h.balance
  have hquits : ∀ thread < pool.threads.length, decide (pool.holder = some thread) = false ∧ held thread = 0 := by
    intro thread hlt
    obtain ⟨⟨task, program⟩, hthread⟩ : ∃ entry, pool.threads[thread]? = some entry := ⟨_, List.getElem?_eq_getElem hlt⟩
    have hthis := hsound thread task program hthread
    have hover := hdone thread task program hthread
    cases program with
    | done a =>
        exact hthis pool.world (d.stable_refl _ _)
    | _ =>
        cases hover
  have hholder : pool.holder = none := by
    cases hholder : pool.holder with
    | none =>
        rfl
    | some mover =>
        have hout := (hquits mover (h.holder_lt mover hholder)).1
        rw [hholder, decide_eq_true rfl] at hout
        cases hout
  refine ⟨hholder, ?_⟩
  rw [hbalance, guarded, if_pos hholder,
    Finset.sum_eq_zero fun thread hmem => (hquits thread (Finset.mem_range.1 hmem)).2, add_zero]

/-! ## Rest -/

section Rest

/-- What a program goes on with. -/
inductive Program.Child : Program σ ι ρ α → Program σ ι ρ α → Prop
  | ask (i : ι) (next : ρ i → Program σ ι ρ α) (answer : ρ i) : Child (next answer) (.ask i next)
  | lock (next : σ → Program σ ι ρ α) (s : σ) : Child (next s) (.lock next)
  | unlock (s : σ) (next : Program σ ι ρ α) : Child next (.unlock s next)

theorem Program.acc (program : Program σ ι ρ α) : Acc Program.Child program := by
  induction program with
  | done a =>
      exact ⟨_, fun child h => by cases h⟩
  | ask i next ih =>
      refine ⟨_, fun child h => ?_⟩
      cases h with
      | ask _ _ answer =>
          exact ih answer
  | lock next ih =>
      refine ⟨_, fun child h => ?_⟩
      cases h with
      | lock _ s =>
          exact ih s
  | unlock s next ih =>
      refine ⟨_, fun child h => ?_⟩
      cases h with
      | unlock _ _ =>
          exact ih

/-- One thread goes on. -/
def Advance (threads' threads : List (κ × Program σ ι ρ α)) : Prop :=
  ∃ thread task program child, threads[thread]? = some (task, program) ∧ Program.Child child program ∧
    threads' = threads.set thread (task, child)

theorem acc_cons (task : κ) {program : Program σ ι ρ α} (hprogram : Acc Program.Child program)
    {threads : List (κ × Program σ ι ρ α)} (hthreads : Acc Advance threads) :
    Acc Advance ((task, program) :: threads) := by
  induction hprogram generalizing threads with
  | intro program _ ih =>
      have hthreads' := hthreads
      induction hthreads with
      | intro threads _ ih' =>
          refine ⟨_, ?_⟩
          rintro moved ⟨thread, task', program', child, hthread, hchild, rfl⟩
          cases thread with
          | zero =>
              rw [List.getElem?_cons_zero, Option.some.injEq, Prod.mk.injEq] at hthread
              obtain ⟨rfl, rfl⟩ := hthread
              exact ih child hchild hthreads'
          | succ thread =>
              rw [List.getElem?_cons_succ] at hthread
              have hmoved : Advance (threads.set thread (task', child)) threads :=
                ⟨thread, task', program', child, hthread, hchild, rfl⟩
              exact ih' _ hmoved (hthreads'.inv hmoved)

theorem acc_advance (threads : List (κ × Program σ ι ρ α)) : Acc Advance threads := by
  induction threads with
  | nil =>
      refine ⟨_, ?_⟩
      rintro moved ⟨thread, task, program, child, hthread, -⟩
      cases hthread
  | cons thread threads ih =>
      exact acc_cons thread.1 thread.2.acc ih

/-- A step of a thread, whatever it is answered. -/
def Moves (environment : Environment κ ω ι ρ χ) (start : κ → Program σ ι ρ α) (pool' pool : Pool κ σ ω ι ρ α) : Prop :=
  ∃ thread choice events, pool.step environment start (.next thread choice) = some (pool', events)

theorem Moves.advance (h : Moves environment start pool' pool) : Advance pool'.threads pool.threads := by
  obtain ⟨thread, choice, events, hstep⟩ := h
  rcases Pool.step_cases hstep with ⟨task, haction, -⟩ | ⟨thread, choice, task, i, next, -, hthread, rfl, -⟩ |
    ⟨thread, choice, task, next, -, hthread, -, rfl, -⟩ | ⟨thread, choice, task, s, next, -, hthread, -, rfl, -⟩
  · cases haction
  · exact ⟨thread, task, _, _, hthread, .ask i next _, rfl⟩
  · exact ⟨thread, task, _, _, hthread, .lock next _, rfl⟩
  · exact ⟨thread, task, _, _, hthread, .unlock s next, rfl⟩

/-- Without new threads a pool comes to rest, whichever thread moves and whatever it is answered. -/
theorem acc_moves (environment : Environment κ ω ι ρ χ) (start : κ → Program σ ι ρ α) (pool : Pool κ σ ω ι ρ α) :
    Acc (Moves environment start) pool := by
  have hsub : Subrelation (Moves environment start) (InvImage Advance Pool.threads) := fun h => h.advance
  exact hsub.accessible (InvImage.accessible _ (acc_advance pool.threads))

/-- A pool whose programs are over is at rest. -/
theorem not_moves_of_done
    (hdone : ∀ (thread : Nat) task program, pool.threads[thread]? = some (task, program) → program.isDone = true)
    (pool' : Pool κ σ ω ι ρ α) : ¬Moves environment start pool' pool := by
  rintro ⟨thread, choice, events, hstep⟩
  rcases Pool.step_cases hstep with ⟨task, haction, -⟩ | ⟨thread, choice, task, i, next, -, hthread, -⟩ |
    ⟨thread, choice, task, next, -, hthread, -⟩ | ⟨thread, choice, task, s, next, -, hthread, -⟩
  · cases haction
  · cases hdone thread task _ hthread
  · cases hdone thread task _ hthread
  · cases hdone thread task _ hthread

/-- A pool of sound programs is at rest only where all of them are over and nobody holds the lock. -/
theorem Accounts.at_rest [Inhabited χ] (h : Accounts d initial log pool)
    (hrest : ∀ pool', ¬Moves environment start pool' pool) :
    pool.holder = none ∧
      ∀ (thread : Nat) task program, pool.threads[thread]? = some (task, program) → program.isDone = true := by
  have hstuck : ∀ thread, (pool.step environment start (.next thread default)).isSome = false := by
    intro thread
    rw [← Bool.not_eq_true]
    intro hsome
    obtain ⟨⟨pool', events⟩, hstep⟩ := Option.isSome_iff_exists.1 hsome
    exact hrest pool' ⟨thread, default, events, hstep⟩
  have hholder : pool.holder = none := by
    cases hholder : pool.holder with
    | none =>
        rfl
    | some mover =>
        have hmoves := h.holder_moves start hholder default
        rw [hstuck mover] at hmoves
        cases hmoves
  refine ⟨hholder, fun thread task program hthread => ?_⟩
  by_contra hmore
  rw [Bool.not_eq_true] at hmore
  have hmoves := h.free_moves start hholder hthread hmore default
  rw [hstuck thread] at hmoves
  cases hmoves

end Rest

/-! ## One thread -/

section Yields

/-- What holds of the questions, with their answers, and the result of a program, whatever it is answered. -/
def Program.Yields (P : List ((i : ι) × ρ i) → α → Prop) : Program σ ι ρ α → List ((i : ι) × ρ i) → Prop
  | .done a, asked => P asked a
  | .ask i next, asked => ∀ answer, (next answer).Yields P (asked ++ [⟨i, answer⟩])
  | .lock next, asked => ∀ s, (next s).Yields P asked
  | .unlock _ next, asked => next.Yields P asked

theorem Program.yields_of_forall {P : List ((i : ι) × ρ i) → α → Prop} (h : ∀ asked a, P asked a) (program : Program σ ι ρ α)
    (asked : List ((i : ι) × ρ i)) : program.Yields P asked := by
  induction program generalizing asked with
  | done a =>
      exact h asked a
  | ask i next ih =>
      exact fun answer => ih answer _
  | lock next ih =>
      exact fun s => ih s asked
  | unlock s next ih =>
      exact ih asked

theorem Program.Yields.mono {P Q : List ((i : ι) × ρ i) → α → Prop} {program : Program σ ι ρ α}
    {asked : List ((i : ι) × ρ i)} (h : program.Yields P asked) (hQ : ∀ a asked, P asked a → Q asked a) :
    program.Yields Q asked := by
  induction program generalizing asked with
  | done a =>
      exact hQ a asked h
  | ask i next ih =>
      exact fun answer => ih answer (h answer)
  | lock next ih =>
      exact fun s => ih s (h s)
  | unlock s next ih =>
      exact ih h

theorem Program.Yields.bind {β : Type} {P : List ((i : ι) × ρ i) → α → Prop} {Q : List ((i : ι) × ρ i) → β → Prop}
    {program : Program σ ι ρ α} {f : α → Program σ ι ρ β} {asked : List ((i : ι) × ρ i)}
    (h : program.Yields P asked) (hf : ∀ a asked, P asked a → (f a).Yields Q asked) :
    (program.bind f).Yields Q asked := by
  induction program generalizing asked with
  | done a =>
      exact hf a asked h
  | ask i next ih =>
      exact fun answer => ih answer (h answer)
  | lock next ih =>
      exact fun s => ih s (h s)
  | unlock s next ih =>
      exact ih h

/-- All questions of a program are of a kind. -/
def Program.Only (p : ι → Prop) : Program σ ι ρ α → Prop
  | .done _ => True
  | .ask i next => p i ∧ ∀ answer, (next answer).Only p
  | .lock next => ∀ s, (next s).Only p
  | .unlock _ next => next.Only p

theorem Program.Only.bind {β : Type} {p : ι → Prop} {program : Program σ ι ρ α} {f : α → Program σ ι ρ β}
    (h : program.Only p) (hf : ∀ a, (f a).Only p) : (program.bind f).Only p := by
  induction program with
  | done a =>
      exact hf a
  | ask i next ih =>
      exact ⟨h.1, fun answer => ih answer (h.2 answer)⟩
  | lock next ih =>
      exact fun s => ih s (h s)
  | unlock s next ih =>
      exact ih h

theorem Program.Only.yields {p : ι → Prop} {program : Program σ ι ρ α} (h : program.Only p)
    {front asked : List ((i : ι) × ρ i)} (hasked : ∃ more, asked = front ++ more ∧ ∀ one ∈ more, p one.1) :
    program.Yields (fun asked _ => ∃ more, asked = front ++ more ∧ ∀ one ∈ more, p one.1) asked := by
  induction program generalizing asked with
  | done a =>
      exact hasked
  | ask i next ih =>
      intro answer
      refine ih answer (h.2 answer) ?_
      obtain ⟨more, rfl, hmore⟩ := hasked
      refine ⟨more ++ [⟨i, answer⟩], List.append_assoc _ _ _, ?_⟩
      intro one hone
      rcases List.mem_append.1 hone with hold | hlast
      · exact hmore one hold
      · rw [List.mem_singleton.1 hlast]
        exact h.1
  | lock next ih =>
      exact fun s => ih s (h s) hasked
  | unlock s next ih =>
      exact ih h hasked

/-- The questions of one thread. -/
def askedBy (thread : Nat) (log : List (Asked κ ι ρ)) : List ((i : ι) × ρ i) :=
  (log.filter (·.thread = thread)).map fun asked => ⟨asked.call, asked.answer⟩

theorem askedBy_append (thread : Nat) (log more : List (Asked κ ι ρ)) :
    askedBy thread (log ++ more) = askedBy thread log ++ askedBy thread more := by
  rw [askedBy, List.filter_append, List.map_append]
  rfl

/-- Threads that have not started have asked nothing; the others are on the way to their results. -/
structure Yielding (P : κ → List ((i : ι) × ρ i) → α → Prop) (log : List (Asked κ ι ρ)) (pool : Pool κ σ ω ι ρ α) :
    Prop where
  yields : ∀ thread task program, pool.threads[thread]? = some (task, program) →
    Program.Yields (P task) program (askedBy thread log)
  silent : ∀ thread, pool.threads.length ≤ thread → askedBy thread log = []

variable {P : κ → List ((i : ι) × ρ i) → α → Prop}

/-- A thread has moved on, and asked at most one question. -/
theorem Yielding.set (h : Yielding P log pool) {thread : Nat} (hlt : thread < pool.threads.length) {task : κ}
    {moved : Program σ ι ρ α} {events : List (Asked κ ι ρ)} (hevents : ∀ asked ∈ events, asked.thread = thread)
    (hmoved : moved.Yields (P task) (askedBy thread (log ++ events))) (shared : σ) (world : ω) (holder : Option Nat) :
    Yielding P (log ++ events) ⟨shared, world, holder, pool.threads.set thread (task, moved)⟩ := by
  have hothers : ∀ other, other ≠ thread → askedBy other (log ++ events) = askedBy other log := by
    intro other hne
    have hnone : askedBy other events = [] := by
      rw [askedBy, List.filter_eq_nil_iff.2, List.map_nil]
      intro asked hasked
      rw [hevents asked hasked, decide_eq_true_eq]
      exact hne.symm
    rw [askedBy_append, hnone, List.append_nil]
  refine ⟨?_, ?_⟩
  · intro other task' program hother
    by_cases hsame : other = thread
    · subst hsame
      rw [List.getElem?_set_self hlt, Option.some.injEq, Prod.mk.injEq] at hother
      obtain ⟨rfl, rfl⟩ := hother
      exact hmoved
    · rw [List.getElem?_set_ne (Ne.symm hsame)] at hother
      rw [hothers other hsame]
      exact h.yields other task' program hother
  · intro other hother
    rw [List.length_set] at hother
    rw [hothers other fun hsame => absurd (hsame ▸ hother) (Nat.not_le.2 hlt)]
    exact h.silent other hother

theorem yielding_step (hstart : ∀ task, (start task).Yields (P task) []) (h : Yielding P log pool)
    {action : Action κ χ} (hstep : pool.step environment start action = some (pool', events)) :
    Yielding P (log ++ events) pool' := by
  rcases Pool.step_cases hstep with ⟨task, rfl, rfl, rfl⟩ | ⟨thread, choice, task, i, next, rfl, hthread, rfl, rfl⟩ |
    ⟨thread, choice, task, next, rfl, hthread, -, rfl, rfl⟩ | ⟨thread, choice, task, s, next, rfl, hthread, -, rfl, rfl⟩
  · rw [List.append_nil]
    refine ⟨?_, ?_⟩
    · intro thread task' program hthread
      by_cases hlt : thread < pool.threads.length
      · rw [List.getElem?_append_left hlt] at hthread
        exact h.yields thread task' program hthread
      · have hsame : thread = pool.threads.length := by
          have hbound := (List.getElem?_eq_some_iff.1 hthread).1
          rw [List.length_append, List.length_singleton] at hbound
          omega
        subst hsame
        rw [List.getElem?_concat_length, Option.some.injEq, Prod.mk.injEq] at hthread
        obtain ⟨rfl, rfl⟩ := hthread
        rw [h.silent _ le_rfl]
        exact hstart task
    · intro thread hthread
      rw [List.length_append] at hthread
      exact h.silent thread (Nat.le_of_add_right_le hthread)
  · refine h.set (List.getElem?_eq_some_iff.1 hthread).1 (by simp) ?_ _ _ _
    rw [askedBy_append]
    have hnext := h.yields thread task _ hthread (environment.answer task pool.world i choice).2
    simpa [askedBy] using hnext
  · refine h.set (List.getElem?_eq_some_iff.1 hthread).1 (by simp) ?_ _ _ _
    rw [List.append_nil]
    exact h.yields thread task _ hthread pool.shared
  · refine h.set (List.getElem?_eq_some_iff.1 hthread).1 (by simp) ?_ _ _ _
    rw [List.append_nil]
    exact h.yields thread task (.unlock s next) hthread

/-- A thread that is over yields what its program yields alone. -/
theorem yields_run (hstart : ∀ task, (start task).Yields (P task) []) {s : σ} {w : ω}
    (h : Transition.Run (Pool.step environment start) { shared := s, world := w } log pool) {thread : Nat} {task : κ}
    {a : α} (hthread : pool.threads[thread]? = some (task, .done a)) : P task (askedBy thread log) a := by
  have hyielding : Yielding P log pool := by
    refine h.logged (P := fun log pool => Yielding P log pool) ?_ ?_
    · refine ⟨?_, fun _ _ => rfl⟩
      intro thread task program hthread
      cases hthread
    · intro log pool action pool' events hyielding hstep
      exact yielding_step hstart hyielding hstep
  exact hyielding.yields thread task (.done a) hthread

end Yields

end Threads
