import Mathlib.Data.List.Basic
import Mathlib.Data.List.Induction

/-!
# DotStack — resolving a walk of moves with a stack

A relative walk is a list of moves: stay, go up, or go into a named child.  `run` executes a walk
on a stack of names, top last.  With a floor, going up from the empty stack stays there; without
one it fails.

The names are arbitrary, so the same lemmas serve any separator, any spelling of the moves and any
program that keeps such a stack.
-/

namespace DotStack

variable {β : Type*}

/-- One step of a walk. -/
inductive Move (β : Type*)
  | stay
  | up
  | into (name : β)
  deriving DecidableEq, Repr

/-- Execute one move. -/
def step (floor : Bool) (stack : List β) : Move β → Option (List β)
  | .stay => some stack
  -- a floor holds the walk at the empty stack, where without one it fails
  | .up =>
      if stack.isEmpty then
        if floor then some [] else none
      else
        some stack.dropLast
  | .into b => some (stack ++ [b])

/-- Execute a walk from a stack. -/
def run (floor : Bool) : List β → List (Move β) → Option (List β)
  | stack, [] => some stack
  | stack, m :: ms => (step floor stack m).bind fun stack' => run floor stack' ms

variable {floor : Bool} {stack stack' : List β} {m : Move β} {ms ns : List (Move β)}

@[simp] theorem run_nil : run floor stack [] = some stack := rfl

@[simp] theorem run_stay : run floor stack (.stay :: ms) = run floor stack ms := rfl

@[simp] theorem run_into (b : β) :
    run floor stack (.into b :: ms) = run floor (stack ++ [b]) ms := rfl

/-- One walk after another. -/
theorem run_append : run floor stack (ms ++ ns) = (run floor stack ms).bind fun s => run floor s ns := by
  induction ms generalizing stack with
  | nil =>
      rfl
  | cons m ms ih =>
      rw [List.cons_append, run, run, Option.bind_assoc]
      exact congrArg _ (funext fun s => ih)

/-- A walk that only descends pushes its names. -/
theorem run_map_into (bs : List β) :
    run floor stack (bs.map Move.into) = some (stack ++ bs) := by
  induction bs generalizing stack with
  | nil =>
      simp
  | cons b bs ih =>
      simp [ih]

theorem step_floor_isSome (stack : List β) (m : Move β) : ∃ s, step true stack m = some s := by
  cases m with
  | stay =>
      exact ⟨stack, rfl⟩
  | up =>
      cases stack with
      | nil =>
          exact ⟨[], rfl⟩
      | cons b bs =>
          exact ⟨(b :: bs).dropLast, rfl⟩
  | into b =>
      exact ⟨stack ++ [b], rfl⟩

/-- With a floor every walk succeeds. -/
theorem run_floor_isSome (stack : List β) (ms : List (Move β)) : ∃ s, run true stack ms = some s := by
  induction ms generalizing stack with
  | nil =>
      exact ⟨stack, rfl⟩
  | cons m ms ih =>
      rcases step_floor_isSome stack m with ⟨s, hs⟩
      rcases ih s with ⟨s', hs'⟩
      exact ⟨s', by simp [run, hs, hs']⟩

theorem mem_of_step {b : β} (h : step floor stack m = some stack') (hb : b ∈ stack') :
    b ∈ stack ∨ m = .into b := by
  cases m with
  | stay =>
      have heq : stack = stack' := by simpa [step] using h
      exact Or.inl (heq ▸ hb)
  | up =>
      cases stack with
      | nil =>
          cases floor with
          | false =>
              simp [step] at h
          | true =>
              have heq : [] = stack' := by simpa [step] using h
              simp [← heq] at hb
      | cons c cs =>
          have heq : (c :: cs).dropLast = stack' := by simpa [step] using h
          exact Or.inl (List.dropLast_subset _ (heq ▸ hb))
  | into c =>
      have heq : stack ++ [c] = stack' := by simpa [step] using h
      rw [← heq] at hb
      rcases List.mem_append.1 hb with hb | hb
      · exact Or.inl hb
      · right
        rw [List.mem_singleton.1 hb]

/-- Every name left on the stack was there before or was entered by the walk. -/
theorem mem_of_run {b : β} (h : run floor stack ms = some stack') (hb : b ∈ stack') :
    b ∈ stack ∨ Move.into b ∈ ms := by
  induction ms generalizing stack with
  | nil =>
      have heq : stack = stack' := by simpa using h
      exact Or.inl (heq ▸ hb)
  -- the induction follows the walk, so the stack changes with every move
  | cons m ms ih =>
      rcases Option.bind_eq_some_iff.1 h with ⟨s, hs, hrun⟩
      rcases ih hrun with hmem | hmem
      · rcases mem_of_step hs hmem with hmem | rfl
        · exact Or.inl hmem
        · exact Or.inr (by simp)
      · exact Or.inr (by simp [hmem])

/-! ## What lies under a walk -/

theorem step_up_eq_some_iff : step false stack .up = some stack' ↔ stack ≠ [] ∧ stack.dropLast = stack' := by
  cases stack with
  | nil =>
      simp [step]
  | cons b bs =>
      simp [step]

theorem step_append (below : List β) (h : step false stack m = some stack') :
    step false (below ++ stack) m = some (below ++ stack') := by
  cases m with
  | stay =>
      have heq : stack = stack' := by simpa [step] using h
      rw [heq]
      rfl
  | up =>
      obtain ⟨hne, hdrop⟩ := step_up_eq_some_iff.1 h
      apply step_up_eq_some_iff.2
      rw [List.dropLast_append_of_ne_nil hne, hdrop]
      exact ⟨List.append_ne_nil_of_right_ne_nil _ hne, rfl⟩
  | into b =>
      have heq : stack ++ [b] = stack' := by simpa [step] using h
      rw [step, List.append_assoc, heq]

/-- Without a floor a walk never touches what lies under the stack it starts from. -/
theorem run_append_stack (below : List β) (h : run false stack ms = some stack') :
    run false (below ++ stack) ms = some (below ++ stack') := by
  induction ms generalizing stack with
  | nil =>
      have heq : stack = stack' := by simpa using h
      rw [heq]
      rfl
  | cons m ms ih =>
      obtain ⟨s, hs, hrun⟩ := Option.bind_eq_some_iff.1 h
      rw [run, step_append below hs]
      exact ih hrun

/-- The lowest name left was entered at an empty stack, and the walk never went back above it. -/
theorem run_eq_cons_iff {b : β} {bs : List β} : run false [] ms = some (b :: bs) ↔
    ∃ ns more, ms = ns ++ .into b :: more ∧ run false [] ns = some [] ∧ run false [] more = some bs := by
  constructor
  · intro h
    -- the last move decides whether the lowest name is new
    induction ms using List.reverseRecOn generalizing bs with
    | nil =>
        cases h
    | append_singleton ms m ih =>
        rw [run_append] at h
        obtain ⟨s, hs, hlast⟩ := Option.bind_eq_some_iff.1 h
        have hstep : step false s m = some (b :: bs) := by
          simpa [run] using hlast
        have hextend {s' : List β} (hs' : s = b :: s') (hmove : step false s' m = some bs) :
            ∃ ns more, ms ++ [m] = ns ++ .into b :: more ∧ run false [] ns = some [] ∧
              run false [] more = some bs := by
          rw [hs'] at hs
          obtain ⟨ns, more, rfl, hns, hmore⟩ := ih hs
          refine ⟨ns, more ++ [m], by simp, hns, ?_⟩
          rw [run_append, hmore]
          simp [run, hmove]
        cases m with
        | stay =>
            exact hextend (by simpa [step] using hstep) rfl
        | up =>
            obtain ⟨hne, hdrop⟩ := step_up_eq_some_iff.1 hstep
            have hlonger : s = b :: (bs ++ [s.getLast hne]) := by
              rw [← List.cons_append, ← hdrop, List.dropLast_append_getLast]
            refine hextend hlonger (step_up_eq_some_iff.2 ?_)
            simp
        | into c =>
            have happend : s ++ [c] = b :: bs := by simpa [step] using hstep
            cases s with
            | nil =>
                obtain ⟨rfl, rfl⟩ := List.cons.inj happend
                exact ⟨ms, [], rfl, hs, rfl⟩
            | cons d s =>
                obtain ⟨rfl, rfl⟩ := List.cons.inj happend
                exact hextend rfl rfl
  · rintro ⟨ns, more, rfl, hns, hmore⟩
    have habove := run_append_stack [b] hmore
    rw [run_append, hns, Option.bind_some, run_into, List.nil_append]
    simpa using habove

/-- The names entered by a walk, in order. -/
def names (ms : List (Move β)) : List β :=
  ms.filterMap fun m =>
    match m with
    | .into b => some b
    | _ => none

/-- What is left of a walk is a sublist of what was there and what was entered. -/
theorem sublist_of_run (h : run floor stack ms = some stack') : stack'.Sublist (stack ++ names ms) := by
  induction ms generalizing stack with
  | nil =>
      have heq : stack = stack' := by simpa using h
      simp [heq, names]
  | cons m ms ih =>
      rcases Option.bind_eq_some_iff.1 h with ⟨s, hs, hrun⟩
      have hrest := ih hrun
      cases m with
      | stay =>
          have heq : stack = s := by simpa [step] using hs
          simpa [heq, names] using hrest
      | up =>
          -- the only move that loses a name, and it loses the last one
          have hsub : s.Sublist stack := by
            rw [step] at hs
            split_ifs at hs with hempty hfloor
            · rw [← Option.some.inj hs]
              exact List.nil_sublist _
            · rw [← Option.some.inj hs]
              exact List.dropLast_sublist _
          exact hrest.trans (List.Sublist.append_right hsub _)
      | into b =>
          have heq : stack ++ [b] = s := by simpa [step] using hs
          simpa [← heq, names] using hrest

/-! ## Where a walk fails -/

/-- How often a walk goes up. -/
def ups (ms : List (Move β)) : Nat :=
  ms.countP fun m =>
    match m with
    | .up => true
    | _ => false

/-- A condition on some front of a walk holds before its first move or behind it. -/
theorem exists_prefix_cons_iff {P : List (Move β) → Prop} :
    (∃ front, front <+: m :: ms ∧ P front) ↔ P [] ∨ ∃ front, front <+: ms ∧ P (m :: front) := by
  constructor
  · rintro ⟨front, hfront, h⟩
    rcases List.prefix_cons_iff.1 hfront with rfl | ⟨tail, rfl, htail⟩
    · exact .inl h
    · exact .inr ⟨tail, htail, h⟩
  · rintro (h | ⟨front, hfront, h⟩)
    · exact ⟨[], List.nil_prefix, h⟩
    · exact ⟨m :: front, List.cons_prefix_cons.2 ⟨rfl, hfront⟩, h⟩

/-- Without a floor a walk fails where some front of it goes up more often than there are names below it and names
that it entered. -/
theorem run_eq_none_iff : run false stack ms = none ↔
    ∃ front, front <+: ms ∧ stack.length + (names front).length < ups front := by
  induction ms generalizing stack with
  | nil =>
      simp [ups]
  | cons m ms ih =>
      rw [exists_prefix_cons_iff]
      have hstart : ¬stack.length + (names ([] : List (Move β))).length < ups ([] : List (Move β)) := by
        simp [ups]
      rw [or_iff_right hstart]
      cases m with
      | stay =>
          rw [run_stay, ih]
          rfl
      | into b =>
          rw [run_into, ih, List.length_append, List.length_singleton]
          refine exists_congr fun front => and_congr_right fun _ => ?_
          have hnames : (names (.into b :: front)).length = (names front).length + 1 := rfl
          have hups : ups (.into b :: front) = ups front := rfl
          rw [hnames, hups]
          omega
      | up =>
          have hnames (front : List (Move β)) : (names (.up :: front)).length = (names front).length := rfl
          have hups (front : List (Move β)) : ups (.up :: front) = ups front + 1 := List.countP_cons_of_pos rfl
          simp only [hnames, hups]
          cases stack with
          | nil =>
              -- the front that ends here already goes below the start
              have hfails : run false ([] : List β) (.up :: ms) = none := rfl
              rw [hfails]
              refine iff_of_true rfl ⟨[], List.nil_prefix, ?_⟩
              simp [names, ups]
          | cons b bs =>
              have hmove : run false (b :: bs) (.up :: ms) = run false (b :: bs).dropLast ms := rfl
              rw [hmove, ih, List.length_dropLast, List.length_cons]
              refine exists_congr fun front => and_congr_right fun _ => ?_
              omega

end DotStack
