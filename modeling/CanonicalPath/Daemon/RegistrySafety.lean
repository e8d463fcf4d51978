import CanonicalPath.Daemon.Registry
import CanonicalPath.Library.Keyed
import Mathlib.Data.List.Perm.Basic

/-!
# Registry safety — what holds over every history

Handles are conserved: the number of places that own a handle (project ids that hold it, calls that
have taken it, calls of `Close` on it) is the number of times it was opened, which is at most one.
Every operation is a sequence of moves that keep this.

* `Conserved` : the balance, and its moves
* `Consistent` : the invariant, and its moves
* `consistent_step` : every operation keeps the invariant
* `shut_step` : nothing is registered or returned after the shutdown
* `registry_consistent` : the whole history
-/

namespace CanonicalPath

namespace Daemon

namespace Server

open Transition

section

variable {roots : AList fun _ : Bytes => Option Nat} {taken : List Nat}
  {limit : Int} {log events : List RegistryEvent} {s : Server} {id : Bytes} {handle : Nat}

/-! ## The balance -/

def Conserved (roots : AList fun _ : Bytes => Option Nat) (taken : List Nat)
    (log : List RegistryEvent) : Prop :=
  ∀ handle, Keyed.count (some handle) roots + taken.count handle + log.count (.closed (some handle)) =
    log.count (.opened handle)

/-- Events that open and close no project root. -/
def Idle : RegistryEvent → Prop
  | .opened _ => False
  | .closed _ => False
  | _ => True

theorem count_opened_idle (hevents : ∀ event ∈ events, Idle event) (handle : Nat) :
    events.count (.opened handle) = 0 :=
  List.count_eq_zero_of_not_mem fun hmem => hevents _ hmem

theorem count_closed_idle (hevents : ∀ event ∈ events, Idle event) (root : Option Nat) :
    events.count (.closed root) = 0 :=
  List.count_eq_zero_of_not_mem fun hmem => hevents _ hmem

theorem count_closed (handle handle' : Nat) :
    [RegistryEvent.closed (some handle)].count (.closed (some handle')) =
      if handle = handle' then 1 else 0 := by
  rw [List.count_singleton]
  simp

theorem count_root (hroot : roots.lookup id = some (some handle)) (handle' : Nat) :
    Keyed.count (some handle') roots =
      Keyed.count (some handle') (roots.erase id) + if handle = handle' then 1 else 0 := by
  rw [Keyed.count_erase id, hroot]
  simp only [Option.some.injEq]

theorem Conserved.idle (h : Conserved roots taken log) (hevents : ∀ event ∈ events, Idle event) :
    Conserved roots taken (log ++ events) := by
  intro handle
  rw [List.count_append, List.count_append, count_opened_idle hevents, count_closed_idle hevents]
  exact h handle

/-- From a project to `Close`. -/
theorem Conserved.drop (h : Conserved roots taken log) (hroot : roots.lookup id = some (some handle)) :
    Conserved (roots.erase id) taken (log ++ [.closed (some handle)]) := by
  intro handle'
  have hbalance := h handle'
  have herase := count_root hroot handle'
  have hopened : [RegistryEvent.closed (some handle)].count (.opened handle') = 0 := rfl
  rw [List.count_append, List.count_append, count_closed, hopened]
  omega

/-- From a project to a call. -/
theorem Conserved.take (h : Conserved roots taken log) (hroot : roots.lookup id = some (some handle)) :
    Conserved (roots.erase id) (taken ++ [handle]) log := by
  intro handle'
  have hbalance := h handle'
  have herase := count_root hroot handle'
  have htaken : [handle].count handle' = if handle = handle' then 1 else 0 := by
    rw [List.count_singleton]
    simp only [beq_iff_eq]
  rw [List.count_append, htaken]
  omega

/-- From a call to `Close`. -/
theorem Conserved.finish (h : Conserved roots taken log) {call : Nat}
    (hcall : taken[call]? = some handle) :
    Conserved roots (taken.eraseIdx call) (log ++ [.closed (some handle)]) := by
  intro handle'
  have hbalance := h handle'
  have hopened : [RegistryEvent.closed (some handle)].count (.opened handle') = 0 := rfl
  have herase : taken.count handle' =
      (taken.eraseIdx call).count handle' + if handle = handle' then 1 else 0 := by
    obtain ⟨hlt, hget⟩ := List.getElem?_eq_some_iff.1 hcall
    rw [← (List.getElem_cons_eraseIdx_perm hlt).count_eq, hget, List.count_cons]
    simp only [beq_iff_eq]
  rw [List.count_append, List.count_append, count_closed, hopened]
  omega

/-- From the filesystem to a project, and from there to `Close` what the project held. -/
theorem Conserved.register (h : Conserved roots taken log) (hstored : roots.lookup id ≠ some none) :
    Conserved (roots.insert id (some handle)) taken (log ++ .opened handle ::
      (mapGet roots id).toList.map fun old => .closed (some old)) := by
  intro handle'
  have hbalance := h handle'
  have hinsert := Keyed.count_insert id (some handle') (some handle) roots
  simp only [Option.some.injEq] at hinsert
  rw [List.count_append, List.count_append, List.count_cons, List.count_cons]
  simp only [beq_iff_eq, RegistryEvent.opened.injEq, reduceCtorEq, if_false]
  rcases hroot : roots.lookup id with _ | _ | old
  · have herase : roots.erase id = roots := Keyed.erase_of_notMem (AList.lookup_eq_none.1 hroot)
    rw [herase] at hinsert
    simp only [mapGet, hroot, Option.join_none, Option.toList_none, List.map_nil, List.count_nil]
    omega
  · exact absurd hroot hstored
  · have herase := count_root hroot handle'
    have hclosed := count_closed old handle'
    have hopened : [RegistryEvent.closed (some old)].count (.opened handle') = 0 := rfl
    simp only [mapGet, hroot, Option.join_some, Option.toList_some, List.map_cons, List.map_nil,
      hclosed, hopened]
    omega

/-! ## The invariant -/

/-- `limit` is the number of projects that the options allow. -/
structure Consistent (limit : Int) (log : List RegistryEvent) (s : Server) : Prop where
  limit_eq : s.maxProjects = limit
  keys : ∀ id, id ∈ s.lastUsed ↔ id ∈ s.roots
  stored : ∀ id, s.roots.lookup id ≠ some none
  bounded : (s.roots.keys.length : Int) ≤ limit
  conserved : Conserved s.roots s.taken log
  issued : ∀ handle, log.count (.opened handle) = if handle < s.handles then 1 else 0
  noNil : .closed none ∉ log

theorem Consistent.idle (hs : Consistent limit log s) (hevents : ∀ event ∈ events, Idle event) :
    Consistent limit (log ++ events) s := by
  refine { hs with conserved := hs.conserved.idle hevents, issued := ?_, noNil := ?_ }
  · intro handle
    rw [List.count_append, count_opened_idle hevents]
    exact hs.issued handle
  · rw [List.mem_append, not_or]
    exact ⟨hs.noNil, fun hmem => hevents _ hmem⟩

theorem Consistent.registered (hs : Consistent limit log s) (hid : id ∈ s.roots) :
    ∃ handle, s.roots.lookup id = some (some handle) := by
  obtain ⟨root, hroot⟩ := Option.isSome_iff_exists.1 (AList.lookup_isSome.2 hid)
  cases root with
  | none =>
      exact absurd hroot (hs.stored id)
  | some handle =>
      exact ⟨handle, hroot⟩

theorem lookup_of_mapGet (h : mapGet roots id = some handle) : roots.lookup id = some (some handle) :=
  Option.join_eq_some_iff.1 h

theorem mem_of_lookup (h : roots.lookup id = some (some handle)) : id ∈ roots :=
  AList.lookup_isSome.1 (Option.isSome_iff_exists.2 ⟨_, h⟩)

theorem keys_delete (hs : Consistent limit log s) (id id' : Bytes) :
    id' ∈ (s.delete id).lastUsed ↔ id' ∈ (s.delete id).roots := by
  rw [delete, AList.mem_erase, AList.mem_erase, hs.keys id']

theorem stored_delete (hs : Consistent limit log s) (id id' : Bytes) :
    (s.delete id).roots.lookup id' ≠ some none := by
  by_cases hid : id' = id
  · subst hid
    rw [delete, AList.lookup_erase]
    exact (Option.some_ne_none _).symm
  · rw [delete, AList.lookup_erase_ne hid]
    exact hs.stored id'

theorem bounded_delete (hs : Consistent limit log s) (id : Bytes) :
    ((s.delete id).roots.keys.length : Int) ≤ limit :=
  Int.le_trans (Int.ofNat_le.2 (Keyed.length_keys_erase_le id s.roots)) hs.bounded

theorem noNil_append (hs : Consistent limit log s) (handle : Nat) :
    RegistryEvent.closed none ∉ log ++ [.closed (some handle)] := by
  rw [List.mem_append, not_or]
  exact ⟨hs.noNil, by simp⟩

theorem issued_append (hs : Consistent limit log s) (handle handle' : Nat) :
    (log ++ [RegistryEvent.closed (some handle)]).count (.opened handle') =
      if handle' < s.handles then 1 else 0 := by
  rw [List.count_append]
  exact hs.issued handle'

theorem Consistent.drop (hs : Consistent limit log s) (hroot : s.roots.lookup id = some (some handle)) :
    Consistent limit (log ++ [.closed (some handle)]) (s.delete id) where
  limit_eq := hs.limit_eq
  keys := keys_delete hs id
  stored := stored_delete hs id
  bounded := bounded_delete hs id
  conserved := hs.conserved.drop hroot
  issued := issued_append hs handle
  noNil := noNil_append hs handle

theorem Consistent.take (hs : Consistent limit log s) (hroot : s.roots.lookup id = some (some handle)) :
    Consistent limit log { s.delete id with taken := s.taken ++ [handle] } where
  limit_eq := hs.limit_eq
  keys := keys_delete hs id
  stored := stored_delete hs id
  bounded := bounded_delete hs id
  conserved := hs.conserved.take hroot
  issued := hs.issued
  noNil := hs.noNil

theorem Consistent.finish (hs : Consistent limit log s) {call : Nat} (hcall : s.taken[call]? = some handle) :
    Consistent limit (log ++ [.closed (some handle)]) { s with taken := s.taken.eraseIdx call } where
  limit_eq := hs.limit_eq
  keys := hs.keys
  stored := hs.stored
  bounded := hs.bounded
  conserved := hs.conserved.finish hcall
  issued := issued_append hs handle
  noNil := noNil_append hs handle

/-- A lease is renewed. -/
theorem Consistent.renew (hs : Consistent limit log s) (hid : id ∈ s.roots) (now : Int) :
    Consistent limit log { s with lastUsed := s.lastUsed.insert id now } := by
  refine { hs with keys := ?_ }
  intro id'
  rw [AList.mem_insert, hs.keys]
  constructor
  · intro h
    rcases h with hid' | h
    · rw [hid']
      exact hid
    · exact h
  · exact .inr

theorem Consistent.register (hs : Consistent limit log s)
    (hroom : mapGet s.roots id ≠ none ∨ (s.roots.keys.length : Int) < limit) (now : Int) :
    Consistent limit (log ++ .opened s.handles ::
        (mapGet s.roots id).toList.map fun old => .closed (some old))
      { s with
        handles := s.handles + 1
        roots := s.roots.insert id (some s.handles)
        lastUsed := s.lastUsed.insert id now } where
  limit_eq := hs.limit_eq
  keys := by
    intro id'
    rw [AList.mem_insert, AList.mem_insert, hs.keys]
  stored := by
    intro id'
    by_cases hid : id' = id
    · subst hid
      rw [AList.lookup_insert]
      simp
    · rw [AList.lookup_insert_ne hid]
      exact hs.stored id'
  bounded := by
    by_cases hid : id ∈ s.roots
    · rw [Keyed.length_keys_insert_of_mem hid]
      exact hs.bounded
    · rw [Keyed.length_keys_insert_of_notMem hid]
      have hroot : mapGet s.roots id = none := by
        rw [mapGet, AList.lookup_eq_none.2 hid]
        rfl
      exact hroom.resolve_left (absurd hroot)
  conserved := hs.conserved.register (hs.stored id)
  -- the handles that were opened are those below the counter, which has gone up by one
  issued := by
    intro handle
    have hold : ((mapGet s.roots id).toList.map fun old => RegistryEvent.closed (some old)).count
        (.opened handle) = 0 := by
      apply List.count_eq_zero_of_not_mem
      simp
    rw [List.count_append, List.count_cons, hold, hs.issued]
    simp only [beq_iff_eq, RegistryEvent.opened.injEq]
    split_ifs <;> omega
  noNil := by
    rw [List.mem_append, not_or]
    exact ⟨hs.noNil, by simp⟩

/-! ## Loops -/

theorem Consistent.expire (now : Int) (order : List Bytes) (hs : Consistent limit log s) :
    Consistent limit (log ++ (expireRootsLocked now order s).2) (expireRootsLocked now order s).1 := by
  induction order generalizing log s with
  | nil =>
      rw [expireRootsLocked, List.append_nil]
      exact hs
  | cons id order ih =>
      rw [expireRootsLocked]
      rcases hlast : s.lastUsed.lookup id with _ | last
      · exact ih hs
      · by_cases hexpired : now - last ≥ s.projectIdleTimeout
        · -- the two maps have the same keys, so the root is there
          have hid : id ∈ s.lastUsed := AList.lookup_isSome.1 (Option.isSome_iff_exists.2 ⟨last, hlast⟩)
          obtain ⟨handle, hroot⟩ := hs.registered ((hs.keys id).1 hid)
          have hget : mapGet s.roots id = some handle := by
            rw [mapGet, hroot]
            rfl
          have hrest := ih (hs.drop hroot)
          rw [List.append_assoc] at hrest
          simp only [if_pos hexpired, hget]
          exact hrest
        · simp only [if_neg hexpired]
          exact ih hs

theorem Consistent.closeRoots (order : List Bytes) (hs : Consistent limit log s) :
    Consistent limit (log ++ (closeRoots order s).2) (closeRoots order s).1 := by
  induction order generalizing log s with
  | nil =>
      rw [Server.closeRoots, List.append_nil]
      exact hs
  | cons id order ih =>
      rw [Server.closeRoots]
      rcases hroot : s.roots.lookup id with _ | _ | handle
      · exact ih hs
      · exact absurd hroot (hs.stored id)
      · have hrest := ih (hs.drop hroot)
        rw [List.append_assoc] at hrest
        exact hrest

/-! ## Operations -/

theorem idle_replied (reply : Reply) : ∀ event ∈ [RegistryEvent.replied reply], Idle event := by
  intro event hevent
  rw [List.mem_singleton] at hevent
  subst hevent
  trivial

theorem Consistent.handleOpenProject (projectID hostRoot : Bytes) (expiredAt usedAt : Int)
    (order : List Bytes) (opens : Nat → Bool) (hs : Consistent limit log s) :
    Consistent limit (log ++ (s.handleOpenProject projectID hostRoot expiredAt usedAt order opens).2)
      (s.handleOpenProject projectID hostRoot expiredAt usedAt order opens).1 := by
  have hexpire := hs.expire expiredAt order
  rw [Server.handleOpenProject]
  split_ifs with hempty hlong
  · exact hs.idle (idle_replied _)
  · exact hs.idle (idle_replied _)
  · generalize expireRootsLocked expiredAt order s = next at hexpire
    obtain ⟨s', expired⟩ := next
    simp only at hexpire ⊢
    split_ifs with hfull
    · rw [← List.append_assoc]
      exact hexpire.idle (idle_replied _)
    · rw [openAuthorizedRoot]
      split_ifs with hnul hopens
      · simp only
        rw [← List.append_assoc]
        exact hexpire.idle (idle_replied _)
      · simp only
        rw [not_or, not_and_or, ge_iff_le, Int.not_le, hexpire.limit_eq] at hfull
        have hregister := (hexpire.register hfull.2 usedAt).idle (idle_replied .ok)
        rw [List.append_assoc, List.append_assoc] at hregister
        rw [List.append_assoc]
        exact hregister
      · simp only
        rw [← List.append_assoc]
        exact hexpire.idle (idle_replied _)

theorem idle_returned (projectID : Bytes) (handle : Nat) :
    ∀ event ∈ [RegistryEvent.returned projectID handle], Idle event := by
  intro event hevent
  rw [List.mem_singleton] at hevent
  subst hevent
  trivial

theorem Consistent.root (projectID : Bytes) (expiredAt usedAt : Int) (order : List Bytes)
    (hs : Consistent limit log s) :
    Consistent limit (log ++ (s.root projectID expiredAt usedAt order).2.1)
      (s.root projectID expiredAt usedAt order).1 := by
  have hexpire := hs.expire expiredAt order
  rw [Server.root]
  split_ifs with hempty
  · rw [List.append_nil]
    exact hs
  · generalize expireRootsLocked expiredAt order s = next at hexpire
    obtain ⟨s', expired⟩ := next
    rcases hroot : mapGet s'.roots projectID with _ | handle
    · simp only [hroot]
      exact hexpire
    · have hid := mem_of_lookup (lookup_of_mapGet hroot)
      simp only [hroot]
      rw [← List.append_assoc]
      exact (hexpire.renew hid usedAt).idle (idle_returned projectID handle)

/-- The root that `takeRoot` returns joins the roots of calls. -/
theorem Consistent.takeRoot (projectID : Bytes) (now : Int) (order : List Bytes)
    (hs : Consistent limit log s) :
    Consistent limit (log ++ (s.takeRoot projectID now order).2.1)
      { (s.takeRoot projectID now order).1 with
        taken := (s.takeRoot projectID now order).1.taken ++
          (s.takeRoot projectID now order).2.2.toOption.toList } := by
  have hexpire := hs.expire now order
  rw [Server.takeRoot]
  split_ifs with hempty
  · simp only [Except.toOption, Option.toList_none, List.append_nil]
    exact hs
  · generalize expireRootsLocked now order s = next at hexpire
    obtain ⟨s', expired⟩ := next
    rcases hroot : mapGet s'.roots projectID with _ | handle
    · simp only [hroot, Except.toOption, Option.toList_none, List.append_nil]
      exact hexpire
    · simp only [hroot, Except.toOption, Option.toList_some]
      rw [← List.append_assoc]
      exact (hexpire.take (lookup_of_mapGet hroot)).idle (idle_returned projectID handle)

theorem Consistent.close (order : List Bytes) (hs : Consistent limit log s) :
    Consistent limit (log ++ (s.close order).2) (s.close order).1 := by
  have hallowed : ∀ event ∈ s.allowedRoots.map RegistryEvent.allowedClosed, Idle event := by
    intro event hevent
    obtain ⟨handle, -, rfl⟩ := List.mem_map.1 hevent
    trivial
  have hshut : Consistent limit log { s with closed := true, allowedRoots := [] } := { hs with }
  have hloop := (hshut.idle hallowed).closeRoots order
  rw [List.append_assoc] at hloop
  exact hloop

/-! ## Steps -/

theorem consistent_init {options : ServerOptions} {allowedRoots : List Nat}
    (h : newServer options allowedRoots = .ok s) :
    Consistent (if options.maxProjects = 0 then 128 else options.maxProjects) [] s := by
  by_cases hnegative : options.maxProjects < 0 ∨ options.projectIdleTimeout < 0
  · rw [newServer, if_pos hnegative] at h
    cases h
  · rw [newServer, if_neg hnegative] at h
    cases h
    rw [not_or, Int.not_lt] at hnegative
    exact {
      limit_eq := rfl
      keys := fun _ => Iff.rfl
      stored := fun _ h => nomatch h
      bounded := by
        change (0 : Int) ≤ if options.maxProjects = 0 then 128 else options.maxProjects
        split_ifs
        · decide
        · exact hnegative.1
      conserved := fun _ => rfl
      issued := fun handle => (if_neg handle.not_lt_zero).symm
      noNil := List.not_mem_nil }

theorem consistent_step {s' : Server} {a : RegistryAction} (hs : Consistent limit log s)
    (h : s.step a = some (s', events)) : Consistent limit (log ++ events) s' := by
  cases a with
  | handleOpenProject projectID hostRoot expiredAt usedAt order opens =>
      have hnext := hs.handleOpenProject projectID hostRoot expiredAt usedAt order opens
      rw [step] at h
      split_ifs at h with horder
      rw [Option.some.inj h] at hnext
      exact hnext
  | root projectID expiredAt usedAt order =>
      have hnext := hs.root projectID expiredAt usedAt order
      rw [step] at h
      split_ifs at h with horder
      -- an error replies and changes nothing, a root is handed out
      generalize s.root projectID expiredAt usedAt order = next at hnext h
      obtain ⟨s'', events', error | handle⟩ := next
      · cases h
        rw [← List.append_assoc]
        exact hnext.idle (idle_replied _)
      · cases h
        exact hnext
  | takeRoot projectID now order =>
      have hnext := hs.takeRoot projectID now order
      rw [step] at h
      split_ifs at h with horder
      generalize s.takeRoot projectID now order = next at hnext h
      obtain ⟨s'', events', error | handle⟩ := next
      · cases h
        simp only [Except.toOption, Option.toList_none, List.append_nil] at hnext
        rw [← List.append_assoc]
        exact hnext.idle (idle_replied _)
      · cases h
        exact hnext
  | closeTaken call outcome =>
      obtain ⟨handle, hcall, hnext⟩ := Option.bind_eq_some_iff.1 h
      cases hnext
      have hfinish := (hs.finish hcall).idle (idle_replied (closeReply outcome))
      rw [List.append_assoc] at hfinish
      exact hfinish
  | close order =>
      have hnext := hs.close order
      rw [step] at h
      split_ifs at h with horder
      rw [Option.some.inj h] at hnext
      exact hnext

/-! ## Shutdown -/

def Shut (s : Server) : Prop :=
  s.closed = true ∧ s.roots = ∅

/-- Events that hand no project root out. -/
def Silent : RegistryEvent → Prop
  | .opened _ => False
  | .returned _ _ => False
  | _ => True

theorem expire_events (now : Int) (order : List Bytes) (s : Server) :
    ∀ event ∈ (expireRootsLocked now order s).2, ∃ root, event = .closed root := by
  induction order generalizing s with
  | nil =>
      intro event hevent
      exact absurd hevent List.not_mem_nil
  | cons id order ih =>
      intro event hevent
      rw [expireRootsLocked] at hevent
      rcases hlast : s.lastUsed.lookup id with _ | last <;> simp only [hlast] at hevent
      · exact ih s event hevent
      · split_ifs at hevent
        · rcases List.mem_cons.1 hevent with hhead | htail
          · exact ⟨_, hhead⟩
          · exact ih _ event htail
        · exact ih s event hevent

theorem closeRoots_events (order : List Bytes) (s : Server) :
    ∀ event ∈ (Server.closeRoots order s).2, ∃ root, event = .closed root := by
  induction order generalizing s with
  | nil =>
      intro event hevent
      exact absurd hevent List.not_mem_nil
  | cons id order ih =>
      intro event hevent
      rw [Server.closeRoots] at hevent
      rcases hroot : s.roots.lookup id with _ | root <;> simp only [hroot] at hevent
      · exact ih s event hevent
      · rcases List.mem_cons.1 hevent with hhead | htail
        · exact ⟨_, hhead⟩
        · exact ih _ event htail

theorem Shut.expire (now : Int) (order : List Bytes) (hs : Shut s) :
    Shut (expireRootsLocked now order s).1 := by
  induction order generalizing s with
  | nil =>
      exact hs
  | cons id order ih =>
      have hdelete : Shut (s.delete id) := by
        refine ⟨hs.1, ?_⟩
        rw [delete, hs.2]
        rfl
      rw [expireRootsLocked]
      rcases s.lastUsed.lookup id with _ | last
      · exact ih hs
      · simp only
        split_ifs
        · exact ih hdelete
        · exact ih hs

/-- The loop of `Close` deletes the projects that it visits. -/
theorem closeRoots_spec (order : List Bytes) (s : Server) :
    (Server.closeRoots order s).1.closed = s.closed ∧
      ∀ id, id ∈ (Server.closeRoots order s).1.roots ↔ id ∈ s.roots ∧ id ∉ order := by
  induction order generalizing s with
  | nil =>
      refine ⟨rfl, ?_⟩
      intro id
      exact (and_iff_left List.not_mem_nil).symm
  | cons id order ih =>
      rw [Server.closeRoots]
      rcases hroot : s.roots.lookup id with _ | root
      · refine ⟨(ih s).1, ?_⟩
        intro id'
        rw [(ih s).2 id', List.mem_cons, not_or]
        have hid : id' ∈ s.roots → id' ≠ id := by
          intro hmem heq
          rw [heq] at hmem
          exact AList.lookup_eq_none.1 hroot hmem
        tauto
      · refine ⟨(ih (s.delete id)).1, ?_⟩
        intro id'
        rw [(ih (s.delete id)).2 id', List.mem_cons, not_or, delete, AList.mem_erase]
        tauto

theorem shut_close {order : List Bytes} (horder : order.Perm s.roots.keys) : Shut (s.close order).1 := by
  obtain ⟨hclosed, hroots⟩ := closeRoots_spec order { s with closed := true, allowedRoots := [] }
  refine ⟨hclosed, Keyed.eq_empty_of_forall_notMem ?_⟩
  intro id hid
  obtain ⟨hmem, hout⟩ := (hroots id).1 hid
  exact hout (horder.mem_iff.2 (AList.mem_keys.1 hmem))

/-- A reply behind silent events. -/
theorem silent_replied {expired : List RegistryEvent} (hexpired : ∀ event ∈ expired, Silent event) (reply : Reply) :
    ∀ event ∈ expired ++ [.replied reply], Silent event := by
  intro event hevent
  rcases List.mem_append.1 hevent with hold | hnew
  · exact hexpired event hold
  · rw [List.mem_singleton.1 hnew]
    trivial

theorem silent_nil : ∀ event ∈ ([] : List RegistryEvent), Silent event :=
  fun _ hevent => absurd hevent List.not_mem_nil

/-- What an expiry leaves of a closed registry: nothing that a lookup finds. -/
theorem Shut.expired (hs : Shut s) (now : Int) (order : List Bytes) : ∃ s' expired,
    expireRootsLocked now order s = (s', expired) ∧ Shut s' ∧ (∀ projectID, mapGet s'.roots projectID = none) ∧
      ∀ event ∈ expired, Silent event := by
  have hshut := hs.expire now order
  refine ⟨_, _, rfl, hshut, ?_, ?_⟩
  · intro projectID
    rw [hshut.2]
    rfl
  · intro event hevent
    obtain ⟨root, rfl⟩ := expire_events now order s event hevent
    trivial

theorem shut_step {s' : Server} {a : RegistryAction} (hs : Shut s) (h : s.step a = some (s', events)) :
    Shut s' ∧ ∀ event ∈ events, Silent event := by
  cases a with
  | handleOpenProject projectID hostRoot expiredAt usedAt order opens =>
      obtain ⟨s'', expired, hexpire, hshut, -, hexpired⟩ := hs.expired expiredAt order
      rw [step] at h
      split_ifs at h with horder
      rw [handleOpenProject] at h
      split_ifs at h with hempty hlong
      · cases h
        exact ⟨hs, silent_replied silent_nil _⟩
      · cases h
        exact ⟨hs, silent_replied silent_nil _⟩
      · -- the flag refuses the registration
        simp only [hexpire, if_pos (Or.inl hshut.1 : s''.closed = true ∨ _)] at h
        cases h
        exact ⟨hshut, silent_replied hexpired _⟩
  | root projectID expiredAt usedAt order =>
      obtain ⟨s'', expired, hexpire, hshut, hnone, hexpired⟩ := hs.expired expiredAt order
      rw [step] at h
      split_ifs at h with horder
      rw [root] at h
      by_cases hempty : projectID = []
      · simp only [if_pos hempty] at h
        cases h
        exact ⟨hs, silent_replied silent_nil _⟩
      · simp only [if_neg hempty, hexpire, hnone] at h
        cases h
        exact ⟨hshut, silent_replied hexpired _⟩
  | takeRoot projectID now order =>
      obtain ⟨s'', expired, hexpire, hshut, hnone, hexpired⟩ := hs.expired now order
      rw [step] at h
      split_ifs at h with horder
      rw [takeRoot] at h
      by_cases hempty : projectID = []
      · simp only [if_pos hempty] at h
        cases h
        exact ⟨hs, silent_replied silent_nil _⟩
      · simp only [if_neg hempty, hexpire, hnone] at h
        cases h
        exact ⟨hshut, silent_replied hexpired _⟩
  | closeTaken call outcome =>
      obtain ⟨handle, hcall, hnext⟩ := Option.bind_eq_some_iff.1 h
      cases hnext
      have hclosed : ∀ event ∈ [RegistryEvent.closed (some handle)], Silent event := by
        intro event hevent
        rw [List.mem_singleton.1 hevent]
        trivial
      exact ⟨hs, silent_replied hclosed _⟩
  | close order =>
      rw [step] at h
      split_ifs at h with horder
      cases h
      refine ⟨shut_close horder, ?_⟩
      intro event hevent
      rcases List.mem_append.1 hevent with hallowed | hclosed
      · obtain ⟨handle, -, rfl⟩ := List.mem_map.1 hallowed
        trivial
      · obtain ⟨root, rfl⟩ := closeRoots_events order _ event hclosed
        trivial

/-! ## Every run -/

theorem consistent_run {s' : Server} (hs : Consistent limit [] s) (h : Run step s log s') :
    Consistent limit log s' := by
  refine h.logged hs ?_
  intro log s a s' events hs hstep
  exact consistent_step hs hstep

theorem shut_run {s' : Server} (hs : Shut s) (h : Run step s log s') :
    Shut s' ∧ ∀ event ∈ log, Silent event := by
  refine h.logged (P := fun log s => Shut s ∧ ∀ event ∈ log, Silent event) ?_ ?_
  · exact ⟨hs, fun event hevent => absurd hevent List.not_mem_nil⟩
  · intro log s a s' events hlog hstep
    obtain ⟨hshut, hevents⟩ := shut_step hlog.1 hstep
    refine ⟨hshut, ?_⟩
    intro event hevent
    rcases List.mem_append.1 hevent with hold | hnew
    · exact hlog.2 event hold
    · exact hevents event hnew

/-- Every owner of an opened handle, counted. -/
theorem Consistent.owner (hs : Consistent limit log s) (hopened : .opened handle ∈ log) :
    ((∃! id, s.roots.lookup id = some (some handle)) ∧ handle ∉ s.taken ∧
        .closed (some handle) ∉ log) ∨
      ((∀ id, s.roots.lookup id ≠ some (some handle)) ∧
        s.taken.count handle + log.count (.closed (some handle)) = 1) := by
  have hone : log.count (.opened handle) = 1 := by
    have hpositive : 0 < log.count (.opened handle) := List.count_pos_iff.2 hopened
    have hissued := hs.issued handle
    split_ifs at hissued <;> omega
  have hbalance := hs.conserved handle
  rw [hone] at hbalance
  by_cases hregistered : Keyed.count (some handle) s.roots = 0
  · rw [hregistered, Nat.zero_add] at hbalance
    exact .inr ⟨Keyed.count_eq_zero_iff.1 hregistered, hbalance⟩
  · have hcount : Keyed.count (some handle) s.roots = 1 := by omega
    have htaken : s.taken.count handle = 0 := by omega
    have hclosed : log.count (.closed (some handle)) = 0 := by omega
    exact .inl ⟨Keyed.existsUnique_of_count_eq_one hcount, List.count_eq_zero.1 htaken,
      List.count_eq_zero.1 hclosed⟩

end

end Server

open Server in
/-- Every history of a server, from its construction. -/
theorem registry_consistent {options : ServerOptions} {allowedRoots : List Nat} {s0 s : Server}
    {log : List RegistryEvent} (h0 : newServer options allowedRoots = .ok s0)
    (h : Transition.Run step s0 log s) :
    (∀ id, id ∈ s.lastUsed ↔ id ∈ s.roots) ∧
    (∀ id, s.roots.lookup id ≠ some none) ∧ .closed none ∉ log ∧
    (s.roots.keys.length : Int) ≤
      (if options.maxProjects = 0 then 128 else options.maxProjects) ∧
    (∀ handle, .opened handle ∈ log →
      ((∃! id, s.roots.lookup id = some (some handle)) ∧ handle ∉ s.taken ∧
        .closed (some handle) ∉ log) ∨
      ((∀ id, s.roots.lookup id ≠ some (some handle)) ∧
        s.taken.count handle + log.count (.closed (some handle)) = 1)) ∧
    (∀ order s₁ events, s.step (.close order) = some (s₁, events) →
      ∀ s₂ log', Transition.Run step s₁ log' s₂ → s₂.roots = ∅ ∧ ∀ event ∈ log', Silent event) := by
  have hs := consistent_run (consistent_init h0) h
  refine ⟨hs.keys, hs.stored, hs.noNil, hs.bounded, ?_, ?_⟩
  · intro handle hopened
    exact hs.owner hopened
  · intro order s₁ events hclose s₂ log' hrun
    rw [step] at hclose
    split_ifs at hclose with horder
    have hshut := shut_close horder
    rw [Option.some.inj hclose] at hshut
    obtain ⟨hshut', hsilent⟩ := shut_run hshut hrun
    exact ⟨hshut'.2, hsilent⟩

open Server in
/-- A project is opened twice under one id, taken and closed. -/
theorem registry_consistent_replaced :
    ∃ s log, Transition.Run step
      { roots := ∅, lastUsed := ∅, allowedRoots := [0], maxProjects := 1,
        projectIdleTimeout := 60 } log s ∧
      .opened 0 ∈ log ∧ (∀ id, id ∈ s.lastUsed ↔ id ∈ s.roots) ∧
      (((∃! id, s.roots.lookup id = some (some 0)) ∧ 0 ∉ s.taken ∧ .closed (some 0) ∉ log) ∨
        ((∀ id, s.roots.lookup id ≠ some (some 0)) ∧
          s.taken.count 0 + log.count (.closed (some 0)) = 1)) := by
  have hopen := Transition.Run.single
    (show step
      { roots := ∅, lastUsed := ∅, allowedRoots := [0], maxProjects := 1, projectIdleTimeout := 60 }
      (.handleOpenProject [97] [47] 0 1 [] fun _ => true) =
        some (_, [.opened 0, .replied .ok]) from rfl)
  have hreplace := hopen.snoc
    (show step _ (.handleOpenProject [97] [47] 2 3 [[97]] fun _ => true) =
        some (_, [.opened 1, .closed (some 0), .replied .ok]) from rfl)
  have htake := hreplace.snoc
    (show step _ (.takeRoot [97] 4 [[97]]) = some (_, [.returned [97] 1]) from rfl)
  have hclose := htake.snoc
    (show step _ (.closeTaken 0 (.ok ())) = some (_, [.closed (some 1), .replied .ok]) from rfl)
  have hnew : newServer ⟨1, 60⟩ [0] = .ok
      { roots := ∅, lastUsed := ∅, allowedRoots := [0], maxProjects := 1,
        projectIdleTimeout := 60 } := rfl
  obtain ⟨hkeys, -, -, -, howner, -⟩ := registry_consistent hnew hclose
  exact ⟨_, _, hclose, by decide, hkeys, howner 0 (by decide)⟩

end Daemon

end CanonicalPath
