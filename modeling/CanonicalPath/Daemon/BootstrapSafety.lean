import CanonicalPath.Daemon.Bootstrap
import CanonicalPath.Daemon.ServiceSafety
import CanonicalPath.FS.Handles

/-!
# BootstrapSafety — the daemon starts with one pinned handle for each trusted name, or with none

Whatever the names lead to from one call to the next, a trusted handle is the object that its two names led to when
they were compared, and a start that fails leaves no handle open.

* `openHandles` : the handles that are open, in the order of their opening
* `Bound` : a trusted root, with the calls that pinned it
* `openAllowedRoot_spec`, `openLoop_spec` : one root, and by induction all of them
* `newServer_pins` : the result
-/

namespace CanonicalPath

namespace Daemon

namespace Bootstrap

open CodeUnit

open Effect (Triple)

open FS.Shared (Handle mem_openHandles nodup_openHandles objects objects_close objects_concat openHandles
  openHandles_close_of_eq openHandles_concat)

open FS.HostPath (abs absolute below clean_of_isAbs isAbs isAbs_abs isAbs_absolute)

/-! ## States -/

/-- The host gave that answer, and the handle of the call was open. -/
def Genuine (host : Host) : Event → Prop
  | .opened name id => ∃ turn, host.resolve turn name = some id
  | .evaluated name real => ∃ turn, host.evalSymlinks turn name = some real
  | .stale _ => False

/-- Exactly what is known of a state: its open handles, its log and the objects of all handles. -/
structure Holds (host : Host) (opened : List Nat) (log : List Event) (ids : List Nat) (s : State) : Prop where
  opened_eq : openHandles s.handles = opened
  log_eq : s.log = log
  ids_eq : objects s.handles = ids
  genuine : ∀ event ∈ log, Genuine host event

/-- Where a computation that fails ends. -/
def Ended (host : Host) (opened : List Nat) (s : State) : Prop :=
  ∃ log ids, Holds host opened log ids s

section

variable {host : Host} {opened : List Nat} {log : List Event} {ids : List Nat} {s : State} {handle : Nat} {name : Bytes}

theorem Holds.length_eq (h : Holds host opened log ids s) : s.handles.length = ids.length := by
  rw [← h.ids_eq, objects, List.length_map]

theorem Holds.ended (h : Holds host opened log ids s) : Ended host opened s :=
  ⟨log, ids, h⟩

/-! ## Calls -/

theorem call_spec : Triple (Holds host opened log ids) (call host) (fun _ => Holds host opened log ids)
    fun _ => Holds host opened log ids := by
  intro s hs
  rw [call]
  cases host.fault s.calls with
  | none =>
      exact ⟨fun _ _ => { hs with }, fun e he => nomatch he⟩
  | some error =>
      exact ⟨fun b hb => (nomatch hb), fun _ _ => { hs with }⟩

theorem record_spec {event : Event} {E : BootError → State → Prop} (hevent : Genuine host event) :
    Triple (Holds host opened log ids) (record event) (fun _ => Holds host opened (log ++ [event]) ids) E := by
  apply Triple.modify
  intro s hs
  refine ⟨hs.opened_eq, congrArg (· ++ [event]) hs.log_eq, hs.ids_eq, ?_⟩
  intro other hmem
  rcases List.mem_append.1 hmem with hold | hnew
  · exact hs.genuine other hold
  · cases List.mem_singleton.1 hnew
    exact hevent

theorem object_spec {E : BootError → State → Prop} (hopen : handle ∈ opened) :
    Triple (Holds host opened log ids) (object handle) (fun id s => ids[handle]? = some id ∧ Holds host opened log ids s) E := by
  apply Triple.observe_bind
  intro s hs
  rw [← hs.opened_eq] at hopen
  obtain ⟨id, hhandle⟩ := mem_openHandles.1 hopen
  rw [hhandle]
  apply Triple.pure
  intro s' hsame
  rw [hsame, ← hs.ids_eq, objects, List.getElem?_map, hhandle]
  refine ⟨rfl, ?_⟩
  have hids : s.handles.map Handle.object = ids := hs.ids_eq
  rw [hids]
  exact hs

/-- A handle is opened on whatever the name leads to. -/
theorem openRoot_spec (name : Bytes) :
    Triple (Holds host opened log ids) (openRoot host name)
      (fun handle s => handle = ids.length ∧
        ∃ id, Holds host (opened ++ [ids.length]) (log ++ [.opened name id]) (ids ++ [id]) s)
      fun _ => Holds host opened log ids := by
  rw [openRoot]
  split_ifs
  · exact Triple.fail fun _ hs => hs
  · exact Triple.fail fun _ hs => hs
  · exact Triple.fail fun _ hs => hs
  apply call_spec.bind
  intro turn
  cases hresolve : host.resolve turn name with
  | none =>
      exact Triple.fail fun _ hs => hs
  | some id =>
      apply Triple.observe_bind
      intro s hs
      apply Triple.bind (Q := fun _ => Holds host (opened ++ [ids.length]) log (ids ++ [id]))
      · apply Triple.modify
        rintro s' rfl
        refine ⟨?_, hs.log_eq, ?_, hs.genuine⟩
        · change openHandles (s'.handles ++ [⟨id, false⟩]) = opened ++ [ids.length]
          rw [openHandles_concat, hs.opened_eq, hs.length_eq]
        · change objects (s'.handles ++ [⟨id, false⟩]) = ids ++ [id]
          rw [objects_concat, hs.ids_eq]
      intro _
      have hgenuine : Genuine host (.opened name id) := ⟨turn, hresolve⟩
      apply (record_spec hgenuine).bind
      intro _
      rw [hs.length_eq]
      exact Triple.pure fun s' hs' => ⟨rfl, id, hs'⟩

theorem stat_spec (hopen : handle ∈ opened) :
    Triple (Holds host opened log ids) (stat host handle) (fun id s => ids[handle]? = some id ∧ Holds host opened log ids s)
      fun _ => Holds host opened log ids := by
  apply call_spec.bind
  intro _
  exact object_spec hopen

theorem close_spec (before after : List Nat) :
    Triple (Holds host (before ++ handle :: after) log ids) (close host handle) (fun _ => Holds host (before ++ after) log ids)
      fun _ => Holds host (before ++ after) log ids := by
  have hopen : handle ∈ before ++ handle :: after := List.mem_append_right _ (List.mem_cons_self ..)
  apply Triple.bind (Q := fun _ => Holds host (before ++ handle :: after) log ids)
  · exact Triple.attempt call_spec
  intro outcome
  apply (object_spec hopen).bind
  intro id
  apply Triple.bind (Q := fun _ => Holds host (before ++ after) log ids)
  · apply Triple.modify
    rintro s ⟨-, hs⟩
    refine ⟨?_, hs.log_eq, ?_, hs.genuine⟩
    · exact openHandles_close_of_eq hs.opened_eq
    · rw [objects_close, hs.ids_eq]
  intro _
  apply Triple.bind (Q := fun _ => Holds host (before ++ after) log ids)
  · exact Triple.finish (fun _ _ _ hs => hs) fun _ _ _ hs => hs
  intro _
  exact Triple.pure fun _ hs => hs

/-- The handle that was opened last is closed, however it ends. -/
theorem attempt_close_spec :
    Triple (Holds host (opened ++ [handle]) log ids) (Effect.attempt (close host handle)) (fun _ => Holds host opened log ids)
      fun _ => Ended host opened := by
  have hclose : Triple (Holds host (opened ++ [handle]) log ids) (close host handle) _ _ := close_spec opened []
  rw [List.append_nil] at hclose
  exact Triple.attempt hclose

theorem evalSymlinks_spec (name : Bytes) :
    Triple (Holds host opened log ids) (evalSymlinks host name)
      (fun real => Holds host opened (log ++ [.evaluated name real]) ids) fun _ => Holds host opened log ids := by
  apply call_spec.bind
  intro turn
  cases hevaluate : host.evalSymlinks turn name with
  | none =>
      exact Triple.fail fun _ hs => hs
  | some real =>
      have hgenuine : Genuine host (.evaluated name real) := ⟨turn, hevaluate⟩
      apply (record_spec hgenuine).bind
      intro _
      exact Triple.pure fun _ hs => hs

/-! ## One root -/

/-- The candidate is closed again; it was the object that is compared with. -/
theorem compareName_spec (identity : Nat) (name : Bytes) :
    Triple (Holds host opened log ids) (compareName host identity name)
      (fun _ => Holds host opened (log ++ [.opened name identity]) (ids ++ [identity])) fun _ => Ended host opened := by
  apply ((openRoot_spec name).conseq (fun _ hs => hs) (fun _ _ hs => hs) fun _ _ hs => hs.ended).bind
  intro candidate
  apply Triple.lift
  rintro rfl
  apply Triple.exists_pre
  intro id
  have hopen : ids.length ∈ opened ++ [ids.length] := List.mem_append_right _ (List.mem_singleton_self _)
  have hid : (ids ++ [id])[ids.length]? = some id := by
    rw [List.getElem?_append_right (Nat.le_refl _), Nat.sub_self]
    rfl
  apply Triple.attempt_bind (stat_spec hopen)
  · intro info
    apply Triple.lift
    intro hinfo
    rw [hid] at hinfo
    cases hinfo
    apply attempt_close_spec.bind
    rintro (e | _)
    · exact Triple.fail fun _ hs => hs.ended
    · apply Triple.ite
      · rintro rfl
        exact Triple.pure fun _ hs => hs
      · intro _
        exact Triple.fail fun _ hs => hs.ended
  · intro e
    apply attempt_close_spec.bind
    intro _
    exact Triple.fail fun _ hs => hs.ended

/-- What pinned a root: its name led to an object when it was opened and when it was compared, and so did the name
that the links were resolved to. -/
def pinning (name raw : Bytes) (identity : Nat) : List Event :=
  [.opened name identity, .evaluated name raw, .opened name identity, .opened (FS.Path.clean raw) identity]

theorem bindNames_spec {identity : Nat} (hopen : handle ∈ opened) (hidentity : ids[handle]? = some identity)
    (name : Bytes) :
    Triple (Holds host opened log ids) (bindNames host name handle)
      (fun real s => ∃ raw, (host.isDir identity = true ∧ real = FS.Path.clean raw) ∧
        Holds host opened (log ++ (pinning name raw identity).tail) (ids ++ [identity, identity]) s)
      fun _ => Ended host opened := by
  apply ((stat_spec hopen).conseq (fun _ hs => hs) (fun _ _ hs => hs) fun _ _ hs => hs.ended).bind
  intro found
  apply Triple.lift
  intro hfound
  rw [hidentity] at hfound
  cases hfound
  apply Triple.ite
  · intro _
    exact Triple.fail fun _ hs => hs.ended
  · intro hdir
    apply ((evalSymlinks_spec name).conseq (fun _ hs => hs) (fun _ _ hs => hs) fun _ _ hs => hs.ended).bind
    intro raw
    apply (compareName_spec identity name).bind
    intro _
    apply (compareName_spec identity (FS.Path.clean raw)).bind
    intro _
    apply Triple.pure
    intro s hs
    refine ⟨raw, ⟨Bool.eq_true_of_not_eq_false hdir, rfl⟩, ?_⟩
    simp only [List.append_assoc, List.singleton_append] at hs
    exact hs

theorem bindAllowedRoot_spec {identity : Nat} (hidentity : ids[handle]? = some identity) (name : Bytes) :
    Triple (Holds host (opened ++ [handle]) log ids) (bindAllowedRoot host name handle)
      (fun root s => ∃ raw, (host.isDir identity = true ∧ root = ⟨FS.Path.clean raw, name, handle⟩) ∧
        Holds host (opened ++ [handle]) (log ++ (pinning name raw identity).tail) (ids ++ [identity, identity]) s)
      fun _ => Ended host opened := by
  have hopen : handle ∈ opened ++ [handle] := List.mem_append_right _ (List.mem_singleton_self _)
  apply Triple.attempt_bind (bindNames_spec hopen hidentity name)
  · intro real
    apply Triple.exists_pre
    intro raw
    apply Triple.lift
    rintro ⟨hdir, rfl⟩
    exact Triple.pure fun s hs => ⟨raw, ⟨hdir, rfl⟩, hs⟩
  · intro e
    apply Triple.bind (Q := fun _ => Ended host opened)
    · apply Triple.exists_pre
      intro log'
      apply Triple.exists_pre
      intro ids'
      exact attempt_close_spec.conseq (fun _ hs => hs) (fun _ _ hs => hs.ended) fun _ _ hs => hs
    intro _
    exact Triple.fail fun _ hs => hs

/-- A root is skipped, or opened and bound. -/
theorem openAllowedRoot_spec (seen : List Bytes) (root : Bytes) :
    Triple (Holds host opened log ids) (openAllowedRoot host seen root)
      (fun pinned s => ∃ name, cleanHostRootAlias host root = .ok name ∧
        match pinned with
        | none => name ∈ seen ∧ Holds host opened log ids s
        | some pinned => ∃ raw identity, (name ∉ seen ∧ host.isDir identity = true ∧
            pinned = ⟨FS.Path.clean raw, name, ids.length⟩) ∧
            Holds host (opened ++ [ids.length]) (log ++ pinning name raw identity)
              (ids ++ [identity, identity, identity]) s)
      fun _ => Ended host opened := by
  apply Triple.bind (Q := fun name s => cleanHostRootAlias host root = .ok name ∧ Holds host opened log ids s)
  · exact Triple.finish (fun _ hname _ hs => ⟨hname, hs⟩) fun _ _ _ hs => hs.ended
  intro name
  apply Triple.lift
  intro hclean
  apply Triple.ite
  · intro hseen
    exact Triple.pure fun s hs => ⟨name, hclean, hseen, hs⟩
  · intro hseen
    apply ((openRoot_spec name).conseq (fun _ hs => hs) (fun _ _ hs => hs) fun _ _ hs => hs.ended).bind
    intro handle
    apply Triple.lift
    rintro rfl
    apply Triple.exists_pre
    intro identity
    have hidentity : (ids ++ [identity])[ids.length]? = some identity := by
      rw [List.getElem?_append_right (Nat.le_refl _), Nat.sub_self]
      rfl
    apply (bindAllowedRoot_spec hidentity name).bind
    intro pinned
    apply Triple.exists_pre
    intro raw
    apply Triple.lift
    rintro ⟨hdir, rfl⟩
    apply Triple.pure
    intro s hs
    simp only [List.append_assoc, List.singleton_append] at hs
    exact ⟨name, hclean, raw, identity, ⟨hseen, hdir, rfl⟩, hs⟩

/-! ## All roots -/

/-- A trusted root, with the calls that pinned it. -/
def Bound (host : Host) (log : List Event) (ids : List Nat) (root : AllowedRoot) : Prop :=
  ∃ raw identity, ids[root.handle]? = some identity ∧ host.isDir identity = true ∧ root.path = FS.Path.clean raw ∧
    pinning root.aliasName raw identity <:+: log

theorem Bound.append {root : AllowedRoot} (h : Bound host log ids root) (more : List Event) (others : List Nat) :
    Bound host (log ++ more) (ids ++ others) root := by
  obtain ⟨raw, identity, hidentity, hdir, hpath, hpinning⟩ := h
  refine ⟨raw, identity, ?_, hdir, hpath, hpinning.trans (List.prefix_append _ _).isInfix⟩
  rw [List.getElem?_append_left (List.getElem?_eq_some_iff.1 hidentity).1, hidentity]

/-- The trusted roots are those of some names of the configuration. -/
structure Named (host : Host) (roots : List Bytes) (allowed : List AllowedRoot) : Prop where
  names : ∀ root ∈ roots, ∃ pinned ∈ allowed, cleanHostRootAlias host root = .ok pinned.aliasName
  origin : ∀ pinned ∈ allowed, ∃ root ∈ roots, cleanHostRootAlias host root = .ok pinned.aliasName
  nodup : (allowed.map AllowedRoot.aliasName).Nodup

theorem Named.skip {roots : List Bytes} {allowed : List AllowedRoot} {root : Bytes} (h : Named host roots allowed)
    (hclean : cleanHostRootAlias host root = .ok name) (hseen : name ∈ allowed.map AllowedRoot.aliasName) :
    Named host (roots ++ [root]) allowed := by
  obtain ⟨twin, htwin, rfl⟩ := List.mem_map.1 hseen
  refine ⟨?_, ?_, h.nodup⟩
  · intro other hother
    rcases List.mem_append.1 hother with hold | hlast
    · exact h.names other hold
    · cases List.mem_singleton.1 hlast
      exact ⟨twin, htwin, hclean⟩
  · intro pinned hpinned
    obtain ⟨origin, horigin, hfrom⟩ := h.origin pinned hpinned
    exact ⟨origin, List.mem_append_left _ horigin, hfrom⟩

theorem Named.append {roots : List Bytes} {allowed : List AllowedRoot} {root : Bytes} {pinned : AllowedRoot}
    (h : Named host roots allowed) (hclean : cleanHostRootAlias host root = .ok pinned.aliasName)
    (hnew : pinned.aliasName ∉ allowed.map AllowedRoot.aliasName) :
    Named host (roots ++ [root]) (allowed ++ [pinned]) := by
  refine ⟨?_, ?_, ?_⟩
  · intro other hother
    rcases List.mem_append.1 hother with hold | hlast
    · obtain ⟨known, hknown, hfrom⟩ := h.names other hold
      exact ⟨known, List.mem_append_left _ hknown, hfrom⟩
    · cases List.mem_singleton.1 hlast
      exact ⟨pinned, List.mem_append_right _ (List.mem_singleton_self _), hclean⟩
  · intro other hother
    rcases List.mem_append.1 hother with hold | hlast
    · obtain ⟨origin, horigin, hfrom⟩ := h.origin other hold
      exact ⟨origin, List.mem_append_left _ horigin, hfrom⟩
    · cases List.mem_singleton.1 hlast
      exact ⟨root, List.mem_append_right _ (List.mem_singleton_self _), hclean⟩
  · rw [List.map_append, List.map_singleton]
    exact List.nodup_append'.2 ⟨h.nodup, List.nodup_singleton _, (List.disjoint_singleton.2 hnew)⟩

/-- What is known between two turns of the loop. -/
def Pinned (host : Host) (base : List Nat) (roots : List Bytes) (allowed : List AllowedRoot) (s : State) : Prop :=
  Named host roots allowed ∧ ∃ log ids, (∀ pinned ∈ allowed, Bound host log ids pinned) ∧
    Holds host (base ++ allowed.map AllowedRoot.handle) log ids s

theorem Pinned.ended {base : List Nat} {roots : List Bytes} {allowed : List AllowedRoot}
    (h : Pinned host base roots allowed s) : Ended host (base ++ allowed.map AllowedRoot.handle) s := by
  obtain ⟨-, log, ids, -, hs⟩ := h
  exact hs.ended

theorem closeAll_spec (base : List Nat) (allowed : List AllowedRoot) :
    Triple (Ended host (base ++ allowed.map AllowedRoot.handle)) (closeAll host allowed) (fun _ => Ended host base)
      fun _ => Ended host base := by
  induction allowed with
  | nil =>
      rw [List.map_nil, List.append_nil]
      exact Triple.pure fun _ hs => hs
  | cons root more ih =>
      apply Triple.bind (Q := fun _ => Ended host (base ++ more.map AllowedRoot.handle))
      · apply Triple.exists_pre
        intro log
        apply Triple.exists_pre
        intro ids
        exact Triple.attempt ((close_spec base _).conseq (fun _ hs => hs) (fun _ _ hs => hs.ended)
          fun _ _ hs => hs.ended)
      intro _
      exact ih

/-- One turn: the root was seen, or it is appended. -/
theorem Pinned.turn (base : List Nat) (roots : List Bytes) (allowed : List AllowedRoot) (root : Bytes) :
    Triple (Pinned host base roots allowed) (openAllowedRoot host (allowed.map AllowedRoot.aliasName) root)
      (fun pinned => Pinned host base (roots ++ [root]) (allowed ++ pinned.toList))
      fun _ => Ended host (base ++ allowed.map AllowedRoot.handle) := by
  apply Triple.lift
  intro hnamed
  apply Triple.exists_pre
  intro log
  apply Triple.exists_pre
  intro ids
  apply Triple.lift
  intro hbound
  refine (openAllowedRoot_spec _ root).conseq (fun _ hs => hs) ?_ fun _ _ hs => hs
  rintro (_ | pinned) s ⟨name, hclean, hturn⟩
  · obtain ⟨hseen, hs⟩ := hturn
    rw [Option.toList_none, List.append_nil]
    exact ⟨hnamed.skip hclean hseen, log, ids, hbound, hs⟩
  · obtain ⟨raw, identity, ⟨hnew, hdir, rfl⟩, hs⟩ := hturn
    refine ⟨hnamed.append hclean hnew, log ++ pinning name raw identity, ids ++ [identity, identity, identity], ?_, ?_⟩
    · intro other hother
      rcases List.mem_append.1 hother with hold | hlast
      · exact (hbound other hold).append _ _
      · cases List.mem_singleton.1 hlast
        refine ⟨raw, identity, ?_, hdir, rfl, (List.suffix_append _ _).isInfix⟩
        rw [List.getElem?_append_right (Nat.le_refl _), Nat.sub_self]
        rfl
    · rw [Option.toList_some, List.map_append, List.map_singleton, ← List.append_assoc]
      exact hs

theorem openLoop_spec (base : List Nat) (roots done : List Bytes) (allowed : List AllowedRoot) :
    Triple (Pinned host base done allowed) (openLoop host (allowed.map AllowedRoot.aliasName) allowed roots)
      (fun allowed s => allowed ≠ [] ∧ Pinned host base (done ++ roots) allowed s) fun _ => Ended host base := by
  induction roots generalizing done allowed with
  | nil =>
      rw [List.append_nil]
      apply Triple.ite
      · rintro rfl
        exact Triple.fail fun _ hs => by simpa using hs.ended
      · intro hsome
        exact Triple.pure fun _ hs => ⟨hsome, hs⟩
  | cons root more ih =>
      rw [List.append_cons]
      have hturn : Triple (Pinned host base done allowed) _ _ _ := Pinned.turn base done allowed root
      refine Triple.bind (Q := fun outcome s => match outcome with
        | .ok pinned => Pinned host base (done ++ [root]) (allowed ++ pinned.toList) s
        | .error _ => Ended host (base ++ allowed.map AllowedRoot.handle) s) ?_ ?_
      · exact Triple.mapError (Triple.attempt hturn)
      rintro (e | _ | pinned)
      · have hclosed : Triple (Ended host (base ++ allowed.map AllowedRoot.handle))
            (Effect.mapError (StartError.invalidRoot root) (closeAll host allowed)) (fun _ => Ended host base)
            fun _ => Ended host base :=
          Triple.mapError (closeAll_spec base allowed)
        apply hclosed.bind
        intro _
        exact Triple.fail fun _ hs => hs
      · have hnext := ih (done ++ [root]) allowed
        simpa using hnext
      · have hnext := ih (done ++ [root]) (allowed ++ [pinned])
        rw [List.map_append, List.map_singleton] at hnext
        exact hnext

/-! ## The server -/

/-- A server with one pinned handle for each name, which are the only handles that were opened and not closed. -/
structure Serves (host : Host) (base : List Nat) (options : Options) (started : Started) (s : State) : Prop where
  named : Named host options.allowedRoots started.allowedRoots
  some_root : started.allowedRoots ≠ []
  bound : ∀ pinned ∈ started.allowedRoots, Bound host s.log (objects s.handles) pinned
  genuine : ∀ event ∈ s.log, Genuine host event
  opened : openHandles s.handles = base ++ started.allowedRoots.map AllowedRoot.handle
  server : Daemon.newServer options.registry (started.allowedRoots.map AllowedRoot.handle) = .ok started.server
  token : validateCapabilityToken started.capabilityToken = .ok ()
  limits : Reads.normalizeLimits options.limits = .ok started.limits

theorem Serves.nodup {base : List Nat} {options : Options} {started : Started} (h : Serves host base options started s) :
    (started.allowedRoots.map AllowedRoot.handle).Nodup := by
  have hnodup := nodup_openHandles s.handles
  rw [h.opened] at hnodup
  exact (List.nodup_append'.1 hnodup).2.1

theorem newServer_handles {options : ServerOptions} {server : Server} (h : Daemon.newServer options [] = .ok server)
    (handles : List Nat) : Daemon.newServer options handles = .ok { server with allowedRoots := handles } := by
  rw [Daemon.newServer] at h ⊢
  by_cases hnegative : options.maxProjects < 0 ∨ options.projectIdleTimeout < 0
  · rw [if_pos hnegative] at h
    cases h
  · rw [if_neg hnegative] at h ⊢
    cases h
    rfl

theorem mapError_ok {ε ε' β : Type} {f : ε → ε'} {outcome : Except ε β} {b : β} (h : outcome.mapError f = .ok b) :
    outcome = .ok b := by
  cases outcome with
  | error e =>
      cases h
  | ok c =>
      cases h
      rfl

theorem newServer_spec (host : Host) (options : Options) (base : List Nat) (log : List Event) (ids : List Nat) :
    Triple (Holds host base log ids) (newServer host options) (Serves host base options) fun _ => Ended host base := by
  apply Triple.bind (Q := fun _ s => validateCapabilityToken (Go.trimSpace options.capabilityToken) = .ok () ∧
    Holds host base log ids s)
  · exact Triple.finish (fun _ htoken _ hs => ⟨htoken, hs⟩) fun _ _ _ hs => hs.ended
  intro _
  apply Triple.lift
  intro htoken
  apply Triple.bind (Q := fun limits s => Reads.normalizeLimits options.limits = .ok limits ∧ Holds host base log ids s)
  · exact Triple.finish (fun _ hlimits _ hs => ⟨mapError_ok hlimits, hs⟩) fun _ _ _ hs => hs.ended
  intro limits
  apply Triple.lift
  intro hlimits
  apply Triple.bind (Q := fun server s => Daemon.newServer options.registry [] = .ok server ∧ Holds host base log ids s)
  · exact Triple.finish (fun _ hserver _ hs => ⟨mapError_ok hserver, hs⟩) fun _ _ _ hs => hs.ended
  intro server
  apply Triple.lift
  intro hserver
  apply ((openLoop_spec base options.allowedRoots [] []).pre ?_).bind
  · intro allowed
    apply Triple.pure
    rintro s ⟨hsome, hnamed, log', ids', hbound, hs⟩
    refine ⟨hnamed, hsome, ?_, ?_, hs.opened_eq, ?_, htoken, hlimits⟩
    · rw [hs.log_eq, hs.ids_eq]
      exact hbound
    · rw [hs.log_eq]
      exact hs.genuine
    · exact newServer_handles hserver _
  · intro s hs
    refine ⟨⟨nofun, nofun, List.nodup_nil⟩, log, ids, nofun, ?_⟩
    rw [List.map_nil, List.append_nil]
    exact hs

end

/-- A start ends with the server, or with the handles that were open before it. -/
theorem newServer_pins (host : Host) (options : Options) (handles : List Handle) (calls : Nat) :
    match newServer host options ⟨handles, [], calls⟩ with
    | (.ok started, s) => Serves host (openHandles handles) options started s
    | (.error _, s) => openHandles s.handles = openHandles handles ∧ ∀ event ∈ s.log, Genuine host event := by
  have hstart : Holds host (openHandles handles) [] (objects handles) ⟨handles, [], calls⟩ :=
    ⟨rfl, rfl, rfl, nofun⟩
  obtain ⟨hok, herror⟩ := newServer_spec host options _ _ _ _ hstart
  cases hrun : newServer host options ⟨handles, [], calls⟩ with
  | mk outcome s =>
      rw [hrun] at hok herror
      cases outcome with
      | ok started =>
          exact hok started rfl
      | error e =>
          obtain ⟨log, ids, hs⟩ := herror e rfl
          refine ⟨hs.opened_eq, ?_⟩
          rw [hs.log_eq]
          exact hs.genuine

/-! ## The service of a started server -/

/-- What the host documents: the working directory is absolute, and an absolute name stays absolute when its links are
resolved. -/
structure Rooted (host : Host) : Prop where
  workingDirectory : ∀ directory, host.workingDirectory = some directory → isAbs directory = true
  evalSymlinks : ∀ turn name real, isAbs name = true → host.evalSymlinks turn name = some real → isAbs real = true

theorem cleanHostRootAlias_parts {host : Host} (hhost : Rooted host) {root name : Bytes}
    (h : cleanHostRootAlias host root = .ok name) : ∃ parts, (∀ part ∈ parts, IsName part) ∧ name = absolute parts := by
  rw [cleanHostRootAlias] at h
  split_ifs at h
  cases habs : abs host.workingDirectory (Go.trimSpace root) with
  | none =>
      rw [habs] at h
      cases h
  | some real =>
      rw [habs] at h
      rw [← Except.ok.inj h]
      exact clean_of_isAbs (isAbs_abs hhost.workingDirectory habs)

/-- The configuration of the service: every trusted handle has the names that it was bound to. -/
structure Fits (config : Service.Config) (started : Started) : Prop where
  capabilityToken : config.capabilityToken = started.capabilityToken
  limits : config.limits = started.limits
  path : ∀ pinned ∈ started.allowedRoots, absolute (config.names pinned.handle).pathParts = pinned.path
  aliasName : ∀ pinned ∈ started.allowedRoots, absolute (config.names pinned.handle).aliasParts = pinned.aliasName

section

variable {host : Host} {options : Options} {base : List Nat} {started : Started} {s : State}

/-- Both names of a pinned root are absolute and clean. -/
theorem Serves.parts (hhost : Rooted host) (h : Serves host base options started s) {pinned : AllowedRoot}
    (hpinned : pinned ∈ started.allowedRoots) :
    ∃ names : Service.AllowedRoot, absolute names.pathParts = pinned.path ∧
      absolute names.aliasParts = pinned.aliasName := by
  obtain ⟨root, -, hclean⟩ := h.named.origin pinned hpinned
  obtain ⟨aliasParts, haliasParts, halias⟩ := cleanHostRootAlias_parts hhost hclean
  obtain ⟨raw, identity, -, -, hpath, hpinning⟩ := h.bound pinned hpinned
  obtain ⟨turn, hevaluated⟩ : Genuine host (.evaluated pinned.aliasName raw) :=
    h.genuine _ (hpinning.subset (by simp [pinning]))
  rw [halias] at hevaluated
  obtain ⟨pathParts, hpathParts, hraw⟩ :=
    clean_of_isAbs (hhost.evalSymlinks turn _ _ (isAbs_absolute aliasParts) hevaluated)
  refine ⟨⟨pathParts, hpathParts, aliasParts, haliasParts⟩, ?_, halias.symm⟩
  rw [hpath, hraw]

theorem Serves.fits (hhost : Rooted host) (h : Serves host base options started s)
    (marshal : Service.Value → Option Bytes) :
    ∃ config : Service.Config, config.marshal = marshal ∧ Fits config started := by
  have hnames : ∀ handle, ∃ names : Service.AllowedRoot, ∀ pinned ∈ started.allowedRoots, pinned.handle = handle →
      absolute names.pathParts = pinned.path ∧ absolute names.aliasParts = pinned.aliasName := by
    intro handle
    by_cases hbound : ∃ pinned ∈ started.allowedRoots, pinned.handle = handle
    · obtain ⟨pinned, hpinned, rfl⟩ := hbound
      obtain ⟨names, hpath, halias⟩ := h.parts hhost hpinned
      refine ⟨names, ?_⟩
      intro other hother hsame
      rw [List.inj_on_of_nodup_map h.nodup hother hpinned hsame]
      exact ⟨hpath, halias⟩
    · refine ⟨⟨[], nofun, [], nofun⟩, ?_⟩
      intro pinned hpinned hhandle
      exact absurd ⟨pinned, hpinned, hhandle⟩ hbound
  choose names hnames using hnames
  let config : Service.Config := ⟨started.capabilityToken, names, started.limits, marshal⟩
  refine ⟨config, rfl, rfl, rfl, ?_, ?_⟩
  · intro pinned hpinned
    exact (hnames _ pinned hpinned rfl).1
  · intro pinned hpinned
    exact (hnames _ pinned hpinned rfl).2

end

/-- Every name leads to one directory. -/
def sampleHost : Host where
  workingDirectory := none
  resolve := fun _ _ => some 7
  isDir := fun _ => true
  evalSymlinks := fun _ name => some name
  fault := fun _ => none

def sampleOptions : Options where
  registry := ⟨0, 0⟩
  capabilityToken := Service.sampleToken
  allowedRoots := [lit " /w/../w/ "]
  limits := {}

theorem sample_start : ∃ started s, newServer sampleHost sampleOptions ⟨[], [], 0⟩ = (.ok started, s) ∧
    started.capabilityToken = Service.sampleToken ∧ started.allowedRoots = [⟨lit "/w", lit "/w", 0⟩] ∧
    started.server = Service.sampleServer ∧ started.limits = Service.sampleConfig.limits := by
  have hview : ((newServer sampleHost sampleOptions ⟨[], [], 0⟩).1.toOption.map fun started =>
      (started.capabilityToken, started.allowedRoots)) = some (Service.sampleToken, [⟨lit "/w", lit "/w", 0⟩]) := by
    decide +kernel
  have hserves := newServer_spec sampleHost sampleOptions [] [] [] ⟨[], [], 0⟩ ⟨rfl, rfl, rfl, nofun⟩
  cases hrun : newServer sampleHost sampleOptions ⟨[], [], 0⟩ with
  | mk outcome s =>
      rw [hrun] at hview hserves
      cases outcome with
      | error e =>
          cases hview
      | ok started =>
          have hpair := Option.some.inj hview
          rw [Prod.mk.injEq] at hpair
          obtain ⟨htoken, hallowed⟩ := hpair
          have hstarted := hserves.1 started rfl
          have hserver := hstarted.server
          rw [hallowed] at hserver
          refine ⟨started, s, rfl, htoken, hallowed, ?_, ?_⟩
          · exact Except.ok.inj (hserver.symm.trans Service.sample_init)
          · exact Except.ok.inj (hstarted.limits.symm.trans rfl)

section

variable {host : Host} {options : Options} {started : Started} {s : State}

/-- A project root is opened below a pinned root, for a request that names a directory below one of its two names. -/
def Grants (started : Started) (allowed : Nat) (rel : Bytes) (req : Service.Request) (pinned : AllowedRoot) : Prop :=
  pinned ∈ started.allowedRoots ∧ pinned.handle = allowed ∧ ∃ workingDirectory anchor more,
    (absolute anchor = pinned.path ∨ absolute anchor = pinned.aliasName) ∧ (∀ part ∈ more, IsName part) ∧
      abs workingDirectory req.hostRoot = some (absolute (anchor ++ more)) ∧ rel = below more

/-- Whatever the daemon opens while it runs lies below a root that was pinned when it started; the names that the service
knows the roots by are those they were bound to. -/
theorem daemon_opens {handles : List Handle} {calls : Nat}
    (hstart : newServer host options ⟨handles, [], calls⟩ = (.ok started, s)) :
    (Rooted host → ∀ marshal, ∃ config : Service.Config, config.marshal = marshal ∧ Fits config started) ∧
    ∀ config : Service.Config, Fits config started → ∀ log system,
      Transition.Run (Service.step config) (Service.init started.server) log system →
      ∀ asked ∈ log, ∀ allowed rel, asked.call = .openRoot allowed rel → ∃ req pinned,
        Service.Asks config asked.task "/v1/projects/open" req ∧ Grants started allowed rel req pinned ∧
          Bound host s.log (objects s.handles) pinned ∧ (∀ event ∈ s.log, Genuine host event) ∧
            ∃ root ∈ options.allowedRoots, cleanHostRootAlias host root = .ok pinned.aliasName := by
  have hbefore : Holds host (openHandles handles) [] (objects handles) ⟨handles, [], calls⟩ :=
    ⟨rfl, rfl, rfl, nofun⟩
  have hserves : Serves host (openHandles handles) options started s := by
    have hspec := (newServer_spec host options _ _ _ _ hbefore).1
    rw [hstart] at hspec
    exact hspec started rfl
  refine ⟨fun hhost marshal => hserves.fits hhost marshal, ?_⟩
  intro config hfits log system hrun asked hasked allowed rel hcall
  have htrusted := Service.openRoot_trusted hserves.server hrun hasked hcall
  obtain ⟨pinned, hpinned, rfl⟩ := List.mem_map.1 htrusted
  obtain ⟨w, choice, hallowed, -, -⟩ := (Service.accounts hserves.server hrun).allowed asked hasked
  have hpermitted : Service.Permitted config asked.task asked.inside w asked.call := hallowed
  rw [hcall] at hpermitted
  obtain ⟨-, req, hasks, workingDirectory, parts, more, hparts, hmore, hhost, hrel⟩ := hpermitted
  refine ⟨req, pinned, hasks, ⟨hpinned, rfl, workingDirectory, parts, more, ?_, hmore, hhost, hrel⟩,
    hserves.bound pinned hpinned, hserves.genuine, hserves.named.origin pinned hpinned⟩
  rcases hparts with rfl | rfl
  · exact .inl (hfits.path pinned hpinned)
  · exact .inr (hfits.aliasName pinned hpinned)

theorem daemon_opens_sample : ∃ started s log system, newServer sampleHost sampleOptions ⟨[], [], 0⟩ = (.ok started, s) ∧
    Transition.Run (Service.step Service.sampleConfig) (Service.init started.server) log system ∧
    log.map Threads.Asked.call = Service.sampleCalls ∧
    (∀ marshal, ∃ config : Service.Config, config.marshal = marshal ∧ Fits config started) ∧
    ∀ asked ∈ log, ∀ allowed rel, asked.call = .openRoot allowed rel → ∃ req pinned, Grants started allowed rel req pinned := by
  obtain ⟨started, s, hstart, htoken, hallowed, hserver, hlimits⟩ := sample_start
  obtain ⟨log, system, hrun, hcalls, -⟩ := Service.sample_run
  have hfits : Fits Service.sampleConfig started := by
    refine ⟨htoken.symm, hlimits.symm, ?_, ?_⟩
    · intro pinned hpinned
      rw [hallowed] at hpinned
      cases List.mem_singleton.1 hpinned
      rfl
    · intro pinned hpinned
      rw [hallowed] at hpinned
      cases List.mem_singleton.1 hpinned
      rfl
  rw [← hserver] at hrun
  obtain ⟨hfitting, hopens⟩ := daemon_opens hstart
  have hrooted : Rooted sampleHost := ⟨nofun, fun _ _ _ hname hreal => Option.some.inj hreal ▸ hname⟩
  refine ⟨started, s, log, system, hstart, hrun, hcalls, hfitting hrooted, ?_⟩
  intro asked hasked allowed rel hcall
  obtain ⟨req, pinned, -, hgrants, -⟩ := hopens _ hfits log system hrun asked hasked allowed rel hcall
  exact ⟨req, pinned, hgrants⟩

end

end Bootstrap

end Daemon

end CanonicalPath
