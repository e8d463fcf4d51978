import CanonicalPath.Daemon.RegistrySafety
import CanonicalPath.Daemon.Service

/-!
# Service discipline — what a task of the daemon may do

Which call a task may make, which handles a call opens, closes and needs, and what the registry says about the handles
it holds.

* `Permitted` : the calls of a task
* `owned_balance` : a registry operation loses no handle
* `Registered` : the invariant of the registry while nobody holds the lock
* `discipline` : all of it together
-/

namespace CanonicalPath

namespace Daemon

namespace Service

open FS.HostPath Segments Threads

/-! ## What a task may ask -/

section Permissions

variable (config : Config)

/-- The task is a request for an endpoint, with the token. -/
def Asks (task : Task) (urlPath : String) (req : Request) : Prop :=
  ∃ r, task = .serveHTTP r ∧ isAuthorized config r = true ∧ r.urlPath = urlPath ∧ decodeRequest r = .ok req

/-- The path below a trusted root that leads to a host root. -/
def LeadsTo (allowed : Nat) (rel hostRoot : Bytes) : Prop :=
  ∃ workingDirectory parts more, (parts = (config.names allowed).pathParts ∨ parts = (config.names allowed).aliasParts) ∧
    (∀ part ∈ more, IsName part) ∧ abs workingDirectory hostRoot = some (absolute (parts ++ more)) ∧ rel = below more

/-- A project handle was opened for a request under a project id, below a trusted root. -/
def OpenedFor (w : World) (project : Nat) (projectID : Bytes) : Prop :=
  ∃ origin req, w.projects[project]? = some origin ∧ Asks config origin.task "/v1/projects/open" req ∧
    req.projectID = projectID ∧ LeadsTo config origin.allowed origin.rel req.hostRoot

/-- The operation that a scoped endpoint requires. -/
def requiredOperation (name : String) : String :=
  if name = "readFile" ∨ name = "stat" then "read" else if name = "remove" then "delete" else "write"

/-- A scoped handle of a task, below the project of its request. -/
def ScopedFor (task : Task) (w : World) (name : String) (req : Request) (place : ScopedRoot) (scope : Nat) : Prop :=
  ∃ r project, task = .serveHTTP r ∧ Asks config task ("/v1/scoped/" ++ name) req ∧
    Daemon.decodeScopedRootRequest (scopedRequest r req) (requiredOperation name) = .ok place ∧
    w.scopedRoots[scope]? = some ⟨task, project, place.anchor⟩ ∧ OpenedFor config w project req.projectID

/-- A root and a path below it that a request for an operation uses. -/
def Reaches (task : Task) (w : World) (name : String) (req : Request) (rel : Bytes) : Handle → Prop
  | .allowed _ => False
  | .project project =>
    Asks config task ("/v1/fs/" ++ name) req ∧ rel = req.path ∧ OpenedFor config w project req.projectID
  | .scopedRoot scope => ∃ place, ScopedFor config task w name req place scope ∧ rel = place.suffix

def Permitted (task : Task) (inside : Bool) (w : World) : Call → Prop
  | .now | .range _ | .abs _ => True
  | .authenticateConnection => ∃ r, task = .serveHTTP r ∧ isAuthorized config r = true
  | .openRoot allowed rel =>
    inside = true ∧ ∃ req, Asks config task "/v1/projects/open" req ∧ LeadsTo config allowed rel req.hostRoot
  | .openScopedRoot project rel create =>
    ∃ r name req place, task = .serveHTTP r ∧ Asks config task ("/v1/scoped/" ++ name) req ∧
      Daemon.decodeScopedRootRequest (scopedRequest r req) (requiredOperation name) = .ok place ∧
      OpenedFor config w project req.projectID ∧ rel = place.anchor ∧
      create = (requiredOperation name == "write")
  | .readFile root rel maxBytes =>
    ∃ req, Reaches config task w "readFile" req rel root ∧ Reads.readLimit config.limits req.maxBytes = .ok maxBytes
  | .writeFile root rel data =>
    ∃ req, Reaches config task w "writeFile" req rel root ∧ Base64.decode req.dataBase64 = some data
  | .stat root rel => ∃ req, Reaches config task w "stat" req rel root
  | .mkdirAll root rel mode => mode = 0o755 ∧ ∃ req, Reaches config task w "mkdirAll" req rel root
  | .remove root rel => ∃ req, Reaches config task w "remove" req rel root
  | .rename root oldRel newRel =>
    ∃ req project, root = .project project ∧ Reaches config task w "rename" req oldRel root ∧ newRel = req.target
  | .close (.allowed _) => inside = true ∧ task = .close
  | .close (.project project) =>
    -- an expired or replaced root, the shutdown, or the request of a client
    inside = true ∨ ∃ req, Asks config task "/v1/projects/close" req ∧ OpenedFor config w project req.projectID
  | .close (.scopedRoot scope) => ∃ origin, w.scopedRoots[scope]? = some origin ∧ origin.task = task

end Permissions

/-! ## Handles -/

def opens : (call : Call) → call.Answer → Multiset Handle
  | .openRoot _ _, some root => {.project root}
  | .openScopedRoot _ _ _, .ok root => {.scopedRoot root}
  | _, _ => 0

def closes : Call → Multiset Handle
  | .close root => {root}
  | _ => 0

/-- A project handle may be closed by another request while it is in use. -/
def needed : Handle → Multiset Handle
  | .project _ => 0
  | root => {root}

def uses : Call → Multiset Handle
  | .openRoot allowed _ => {.allowed allowed}
  | .readFile root _ _ | .writeFile root _ _ | .stat root _ | .mkdirAll root _ _ | .remove root _
  | .rename root _ _ => needed root
  | _ => 0

/-- The handles of a registry. -/
def owned (s : Server) : Multiset Handle :=
  (((s.roots.entries.map Sigma.snd).filterMap fun root => root).map Handle.project : Multiset Handle) +
    (s.allowedRoots.map Handle.allowed : Multiset Handle)

/-- The handles that registry events close. -/
def closedIn : List RegistryEvent → Multiset Handle
  | [] => 0
  | .closed (some root) :: events => {.project root} + closedIn events
  | .allowedClosed root :: events => {.allowed root} + closedIn events
  | _ :: events => closedIn events

theorem count_filterMap_self (roots : List (Option Nat)) (root : Nat) :
    (roots.filterMap fun root => root).count root = roots.count (some root) := by
  induction roots with
  | nil =>
      rfl
  | cons first roots ih =>
      cases first with
      | none =>
          simp [ih]
      | some first =>
          simp [List.count_cons, ih]

theorem project_injective : Function.Injective Handle.project :=
  fun _ _ h => Handle.project.inj h

theorem allowed_injective : Function.Injective Handle.allowed :=
  fun _ _ h => Handle.allowed.inj h

@[simp] theorem count_project_owned (s : Server) (root : Nat) :
    (owned s).count (.project root) = Keyed.count (some root) s.roots := by
  rw [owned, Multiset.count_add, Multiset.coe_count, Multiset.coe_count,
    List.count_map_of_injective _ _ project_injective, count_filterMap_self]
  have hnone : Handle.project root ∉ s.allowedRoots.map Handle.allowed := by simp
  rw [List.count_eq_zero_of_not_mem hnone, Nat.add_zero, Keyed.count]
  congr!

@[simp] theorem count_allowed_owned (s : Server) (root : Nat) :
    (owned s).count (.allowed root) = s.allowedRoots.count root := by
  rw [owned, Multiset.count_add, Multiset.coe_count, Multiset.coe_count,
    List.count_map_of_injective _ _ allowed_injective]
  have hnone : Handle.allowed root ∉ ((s.roots.entries.map Sigma.snd).filterMap fun root => root).map Handle.project := by simp
  rw [List.count_eq_zero_of_not_mem hnone, Nat.zero_add]

@[simp] theorem count_scopedRoot_owned (s : Server) (root : Nat) : (owned s).count (.scopedRoot root) = 0 := by
  rw [owned, Multiset.count_add, Multiset.coe_count, Multiset.coe_count, List.count_eq_zero_of_not_mem (by simp),
    List.count_eq_zero_of_not_mem (by simp)]

theorem count_closedIn (events : List RegistryEvent) (root : Nat) :
    (closedIn events).count (.project root) = events.count (.closed (some root)) ∧
      (closedIn events).count (.allowed root) = events.count (.allowedClosed root) ∧
      (closedIn events).count (.scopedRoot root) = 0 := by
  fun_induction closedIn events with
  | case1 =>
      exact ⟨rfl, rfl, rfl⟩
  | case2 first events ih =>
      obtain ⟨hproject, hallowed, hscoped⟩ := ih
      rw [Multiset.count_add, Multiset.count_add, Multiset.count_add, hproject, hallowed, hscoped, List.count_cons,
        List.count_cons]
      refine ⟨?_, ?_, ?_⟩ <;> simp [Multiset.count_singleton, Nat.add_comm, eq_comm (a := root)]
  | case3 first events ih =>
      obtain ⟨hproject, hallowed, hscoped⟩ := ih
      rw [Multiset.count_add, Multiset.count_add, Multiset.count_add, hproject, hallowed, hscoped, List.count_cons,
        List.count_cons]
      refine ⟨?_, ?_, ?_⟩ <;> simp [Multiset.count_singleton, Nat.add_comm, eq_comm (a := root)]
  | case4 first events hclosed hallowed ih =>
      have hfirst : first ≠ .closed (some root) := fun hsame => hclosed root hsame
      have hfirst' : first ≠ .allowedClosed root := fun hsame => hallowed root hsame
      rw [List.count_cons_of_ne hfirst, List.count_cons_of_ne hfirst']
      exact ih

/-- What a registry operation opens and what it held is what it closes and what it holds. -/
theorem owned_balance {s : Server} {log : List RegistryEvent} (s' : Server) (events : List RegistryEvent)
    (opened : List Nat)
    (h : Server.Conserved s.roots s.taken log) (h' : Server.Conserved s'.roots s'.taken (log ++ events))
    (htaken : s'.taken = s.taken) (hopened : ∀ root, opened.count root = events.count (.opened root))
    (hallowed : ∀ root, s.allowedRoots.count root = events.count (.allowedClosed root) + s'.allowedRoots.count root) :
    (opened.map Handle.project : Multiset Handle) + owned s = closedIn events + owned s' := by
  refine Multiset.ext.2 fun handle => ?_
  rw [Multiset.count_add, Multiset.count_add, Multiset.coe_count]
  cases handle with
  | allowed root =>
      rw [List.count_eq_zero_of_not_mem (by simp), count_allowed_owned, count_allowed_owned,
        (count_closedIn events root).2.1, Nat.zero_add]
      exact hallowed root
  | project root =>
      have hbefore := h root
      have hafter := h' root
      rw [htaken, List.count_append, List.count_append] at hafter
      rw [List.count_map_of_injective _ _ project_injective, count_project_owned, count_project_owned,
        (count_closedIn events root).1, hopened root]
      omega
  | scopedRoot root =>
      rw [List.count_eq_zero_of_not_mem (by simp), count_scopedRoot_owned, count_scopedRoot_owned,
        (count_closedIn events root).2.2]

/-! ## The registry -/

theorem mapGet_delete {s : Server} {id projectID : Bytes} {project : Nat}
    (h : mapGet (s.delete id).roots projectID = some project) : mapGet s.roots projectID = some project := by
  rw [mapGet, Server.delete] at h
  by_cases hid : projectID = id
  · subst hid
    rw [AList.lookup_erase] at h
    cases h
  · rw [AList.lookup_erase_ne hid] at h
    exact h

/-- An expiry drops projects and leaves everything else as it was. -/
theorem expire_frame (now : Int) (order : List Bytes) (s : Server) :
    let s' := (Server.expireRootsLocked now order s).1
    s'.taken = s.taken ∧ s'.handles = s.handles ∧ (s'.allowedRoots = s.allowedRoots ∧ s'.closed = s.closed) ∧
      ∀ projectID project, mapGet s'.roots projectID = some project → mapGet s.roots projectID = some project := by
  induction order generalizing s with
  | nil =>
      exact ⟨rfl, rfl, ⟨rfl, rfl⟩, fun _ _ h => h⟩
  | cons id order ih =>
      rw [Server.expireRootsLocked]
      rcases s.lastUsed.lookup id with _ | last
      · exact ih s
      · by_cases hexpired : now - last ≥ s.projectIdleTimeout
        · simp only [if_pos hexpired]
          obtain ⟨htaken, hhandles, hallowed, hroots⟩ := ih (s.delete id)
          exact ⟨htaken, hhandles, hallowed, fun projectID project h => mapGet_delete (hroots projectID project h)⟩
        · simp only [if_neg hexpired]
          exact ih s

theorem closeRoots_frame (order : List Bytes) (s : Server) :
    let s' := (Server.closeRoots order s).1
    s'.taken = s.taken ∧ s'.handles = s.handles ∧ s'.allowedRoots = s.allowedRoots := by
  induction order generalizing s with
  | nil =>
      exact ⟨rfl, rfl, rfl⟩
  | cons id order ih =>
      rw [Server.closeRoots]
      rcases s.roots.lookup id with _ | root
      · exact ih s
      · exact ih (s.delete id)

theorem count_events_closed {events : List RegistryEvent} (h : ∀ event ∈ events, ∃ root, event = .closed root)
    (root : Nat) : events.count (.opened root) = 0 ∧ events.count (.allowedClosed root) = 0 := by
  constructor
  · apply List.count_eq_zero_of_not_mem
    intro hmem
    obtain ⟨root', hevent⟩ := h _ hmem
    cases hevent
  · apply List.count_eq_zero_of_not_mem
    intro hmem
    obtain ⟨root', hevent⟩ := h _ hmem
    cases hevent

section Ownership

variable {limit : Int} {log : List RegistryEvent} {s : Server}

theorem owned_expire (hs : Server.Consistent limit log s) (now : Int) (order : List Bytes) :
    owned s = closedIn (Server.expireRootsLocked now order s).2 + owned (Server.expireRootsLocked now order s).1 := by
  obtain ⟨htaken, -, ⟨hallowed, -⟩, -⟩ := expire_frame now order s
  have hevents := count_events_closed (Server.expire_events now order s)
  rw [← owned_balance _ _ [] hs.conserved (hs.expire now order).conserved htaken]
  · exact (zero_add _).symm
  · intro root
    exact (hevents root).1.symm
  · intro root
    rw [(hevents root).2, hallowed, Nat.zero_add]

theorem owned_delete {projectID : Bytes} {project : Nat} (h : mapGet s.roots projectID = some project) :
    owned s = {Handle.project project} + owned (s.delete projectID) := by
  refine Multiset.ext.2 fun handle => ?_
  rw [Multiset.count_add, Multiset.count_singleton]
  cases handle with
  | allowed root =>
      simp [Server.delete]
  | project root =>
      have hroot := Server.count_root (Server.lookup_of_mapGet h) root
      rw [count_project_owned, count_project_owned, hroot]
      simp only [Handle.project.injEq, Server.delete]
      rw [Nat.add_comm]
      simp only [eq_comm]
  | scopedRoot root =>
      simp

/-- A root is registered and the one it replaces is closed. -/
theorem owned_register (hs : Server.Consistent limit log s) (projectID : Bytes) (project : Nat) (now : Int) :
    {Handle.project project} + owned s =
      closedIn ((mapGet s.roots projectID).toList.map fun old => .closed (some old)) +
        owned { s with
          handles := s.handles + 1
          roots := s.roots.insert projectID (some project)
          lastUsed := s.lastUsed.insert projectID now } := by
  let old := (mapGet s.roots projectID).toList.map fun old => RegistryEvent.closed (some old)
  let s' := { s with
    handles := s.handles + 1
    roots := s.roots.insert projectID (some project)
    lastUsed := s.lastUsed.insert projectID now }
  have hregister : Server.Conserved s'.roots s'.taken (log ++ .opened project :: old) :=
    hs.conserved.register (hs.stored projectID)
  have hold : ∀ root, old.count (.opened root) = 0 ∧ old.count (.allowedClosed root) = 0 :=
    count_events_closed (by simp [old])
  refine owned_balance s' (.opened project :: old) [project] hs.conserved hregister rfl ?_ ?_
  · intro root
    rw [List.count_cons, List.count_cons, (hold root).1]
    simp
  · intro root
    rw [List.count_cons_of_ne (by simp), (hold root).2, Nat.zero_add]

theorem owned_close (hs : Server.Consistent limit log s) (order : List Bytes) :
    owned s = closedIn (s.close order).2 + owned (s.close order).1 := by
  obtain ⟨htaken, -, hallowed⟩ := closeRoots_frame order { s with closed := true, allowedRoots := [] }
  have hevents := count_events_closed (Server.closeRoots_events order { s with closed := true, allowedRoots := [] })
  have hsame : ∀ root, (s.allowedRoots.map RegistryEvent.allowedClosed).count (.opened root) = 0 := by
    intro root
    exact List.count_eq_zero_of_not_mem (by simp)
  rw [← owned_balance _ _ [] hs.conserved (hs.close order).conserved htaken]
  · exact (zero_add _).symm
  · intro root
    rw [Server.close, List.count_append, hsame, (hevents root).1]
    rfl
  · intro root
    have hinjective : Function.Injective RegistryEvent.allowedClosed := fun _ _ h => RegistryEvent.allowedClosed.inj h
    rw [Server.close, List.count_append, List.count_map_of_injective _ _ hinjective, (hevents root).2]
    simp only [hallowed, List.count_nil, Nat.add_zero]

end Ownership

/-! ## The discipline -/

/-- What the other threads do to the world while a thread holds the lock, or while it does not. -/
def stable (inside : Bool) (w w' : World) : Prop :=
  (if inside then w'.projects = w.projects else w.projects <+: w'.projects) ∧ w.scopedRoots <+: w'.scopedRoots

theorem stable_refl (inside : Bool) (w : World) : stable inside w w := by
  refine ⟨?_, List.prefix_rfl⟩
  split_ifs
  · rfl
  · exact List.prefix_rfl

theorem stable_weaken {inside : Bool} {w w' : World} (h : stable inside w w') : stable false w w' := by
  refine ⟨?_, h.2⟩
  have hprojects := h.1
  split_ifs at hprojects
  · rw [hprojects]
    exact List.prefix_rfl
  · exact hprojects

theorem stable_trans {inside : Bool} {w w' w'' : World} (h : stable inside w w') (h' : stable inside w' w'') :
    stable inside w w'' := by
  refine ⟨?_, h.2.trans h'.2⟩
  have hfirst := h.1
  have hsecond := h'.1
  split_ifs at hfirst hsecond ⊢
  · exact hsecond.trans hfirst
  · exact hfirst.trans hsecond

theorem getElem?_of_prefix {β : Type} {l l' : List β} {i : Nat} {b : β} (h : l <+: l') (hi : l[i]? = some b) :
    l'[i]? = some b := by
  obtain ⟨more, rfl⟩ := h
  rw [List.getElem?_append_left (List.getElem?_eq_some_iff.1 hi).1]
  exact hi

variable {config : Config}

theorem OpenedFor.grow {inside : Bool} {w w' : World} {project : Nat} {projectID : Bytes}
    (h : OpenedFor config w project projectID) (hw : stable inside w w') : OpenedFor config w' project projectID := by
  obtain ⟨origin, req, horigin, hopened⟩ := h
  exact ⟨origin, req, getElem?_of_prefix (stable_weaken hw).1 horigin, hopened⟩

theorem ScopedFor.grow {inside : Bool} {w w' : World} {task : Task} {name : String} {req : Request} {place : ScopedRoot}
    {scope : Nat} (h : ScopedFor config task w name req place scope) (hw : stable inside w w') :
    ScopedFor config task w' name req place scope := by
  obtain ⟨r, project, htask, hasks, hplace, hscope, hopened⟩ := h
  exact ⟨r, project, htask, hasks, hplace, getElem?_of_prefix hw.2 hscope, hopened.grow hw⟩

theorem Reaches.grow {inside : Bool} {w w' : World} {task : Task} {name : String} {req : Request} {rel : Bytes}
    {root : Handle} (h : Reaches config task w name req rel root) (hw : stable inside w w') :
    Reaches config task w' name req rel root := by
  cases root with
  | allowed root =>
      exact h
  | project root =>
      exact ⟨h.1, h.2.1, h.2.2.grow hw⟩
  | scopedRoot root =>
      obtain ⟨place, hscoped, hrel⟩ := h
      exact ⟨place, hscoped.grow hw, hrel⟩

/-- The registry while nobody holds the lock: a state that its own steps reach, whose handles are those of the world. -/
structure Registered (config : Config) (s₀ s : Server) (w : World) : Prop where
  reached : ∃ log, Transition.Run Server.step s₀ log s
  taken : s.taken = []
  numbered : s.handles = w.projects.length
  opened : ∀ projectID project, mapGet s.roots projectID = some project → OpenedFor config w project projectID

theorem Registered.grow {s₀ s : Server} {w w' : World} (h : Registered config s₀ s w) (hw : stable true w w') :
    Registered config s₀ s w' where
  reached := h.reached
  taken := h.taken
  numbered := by
    have hprojects : w'.projects = w.projects := hw.1
    rw [hprojects]
    exact h.numbered
  opened := fun projectID project hroot => (h.opened projectID project hroot).grow hw

/-- Only a call that opens a handle changes the world, and only under the lock if the handle is a project's. -/
theorem answer_stable {task : Task} {inside : Bool} {w : World} {call : Call} (choice : Choice)
    (h : Permitted config task inside w call) : stable (!inside) w (answer task w call choice).1 := by
  cases call with
  | openRoot allowed rel =>
      rw [h.1, answer]
      cases choice.failure with
      | some error =>
          exact stable_refl _ w
      | none =>
          exact ⟨List.prefix_append _ _, List.prefix_rfl⟩
  | openScopedRoot project rel create =>
      rw [answer]
      cases choice.failure with
      | some error =>
          exact stable_refl _ w
      | none =>
          refine ⟨?_, List.prefix_append _ _⟩
          split_ifs
          · rfl
          · exact List.prefix_rfl
  | _ =>
      exact stable_refl _ w

def discipline (config : Config) (s₀ : Server) : Discipline Task Server Handle operatingSystem where
  stable := stable
  stable_refl := stable_refl
  stable_trans := stable_trans
  stable_weaken := stable_weaken
  invariant := Registered config s₀
  invariant_stable := fun hw hs => hs.grow hw
  allowed := Permitted config
  opens := opens
  closes := closes
  uses := uses
  owned := owned
  answer_stable := fun choice h => answer_stable choice h

end Service

end Daemon

end CanonicalPath
