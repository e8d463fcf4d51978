import CanonicalPath.Daemon.ServiceHandlers

/-!
# Service safety — what every interleaving of requests keeps

Any number of requests and shutdowns, started at any time, in any order of their steps, and whatever the operating
system answers.

* `service_permitted` : every call was one that its request permits, on a handle that was opened for it
* `service_handles` : handles are closed once, trusted and scoped ones are not used afterwards, and none is lost
* `service_registry` : while the lock is free the registry is a state that its operations reach one by one
* `service_rests` : without new requests the daemon comes to rest, with all of them answered
-/

namespace CanonicalPath

namespace Daemon

namespace Service

open CodeUnit Segments Threads

/-! ## The system -/

abbrev System : Type :=
  Pool Task Server World Call Call.Answer (Option HttpReply)

abbrev Log : Type :=
  List (Asked Task Call Call.Answer)

/-- A step of one task, or a new one. -/
def step (config : Config) : System → Action Task Choice → Option (System × Log) :=
  Pool.step operatingSystem (start config)

/-- A daemon without requests. -/
def init (s₀ : Server) : System where
  shared := s₀
  world := {}

instance : Inhabited Choice :=
  ⟨{}⟩

variable {config : Config} {options : ServerOptions} {allowedRoots : List Nat} {s₀ : Server} {log : Log}
  {system : System}

theorem newServer_eq (hinit : newServer options allowedRoots = .ok s₀) :
    s₀.roots = ∅ ∧ s₀.allowedRoots = allowedRoots ∧ s₀.taken = [] ∧ s₀.handles = 0 ∧ s₀.closed = false := by
  by_cases hnegative : options.maxProjects < 0 ∨ options.projectIdleTimeout < 0
  · rw [newServer, if_pos hnegative] at hinit
    cases hinit
  · rw [newServer, if_neg hnegative] at hinit
    cases hinit
    exact ⟨rfl, rfl, rfl, rfl, rfl⟩

theorem accounts (hinit : newServer options allowedRoots = .ok s₀) (h : Transition.Run (step config) (init s₀) log system) :
    Accounts (discipline config s₀) (owned s₀) log system := by
  obtain ⟨hroots, -, htaken, hhandles, -⟩ := newServer_eq hinit
  refine accounts_run (safe_start hinit) ?_ h
  refine ⟨⟨[], .nil s₀⟩, htaken, hhandles, ?_⟩
  intro projectID project hroot
  rw [hroots] at hroot
  cases hroot

/-! ## Permissions -/

theorem Permitted.grow {task : Task} {inside : Bool} {w w' : World} {call : Call}
    (h : Permitted config task inside w call) (hw : stable false w w') : Permitted config task inside w' call := by
  cases call with
  | now =>
      trivial
  | range keys =>
      trivial
  | abs path =>
      trivial
  | authenticateConnection =>
      exact h
  | openRoot allowed rel =>
      exact h
  | openScopedRoot project rel create =>
      obtain ⟨r, name, req, place, htask, hasks, hplace, hopened, hrel⟩ := h
      exact ⟨r, name, req, place, htask, hasks, hplace, hopened.grow hw, hrel⟩
  | readFile root rel maxBytes =>
      obtain ⟨req, hreaches, hlimit⟩ := h
      exact ⟨req, hreaches.grow hw, hlimit⟩
  | writeFile root rel data =>
      obtain ⟨req, hreaches, hdata⟩ := h
      exact ⟨req, hreaches.grow hw, hdata⟩
  | stat root rel =>
      obtain ⟨req, hreaches⟩ := h
      exact ⟨req, hreaches.grow hw⟩
  | mkdirAll root rel mode =>
      obtain ⟨hmode, req, hreaches⟩ := h
      exact ⟨hmode, req, hreaches.grow hw⟩
  | remove root rel =>
      obtain ⟨req, hreaches⟩ := h
      exact ⟨req, hreaches.grow hw⟩
  | rename root oldRel newRel =>
      obtain ⟨req, project, hroot, hreaches, hnew⟩ := h
      exact ⟨req, project, hroot, hreaches.grow hw, hnew⟩
  | close root =>
      cases root with
      | allowed root =>
          exact h
      | project project =>
          rcases h with hinside | ⟨req, hasks, hopened⟩
          · exact .inl hinside
          · exact .inr ⟨req, hasks, hopened.grow hw⟩
      | scopedRoot scope =>
          obtain ⟨origin, horigin, htask⟩ := h
          exact ⟨origin, getElem?_of_prefix hw.2 horigin, htask⟩

/-! ## Records -/

/-- The handles that the calls of a log opened, with repetitions. -/
def openedIn (log : Log) : Multiset Handle :=
  (log.map fun asked => opens asked.call asked.answer).sum

/-- The handles that they closed. -/
def closedBy (log : Log) : Multiset Handle :=
  (log.map fun asked => closes asked.call).sum

theorem openedIn_append (log more : Log) : openedIn (log ++ more) = openedIn log + openedIn more := by
  rw [openedIn, List.map_append, List.sum_append]
  rfl

/-- The handles of a world are those that the calls of a log opened, each of them once. -/
structure Recorded (log : Log) (w : World) : Prop where
  projects : ∀ project origin, w.projects[project]? = some origin →
    ∃ thread inside, ⟨thread, origin.task, inside, .openRoot origin.allowed origin.rel, some project⟩ ∈ log
  scopedRoots : ∀ scope origin, w.scopedRoots[scope]? = some origin → ∃ thread inside create,
    ⟨thread, origin.task, inside, .openScopedRoot origin.project origin.rel create, .ok scope⟩ ∈ log
  count_project : ∀ project,
    (openedIn log).count (.project project) = if project < w.projects.length then 1 else 0
  count_scopedRoot : ∀ scope,
    (openedIn log).count (.scopedRoot scope) = if scope < w.scopedRoots.length then 1 else 0
  count_allowed : ∀ allowed, (openedIn log).count (.allowed allowed) = 0

/-- A call that opens nothing. -/
theorem Recorded.quiet {w : World} (h : Recorded log w) {asked : Asked Task Call Call.Answer}
    (hopens : opens asked.call asked.answer = 0) : Recorded (log ++ [asked]) w := by
  have hsame : openedIn (log ++ [asked]) = openedIn log := by
    rw [openedIn_append, openedIn, openedIn, List.map_singleton, List.sum_singleton, hopens, add_zero]
  refine ⟨?_, ?_, ?_, ?_, ?_⟩
  · intro project origin horigin
    obtain ⟨thread, inside, hmem⟩ := h.projects project origin horigin
    exact ⟨thread, inside, List.mem_append_left _ hmem⟩
  · intro scope origin horigin
    obtain ⟨thread, inside, create, hmem⟩ := h.scopedRoots scope origin horigin
    exact ⟨thread, inside, create, List.mem_append_left _ hmem⟩
  · rw [hsame]
    exact h.count_project
  · rw [hsame]
    exact h.count_scopedRoot
  · rw [hsame]
    exact h.count_allowed

theorem getElem?_snoc {β : Type} {l : List β} {b b' : β} {i : Nat} (h : (l ++ [b])[i]? = some b') :
    l[i]? = some b' ∨ i = l.length ∧ b' = b := by
  by_cases hlt : i < l.length
  · rw [List.getElem?_append_left hlt] at h
    exact .inl h
  · rw [List.getElem?_append_right (Nat.not_lt.1 hlt)] at h
    obtain ⟨hbound, hget⟩ := List.getElem?_eq_some_iff.1 h
    rw [List.length_singleton] at hbound
    refine .inr ⟨by omega, ?_⟩
    rw [← hget]
    simp

/-- What a call opens is the last handle of its kind. -/
theorem Recorded.ask {w : World} (h : Recorded log w) (thread : Nat) (task : Task) (inside : Bool) (call : Call)
    (choice : Choice) :
    Recorded (log ++ [⟨thread, task, inside, call, (answer task w call choice).2⟩]) (answer task w call choice).1 := by
  cases call with
  | openRoot allowed rel =>
      rw [answer]
      cases choice.failure with
      | some error =>
          exact h.quiet rfl
      | none =>
          have hopened : openedIn (log ++ [⟨thread, task, inside, .openRoot allowed rel, some w.projects.length⟩]) =
              openedIn log + {.project w.projects.length} := by
            rw [openedIn_append]
            congr 1
          refine ⟨?_, ?_, ?_, ?_, ?_⟩
          · intro project origin horigin
            rcases getElem?_snoc horigin with hold | ⟨rfl, rfl⟩
            · obtain ⟨thread', inside', hmem⟩ := h.projects project origin hold
              exact ⟨thread', inside', List.mem_append_left _ hmem⟩
            · exact ⟨thread, inside, List.mem_append_right _ (List.mem_singleton_self _)⟩
          · intro scope origin horigin
            obtain ⟨thread', inside', create, hmem⟩ := h.scopedRoots scope origin horigin
            exact ⟨thread', inside', create, List.mem_append_left _ hmem⟩
          · intro project
            rw [hopened, Multiset.count_add, h.count_project, Multiset.count_singleton, List.length_append,
              List.length_singleton]
            simp only [Handle.project.injEq]
            split_ifs <;> omega
          · intro scope
            rw [hopened, Multiset.count_add, h.count_scopedRoot, Multiset.count_singleton]
            simp
          · intro allowed
            rw [hopened, Multiset.count_add, h.count_allowed, Multiset.count_singleton]
            simp
  | openScopedRoot project rel create =>
      rw [answer]
      cases choice.failure with
      | some error =>
          exact h.quiet rfl
      | none =>
          have hopened : openedIn (log ++
                [⟨thread, task, inside, .openScopedRoot project rel create, .ok w.scopedRoots.length⟩]) =
              openedIn log + {.scopedRoot w.scopedRoots.length} := by
            rw [openedIn_append]
            congr 1
          refine ⟨?_, ?_, ?_, ?_, ?_⟩
          · intro project origin horigin
            obtain ⟨thread', inside', hmem⟩ := h.projects project origin horigin
            exact ⟨thread', inside', List.mem_append_left _ hmem⟩
          · intro scope origin horigin
            rcases getElem?_snoc horigin with hold | ⟨rfl, rfl⟩
            · obtain ⟨thread', inside', create', hmem⟩ := h.scopedRoots scope origin hold
              exact ⟨thread', inside', create', List.mem_append_left _ hmem⟩
            · exact ⟨thread, inside, create, List.mem_append_right _ (List.mem_singleton_self _)⟩
          · intro project
            rw [hopened, Multiset.count_add, h.count_project, Multiset.count_singleton]
            simp
          · intro scope
            rw [hopened, Multiset.count_add, h.count_scopedRoot, Multiset.count_singleton, List.length_append,
              List.length_singleton]
            simp only [Handle.scopedRoot.injEq]
            split_ifs <;> omega
          · intro allowed
            rw [hopened, Multiset.count_add, h.count_allowed, Multiset.count_singleton]
            simp
  | _ =>
      exact h.quiet rfl

theorem recorded (h : Transition.Run (step config) (init s₀) log system) : Recorded log system.world := by
  refine h.logged (P := fun log system => Recorded log system.world) ?_ ?_
  · refine ⟨?_, ?_, ?_, ?_, ?_⟩
    · intro project origin horigin
      cases horigin
    · intro scope origin horigin
      cases horigin
    · intro project
      rfl
    · intro scope
      rfl
    · intro allowed
      rfl
  · intro log system action system' events hrecorded hstep
    rcases Pool.step_cases hstep with ⟨task, -, rfl, rfl⟩ | ⟨thread, choice, task, call, next, -, -, rfl, rfl⟩ |
      ⟨thread, choice, task, next, -, -, -, rfl, rfl⟩ | ⟨thread, choice, task, s, next, -, -, -, rfl, rfl⟩
    · rw [List.append_nil]
      exact hrecorded
    · exact hrecorded.ask thread task _ call choice
    · rw [List.append_nil]
      exact hrecorded
    · rw [List.append_nil]
      exact hrecorded

/-! ## A run -/

def sampleToken : Bytes :=
  lit "0123456789abcdef0123456789abcdef"

/-- One trusted root under one name. -/
def sampleConfig : Config where
  capabilityToken := sampleToken
  names := fun _ => ⟨[lit "w"], by decide, [lit "w"], by decide⟩
  limits := {
    maxRequestBytes := Reads.defaultMaxRequestBytes
    defaultReadBytes := Reads.defaultReadBytes
    maxReadBytes := Reads.defaultMaxReadBytes
    maxResponseBytes := Reads.defaultMaxResponseBytes }
  marshal := fun _ => some (lit "\x7b\x7d")

def sampleServer : Server where
  roots := ∅
  lastUsed := ∅
  allowedRoots := [0]
  maxProjects := 128
  projectIdleTimeout := 1800000000000

def sampleOpen : HttpRequest where
  method := "POST"
  urlPath := "/v1/projects/open"
  authorization := bearer ++ sampleToken
  body := .request { projectID := lit "p", hostRoot := lit "/w/p" }

def sampleWrite : HttpRequest where
  method := "POST"
  urlPath := "/v1/fs/writeFile"
  authorization := bearer ++ sampleToken
  body := .request { projectID := lit "p", path := lit "a", dataBase64 := lit "aGk=" }

/-- A project is opened, written to while the daemon is asked to shut down, and closed. -/
def sampleActions : List (Action Task Choice) :=
  [.spawn (.serveHTTP sampleOpen), .spawn (.serveHTTP sampleWrite), .spawn .close] ++
    List.replicate 8 (.next 0 {}) ++ List.replicate 6 (.next 1 { order := [lit "p"] }) ++
    [.next 2 {}, .next 1 {}] ++ List.replicate 4 (.next 2 {})

def sampleCalls : List Call := [
  .authenticateConnection, .now, .range [], .abs (lit "/w/p"), .openRoot 0 (lit "p"), .now,
  .authenticateConnection, .now, .range [lit "p"], .now, .writeFile (.project 0) (lit "a") (lit "hi"),
  .range [lit "p"], .close (.allowed 0), .close (.project 0)]

theorem sample_run : ∃ log system, Transition.Run (step sampleConfig) (init sampleServer) log system ∧
    log.map Asked.call = sampleCalls ∧ system.holder = none ∧ system.shared.closed = true ∧
    (∀ (thread : Nat) task program, system.threads[thread]? = some (task, program) → program.isDone = true) ∧
    system.threads[1]? = some (.serveHTTP sampleWrite, .done (some { status := 200, value := .response {} })) := by
  let view (last : System × Log) :=
    (last.2.map Asked.call, last.1.holder, last.1.shared.closed,
      last.1.threads.map fun thread => (thread.1, thread.2.result))
  have hview : (Transition.exec (step sampleConfig) sampleActions (init sampleServer)).map view =
      some (sampleCalls, none, true,
        [(.serveHTTP sampleOpen, some (some { status := 200, value := .response {} })),
          (.serveHTTP sampleWrite, some (some { status := 200, value := .response {} })), (.close, some none)]) := by
    rfl
  obtain ⟨⟨system, log⟩, hexec, hlast⟩ := Option.map_eq_some_iff.1 hview
  simp only [view, Prod.mk.injEq] at hlast
  obtain ⟨hcalls, hfree, hclosed, hresults⟩ := hlast
  have hat : ∀ (thread : Nat) task program, system.threads[thread]? = some (task, program) →
      (system.threads.map fun thread => (thread.1, thread.2.result))[thread]? = some (task, program.result) := by
    intro thread task program hthread
    rw [List.getElem?_map, hthread]
    rfl
  rw [hresults] at hat
  refine ⟨log, system, Transition.run_of_exec hexec, hcalls, hfree, hclosed, ?_, ?_⟩
  · intro thread task program hthread
    have hmem := List.mem_of_getElem? (hat thread task program hthread)
    simp only [List.mem_cons, Prod.mk.injEq, List.not_mem_nil, or_false] at hmem
    rcases hmem with ⟨-, hresult⟩ | ⟨-, hresult⟩ | ⟨-, hresult⟩ <;> rw [Program.isDone, hresult] <;> rfl
  · have hlength : 1 < system.threads.length := by
      have hthree := congrArg List.length hresults
      rw [List.length_map] at hthree
      rw [hthree]
      decide
    obtain ⟨⟨task, program⟩, hthread⟩ : ∃ entry, system.threads[1]? = some entry :=
      ⟨_, List.getElem?_eq_getElem hlength⟩
    have hresult := hat 1 task program hthread
    simp only [List.getElem?_cons_succ, List.getElem?_cons_zero, Option.some.injEq, Prod.mk.injEq] at hresult
    rw [hthread, ← hresult.1]
    cases program with
    | done reply =>
        rw [← Option.some.inj hresult.2]
    | _ =>
        cases hresult.2

theorem sample_init : newServer ⟨0, 0⟩ [0] = .ok sampleServer :=
  rfl

/-! ## Results -/

theorem count_initial (hinit : newServer options allowedRoots = .ok s₀) :
    (∀ project, (owned s₀).count (.project project) = 0) ∧
      ∀ allowed, (owned s₀).count (.allowed allowed) = allowedRoots.count allowed := by
  obtain ⟨hroots, hallowed, -⟩ := newServer_eq hinit
  refine ⟨fun project => ?_, fun allowed => ?_⟩
  · rw [count_project_owned, hroots]
    rfl
  · rw [count_allowed_owned, hallowed]

/-- A root is opened below a trusted one. -/
theorem openRoot_trusted (hinit : newServer options allowedRoots = .ok s₀)
    (h : Transition.Run (step config) (init s₀) log system) {asked : Asked Task Call Call.Answer} (hasked : asked ∈ log)
    {allowed : Nat} {rel : Bytes} (hcall : asked.call = .openRoot allowed rel) : allowed ∈ allowedRoots := by
  obtain ⟨before, after, hlog⟩ := List.append_of_mem hasked
  have hopen := Multiset.count_le_of_le (.allowed allowed) ((accounts hinit h).open_before before asked after hlog)
  rw [Multiset.count_add] at hopen
  change (closedBy before).count (.allowed allowed) + (closes asked.call + uses asked.call).count (.allowed allowed) ≤
    (owned s₀ + openedIn before).count (.allowed allowed) at hopen
  have hnone : (openedIn before).count (.allowed allowed) = 0 := by
    have hcount := (recorded h).count_allowed allowed
    rw [hlog, openedIn_append, Multiset.count_add] at hcount
    omega
  have huses : 0 < (closes asked.call + uses asked.call).count (.allowed allowed) := by
    rw [hcall]
    exact Multiset.count_pos.2 (Multiset.mem_add.2 (.inr (Multiset.mem_singleton_self _)))
  rw [Multiset.count_add _ (owned s₀), (count_initial hinit).2, hnone] at hopen
  exact List.count_pos_iff.1 (by omega)

/-- Every call was one that its request permits, on handles that the log shows being opened for it, and below the roots
that the daemon was started with. -/
theorem service_permitted (hinit : newServer options allowedRoots = .ok s₀)
    (h : Transition.Run (step config) (init s₀) log system) :
    (∀ asked ∈ log, Permitted config asked.task asked.inside system.world asked.call) ∧
      (∀ project origin, system.world.projects[project]? = some origin →
        ∃ thread inside, ⟨thread, origin.task, inside, .openRoot origin.allowed origin.rel, some project⟩ ∈ log) ∧
      (∀ scope origin, system.world.scopedRoots[scope]? = some origin → ∃ thread inside create,
        ⟨thread, origin.task, inside, .openScopedRoot origin.project origin.rel create, .ok scope⟩ ∈ log) ∧
      ∀ asked ∈ log, ∀ allowed rel, asked.call = .openRoot allowed rel → allowed ∈ allowedRoots := by
  have hrecorded := recorded h
  refine ⟨?_, hrecorded.projects, hrecorded.scopedRoots, fun asked hasked _ _ => openRoot_trusted hinit h hasked⟩
  intro asked hasked
  obtain ⟨w, choice, hallowed, -, hgrown⟩ := (accounts hinit h).allowed asked hasked
  have hanswered := stable_weaken (answer_stable choice hallowed)
  exact Permitted.grow hallowed (stable_trans hanswered hgrown)

/-- The requests of the sample. -/
theorem service_permitted_sample : ∃ log system,
    Transition.Run (step sampleConfig) (init sampleServer) log system ∧ log.map Asked.call = sampleCalls ∧
      (∀ asked ∈ log, Permitted sampleConfig asked.task asked.inside system.world asked.call) ∧
        ∀ asked ∈ log, ∀ allowed rel, asked.call = .openRoot allowed rel → allowed = 0 := by
  obtain ⟨log, system, hrun, hcalls, -⟩ := sample_run
  obtain ⟨hpermitted, -, -, htrusted⟩ := service_permitted sample_init hrun
  refine ⟨log, system, hrun, hcalls, hpermitted, ?_⟩
  intro asked hasked allowed rel hcall
  exact List.mem_singleton.1 (htrusted asked hasked allowed rel hcall)

/-- A server that was shut down keeps no root. -/
def Emptied (s : Server) : Prop :=
  s.closed = true → Server.Shut s ∧ s.allowedRoots = []

/-- Only the shutdown touches the flag and the trusted roots. -/
theorem step_frame {s s' : Server} {action : Server.RegistryAction} {events : List RegistryEvent}
    (h : s.step action = some (s', events)) :
    (∃ order, order.Perm s.roots.keys ∧ s' = (s.close order).1) ∨
      (s'.closed = s.closed ∧ s'.allowedRoots = s.allowedRoots) := by
  cases action with
  | close order =>
      rw [Server.step] at h
      split_ifs at h with horder
      cases h
      exact .inl ⟨order, horder, rfl⟩
  | closeTaken call outcome =>
      obtain ⟨root, -, hnext⟩ := Option.bind_eq_some_iff.1 h
      cases hnext
      exact .inr ⟨rfl, rfl⟩
  | root projectID expiredAt usedAt order =>
      obtain ⟨hallowed, hclosed⟩ := (expire_frame expiredAt order s).2.2.1
      rw [Server.step] at h
      split_ifs at h with horder
      rw [Server.root] at h
      generalize Server.expireRootsLocked expiredAt order s = expired at h hclosed hallowed
      by_cases hempty : projectID = []
      · simp only [if_pos hempty] at h
        cases h
        exact .inr ⟨rfl, rfl⟩
      · simp only [if_neg hempty] at h
        cases hroot : mapGet expired.1.roots projectID <;> simp only [hroot] at h <;> cases h <;>
          exact .inr ⟨hclosed, hallowed⟩
  | takeRoot projectID now order =>
      obtain ⟨hallowed, hclosed⟩ := (expire_frame now order s).2.2.1
      rw [Server.step] at h
      split_ifs at h with horder
      rw [Server.takeRoot] at h
      generalize Server.expireRootsLocked now order s = expired at h hclosed hallowed
      by_cases hempty : projectID = []
      · simp only [if_pos hempty] at h
        cases h
        exact .inr ⟨rfl, rfl⟩
      · simp only [if_neg hempty] at h
        cases hroot : mapGet expired.1.roots projectID <;> simp only [hroot] at h <;> cases h <;>
          exact .inr ⟨hclosed, hallowed⟩
  | handleOpenProject projectID hostRoot expiredAt usedAt order opens =>
      obtain ⟨hallowed, hclosed⟩ := (expire_frame expiredAt order s).2.2.1
      rw [Server.step] at h
      split_ifs at h with horder
      rw [Server.handleOpenProject] at h
      generalize Server.expireRootsLocked expiredAt order s = expired at h hclosed hallowed
      split_ifs at h with hempty hlong
      · cases h
        exact .inr ⟨rfl, rfl⟩
      · cases h
        exact .inr ⟨rfl, rfl⟩
      · simp only at h
        split_ifs at h with hfull
        · cases h
          exact .inr ⟨hclosed, hallowed⟩
        · rw [Server.openAuthorizedRoot] at h
          split_ifs at h <;> cases h <;> exact .inr ⟨hclosed, hallowed⟩

theorem emptied_run {s : Server} {registryLog : List RegistryEvent} (hinit : newServer options allowedRoots = .ok s₀)
    (h : Transition.Run Server.step s₀ registryLog s) : Emptied s := by
  refine h.invariant (P := Emptied) ?_ ?_
  · intro hclosed
    rw [(newServer_eq hinit).2.2.2.2] at hclosed
    cases hclosed
  · intro s action s' events hs hstep hclosed
    rcases step_frame hstep with ⟨order, horder, rfl⟩ | ⟨hsame, hallowed⟩
    · exact ⟨Server.shut_close horder, (closeRoots_frame order { s with closed := true, allowedRoots := [] }).2.2⟩
    · rw [hsame] at hclosed
      obtain ⟨hshut, hempty⟩ := hs hclosed
      exact ⟨(Server.shut_step hshut hstep).1, hallowed.trans hempty⟩

theorem owned_eq_zero {s : Server} (hroots : s.roots = ∅) (hallowed : s.allowedRoots = []) : owned s = 0 := by
  rw [owned, hroots, hallowed]
  rfl

/-- No handle is opened twice. -/
theorem count_le_one (hinit : newServer options allowedRoots = .ok s₀) (hnodup : allowedRoots.Nodup)
    (h : Transition.Run (step config) (init s₀) log system) (handle : Handle) :
    (owned s₀ + openedIn log).count handle ≤ 1 := by
  obtain ⟨hproject, hallowed⟩ := count_initial hinit
  have hrecorded := recorded h
  rw [Multiset.count_add]
  cases handle with
  | allowed allowed =>
      rw [hallowed, hrecorded.count_allowed, Nat.add_zero]
      exact List.nodup_iff_count_le_one.1 hnodup allowed
  | project project =>
      rw [hproject, hrecorded.count_project, Nat.zero_add]
      split_ifs <;> decide
  | scopedRoot scope =>
      rw [count_scopedRoot_owned, hrecorded.count_scopedRoot, Nat.zero_add]
      split_ifs <;> decide

/-- While the lock is free, the registry is in a state that its operations reach one after the other; the handles it
holds are open, and were opened for the project that holds them. -/
theorem service_registry (hinit : newServer options allowedRoots = .ok s₀) (hnodup : allowedRoots.Nodup)
    (h : Transition.Run (step config) (init s₀) log system) (hfree : system.holder = none) :
    (∃ registryLog, Transition.Run Server.step s₀ registryLog system.shared) ∧
      (∀ projectID, projectID ∈ system.shared.lastUsed ↔ projectID ∈ system.shared.roots) ∧
      (system.shared.roots.keys.length : Int) ≤ (if options.maxProjects = 0 then 128 else options.maxProjects) ∧
      (∀ projectID project, mapGet system.shared.roots projectID = some project →
        OpenedFor config system.world project projectID) ∧
      ∀ handle ∈ owned system.shared, handle ∈ owned s₀ + openedIn log ∧ handle ∉ closedBy log := by
  have haccounts := accounts hinit h
  have hregistered : Registered config s₀ system.shared system.world := haccounts.invariant hfree
  obtain ⟨registryLog, hconsistent⟩ := hregistered.consistent hinit
  refine ⟨hregistered.reached, hconsistent.keys, hconsistent.bounded, hregistered.opened, fun handle hhandle => ?_⟩
  obtain ⟨held, -, hbalance⟩ := haccounts.balance
  have hcount := congrArg (Multiset.count handle) hbalance
  rw [guarded, if_pos hfree, Multiset.count_add, Multiset.count_add, Multiset.count_add] at hcount
  have hone := count_le_one hinit hnodup h handle
  have hpositive : 0 < (owned system.shared).count handle := Multiset.count_pos.2 hhandle
  rw [Multiset.count_add] at hone
  change (owned s₀).count handle + (openedIn log).count handle =
    (closedBy log).count handle + ((owned system.shared).count handle + _) at hcount
  constructor
  · rw [← Multiset.count_pos, Multiset.count_add]
    omega
  · rw [← Multiset.count_eq_zero]
    omega

theorem service_registry_sample : ∃ log system,
    Transition.Run (step sampleConfig) (init sampleServer) log system ∧ log.map Asked.call = sampleCalls ∧
      (∃ registryLog, Transition.Run Server.step sampleServer registryLog system.shared) ∧
      ∀ handle ∈ owned system.shared, handle ∉ closedBy log := by
  obtain ⟨log, system, hrun, hcalls, hfree, -⟩ := sample_run
  obtain ⟨hreached, -, -, -, hopen⟩ := service_registry sample_init (List.nodup_singleton 0) hrun hfree
  exact ⟨log, system, hrun, hcalls, hreached, fun handle hhandle => (hopen handle hhandle).2⟩

/-- Handles are closed once, trusted and scoped handles are not used afterwards, and once all requests are answered
every handle is closed or registered; after a shutdown every handle is closed. -/
theorem service_handles (hinit : newServer options allowedRoots = .ok s₀) (hnodup : allowedRoots.Nodup)
    (h : Transition.Run (step config) (init s₀) log system) :
    (∀ before asked after, log = before ++ asked :: after → ∀ handle ∈ closes asked.call + uses asked.call,
      handle ∈ owned s₀ + openedIn before ∧ handle ∉ closedBy before) ∧
    ((∀ (thread : Nat) task program, system.threads[thread]? = some (task, program) → program.isDone = true) →
      system.holder = none ∧ owned s₀ + openedIn log = closedBy log + owned system.shared ∧
        (system.shared.closed = true → owned s₀ + openedIn log = closedBy log)) := by
  have haccounts := accounts hinit h
  constructor
  · intro before asked after hlog handle hhandle
    have hopen := haccounts.open_before before asked after hlog
    have hcount := Multiset.count_le_of_le handle hopen
    have hone : (owned s₀ + openedIn log).count handle ≤ 1 := count_le_one hinit hnodup h handle
    rw [hlog, openedIn_append, ← add_assoc, Multiset.count_add] at hone
    rw [Multiset.count_add] at hcount
    change (closedBy before).count handle + (closes asked.call + uses asked.call).count handle ≤
      (owned s₀ + openedIn before).count handle at hcount
    have hpositive : 0 < (closes asked.call + uses asked.call).count handle := Multiset.count_pos.2 hhandle
    refine ⟨Multiset.count_pos.1 (by omega), ?_⟩
    rw [← Multiset.count_eq_zero]
    omega
  · intro hdone
    obtain ⟨hfree, hbalance⟩ := haccounts.settled hdone
    refine ⟨hfree, hbalance, fun hclosed => ?_⟩
    have hregistered : Registered config s₀ system.shared system.world := haccounts.invariant hfree
    obtain ⟨registryLog, hrun⟩ := hregistered.reached
    obtain ⟨hshut, hallowed⟩ := emptied_run hinit hrun hclosed
    have hnone : owned system.shared = 0 := owned_eq_zero hshut.2 hallowed
    change owned s₀ + openedIn log = closedBy log + owned system.shared at hbalance
    rw [hbalance, hnone, add_zero]

/-- The shutdown of the sample closes the trusted root and the project. -/
theorem service_handles_sample : ∃ log system,
    Transition.Run (step sampleConfig) (init sampleServer) log system ∧ log.map Asked.call = sampleCalls ∧
      owned sampleServer + openedIn log = closedBy log := by
  obtain ⟨log, system, hrun, hcalls, -, hclosed, hdone, -⟩ := sample_run
  exact ⟨log, system, hrun, hcalls, ((service_handles sample_init (List.nodup_singleton 0) hrun).2 hdone).2.2 hclosed⟩

/-- Without new requests the daemon comes to rest, under every scheduler, and it rests only where every request is
answered and the lock is free. -/
theorem service_rests (hinit : newServer options allowedRoots = .ok s₀)
    (h : Transition.Run (step config) (init s₀) log system) :
    Acc (Moves operatingSystem (start config)) system ∧
      ((∀ system', ¬Moves operatingSystem (start config) system' system) →
        system.holder = none ∧
          ∀ (thread : Nat) task program, system.threads[thread]? = some (task, program) → program.isDone = true) :=
  ⟨acc_moves _ _ system, fun hrest => (accounts hinit h).at_rest hrest⟩

/-- The run of the sample has come to rest. -/
theorem service_rests_sample : ∃ log system,
    Transition.Run (step sampleConfig) (init sampleServer) log system ∧ log.map Asked.call = sampleCalls ∧
      Acc (Moves operatingSystem (start sampleConfig)) system ∧
        (∀ system', ¬Moves operatingSystem (start sampleConfig) system' system) ∧ system.holder = none ∧
          ∀ (thread : Nat) task program, system.threads[thread]? = some (task, program) → program.isDone = true := by
  obtain ⟨log, system, hrun, hcalls, -, -, hdone, -⟩ := sample_run
  obtain ⟨hacc, hrests⟩ := service_rests sample_init hrun
  have hrest : ∀ system', ¬Moves operatingSystem (start sampleConfig) system' system := not_moves_of_done hdone
  obtain ⟨hfree, hover⟩ := hrests hrest
  exact ⟨log, system, hrun, hcalls, hacc, hrest, hfree, hover⟩

end Service

end Daemon

end CanonicalPath
