import CanonicalPath.Daemon.ServiceDiscipline

/-!
# Service handlers — every handler keeps the discipline

From the single calls to the sections under the lock, and from there to the handlers.

* `safe_expireRootsLocked` : an expiry closes what it drops
* `safe_register` : a registration opens one handle, below a trusted root that contains the requested one
* `safe_start` : every task keeps the discipline and ends with nothing in hand
-/

namespace CanonicalPath

namespace Daemon

namespace Service

open FS.HostPath Segments Threads

/-! ## Calls -/

/-- A program keeps the discipline of the daemon. -/
abbrev Safe {α : Type} (config : Config) (s₀ : Server) (task : Task) (Q : Bool → Multiset Handle → World → α → Prop)
    (program : Program α) (inside : Bool) (held : Multiset Handle) (w : World) : Prop :=
  Sound (discipline config s₀) task Q program inside held w

section Calls

variable {config : Config} {s₀ : Server} {task : Task} {α : Type} {Q : Bool → Multiset Handle → World → α → Prop}
  {inside : Bool} {held kept : Multiset Handle} {w : World}

theorem safe_pure {a : α} (h : ∀ w', stable inside w w' → Q inside held w' a) :
    Safe config s₀ task Q (pure a) inside held w :=
  h

theorem safe_ask {call : Call} {f : call.Answer → Program α} (hheld : held = closes call + kept)
    (huses : uses call ≤ kept)
    (h : ∀ w', stable inside w w' → Permitted config task inside w' call ∧ ∀ choice,
      Safe config s₀ task Q (f (answer task w' call choice).2) inside
        (opens call (answer task w' call choice).2 + kept) (answer task w' call choice).1) :
    Safe config s₀ task Q (ask call >>= f) inside held w :=
  ⟨kept, hheld, huses, h⟩

/-- A call that opens nothing and leaves the world as it is. -/
def Quiet (call : Call) : Prop :=
  ∀ task w choice, (answer task w call choice).1 = w ∧ opens call (answer task w call choice).2 = 0

theorem safe_look {call : Call} {f : call.Answer → Program α} (hquiet : Quiet call) (hcloses : closes call = 0)
    (huses : uses call ≤ held)
    (h : ∀ w', stable inside w w' → Permitted config task inside w' call ∧ ∀ choice,
      Safe config s₀ task Q (f (answer task w' call choice).2) inside held w') :
    Safe config s₀ task Q (ask call >>= f) inside held w := by
  refine safe_ask (by rw [hcloses, zero_add]) huses fun w' hw => ⟨(h w' hw).1, fun choice => ?_⟩
  rw [(hquiet task w' choice).1, (hquiet task w' choice).2, zero_add]
  exact (h w' hw).2 choice

theorem safe_close {root : Handle} {f : Except FsError Unit → Program α} (hheld : held = {root} + kept)
    (h : ∀ w', stable inside w w' → Permitted config task inside w' (.close root) ∧ ∀ outcome,
      Safe config s₀ task Q (f outcome) inside kept w') :
    Safe config s₀ task Q (ask (.close root) >>= f) inside held w := by
  refine safe_ask hheld (Multiset.zero_le _) fun w' hw => ⟨(h w' hw).1, fun choice => ?_⟩
  have hkept : opens (.close root) (answer task w' (.close root) choice).2 + kept = kept := zero_add _
  rw [hkept]
  exact (h w' hw).2 _

theorem safe_lock {f : Server → Program α}
    (h : ∀ w', stable false w w' → ∀ s, Registered config s₀ s w' →
      Safe config s₀ task Q (f s) true (owned s + held) w') :
    Safe config s₀ task Q (lock >>= f) false held w :=
  ⟨rfl, h⟩

theorem safe_unlock {s : Server} {f : Unit → Program α} (hheld : held = owned s + kept)
    (h : ∀ w', stable true w w' → Registered config s₀ s w' ∧ Safe config s₀ task Q (f ()) false kept w') :
    Safe config s₀ task Q (unlock s >>= f) true held w :=
  ⟨rfl, kept, hheld, h⟩

/-- What a program holds when it is over, and what has become of the world. -/
def Leaves (inside₀ : Bool) (held₀ : Multiset Handle) (w₀ : World) (inside : Bool) (held : Multiset Handle) (w : World)
    (_ : α) : Prop :=
  inside = inside₀ ∧ held = held₀ ∧ stable inside₀ w₀ w

theorem safe_closeAll {events : List RegistryEvent} {w₀ : World} (hw₀ : stable true w₀ w)
    (htask : ∀ root, .allowedClosed root ∈ events → task = .close) :
    Safe config s₀ task (Leaves true kept w₀) (closeAll events) true (closedIn events + kept) w := by
  induction events generalizing w with
  | nil =>
      exact safe_pure fun w' hw => ⟨rfl, zero_add kept, stable_trans hw₀ hw⟩
  | cons event events ih =>
      have hrest : ∀ root, .allowedClosed root ∈ events → task = .close :=
        fun root hmem => htask root (List.mem_cons_of_mem _ hmem)
      cases event with
      | opened root =>
          exact ih hw₀ hrest
      | returned projectID root =>
          exact ih hw₀ hrest
      | replied reply =>
          exact ih hw₀ hrest
      | allowedClosed root =>
          refine safe_close (add_assoc _ _ _) fun w' hw => ⟨⟨rfl, htask root List.mem_cons_self⟩, fun _ => ?_⟩
          exact ih (stable_trans hw₀ hw) hrest
      | closed root =>
          cases root with
          | none =>
              exact ih hw₀ hrest
          | some root =>
              refine safe_close (add_assoc _ _ _) fun w' hw => ⟨.inl rfl, fun _ => ?_⟩
              exact ih (stable_trans hw₀ hw) hrest

end Calls

/-! ## The registry under the lock -/

/-- What an expiry leaves of a registry. -/
def Expired (s s' : Server) : Prop :=
  ∃ now order, order.Perm s.lastUsed.keys ∧ (Server.expireRootsLocked now order s).1 = s'

section Registry

variable {config : Config} {options : ServerOptions} {allowedRoots : List Nat} {s₀ s s' : Server} {w w' : World}
  {task : Task} {kept : Multiset Handle}

theorem Registered.consistent (hinit : newServer options allowedRoots = .ok s₀) (h : Registered config s₀ s w) :
    ∃ log, Server.Consistent (if options.maxProjects = 0 then 128 else options.maxProjects) log s := by
  obtain ⟨log, hrun⟩ := h.reached
  exact ⟨log, Server.consistent_run (Server.consistent_init hinit) hrun⟩

theorem perm_range (task : Task) (w : World) (keys : List Bytes) (choice : Choice) :
    (answer task w (.range keys) choice).2.Perm keys := by
  change (if choice.order.Perm keys then choice.order else keys).Perm keys
  split_ifs with horder
  · exact horder
  · exact List.Perm.refl keys

theorem safe_expireRootsLocked (hinit : newServer options allowedRoots = .ok s₀) (hs : Registered config s₀ s w) :
    Safe config s₀ task
      (fun inside held w' s' => inside = true ∧ held = owned s' + kept ∧ Expired s s' ∧ stable true w w')
      (expireRootsLocked s) true (owned s + kept) w := by
  obtain ⟨log, hconsistent⟩ := hs.consistent hinit
  refine safe_look (fun _ _ _ => ⟨rfl, rfl⟩) rfl (Multiset.zero_le _) fun w₁ hw₁ => ⟨trivial, fun choice₁ => ?_⟩
  refine safe_look (fun _ _ _ => ⟨rfl, rfl⟩) rfl (Multiset.zero_le _) fun w₂ hw₂ => ⟨trivial, fun choice₂ => ?_⟩
  have horder := perm_range task w₂ s.lastUsed.keys choice₂
  generalize (answer task w₁ .now choice₁).2 = now
  generalize (answer task w₂ (.range s.lastUsed.keys) choice₂).2 = order at horder ⊢
  have hevents := Server.expire_events now order s
  have hnone : ∀ root, .allowedClosed root ∈ (Server.expireRootsLocked now order s).2 → task = .close := by
    intro root hmem
    obtain ⟨root', hevent⟩ := hevents _ hmem
    cases hevent
  rw [owned_expire hconsistent now order, add_assoc]
  refine Sound.bind (safe_closeAll (stable_trans hw₁ hw₂) hnone) ?_
  rintro _ inside held w₃ ⟨rfl, rfl, hw₃⟩
  exact safe_pure fun w' hw => ⟨rfl, rfl, ⟨now, order, horder, rfl⟩, stable_trans hw₃ hw⟩

theorem Expired.frame (h : Expired s s') : s'.taken = s.taken ∧ s'.handles = s.handles ∧
    (s'.allowedRoots = s.allowedRoots ∧ s'.closed = s.closed) ∧
    ∀ projectID project, mapGet s'.roots projectID = some project → mapGet s.roots projectID = some project := by
  obtain ⟨now, order, -, rfl⟩ := h
  exact expire_frame now order s

theorem Expired.consistent {limit : Int} {log : List RegistryEvent} (h : Expired s s')
    (hs : Server.Consistent limit log s) : ∃ log', Server.Consistent limit log' s' := by
  obtain ⟨now, order, -, rfl⟩ := h
  exact ⟨_, hs.expire now order⟩

/-- The state behind a lookup that found nothing. -/
theorem Expired.root_none (h : Expired s s') {projectID : Bytes} (hempty : projectID ≠ [])
    (hroot : mapGet s'.roots projectID = none) : ∃ log, Transition.Run Server.step s log s' := by
  obtain ⟨now, order, horder, rfl⟩ := h
  generalize hexpired : Server.expireRootsLocked now order s = expired at hroot ⊢
  have hstep : s.step (.root projectID now now order) =
      some (expired.1, expired.2 ++ [.replied (Daemon.writeCanonicalError errUnsupportedOperation)]) := by
    simp only [Server.step, if_pos horder, Server.root, if_neg hempty, hexpired, hroot]
  exact ⟨_, .single hstep⟩

/-- The state behind a lookup that renewed a lease. -/
theorem Expired.root_some (h : Expired s s') {projectID : Bytes} {project : Nat} (hempty : projectID ≠ [])
    (hroot : mapGet s'.roots projectID = some project) (usedAt : Int) : ∃ log,
    Transition.Run Server.step s log { s' with lastUsed := s'.lastUsed.insert projectID usedAt } := by
  obtain ⟨now, order, horder, rfl⟩ := h
  generalize hexpired : Server.expireRootsLocked now order s = expired at hroot ⊢
  have hstep : s.step (.root projectID now usedAt order) =
      some ({ expired.1 with lastUsed := expired.1.lastUsed.insert projectID usedAt },
        expired.2 ++ [.returned projectID project]) := by
    simp only [Server.step, if_pos horder, Server.root, if_neg hempty, hexpired, hroot]
  exact ⟨_, .single hstep⟩

/-- The state behind a root that was taken, which no other operation sees being closed. -/
theorem Expired.takeRoot (h : Expired s s') (htaken : s.taken = []) {projectID : Bytes} {project : Nat}
    (hempty : projectID ≠ []) (hroot : mapGet s'.roots projectID = some project) :
    ∃ log, Transition.Run Server.step s log (s'.delete projectID) := by
  have htaken' : s'.taken = [] := h.frame.1.trans htaken
  obtain ⟨now, order, horder, rfl⟩ := h
  generalize hexpired : Server.expireRootsLocked now order s = expired at hroot htaken' ⊢
  have htake : s.step (.takeRoot projectID now order) =
      some ({ expired.1.delete projectID with taken := [project] }, expired.2 ++ [.returned projectID project]) := by
    simp only [Server.step, if_pos horder, Server.takeRoot, if_neg hempty, hexpired, hroot, Server.delete, htaken']
    rfl
  have hclose : Server.step { expired.1.delete projectID with taken := [project] } (.closeTaken 0 (.ok ())) =
      some (expired.1.delete projectID, [.closed (some project), .replied (closeReply (.ok ()))]) := by
    have hdelete : { expired.1.delete projectID with taken := [] } = expired.1.delete projectID := by
      rw [Server.delete, htaken']
    rw [← hdelete]
    rfl
  exact ⟨_, (Transition.Run.single htake).snoc hclose⟩

/-- A request to open a project that its fields do not refuse. -/
structure Opens (req : Request) : Prop where
  projectID_ne : req.projectID ≠ []
  hostRoot_ne : req.hostRoot ≠ []
  projectID_short : ¬(req.projectID.length > 128 ∨ 0 ∈ req.projectID)

/-- The state behind a registration that was refused. -/
theorem Expired.refused (h : Expired s s') {req : Request} (hreq : Opens req) :
    ∃ log, Transition.Run Server.step s log s' := by
  obtain ⟨now, order, horder, rfl⟩ := h
  generalize hexpired : Server.expireRootsLocked now order s = expired
  have hempty : ¬(req.projectID = [] ∨ req.hostRoot = []) := not_or.2 ⟨hreq.projectID_ne, hreq.hostRoot_ne⟩
  -- no trusted root opens the path
  have hnone : expired.1.openAuthorizedRoot req.hostRoot (fun _ => false) = none := by
    rw [Server.openAuthorizedRoot]
    split_ifs with hnul hany
    · rfl
    · simp at hany
    · rfl
  by_cases hfull : expired.1.closed = true ∨
      (mapGet expired.1.roots req.projectID = none ∧ (expired.1.roots.keys.length : Int) ≥ expired.1.maxProjects)
  · have hstep : s.step (.handleOpenProject req.projectID req.hostRoot now now order fun _ => false) =
        some (expired.1, expired.2 ++ [.replied (.httpError 429 "ERR_DAEMON" "project registration limit reached")]) := by
      simp only [Server.step, if_pos horder, Server.handleOpenProject, if_neg hempty, if_neg hreq.projectID_short,
        hexpired, if_pos hfull]
    exact ⟨_, .single hstep⟩
  · have hstep : s.step (.handleOpenProject req.projectID req.hostRoot now now order fun _ => false) =
        some (expired.1, expired.2 ++ [.replied (.httpError 403 "ERR_ROOT_NOT_ALLOWED" "host_root is not allowed")]) := by
      simp only [Server.step, if_pos horder, Server.handleOpenProject, if_neg hempty, if_neg hreq.projectID_short,
        hexpired, if_neg hfull, hnone]
    exact ⟨_, .single hstep⟩

/-- The state behind a registration. -/
theorem Expired.registered (h : Expired s s') {req : Request} (hreq : Opens req) (hnul : 0 ∉ req.hostRoot)
    (hallowed : s'.allowedRoots ≠ [])
    (hroom : ¬(s'.closed = true ∨
      (mapGet s'.roots req.projectID = none ∧ (s'.roots.keys.length : Int) ≥ s'.maxProjects))) (usedAt : Int) :
    ∃ log, Transition.Run Server.step s log { s' with
      handles := s'.handles + 1
      roots := s'.roots.insert req.projectID (some s'.handles)
      lastUsed := s'.lastUsed.insert req.projectID usedAt } := by
  obtain ⟨now, order, horder, rfl⟩ := h
  generalize hexpired : Server.expireRootsLocked now order s = expired at hallowed hroom ⊢
  have hempty : ¬(req.projectID = [] ∨ req.hostRoot = []) := not_or.2 ⟨hreq.projectID_ne, hreq.hostRoot_ne⟩
  have hopen : expired.1.openAuthorizedRoot req.hostRoot (fun _ => true) =
      some ({ expired.1 with handles := expired.1.handles + 1 }, expired.1.handles) := by
    obtain ⟨root, roots, hroots⟩ := List.exists_cons_of_ne_nil hallowed
    rw [Server.openAuthorizedRoot, if_neg hnul, if_pos (by rw [hroots]; rfl)]
  have hstep : s.step (.handleOpenProject req.projectID req.hostRoot now usedAt order fun _ => true) =
      some ({ expired.1 with
        handles := expired.1.handles + 1
        roots := expired.1.roots.insert req.projectID (some expired.1.handles)
        lastUsed := expired.1.lastUsed.insert req.projectID usedAt },
        expired.2 ++ .opened expired.1.handles ::
          ((mapGet expired.1.roots req.projectID).toList.map fun old => .closed (some old)) ++ [.replied .ok]) := by
    simp only [Server.step, if_pos horder, Server.handleOpenProject, if_neg hempty, if_neg hreq.projectID_short,
      hexpired, if_neg hroom, hopen]
  exact ⟨_, .single hstep⟩

end Registry

/-! ## Sections under the lock -/

section Sections

variable {config : Config} {options : ServerOptions} {allowedRoots : List Nat} {s₀ s s' : Server} {w w' : World}
  {task : Task} {kept : Multiset Handle}

/-- A registry that has dropped projects by its own steps. -/
theorem Registered.shrink (h : Registered config s₀ s w) (hw : stable true w w')
    (hrun : ∃ log, Transition.Run Server.step s log s') (htaken : s'.taken = s.taken) (hhandles : s'.handles = s.handles)
    (hroots : ∀ projectID project, mapGet s'.roots projectID = some project → mapGet s.roots projectID = some project) :
    Registered config s₀ s' w' := by
  obtain ⟨log, hreached⟩ := h.reached
  obtain ⟨log', hrun⟩ := hrun
  have hgrown := h.grow hw
  exact ⟨⟨_, hreached.trans hrun⟩, htaken.trans h.taken, hhandles.trans hgrown.numbered,
    fun projectID project hroot => hgrown.opened projectID project (hroots projectID project hroot)⟩

/-- An expired registry that is the state under the lock again. -/
theorem Registered.expired (h : Registered config s₀ s w) (hw : stable true w w') (hexpired : Expired s s')
    (hrun : ∃ log, Transition.Run Server.step s log s') : Registered config s₀ s' w' :=
  h.shrink hw hrun hexpired.frame.1 hexpired.frame.2.1 hexpired.frame.2.2.2

/-- What a lookup hands out, and holds when it is over. -/
def Finds (config : Config) (projectID : Bytes) (held₀ : Nat → Multiset Handle) (inside : Bool)
    (held : Multiset Handle) (w : World) (found : Except FsError Nat) : Prop :=
  inside = false ∧
    match found with
    | .error _ => held = 0
    | .ok project => held = held₀ project ∧ OpenedFor config w project projectID

theorem Finds.error {projectID : Bytes} {held₀ : Nat → Multiset Handle} (error : FsError) :
    Finds config projectID held₀ false 0 w (.error error) :=
  ⟨rfl, rfl⟩

theorem safe_root (hinit : newServer options allowedRoots = .ok s₀) (projectID : Bytes) :
    Safe config s₀ task (Finds config projectID fun _ => 0) (root projectID) false 0 w := by
  rw [root]
  split_ifs with hempty
  · exact safe_pure fun w' _ => .error _
  refine safe_lock fun w₁ hw₁ s hs => ?_
  refine Sound.bind (safe_expireRootsLocked hinit hs) ?_
  rintro s' inside held w₂ ⟨rfl, rfl, hexpired, hw₂⟩
  cases hroot : mapGet s'.roots projectID with
  | none =>
      refine safe_unlock rfl fun w₃ hw₃ => ⟨?_, safe_pure fun _ _ => .error _⟩
      exact hs.expired (stable_trans hw₂ hw₃) hexpired (hexpired.root_none hempty hroot)
  | some project =>
      refine safe_look (fun _ _ _ => ⟨rfl, rfl⟩) rfl (Multiset.zero_le _) fun w₃ hw₃ => ⟨trivial, fun choice => ?_⟩
      generalize (answer task w₃ .now choice).2 = now
      have hopened := hs.opened projectID project (hexpired.frame.2.2.2 projectID project hroot)
      refine safe_unlock rfl fun w₄ hw₄ => ⟨?_, ?_⟩
      · obtain ⟨htaken, hhandles, -, hroots⟩ := hexpired.frame
        exact hs.shrink (stable_trans hw₂ (stable_trans hw₃ hw₄)) (hexpired.root_some hempty hroot now) htaken hhandles
          hroots
      · refine safe_pure fun w₅ hw₅ => ⟨rfl, rfl, ?_⟩
        exact hopened.grow (stable_trans (stable_weaken hw₂)
          (stable_trans (stable_weaken hw₃) (stable_trans (stable_weaken hw₄) hw₅)))

theorem safe_takeRoot (hinit : newServer options allowedRoots = .ok s₀) (projectID : Bytes) :
    Safe config s₀ task (Finds config projectID fun project => {.project project}) (takeRoot projectID) false 0 w := by
  rw [takeRoot]
  split_ifs with hempty
  · exact safe_pure fun w' _ => .error _
  refine safe_lock fun w₁ hw₁ s hs => ?_
  refine Sound.bind (safe_expireRootsLocked hinit hs) ?_
  rintro s' inside held w₂ ⟨rfl, rfl, hexpired, hw₂⟩
  cases hroot : mapGet s'.roots projectID with
  | none =>
      refine safe_unlock rfl fun w₃ hw₃ => ⟨?_, safe_pure fun _ _ => .error _⟩
      exact hs.expired (stable_trans hw₂ hw₃) hexpired (hexpired.root_none hempty hroot)
  | some project =>
      have hopened := hs.opened projectID project (hexpired.frame.2.2.2 projectID project hroot)
      have hheld : owned s' + 0 = owned (s'.delete projectID) + {Handle.project project} := by
        rw [add_zero, owned_delete hroot, add_comm]
      refine safe_unlock hheld fun w₃ hw₃ => ⟨?_, ?_⟩
      · obtain ⟨htaken, hhandles, -, hroots⟩ := hexpired.frame
        refine hs.shrink (stable_trans hw₂ hw₃) (hexpired.takeRoot hs.taken hempty hroot) htaken hhandles ?_
        exact fun projectID project hroot => hroots projectID project (mapGet_delete hroot)
      · refine safe_pure fun w₄ hw₄ => ⟨rfl, rfl, ?_⟩
        exact hopened.grow (stable_trans (stable_weaken hw₂) (stable_trans (stable_weaken hw₃) hw₄))

/-- What the loop over the trusted roots hands out: nothing, or a new handle below one of them. -/
def OpensBelow (config : Config) (req : Request) (held₀ : Multiset Handle) (w₀ : World) (inside : Bool)
    (held : Multiset Handle) (w : World) (opened : Option Nat) : Prop :=
  inside = true ∧
    match opened with
    | none => held = held₀ ∧ stable true w₀ w
    | some root => held = {.project root} + held₀ ∧ root = w₀.projects.length ∧
        w.projects.length = w₀.projects.length + 1 ∧ stable false w₀ w ∧ OpenedFor config w root req.projectID

theorem safe_openBelow {req : Request} {held : Multiset Handle} {host : Bytes} {workingDirectory : Option Bytes}
    (hasks : Asks config task "/v1/projects/open" req) (habs : abs workingDirectory req.hostRoot = some host)
    {todo : List (Nat × Bytes)}
    (htodo : ∀ pair ∈ todo, Handle.allowed pair.1 ∈ held ∧ ∃ parts, pair.2 = absolute parts ∧
      (parts = (config.names pair.1).pathParts ∨ parts = (config.names pair.1).aliasParts))
    {w₀ : World} (hw₀ : stable true w₀ w) :
    Safe config s₀ task (OpensBelow config req held w₀) (openBelow host todo) true held w := by
  induction todo generalizing w with
  | nil =>
      exact safe_pure fun w' hw => ⟨rfl, rfl, stable_trans hw₀ hw⟩
  | cons pair todo ih =>
      obtain ⟨allowed, anchor⟩ := pair
      obtain ⟨hallowed, parts, rfl, hparts⟩ := htodo _ List.mem_cons_self
      change parts = (config.names allowed).pathParts ∨ parts = (config.names allowed).aliasParts at hparts
      have hrest := fun {w} => ih (fun pair hmem => htodo pair (List.mem_cons_of_mem _ hmem)) (w := w)
      have hnames : ∀ part ∈ parts, IsName part := by
        rcases hparts with hparts | hparts <;> rw [hparts]
        · exact (config.names allowed).pathParts_isName
        · exact (config.names allowed).aliasParts_isName
      rw [openBelow]
      by_cases hinside : isInsideAllowedRoot (absolute parts) host = some true
      · obtain ⟨more, hmore, rfl, hrel⟩ := exists_below hnames habs hinside
        rw [if_pos hinside, hrel]
        have hleads : LeadsTo config allowed (below more) req.hostRoot :=
          ⟨workingDirectory, parts, more, hparts, hmore, habs, rfl⟩
        refine safe_ask (zero_add held).symm (Multiset.singleton_le.2 hallowed) fun w₁ hw₁ =>
          ⟨⟨rfl, req, hasks, hleads⟩, fun choice => ?_⟩
        rw [answer]
        cases choice.failure with
        | some error =>
            have hheld : opens (.openRoot allowed (below more)) none + held = held := zero_add held
            rw [hheld]
            exact hrest (stable_trans hw₀ hw₁)
        | none =>
            refine safe_pure fun w₂ hw₂ => ?_
            have hw : stable true w₀ w₁ := stable_trans hw₀ hw₁
            have hprojects : w₁.projects = w₀.projects := hw.1
            have hprojects' : w₂.projects = w₁.projects ++ [⟨task, allowed, below more⟩] := hw₂.1
            refine ⟨rfl, rfl, by rw [hprojects], ?_, ?_, ?_⟩
            · rw [hprojects', hprojects, List.length_append, List.length_singleton]
            · refine ⟨?_, hw.2.trans hw₂.2⟩
              rw [if_neg Bool.false_ne_true, hprojects', hprojects]
              exact List.prefix_append _ _
            · refine ⟨⟨task, allowed, below more⟩, req, ?_, hasks, rfl, hleads⟩
              rw [hprojects', List.getElem?_concat_length]
      · rw [if_neg hinside]
        exact hrest hw₀

theorem mem_anchors {pair : Nat × Bytes} (h : pair ∈ anchors config s) : pair.1 ∈ s.allowedRoots ∧
    ∃ parts, pair.2 = absolute parts ∧
      (parts = (config.names pair.1).pathParts ∨ parts = (config.names pair.1).aliasParts) := by
  rw [anchors, List.mem_flatMap] at h
  obtain ⟨allowed, hallowed, hpair⟩ := h
  simp only [List.mem_cons, List.not_mem_nil, or_false] at hpair
  rcases hpair with rfl | rfl
  · exact ⟨hallowed, _, rfl, .inl rfl⟩
  · exact ⟨hallowed, _, rfl, .inr rfl⟩

/-- What `openAuthorizedRoot` hands out, and what a handle says about its arguments. -/
def OpensAuthorized (config : Config) (s : Server) (req : Request) (held₀ : Multiset Handle) (w₀ : World) (inside : Bool)
    (held : Multiset Handle) (w : World) (opened : Option Nat) : Prop :=
  OpensBelow config req held₀ w₀ inside held w opened ∧
    (opened ≠ none → 0 ∉ req.hostRoot ∧ s.allowedRoots ≠ [])

theorem safe_openAuthorizedRoot {req : Request} (hasks : Asks config task "/v1/projects/open" req)
    {w₀ : World} (hw₀ : stable true w₀ w) :
    Safe config s₀ task (OpensAuthorized config s req (owned s + kept) w₀) (openAuthorizedRoot config s req.hostRoot) true
      (owned s + kept) w := by
  rw [openAuthorizedRoot]
  split_ifs with hnul
  · exact safe_pure fun w' hw => ⟨⟨rfl, rfl, stable_trans hw₀ hw⟩, fun h => absurd rfl h⟩
  refine safe_look (fun _ _ _ => ⟨rfl, rfl⟩) rfl (Multiset.zero_le _) fun w₁ hw₁ => ⟨trivial, fun choice => ?_⟩
  have hanswer : (answer task w₁ (.abs req.hostRoot) choice).2 = abs choice.workingDirectory req.hostRoot := rfl
  rw [hanswer]
  cases habs : abs choice.workingDirectory req.hostRoot with
  | none =>
      exact safe_pure fun w' hw => ⟨⟨rfl, rfl, stable_trans hw₀ (stable_trans hw₁ hw)⟩, fun h => absurd rfl h⟩
  | some host =>
      by_cases hallowed : s.allowedRoots = []
      · have hanchors : anchors config s = [] := by
          rw [anchors, hallowed]
          rfl
        rw [hanchors]
        exact safe_pure fun w' hw => ⟨⟨rfl, rfl, stable_trans hw₀ (stable_trans hw₁ hw)⟩, fun h => absurd rfl h⟩
      · have htodo : ∀ pair ∈ anchors config s, Handle.allowed pair.1 ∈ owned s + kept ∧ ∃ parts,
            pair.2 = absolute parts ∧
              (parts = (config.names pair.1).pathParts ∨ parts = (config.names pair.1).aliasParts) := by
          intro pair hpair
          obtain ⟨hmem, hparts⟩ := mem_anchors hpair
          refine ⟨Multiset.mem_add.2 (.inl (Multiset.count_pos.1 ?_)), hparts⟩
          rw [count_allowed_owned]
          exact List.count_pos_iff.2 hmem
        have hbelow : Safe config s₀ task (OpensBelow config req (owned s + kept) w₀) (openBelow host (anchors config s))
            true (owned s + kept) w₁ := safe_openBelow hasks habs htodo (stable_trans hw₀ hw₁)
        refine hbelow.weaken ?_
        intro opened inside held w' hopened
        exact ⟨hopened, fun _ => ⟨hnul, hallowed⟩⟩

/-- The end of a handler that holds nothing. -/
def Ends {α : Type} (inside : Bool) (held : Multiset Handle) (_ : World) (_ : α) : Prop :=
  inside = false ∧ held = 0

theorem safe_register (hinit : newServer options allowedRoots = .ok s₀) {req : Request}
    (hasks : Asks config task "/v1/projects/open" req) (hreq : Opens req) (hs : Registered config s₀ s w₀)
    (hexpired : Expired s s') (hw₀ : stable true w₀ w) :
    Safe config s₀ task Ends (register config req s') true (owned s' + 0) w := by
  rw [register]
  split_ifs with hfull
  · refine safe_unlock rfl fun w₁ hw₁ => ⟨?_, safe_pure fun _ _ => ⟨rfl, rfl⟩⟩
    exact hs.expired (stable_trans hw₀ hw₁) hexpired (hexpired.refused hreq)
  refine Sound.bind (safe_openAuthorizedRoot hasks hw₀) ?_
  rintro opened inside held w₁ ⟨⟨rfl, hopened⟩, hauthorized⟩
  cases opened with
  | none =>
      obtain ⟨rfl, hw₁⟩ := hopened
      refine safe_unlock rfl fun w₂ hw₂ => ⟨?_, safe_pure fun _ _ => ⟨rfl, rfl⟩⟩
      exact hs.expired (stable_trans hw₁ hw₂) hexpired (hexpired.refused hreq)
  | some root =>
      obtain ⟨rfl, hroot, hlength, hw₁, hopened⟩ := hopened
      obtain ⟨hnul, hallowed⟩ := hauthorized (Option.some_ne_none root)
      obtain ⟨log, hconsistent⟩ := hs.consistent hinit
      obtain ⟨log', hconsistent'⟩ := hexpired.consistent hconsistent
      refine safe_look (fun _ _ _ => ⟨rfl, rfl⟩) rfl (Multiset.zero_le _) fun w₂ hw₂ => ⟨trivial, fun choice => ?_⟩
      generalize (answer task w₂ .now choice).2 = now
      rw [add_zero, owned_register hconsistent' req.projectID root now]
      refine Sound.bind (safe_closeAll hw₂ ?_) ?_
      · simp
      rintro _ inside held w₃ ⟨rfl, rfl, hw₃⟩
      refine safe_unlock (add_zero _).symm fun w₄ hw₄ => ⟨?_, safe_pure fun _ _ => ⟨rfl, rfl⟩⟩
      have hw := stable_trans hw₃ hw₄
      -- the handle has the number that the registry gives it
      obtain ⟨htaken, hhandles, -, hroots⟩ := hexpired.frame
      have hnumber : s'.handles = root := by
        rw [hhandles, hs.numbered, hroot]
      obtain ⟨log₁, hreached⟩ := hs.reached
      obtain ⟨log₂, hrun⟩ := hexpired.registered hreq hnul hallowed hfull now
      rw [hnumber] at hrun
      refine ⟨⟨log₁ ++ log₂, ?_⟩, htaken.trans hs.taken, ?_, ?_⟩
      · rw [hnumber]
        exact hreached.trans hrun
      · have hprojects : w₄.projects = w₁.projects := hw.1
        rw [hprojects, hlength, hhandles, hs.numbered]
      · intro projectID project hmap
        have hgrown := stable_trans hw₁ (stable_weaken hw)
        by_cases hid : projectID = req.projectID
        · subst hid
          rw [mapGet, AList.lookup_insert] at hmap
          cases hmap
          exact hopened.grow hw
        · rw [mapGet, AList.lookup_insert_ne hid] at hmap
          exact (hs.opened projectID project (hroots projectID project hmap)).grow hgrown

end Sections

/-! ## Handlers -/

section Handlers

variable {config : Config} {options : ServerOptions} {allowedRoots : List Nat} {s₀ : Server} {w : World}
  {task : Task} {held : Multiset Handle} {req : Request} {root : Handle} {rel : Bytes}

theorem safe_serverClose (hinit : newServer options allowedRoots = .ok s₀) :
    Safe config s₀ .close Ends close false 0 w := by
  refine safe_lock fun w₁ hw₁ s hs => ?_
  obtain ⟨log, hconsistent⟩ := hs.consistent hinit
  refine safe_look (fun _ _ _ => ⟨rfl, rfl⟩) rfl (Multiset.zero_le _) fun w₂ hw₂ => ⟨trivial, fun choice => ?_⟩
  have horder := perm_range .close w₂ s.roots.keys choice
  generalize (answer .close w₂ (.range s.roots.keys) choice).2 = order at horder ⊢
  rw [owned_close hconsistent order, add_assoc]
  refine Sound.bind (safe_closeAll hw₂ fun _ _ => rfl) ?_
  rintro _ inside held w₃ ⟨rfl, rfl, hw₃⟩
  refine safe_unlock rfl fun w₄ hw₄ => ⟨?_, safe_pure fun _ _ => ⟨rfl, rfl⟩⟩
  have hstep : s.step (.close order) = some (s.close order) := by
    rw [Server.step, if_pos horder]
  obtain ⟨htaken, hhandles, -⟩ := closeRoots_frame order { s with closed := true, allowedRoots := [] }
  refine hs.shrink (stable_trans hw₃ hw₄) ⟨_, .single hstep⟩ htaken hhandles ?_
  intro projectID project hroot
  have hempty : (s.close order).1.roots = ∅ := (Server.shut_close horder).2
  change mapGet (s.close order).1.roots projectID = some project at hroot
  rw [hempty] at hroot
  cases hroot

/-- A request and a root of its project. -/
def FindsRoot (config : Config) (r : HttpRequest) (inside : Bool) (held : Multiset Handle) (w : World)
    (result : Except HttpReply (Request × Nat)) : Prop :=
  inside = false ∧ held = 0 ∧
    ∀ req project, result = .ok (req, project) → decodeRequest r = .ok req ∧ OpenedFor config w project req.projectID

theorem safe_decodeRootRequest (hinit : newServer options allowedRoots = .ok s₀) (r : HttpRequest) :
    Safe config s₀ task (FindsRoot config r) (decodeRootRequest r) false 0 w := by
  rw [decodeRootRequest]
  cases hdecode : decodeRequest r with
  | error reply =>
      exact safe_pure fun w' _ => ⟨rfl, rfl, fun _ _ h => by cases h⟩
  | ok req =>
      refine Sound.bind (safe_root hinit req.projectID) ?_
      rintro found inside held w' ⟨rfl, hfound⟩
      cases found with
      | error error =>
          exact safe_pure fun _ _ => ⟨rfl, hfound, fun _ _ h => by cases h⟩
      | ok project =>
          obtain ⟨rfl, hopened⟩ := hfound
          refine safe_pure fun w'' hw => ⟨rfl, rfl, ?_⟩
          rintro req' project' hresult
          cases hresult
          exact ⟨hdecode, hopened.grow hw⟩

/-- An operation on a root asks one question, which its request permits, and replies. -/
theorem safe_operation {call : Call} {f : call.Answer → Program HttpReply} (reply : call.Answer → HttpReply)
    (hf : ∀ answer, f answer = pure (reply answer)) (hquiet : Quiet call) (hcloses : closes call = 0)
    (huses : uses call ≤ held) (hpermitted : ∀ w', stable false w w' → Permitted config task false w' call) :
    Safe config s₀ task (Leaves false held w) (ask call >>= f) false held w := by
  refine safe_look hquiet hcloses huses fun w₁ hw₁ => ⟨hpermitted w₁ hw₁, fun choice => ?_⟩
  rw [hf]
  exact safe_pure fun w₂ hw₂ => ⟨rfl, rfl, stable_trans hw₁ hw₂⟩

theorem safe_readThrough (hroot : needed root ≤ held) (hreaches : Reaches config task w "readFile" req rel root) :
    Safe config s₀ task (Leaves false held w) (readThrough config root rel req) false held w := by
  rw [readThrough]
  cases hlimit : Reads.readLimit config.limits req.maxBytes with
  | error message =>
      exact safe_pure fun w' hw => ⟨rfl, rfl, hw⟩
  | ok maxBytes =>
      let reply : Except FsError Bytes → HttpReply
        | .error error => writeCanonicalError error
        | .ok data => writeJSON config 200 (.response { dataBase64 := Base64.encode data })
      refine safe_operation reply ?_ (fun _ _ _ => ⟨rfl, rfl⟩) rfl hroot fun w' hw => ⟨req, hreaches.grow hw, hlimit⟩
      rintro (error | data) <;> rfl

theorem safe_writeThrough (hroot : needed root ≤ held) (hreaches : Reaches config task w "writeFile" req rel root) :
    Safe config s₀ task (Leaves false held w) (writeThrough config root rel req) false held w := by
  rw [writeThrough]
  cases hdata : Base64.decode req.dataBase64 with
  | none =>
      exact safe_pure fun w' hw => ⟨rfl, rfl, hw⟩
  | some data =>
      exact safe_operation (finish config) (fun _ => rfl) (fun _ _ _ => ⟨rfl, rfl⟩) rfl hroot fun w' hw =>
        ⟨req, hreaches.grow hw, hdata⟩

theorem safe_statThrough (reported : Bytes) (hroot : needed root ≤ held)
    (hreaches : Reaches config task w "stat" req rel root) :
    Safe config s₀ task (Leaves false held w) (statThrough config root rel reported) false held w := by
  let reply : Except FsError FileInfo → HttpReply
    | .error error => writeCanonicalError error
    | .ok info => writeJSON config 200
        (.response { stat := some { path := reported, size := info.size, isDirectory := info.isDirectory } })
  refine safe_operation reply ?_ (fun _ _ _ => ⟨rfl, rfl⟩) rfl hroot fun w' hw => ⟨req, hreaches.grow hw⟩
  rintro (error | info) <;> rfl

theorem safe_mkdirThrough (hroot : needed root ≤ held) (hreaches : Reaches config task w "mkdirAll" req rel root) :
    Safe config s₀ task (Leaves false held w) (mkdirThrough config root rel) false held w :=
  safe_operation (finish config) (fun _ => rfl) (fun _ _ _ => ⟨rfl, rfl⟩) rfl hroot fun _ hw => ⟨rfl, req, hreaches.grow hw⟩

theorem safe_removeThrough (hroot : needed root ≤ held) (hreaches : Reaches config task w "remove" req rel root) :
    Safe config s₀ task (Leaves false held w) (removeThrough config root rel) false held w :=
  safe_operation (finish config) (fun _ => rfl) (fun _ _ _ => ⟨rfl, rfl⟩) rfl hroot fun _ hw => ⟨req, hreaches.grow hw⟩

theorem safe_renameThrough {project : Nat} (hreaches : Reaches config task w "rename" req rel (.project project)) :
    Safe config s₀ task (Leaves false held w) (renameThrough config (.project project) rel req.target) false held w :=
  safe_operation (finish config) (fun _ => rfl) (fun _ _ _ => ⟨rfl, rfl⟩) rfl (Multiset.zero_le _) fun _ hw =>
    ⟨req, project, rfl, hreaches.grow hw, rfl⟩

/-- An operation on a project keeps the discipline where it does for every root that its request reaches. -/
theorem safe_onRoot (hinit : newServer options allowedRoots = .ok s₀) {r : HttpRequest} (name : String)
    {operate : Request → Handle → Program HttpReply} (hauth : isAuthorized config r = true)
    (hpath : r.urlPath = "/v1/fs/" ++ name)
    (hoperate : ∀ req project w', Reaches config (.serveHTTP r) w' name req req.path (.project project) →
      Safe config s₀ (.serveHTTP r) (Leaves false 0 w') (operate req (.project project)) false 0 w') :
    Safe config s₀ (.serveHTTP r) Ends (onRoot r operate) false 0 w := by
  refine Sound.bind (safe_decodeRootRequest hinit r) ?_
  rintro result inside held w₁ ⟨rfl, rfl, hresult⟩
  cases result with
  | error reply =>
      exact safe_pure fun _ _ => ⟨rfl, rfl⟩
  | ok found =>
      obtain ⟨req, project⟩ := found
      obtain ⟨hdecode, hopened⟩ := hresult req project rfl
      have hreaches : Reaches config (.serveHTTP r) w₁ name req req.path (.project project) :=
        ⟨⟨r, rfl, hauth, hpath, hdecode⟩, rfl, hopened⟩
      refine (hoperate req project w₁ hreaches).weaken ?_
      rintro reply inside held w₂ ⟨rfl, rfl, -⟩
      exact ⟨rfl, rfl⟩

/-- A request, and a handle of its scope that is in hand. -/
def FindsScope (config : Config) (task : Task) (name : String) (inside : Bool) (held : Multiset Handle) (w : World)
    (result : Except HttpReply (Request × Nat × ScopedRoot)) : Prop :=
  inside = false ∧
    match result with
    | .error _ => held = 0
    | .ok (req, scope, place) => held = {.scopedRoot scope} ∧ ScopedFor config task w name req place scope

theorem safe_decodeScopedRootRequest (hinit : newServer options allowedRoots = .ok s₀) {r : HttpRequest} (name : String)
    (hauth : isAuthorized config r = true) (hpath : r.urlPath = "/v1/scoped/" ++ name) :
    Safe config s₀ (.serveHTTP r) (FindsScope config (.serveHTTP r) name)
      (decodeScopedRootRequest r (requiredOperation name)) false 0 w := by
  refine Sound.bind (safe_decodeRootRequest hinit r) ?_
  rintro result inside held w₁ ⟨rfl, rfl, hresult⟩
  cases result with
  | error reply =>
      exact safe_pure fun _ _ => ⟨rfl, rfl⟩
  | ok found =>
      obtain ⟨req, project⟩ := found
      obtain ⟨hdecode, hopened⟩ := hresult req project rfl
      have hasks : Asks config (.serveHTTP r) ("/v1/scoped/" ++ name) req := ⟨r, rfl, hauth, hpath, hdecode⟩
      cases hplace : Daemon.decodeScopedRootRequest (scopedRequest r req) (requiredOperation name) with
      | error refusal =>
          simp only [hplace]
          exact safe_pure fun _ _ => ⟨rfl, rfl⟩
      | ok place =>
          simp only [hplace]
          refine safe_ask (zero_add 0).symm (Multiset.zero_le _) fun w₂ hw₂ =>
            ⟨⟨r, name, req, place, rfl, hasks, hplace, hopened.grow hw₂, rfl, rfl⟩, fun choice => ?_⟩
          rw [answer]
          cases choice.failure with
          | some error =>
              exact safe_pure fun _ _ => ⟨rfl, rfl⟩
          | none =>
              refine safe_pure fun w₃ hw₃ => ⟨rfl, rfl, ?_⟩
              have hopened₂ : OpenedFor config w₂ project req.projectID := hopened.grow hw₂
              have hopened' : OpenedFor config
                  { w₂ with scopedRoots := w₂.scopedRoots ++ [⟨.serveHTTP r, project, place.anchor⟩] } project
                  req.projectID := hopened₂
              exact ⟨r, project, rfl, hasks, hplace, getElem?_of_prefix hw₃.2 List.getElem?_concat_length,
                hopened'.grow hw₃⟩

/-- The same below a scope, where the handle is closed behind the operation. -/
theorem safe_onScoped (hinit : newServer options allowedRoots = .ok s₀) {r : HttpRequest} (name : String)
    {operate : Request → Handle → ScopedRoot → Program HttpReply} (hauth : isAuthorized config r = true)
    (hpath : r.urlPath = "/v1/scoped/" ++ name)
    (hoperate : ∀ req scope place w', Reaches config (.serveHTTP r) w' name req place.suffix (.scopedRoot scope) →
      Safe config s₀ (.serveHTTP r) (Leaves false {.scopedRoot scope} w') (operate req (.scopedRoot scope) place) false
        {.scopedRoot scope} w') :
    Safe config s₀ (.serveHTTP r) Ends (onScoped r (requiredOperation name) operate) false 0 w := by
  refine Sound.bind (safe_decodeScopedRootRequest hinit name hauth hpath) ?_
  rintro result inside held w₁ ⟨rfl, hresult⟩
  cases result with
  | error reply =>
      exact safe_pure fun _ _ => ⟨rfl, hresult⟩
  | ok found =>
      obtain ⟨req, scope, place⟩ := found
      obtain ⟨rfl, hscoped⟩ := hresult
      refine Sound.bind (hoperate req scope place w₁ ⟨place, hscoped, rfl⟩) ?_
      rintro reply inside held w₂ ⟨rfl, rfl, hw₂⟩
      refine safe_close (add_zero _).symm fun w₃ hw₃ => ⟨?_, fun _ => safe_pure fun _ _ => ⟨rfl, rfl⟩⟩
      obtain ⟨-, project, -, -, -, hscope, -⟩ := hscoped.grow (stable_trans hw₂ hw₃)
      exact ⟨_, hscope, rfl⟩

/-- The section of `handleOpenProject`. -/
theorem safe_handleOpenProject (hinit : newServer options allowedRoots = .ok s₀) {r : HttpRequest}
    (hauth : isAuthorized config r = true) (hpath : r.urlPath = "/v1/projects/open") :
    Safe config s₀ (.serveHTTP r) Ends (handleOpenProject config r) false 0 w := by
  rw [handleOpenProject]
  cases hdecode : decodeRequest r with
  | error reply =>
      exact safe_pure fun _ _ => ⟨rfl, rfl⟩
  | ok req =>
      simp only
      split_ifs with hempty hlong
      · exact safe_pure fun _ _ => ⟨rfl, rfl⟩
      · exact safe_pure fun _ _ => ⟨rfl, rfl⟩
      rw [not_or] at hempty
      refine safe_lock fun w₁ hw₁ s hs => ?_
      refine Sound.bind (safe_expireRootsLocked hinit hs) ?_
      rintro s' inside held w₂ ⟨rfl, rfl, hexpired, hw₂⟩
      exact safe_register hinit ⟨r, rfl, hauth, hpath, hdecode⟩ ⟨hempty.1, hempty.2, hlong⟩ hs hexpired hw₂

theorem safe_handleCloseProject (hinit : newServer options allowedRoots = .ok s₀) {r : HttpRequest}
    (hauth : isAuthorized config r = true) (hpath : r.urlPath = "/v1/projects/close") :
    Safe config s₀ (.serveHTTP r) Ends (handleCloseProject config r) false 0 w := by
  rw [handleCloseProject]
  cases hdecode : decodeRequest r with
  | error reply =>
      exact safe_pure fun _ _ => ⟨rfl, rfl⟩
  | ok req =>
      refine Sound.bind (safe_takeRoot hinit req.projectID) ?_
      rintro found inside held w₁ ⟨rfl, hfound⟩
      cases found with
      | error error =>
          exact safe_pure fun _ _ => ⟨rfl, hfound⟩
      | ok project =>
          obtain ⟨rfl, hopened⟩ := hfound
          refine safe_close (add_zero _).symm fun w₂ hw₂ =>
            ⟨.inr ⟨req, ⟨r, rfl, hauth, hpath, hdecode⟩, hopened.grow hw₂⟩, fun _ => ?_⟩
          exact safe_pure fun _ _ => ⟨rfl, rfl⟩

theorem safe_serveMux (hinit : newServer options allowedRoots = .ok s₀) {r : HttpRequest}
    (hauth : isAuthorized config r = true) :
    Safe config s₀ (.serveHTTP r) Ends (serveMux config r) false 0 w := by
  rw [serveMux]
  split
  case h_1 =>
      exact safe_pure fun _ _ => ⟨rfl, rfl⟩
  case h_2 =>
      exact safe_pure fun _ _ => ⟨rfl, rfl⟩
  case h_3 hpath =>
      exact safe_handleOpenProject hinit hauth hpath
  case h_4 hpath =>
      exact safe_handleCloseProject hinit hauth hpath
  case h_5 hpath =>
      exact safe_onRoot hinit "readFile" hauth hpath fun _ _ _ hreaches =>
        safe_readThrough (Multiset.zero_le _) hreaches
  case h_6 hpath =>
      exact safe_onRoot hinit "writeFile" hauth hpath fun _ _ _ hreaches =>
        safe_writeThrough (Multiset.zero_le _) hreaches
  case h_7 hpath =>
      exact safe_onRoot hinit "stat" hauth hpath fun req _ _ hreaches =>
        safe_statThrough req.path (Multiset.zero_le _) hreaches
  case h_8 hpath =>
      exact safe_onRoot hinit "mkdirAll" hauth hpath fun _ _ _ hreaches =>
        safe_mkdirThrough (Multiset.zero_le _) hreaches
  case h_9 hpath =>
      exact safe_onRoot hinit "remove" hauth hpath fun _ _ _ hreaches =>
        safe_removeThrough (Multiset.zero_le _) hreaches
  case h_10 hpath =>
      exact safe_onRoot hinit "rename" hauth hpath fun _ _ _ hreaches => safe_renameThrough hreaches
  case h_11 hpath =>
      exact safe_onScoped hinit "readFile" hauth hpath fun _ _ _ _ hreaches => safe_readThrough le_rfl hreaches
  case h_12 hpath =>
      exact safe_onScoped hinit "writeFile" hauth hpath fun _ _ _ _ hreaches => safe_writeThrough le_rfl hreaches
  case h_13 hpath =>
      exact safe_onScoped hinit "stat" hauth hpath fun _ _ place _ hreaches =>
        safe_statThrough place.scopedPath le_rfl hreaches
  case h_14 hpath =>
      exact safe_onScoped hinit "mkdirAll" hauth hpath fun _ _ _ _ hreaches => safe_mkdirThrough le_rfl hreaches
  case h_15 hpath =>
      exact safe_onScoped hinit "remove" hauth hpath fun _ _ _ _ hreaches => safe_removeThrough le_rfl hreaches
  case h_16 =>
      exact safe_pure fun _ _ => ⟨rfl, rfl⟩

/-- Every task keeps the discipline and ends with nothing in hand. -/
theorem safe_start (hinit : newServer options allowedRoots = .ok s₀) (task : Task) (w : World) :
    Safe config s₀ task Quits (start config task) false 0 w := by
  cases task with
  | close =>
      refine Sound.bind (safe_serverClose hinit) ?_
      rintro _ inside held w' ⟨rfl, rfl⟩
      exact safe_pure fun _ _ => ⟨rfl, rfl⟩
  | serveHTTP r =>
      have hserve : Safe config s₀ (.serveHTTP r) Ends (serveHTTP config r) false 0 w := by
        rw [serveHTTP]
        split_ifs with hauth hhealth
        · refine safe_look (fun _ _ _ => ⟨rfl, rfl⟩) rfl (Multiset.zero_le _) fun w₁ _ =>
            ⟨⟨r, rfl, hauth⟩, fun choice => ?_⟩
          split_ifs
          · exact safe_serveMux hinit hauth
          · exact safe_pure fun _ _ => ⟨rfl, rfl⟩
        · exact safe_pure fun _ _ => ⟨rfl, rfl⟩
        · -- the health probe asks nothing
          rw [not_not] at hhealth
          have hmux : serveMux config r = pure (handleHealth r) := by
            simp only [serveMux, hhealth]
          rw [hmux]
          exact safe_pure fun _ _ => ⟨rfl, rfl⟩
      refine Sound.bind hserve ?_
      rintro reply inside held w' ⟨rfl, rfl⟩
      exact safe_pure fun _ _ => ⟨rfl, rfl⟩

end Handlers

end Service

end Daemon

end CanonicalPath
