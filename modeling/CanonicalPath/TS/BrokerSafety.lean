import CanonicalPath.Library.Keyed
import CanonicalPath.Library.Run
import CanonicalPath.Ports.Composition
import CanonicalPath.TS.Broker

/-!
# TS broker safety — what the registry keeps over every run

* `ProjectCoherent` : a stored project is canonical, its aliases name it, no two share their client
* `addPathAlias_coherent`, `addPathAlias_error` : the step lemmas of an alias
* `broker_coherent` : every run of the two methods keeps the registry coherent, and a throw changes nothing
-/

namespace CanonicalPath

namespace TS

open CodeUnit Segments Outcome Transition

/-! ## Coherent projects -/

/-- The client of an alias. -/
def UnityProjectPathAlias.client (pathAlias : UnityProjectPathAlias) : Units × Units × Units :=
  (pathAlias.clientType, pathAlias.clientId, pathAlias.environmentId)

/-- An alias whose host root is another spelling of the project. -/
structure AliasCoherent (canonicalProjectPath : Units) (pathAlias : UnityProjectPathAlias) : Prop where
  clientType_nul_free : nul ∉ pathAlias.clientType
  clientId_nul_free : nul ∉ pathAlias.clientId
  hostRoot_ne_nil : pathAlias.hostRoot ≠ []
  hostRoot_nul_free : nul ∉ pathAlias.hostRoot
  normalized : normalizeProjectRoot pathAlias.hostRoot pathAlias.normalizeOptions = .ok canonicalProjectPath
  sourceHost_eq : pathAlias.normalizeOptions.sourceHost = some pathAlias.hostKind.toHostKind

structure ProjectCoherent (project : UnityProjectRecord) : Prop where
  canonical : ∃ p : Identity UInt16, project.canonicalProjectPath = p.render ∧ p.root.isAbsolute = true
  aliases : ∀ pathAlias ∈ project.pathAliases, AliasCoherent project.canonicalProjectPath pathAlias
  distinct : (project.pathAliases.map UnityProjectPathAlias.client).Nodup

/-! ## One alias -/

theorem assertAliasString_eq_ok_iff {value : Units} {label : String} :
    assertAliasString value label = .ok () ↔ value ≠ [] ∧ nul ∉ value := by
  rw [assertAliasString]
  simp only [newError, ite_error_eq_ok_iff, and_true]

theorem nativeAliasOptions_sourceHost {registration : UnityProjectPathAliasRegistration}
    {projectOptions : Option (NormalizeOptions UInt16)} {native : NativeHostKind × NormalizeOptions UInt16}
    (h : nativeAliasOptions registration projectOptions = .ok native) :
    native.2.sourceHost = some native.1.toHostKind := by
  rw [nativeAliasOptions] at h
  obtain ⟨hostKind, -, h⟩ := bind_eq_ok_iff.1 h
  simp only [newError, ite_error_eq_ok_iff] at h
  obtain ⟨-, -, -, h⟩ := h
  cases h
  rfl

theorem createPathAlias_coherent {project : UnityProjectRecord} {registration : UnityProjectPathAliasRegistration}
    {pathAlias : UnityProjectPathAlias} (h : createPathAlias project registration = .ok pathAlias) :
    AliasCoherent project.canonicalProjectPath pathAlias := by
  rw [createPathAlias] at h
  obtain ⟨_, htype, h⟩ := bind_eq_ok_iff.1 h
  obtain ⟨_, hid, h⟩ := bind_eq_ok_iff.1 h
  obtain ⟨_, -, h⟩ := bind_eq_ok_iff.1 h
  obtain ⟨_, hroot, h⟩ := bind_eq_ok_iff.1 h
  obtain ⟨native, hnative, h⟩ := bind_eq_ok_iff.1 h
  simp only [newError, ite_error_eq_ok_iff, bind_eq_ok_iff] at h
  obtain ⟨-, canonical, hnormal, hsame, h⟩ := h
  cases h
  exact {
    clientType_nul_free := (assertAliasString_eq_ok_iff.1 htype).2
    clientId_nul_free := (assertAliasString_eq_ok_iff.1 hid).2
    hostRoot_ne_nil := (assertAliasString_eq_ok_iff.1 hroot).1
    hostRoot_nul_free := (assertAliasString_eq_ok_iff.1 hroot).2
    normalized := by
      rw [hnormal, not_not.1 hsame]
    sourceHost_eq := nativeAliasOptions_sourceHost hnative
  }

theorem pathAliasKey_eq_of_client {a b : UnityProjectPathAlias} (h : a.client = b.client) :
    pathAliasKey a = pathAliasKey b := by
  rw [UnityProjectPathAlias.client, UnityProjectPathAlias.client, Prod.mk.injEq, Prod.mk.injEq] at h
  rw [pathAliasKey, pathAliasKey, h.1, h.2.1, h.2.2]

/-- Names without NUL can be read back from their key. -/
theorem client_eq_of_pathAliasKey {canonical : Units} {a b : UnityProjectPathAlias} (ha : AliasCoherent canonical a)
    (hb : AliasCoherent canonical b) (h : pathAliasKey a = pathAliasKey b) : a.client = b.client := by
  have hsplit {x : UnityProjectPathAlias} (hx : AliasCoherent canonical x) :
      cut nul (pathAliasKey x) = some (x.clientType, x.clientId ++ nul :: x.environmentId) ∧
        cut nul (x.clientId ++ nul :: x.environmentId) = some (x.clientId, x.environmentId) := by
    refine ⟨cut_eq_some_iff.2 ⟨?_, hx.clientType_nul_free⟩, cut_eq_some_iff.2 ⟨rfl, hx.clientId_nul_free⟩⟩
    rw [pathAliasKey, List.append_assoc, List.cons_append]
  have hfirst := (hsplit ha).1.symm.trans ((congrArg (cut nul) h).trans (hsplit hb).1)
  obtain ⟨htype, hrest⟩ := Prod.mk.inj (Option.some.inj hfirst)
  have hsecond := (hsplit ha).2.symm.trans ((congrArg (cut nul) hrest).trans (hsplit hb).2)
  obtain ⟨hid, henvironment⟩ := Prod.mk.inj (Option.some.inj hsecond)
  rw [UnityProjectPathAlias.client, htype, hid, henvironment]
  rfl

/-! ## One project -/

theorem addPathAlias_error {project : UnityProjectRecord} {registration : UnityProjectPathAliasRegistration}
    {e : PathError} (h : (addPathAlias project registration).1 = .error e) :
    (addPathAlias project registration).2 = project := by
  rw [addPathAlias] at h ⊢
  cases hcreate : createPathAlias project registration with
  | error e' =>
      rfl
  | ok pathAlias =>
      rw [hcreate] at h
      simp only at h ⊢
      split_ifs with htaken
      · rfl
      · rw [if_neg htaken] at h
        cases h

/-- A new alias joins a coherent project. -/
theorem addPathAlias_coherent {project : UnityProjectRecord} (h : ProjectCoherent project)
    (registration : UnityProjectPathAliasRegistration) : ProjectCoherent (addPathAlias project registration).2 := by
  rw [addPathAlias]
  cases hcreate : createPathAlias project registration with
  | error e =>
      exact h
  | ok pathAlias =>
      have hnew := createPathAlias_coherent hcreate
      simp only
      split_ifs with htaken
      · exact h
      · refine ⟨h.canonical, ?_, ?_⟩
        · intro existing hexisting
          rcases List.mem_append.1 hexisting with hold | hlast
          · exact h.aliases existing hold
          · rw [List.mem_singleton.1 hlast]
            exact hnew
        · -- a shared client would share the key
          rw [List.map_append, List.map_singleton, List.nodup_append_comm, List.singleton_append, List.nodup_cons]
          refine ⟨?_, h.distinct⟩
          intro hmem
          obtain ⟨existing, hexisting, hclient⟩ := List.mem_map.1 hmem
          apply htaken
          apply List.any_eq_true.2
          refine ⟨existing, hexisting, ?_⟩
          exact beq_iff_eq.2 (pathAliasKey_eq_of_client hclient)

/-- An alias that passes its own checks is refused exactly when its client is taken. -/
theorem addPathAlias_eq_ok_iff {project : UnityProjectRecord} (h : ProjectCoherent project)
    {registration : UnityProjectPathAliasRegistration} {pathAlias : UnityProjectPathAlias} :
    (addPathAlias project registration).1 = .ok pathAlias ↔
      createPathAlias project registration = .ok pathAlias ∧
        pathAlias.client ∉ project.pathAliases.map UnityProjectPathAlias.client := by
  rw [addPathAlias]
  cases hcreate : createPathAlias project registration with
  | error e =>
      simp
  | ok pathAlias' =>
      have hnew := createPathAlias_coherent hcreate
      have hfree : ¬(project.pathAliases.any fun existing => pathAliasKey existing == pathAliasKey pathAlias') = true ↔
          pathAlias'.client ∉ project.pathAliases.map UnityProjectPathAlias.client := by
        rw [List.any_eq_true, List.mem_map, not_iff_not]
        constructor
        · rintro ⟨existing, hexisting, hkey⟩
          exact ⟨existing, hexisting, client_eq_of_pathAliasKey (h.aliases existing hexisting) hnew (beq_iff_eq.1 hkey)⟩
        · rintro ⟨existing, hexisting, hclient⟩
          exact ⟨existing, hexisting, beq_iff_eq.2 (pathAliasKey_eq_of_client hclient)⟩
      simp only [Except.ok.injEq]
      split_ifs with htaken
      · apply iff_of_false
        · intro heq
          cases heq
        · rintro ⟨rfl, hclient⟩
          exact hfree.2 hclient htaken
      · rw [Except.ok.injEq]
        constructor
        · rintro rfl
          exact ⟨rfl, hfree.1 htaken⟩
        · exact And.left

theorem addPathAliases_coherent {project : UnityProjectRecord} (h : ProjectCoherent project)
    (registrations : List UnityProjectPathAliasRegistration) :
    ProjectCoherent (addPathAliases project registrations).2 := by
  induction registrations generalizing project with
  | nil =>
      exact h
  | cons registration more ih =>
      have hstep := addPathAlias_coherent h registration
      rw [addPathAliases]
      generalize addPathAlias project registration = added at hstep
      obtain ⟨outcome, project'⟩ := added
      cases outcome with
      | error e =>
          exact hstep
      | ok pathAlias =>
          exact ih hstep

theorem addPathAlias_projectId (project : UnityProjectRecord) (registration : UnityProjectPathAliasRegistration) :
    (addPathAlias project registration).2.projectId = project.projectId := by
  rw [addPathAlias]
  cases createPathAlias project registration with
  | error e =>
      rfl
  | ok pathAlias =>
      simp only
      split_ifs
      · rfl
      · rfl

theorem addPathAliases_projectId (project : UnityProjectRecord)
    (registrations : List UnityProjectPathAliasRegistration) :
    (addPathAliases project registrations).2.projectId = project.projectId := by
  induction registrations generalizing project with
  | nil =>
      rfl
  | cons registration more ih =>
      have hstep := addPathAlias_projectId project registration
      rw [addPathAliases]
      generalize addPathAlias project registration = added at hstep
      obtain ⟨outcome, project'⟩ := added
      cases outcome with
      | error e =>
          exact hstep
      | ok pathAlias =>
          exact (ih project').trans hstep

theorem exists_identity_of_normalizeProjectRoot {raw canonical : Units} {options : NormalizeOptions UInt16}
    (h : normalizeProjectRoot raw options = .ok canonical) :
    ∃ p : Identity UInt16, canonical = p.render ∧ p.root.isAbsolute = true := by
  rw [normalizeProjectRoot] at h
  obtain ⟨projectRoot, -, h⟩ := bind_eq_ok_iff.1 h
  obtain ⟨parsed, hparsed, h⟩ := bind_eq_ok_iff.1 h
  simp only [newError, ite_error_eq_ok_iff] at h
  obtain ⟨hkind, h⟩ := h
  cases h
  obtain ⟨p, rfl⟩ := Ports.exists_identity_of_validateCanonical hparsed
  obtain ⟨parsed', hparsed', hreads⟩ := Ports.validateCanonical_render p
  rw [hparsed] at hparsed'
  cases hparsed'
  refine ⟨p, rfl, ?_⟩
  rw [← Bool.not_eq_false]
  exact mt hreads.relative_iff.2 hkind

theorem createRecord_coherent {registration : UnityProjectRegistration} {normalizeOptions : NormalizeOptions UInt16}
    {project : UnityProjectRecord}
    (h : CanonicalPathBroker.createRecord registration normalizeOptions = .ok project) : ProjectCoherent project := by
  rw [CanonicalPathBroker.createRecord] at h
  obtain ⟨canonical, hnormal, h⟩ := bind_eq_ok_iff.1 h
  cases h
  refine ⟨exists_identity_of_normalizeProjectRoot hnormal, ?_, List.nodup_nil⟩
  intro pathAlias hmem
  exact absurd hmem List.not_mem_nil

theorem createRecord_projectId {registration : UnityProjectRegistration} {normalizeOptions : NormalizeOptions UInt16}
    {project : UnityProjectRecord}
    (h : CanonicalPathBroker.createRecord registration normalizeOptions = .ok project) :
    project.projectId = registration.projectId := by
  rw [CanonicalPathBroker.createRecord] at h
  obtain ⟨canonical, -, h⟩ := bind_eq_ok_iff.1 h
  cases h
  rfl

/-! ## The registry -/

namespace CanonicalPathBroker

/-- Every stored project is coherent. -/
def Coherent (s : CanonicalPathBroker) : Prop :=
  ∀ projectId project, s.projects.lookup projectId = some project → ProjectCoherent project

/-- What a registration publishes: a record with all its aliases under a name without NUL, or nothing. -/
theorem registerProject_cases (s : CanonicalPathBroker) (registration : UnityProjectRegistration) :
    (∃ e, s.registerProject registration = (.error e, s)) ∨
      ∃ record, s.registerProject registration =
        (.ok record, { s with projects := s.projects.insert record.projectId record }) ∧ ProjectCoherent record ∧
          record.projectId ≠ [] ∧ nul ∉ record.projectId := by
  rw [registerProject]
  split_ifs with hempty hnul
  · exact Or.inl ⟨_, rfl⟩
  · exact Or.inl ⟨_, rfl⟩
  cases hrecord : createRecord registration (projectOptions registration) with
  | error e =>
      exact Or.inl ⟨e, rfl⟩
  | ok record =>
      cases haliases : requestedAliases registration (projectOptions registration) with
      | error e =>
          exact Or.inl ⟨e, rfl⟩
      | ok aliases =>
          have hadded := addPathAliases_coherent (createRecord_coherent hrecord) aliases
          have hname : (addPathAliases record aliases).2.projectId = registration.projectId := by
            rw [addPathAliases_projectId, createRecord_projectId hrecord]
          simp only [ok_bind]
          generalize addPathAliases record aliases = added at hadded hname
          obtain ⟨outcome, record'⟩ := added
          cases outcome with
          | error e =>
              exact Or.inl ⟨e, rfl⟩
          | ok done =>
              refine Or.inr ⟨record', rfl, hadded, ?_⟩
              rw [hname]
              exact ⟨hempty, hnul⟩

theorem registerProject_coherent {s : CanonicalPathBroker} (h : s.Coherent) (registration : UnityProjectRegistration) :
    (s.registerProject registration).2.Coherent := by
  rcases registerProject_cases s registration with ⟨e, heq⟩ | ⟨record, heq, hrecord, -⟩
  · rw [heq]
    exact h
  · rw [heq]
    intro projectId project hproject
    by_cases hid : projectId = record.projectId
    · rw [hid, AList.lookup_insert] at hproject
      cases hproject
      exact hrecord
    · rw [AList.lookup_insert_ne hid] at hproject
      exact h projectId project hproject

theorem registerPathAlias_error {s : CanonicalPathBroker} {projectId : Units}
    {registration : UnityProjectPathAliasRegistration} {e : PathError}
    (h : (s.registerPathAlias projectId registration).1 = .error e) :
    (s.registerPathAlias projectId registration).2 = s := by
  rw [registerPathAlias] at h ⊢
  cases hproject : s.projects.lookup projectId with
  | none =>
      rfl
  | some project =>
      rw [hproject] at h
      have hsame := addPathAlias_error h
      simp only [hsame]
      rw [Keyed.replace_lookup hproject]

theorem registerPathAlias_coherent {s : CanonicalPathBroker} (h : s.Coherent) (projectId : Units)
    (registration : UnityProjectPathAliasRegistration) : (s.registerPathAlias projectId registration).2.Coherent := by
  rw [registerPathAlias]
  cases hproject : s.projects.lookup projectId with
  | none =>
      exact h
  | some project =>
      have hmem : projectId ∈ s.projects := AList.lookup_isSome.1 (by rw [hproject]; rfl)
      intro projectId' project' hproject'
      simp only [Keyed.lookup_replace hmem] at hproject'
      split_ifs at hproject' with hid
      · cases hproject'
        exact addPathAlias_coherent (h projectId project hproject) registration
      · exact h projectId' project' hproject'

/-! ## Runs -/

/-- A call of one of the two methods that write. -/
inductive Call
  | registerProject (registration : UnityProjectRegistration)
  | registerPathAlias (projectId : Units) (registration : UnityProjectPathAliasRegistration)

/-- Whether the call throws, and the registry that it leaves. -/
def perform (s : CanonicalPathBroker) : Call → Except PathError Unit × CanonicalPathBroker
  | .registerProject registration =>
      ((s.registerProject registration).1.map fun _ => (), (s.registerProject registration).2)
  | .registerPathAlias projectId registration =>
      ((s.registerPathAlias projectId registration).1.map fun _ => (), (s.registerPathAlias projectId registration).2)

/-- Every call is possible in every state, and its outcome is seen. -/
def step (s : CanonicalPathBroker) (call : Call) : Option (CanonicalPathBroker × List (Except PathError Unit)) :=
  some ((s.perform call).2, [(s.perform call).1])

theorem map_eq_error_iff {β : Type} {x : Except PathError β} {e : PathError} :
    (x.map fun _ => ()) = .error e ↔ x = .error e := by
  cases x with
  | error e' =>
      simp [Except.map]
  | ok value =>
      simp [Except.map]

theorem perform_error {s : CanonicalPathBroker} {call : Call} {e : PathError} (h : (s.perform call).1 = .error e) :
    (s.perform call).2 = s := by
  cases call with
  | registerProject registration =>
      have herror : (s.registerProject registration).1 = .error e := map_eq_error_iff.1 h
      rcases registerProject_cases s registration with ⟨e', heq⟩ | ⟨record, heq, -⟩
      · rw [perform, heq]
      · rw [heq] at herror
        cases herror
  | registerPathAlias projectId registration =>
      exact registerPathAlias_error (map_eq_error_iff.1 h)

theorem perform_coherent {s : CanonicalPathBroker} (h : s.Coherent) (call : Call) : (s.perform call).2.Coherent := by
  cases call with
  | registerProject registration =>
      exact registerProject_coherent h registration
  | registerPathAlias projectId registration =>
      exact registerPathAlias_coherent h projectId registration

/-- The registered names, which a key may join by NUL. -/
def Named (s : CanonicalPathBroker) : Prop :=
  ∀ projectId ∈ s.projects, projectId ≠ [] ∧ nul ∉ projectId

/-- A call keeps the registered projects and registers none without a name. -/
theorem mem_perform {s : CanonicalPathBroker} (call : Call) (projectId : Units) :
    (projectId ∈ s.projects → projectId ∈ (s.perform call).2.projects) ∧
      (projectId ∈ (s.perform call).2.projects → projectId ∈ s.projects ∨ (projectId ≠ [] ∧ nul ∉ projectId)) := by
  cases call with
  | registerProject registration =>
      rw [perform]
      rcases registerProject_cases s registration with ⟨e, heq⟩ | ⟨record, heq, -, hname⟩
      · rw [heq]
        exact ⟨id, Or.inl⟩
      · rw [heq]
        simp only [AList.mem_insert]
        constructor
        · exact Or.inr
        · intro hmem
          cases hmem with
          | inl hid =>
              rw [hid]
              exact Or.inr hname
          | inr hold =>
              exact Or.inl hold
  | registerPathAlias target registration =>
      have hkeys : (s.perform (.registerPathAlias target registration)).2.projects.keys = s.projects.keys := by
        rw [perform, registerPathAlias]
        cases s.projects.lookup target with
        | none =>
            rfl
        | some project =>
            exact Keyed.keys_replace target _ s.projects
      rw [AList.mem_keys, AList.mem_keys, hkeys]
      exact ⟨id, Or.inl⟩

theorem perform_named {s : CanonicalPathBroker} (h : s.Named) (call : Call) : (s.perform call).2.Named := by
  intro projectId hmem
  cases (mem_perform call projectId).2 hmem with
  | inl hold =>
      exact h projectId hold
  | inr hname =>
      exact hname

theorem named_empty : Named { projects := ∅ } := by
  intro projectId hmem
  exact absurd hmem (AList.notMem_empty projectId)

theorem named_of_run {s : CanonicalPathBroker} {log : List (Except PathError Unit)}
    (h : Run step { projects := ∅ } log s) : s.Named := by
  apply h.invariant named_empty
  intro s call s' events hs hstep
  cases hstep
  exact perform_named hs call

theorem coherent_empty : Coherent { projects := ∅ } := by
  intro projectId project hproject
  cases hproject

/-- After every run the stored projects are coherent, and a call that throws there changes nothing. -/
theorem broker_coherent {s : CanonicalPathBroker} {log : List (Except PathError Unit)}
    (h : Run step { projects := ∅ } log s) :
    (∀ projectId project, s.projects.lookup projectId = some project → ProjectCoherent project) ∧
      ∀ call e, (s.perform call).1 = .error e → (s.perform call).2 = s := by
  constructor
  · apply h.invariant coherent_empty
    intro s call s' events hs hstep
    cases hstep
    exact perform_coherent hs call
  · intro call e herror
    exact perform_error herror

/-- A project with its default alias. -/
theorem broker_coherent_registered :
    ∃ project, (perform { projects := ∅ } (.registerProject {
        projectId := lit "p", projectRoot := lit "/a//b/", hostRoot := some (lit "/a/b") })).2.projects.lookup (lit "p") =
          some project ∧ ProjectCoherent project := by
  have hstored : ((perform { projects := ∅ } (.registerProject {
      projectId := lit "p", projectRoot := lit "/a//b/", hostRoot := some (lit "/a/b") })).2.projects.lookup
        (lit "p")).isSome = true := by
    decide +kernel
  obtain ⟨project, hproject⟩ := Option.isSome_iff_exists.1 hstored
  exact ⟨project, hproject, (broker_coherent (.snoc (.nil _) rfl)).1 _ project hproject⟩

end CanonicalPathBroker

end TS

end CanonicalPath
