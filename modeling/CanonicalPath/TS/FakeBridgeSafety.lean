import CanonicalPath.Ports.Scoped
import CanonicalPath.TS.BrokerSafety
import CanonicalPath.TS.FakeBridge

/-!
# TS fake bridge safety — what the scoped store holds over every run

The store is an abstract map from a project, a scope and a path to a text.  A run writes a log of such texts, and
the keyed map of the bridge answers as the log does.

* `Address` : the triple under which a text is stored; `Address.key_injective`
* `Accounted` : the counter is the weight of the map, below the limits
* `Records` : the map holds the last text of every address in a log
* `listScoped_eq` : a listing within its budget holds the addresses of its project and scope
* `fakeBridge_accounts` : all of it over every construction and every run
-/

namespace CanonicalPath

namespace TS

open CodeUnit Segments Outcome Transition

open Go (UnityMCPPathScope)

open Ports (placement)

/-! ## Addresses -/

/-- Where a text is stored. -/
structure Address where
  projectId : Units
  scope : UnityMCPPathScope
  path : Units
  deriving DecidableEq, Repr

namespace Address

def key (address : Address) : Units :=
  scopedFileKey address.projectId address.scope address.path

/-- A registered project, a workflow scope and a path that the scope accepts. -/
structure Accepted (broker : CanonicalPathBroker) (address : Address) : Prop where
  project : address.projectId ∈ broker.projects
  workflow : isWorkflowScope address.scope = true
  path : ∃ resolved, normalizeScopedPath address.scope address.path = .ok resolved

end Address

theorem eq_knowledge_or_artifact {scope : UnityMCPPathScope} (h : isWorkflowScope scope = true) :
    scope = .knowledge ∨ scope = .artifact := by
  rw [isWorkflowScope, Bool.or_eq_true, beq_iff_eq, beq_iff_eq] at h
  exact h

/-- The name of a workflow scope has no NUL and tells the scope. -/
theorem scopeName_workflow {scope : UnityMCPPathScope} (h : isWorkflowScope scope = true) :
    nul ∉ (lit (scopeName scope) : Units) := by
  cases eq_knowledge_or_artifact h with
  | inl hknowledge =>
      rw [hknowledge]
      decide
  | inr hartifact =>
      rw [hartifact]
      decide

theorem scopeName_injective {scope scope' : UnityMCPPathScope} (h : isWorkflowScope scope = true)
    (h' : isWorkflowScope scope' = true) (heq : (lit (scopeName scope) : Units) = lit (scopeName scope')) :
    scope = scope' := by
  rcases eq_knowledge_or_artifact h with rfl | rfl
  · rcases eq_knowledge_or_artifact h' with rfl | rfl
    · rfl
    · exact absurd heq (by decide)
  · rcases eq_knowledge_or_artifact h' with rfl | rfl
    · exact absurd heq (by decide)
    · rfl

theorem scopedFileKey_eq (projectId : Units) (scope : UnityMCPPathScope) (path : Units) :
    scopedFileKey projectId scope path = scopedFileKey projectId scope [] ++ path := by
  simp [scopedFileKey]

/-- A key can be cut back into its parts, whatever the path. -/
theorem Address.key_injective {a b : Address} (ha : nul ∉ a.projectId) (hb : nul ∉ b.projectId)
    (hsa : isWorkflowScope a.scope = true) (hsb : isWorkflowScope b.scope = true) (h : a.key = b.key) : a = b := by
  have hcut {x : Address} (hx : nul ∉ x.projectId) :
      cut nul x.key = some (x.projectId, lit (scopeName x.scope) ++ nul :: x.path) :=
    cut_eq_some_iff.2 ⟨rfl, hx⟩
  have hrest {x : Address} (hx : isWorkflowScope x.scope = true) :
      cut nul (lit (scopeName x.scope) ++ nul :: x.path) = some (lit (scopeName x.scope), x.path) :=
    cut_eq_some_iff.2 ⟨rfl, scopeName_workflow hx⟩
  have hfirst := (hcut ha).symm.trans ((congrArg (cut nul) h).trans (hcut hb))
  obtain ⟨hproject, hmore⟩ := Prod.mk.inj (Option.some.inj hfirst)
  have hsecond := (hrest hsa).symm.trans ((congrArg (cut nul) hmore).trans (hrest hsb))
  obtain ⟨hscope, hpath⟩ := Prod.mk.inj (Option.some.inj hsecond)
  cases a
  cases b
  rw [Address.mk.injEq]
  exact ⟨hproject, scopeName_injective hsa hsb hscope, hpath⟩

namespace FakeUnityBridge

theorem getProject_eq_ok_iff {broker : CanonicalPathBroker} {projectId : Units} :
    (∃ project, broker.getProject projectId = .ok project) ↔ projectId ∈ broker.projects := by
  rw [CanonicalPathBroker.getProject, ← AList.lookup_isSome, Option.isSome_iff_exists]
  cases broker.projects.lookup projectId with
  | none =>
      simp [newError]
  | some project =>
      simp

/-- The result of a resolved path of a workflow scope. -/
def workflowPath (address : Address) : WorkflowPath :=
  { path := address.path, projectRelativePath := lit (placement address.scope).2 ++ address.path }

theorem placement_workflow {scope : UnityMCPPathScope} (h : isWorkflowScope scope = true) :
    (placement scope).1 = .project := by
  rcases eq_knowledge_or_artifact h with rfl | rfl
  · rfl
  · rfl

theorem resolveWorkflowPath_eq_ok_iff {s : FakeUnityBridge} (address : Address) {resolved : WorkflowPath} :
    s.resolveWorkflowPath address.projectId address.scope address.path = .ok resolved ↔
      address.Accepted s.broker ∧ resolved = workflowPath address := by
  rw [resolveWorkflowPath, bind_eq_ok_iff]
  simp only [newError, ite_error_eq_ok_iff, bind_eq_ok_iff, Bool.not_eq_false, not_not]
  constructor
  · rintro ⟨project, hproject, hworkflow, accepted, hscoped, -, heq⟩
    have hresult := (Ports.normalizeScopedPath_eq_ok_iff.1 hscoped).2
    refine ⟨⟨getProject_eq_ok_iff.1 ⟨project, hproject⟩, hworkflow, accepted, hscoped⟩, ?_⟩
    rw [← Except.ok.inj heq, hresult]
    rfl
  · rintro ⟨⟨hproject, hworkflow, accepted, hscoped⟩, rfl⟩
    obtain ⟨project, hproject⟩ := getProject_eq_ok_iff.2 hproject
    have hresult := (Ports.normalizeScopedPath_eq_ok_iff.1 hscoped).2
    refine ⟨project, hproject, hworkflow, accepted, hscoped, ?_, ?_⟩
    · rw [hresult]
      exact placement_workflow hworkflow
    · rw [hresult]
      rfl

/-! ## One stored text -/

/-- What a text costs. -/
def units (key text : Units) : Nat :=
  key.length + text.length

/-- The counter is the weight of the map, and both are below their limits. -/
structure Accounted (s : FakeUnityBridge) : Prop where
  counted : s.scopedStoredUnits = Keyed.total units s.scopedFiles
  bounded : s.scopedStoredUnits ≤ 8388608
  size_le : s.scopedFiles.keys.length ≤ 10000

theorem storeScopedText_error {s : FakeUnityBridge} {key : Units} {text : Text} {e : PathError}
    (h : (s.storeScopedText key text).1 = .error e) : (s.storeScopedText key text).2 = s := by
  cases text with
  | other =>
      rfl
  | string value =>
      simp only [storeScopedText] at h ⊢
      split_ifs at h ⊢ with hlong hfull hover
      · rfl
      · rfl
      · rfl

/-- What an accepted text passes, and what it leaves. -/
theorem storeScopedText_eq_ok {s : FakeUnityBridge} {key : Units} {text : Text}
    (h : (s.storeScopedText key text).1 = .ok ()) :
    ∃ value, text = .string value ∧ (key ∉ s.scopedFiles → s.scopedFiles.keys.length < 10000) ∧
      (s.storeScopedText key text).2.scopedStoredUnits ≤ 8388608 ∧
      (s.storeScopedText key text).2 = {
        broker := s.broker
        scopedFiles := Keyed.put key value s.scopedFiles
        scopedStoredUnits := s.projectedUnits key value } := by
  cases text with
  | other =>
      cases h
  | string value =>
      refine ⟨value, rfl, ?_⟩
      simp only [storeScopedText] at h ⊢
      split_ifs at h ⊢ with hlong hfull hover
      · cases h
      · cases h
      · cases h
      · refine ⟨?_, Int.not_lt.1 hover, rfl⟩
        intro hnew
        apply Nat.lt_of_not_ge
        intro hsize
        exact hfull ⟨AList.lookup_eq_none.2 hnew, hsize⟩

theorem storeScopedText_accounted {s : FakeUnityBridge} (h : s.Accounted) (key : Units) (text : Text) :
    (s.storeScopedText key text).2.Accounted := by
  cases houtcome : (s.storeScopedText key text).1 with
  | error e =>
      rw [storeScopedText_error houtcome]
      exact h
  | ok done =>
      obtain ⟨value, -, hroom, hbound, hstored⟩ := storeScopedText_eq_ok houtcome
      rw [hstored] at hbound ⊢
      cases hprevious : s.scopedFiles.lookup key with
      | none =>
          -- a new key is charged with its text
          have hnew : key ∉ s.scopedFiles := AList.lookup_eq_none.1 hprevious
          refine ⟨?_, hbound, ?_⟩
          · rw [Keyed.total_put_of_notMem units hnew, projectedUnits, hprevious, h.counted, units]
            simp only [if_true, Option.map_none, Option.getD_none]
            omega
          · rw [Keyed.keys_put_of_notMem hnew, List.length_append]
            exact hroom hnew
      | some previous =>
          -- a replacement is charged with the difference of the texts
          have hold : key ∈ s.scopedFiles := AList.lookup_isSome.1 (by rw [hprevious]; rfl)
          have htotal := Keyed.total_put_of_mem units hprevious value
          refine ⟨?_, hbound, ?_⟩
          · rw [units, units] at htotal
            rw [projectedUnits, hprevious, h.counted]
            simp only [reduceCtorEq, if_false, Option.map_some, Option.getD_some]
            omega
          · rw [Keyed.keys_put_of_mem hold]
            exact h.size_le

/-! ## Logs -/

/-- The map answers for every key as the log does. -/
structure Records (log : List (Address × Units)) (s : FakeUnityBridge) : Prop where
  named : s.broker.Named
  accepted : ∀ write ∈ log, write.1.Accepted s.broker
  contents : ∀ key, s.scopedFiles.lookup key = Keyed.latest key (log.map fun write => (write.1.key, write.2))

theorem storeScopedText_records {log : List (Address × Units)} {s : FakeUnityBridge} (h : s.Records log)
    {address : Address} (haddress : address.Accepted s.broker) {text : Text}
    (hstore : (s.storeScopedText address.key text).1 = .ok ()) :
    ∃ value, text = .string value ∧ (s.storeScopedText address.key text).2.Records (log ++ [(address, value)]) := by
  obtain ⟨value, htext, -, -, hstored⟩ := storeScopedText_eq_ok hstore
  refine ⟨value, htext, ?_⟩
  rw [hstored]
  refine ⟨h.named, ?_, ?_⟩
  · intro write hwrite
    cases List.mem_append.1 hwrite with
    | inl hold =>
        exact h.accepted write hold
    | inr hnew =>
        rw [List.mem_singleton.1 hnew]
        exact haddress
  · intro key
    rw [List.map_append, List.map_singleton, Keyed.latest_snoc, Keyed.lookup_put, h.contents]

/-- A key of the map is the key of one address of the log. -/
theorem Records.lookup_key {log : List (Address × Units)} {s : FakeUnityBridge} (h : s.Records log)
    (address : Address) (hname : nul ∉ address.projectId) (hscope : isWorkflowScope address.scope = true) :
    s.scopedFiles.lookup address.key = Keyed.latest address log := by
  rw [h.contents]
  apply Keyed.latest_map
  intro write hwrite hkey
  have haccepted := h.accepted write hwrite
  exact Address.key_injective (h.named _ haccepted.project).2 hname haccepted.workflow hscope hkey

/-! ## Seeds -/

theorem parseSeedKey_eq_ok {key projectId path : Units} {scope : UnityMCPPathScope}
    (h : parseSeedKey key = .ok (projectId, scope, path)) : key = scopedFileKey projectId scope path := by
  have hjoin : [nul].intercalate (key.splitOn nul) = key := List.intercalate_splitOn nul
  rw [parseSeedKey] at h
  split at h
  · next project part rest hparts =>
      rw [hparts] at hjoin
      split_ifs at h with hknowledge hartifact
      · cases h
        rw [← hjoin, hknowledge]
        simp [scopedFileKey, scopeName, List.intercalate]
      · cases h
        rw [← hjoin, hartifact]
        simp [scopedFileKey, scopeName, List.intercalate]
      · cases h
  · cases h

/-- The seeds that a constructor admits are a log. -/
theorem admitSeeds_records (log : List (Address × Units)) {s s' : FakeUnityBridge} {seeds : List (Units × Text)}
    (haccounted : s.Accounted) (hrecords : s.Records log) (h : s.admitSeeds seeds = .ok s') :
    s'.Accounted ∧ ∃ writes : List (Address × Units),
      seeds = writes.map (fun write => (write.1.key, Text.string write.2)) ∧ s'.Records (log ++ writes) := by
  induction seeds generalizing s log with
  | nil =>
      cases h
      refine ⟨haccounted, [], rfl, ?_⟩
      rw [List.append_nil]
      exact hrecords
  | cons seed more ih =>
      obtain ⟨key, text⟩ := seed
      rw [admitSeeds] at h
      simp only [newError, ite_error_eq_ok_iff, bind_eq_ok_iff] at h
      obtain ⟨-, ⟨projectId, scope, path⟩, hparse, resolved, hresolved, h⟩ := h
      obtain ⟨haccepted, hpath⟩ := (resolveWorkflowPath_eq_ok_iff ⟨projectId, scope, path⟩).1 hresolved
      have hkey : key = Address.key ⟨projectId, scope, path⟩ := parseSeedKey_eq_ok hparse
      have hresolvedKey : scopedFileKey projectId scope resolved.path = Address.key ⟨projectId, scope, path⟩ := by
        rw [hpath]
        rfl
      simp only [hresolvedKey] at h
      cases houtcome : s.storeScopedText (Address.key ⟨projectId, scope, path⟩) text with
      | mk outcome stored =>
          rw [houtcome] at h
          cases outcome with
          | error e =>
              cases h
          | ok done =>
              have hstored : (s.storeScopedText (Address.key ⟨projectId, scope, path⟩) text).1 = .ok () := by
                rw [houtcome]
              have hcounted := storeScopedText_accounted haccounted (Address.key ⟨projectId, scope, path⟩) text
              obtain ⟨value, htext, hlogged⟩ := storeScopedText_records hrecords haccepted hstored
              rw [houtcome] at hcounted hlogged
              obtain ⟨hfinal, writes, hseeds, hrest⟩ := ih _ hcounted hlogged h
              refine ⟨hfinal, (⟨projectId, scope, path⟩, value) :: writes, ?_, ?_⟩
              · rw [List.map_cons, ← hseeds, hkey, htext]
              · rw [List.append_assoc] at hrest
                exact hrest

theorem create_records {broker : CanonicalPathBroker} {seeds : List (Units × Text)} {s : FakeUnityBridge}
    (hbroker : broker.Named) (h : create broker seeds = .ok s) :
    s.Accounted ∧ ∃ writes : List (Address × Units),
      seeds = writes.map (fun write => (write.1.key, Text.string write.2)) ∧ s.Records writes := by
  apply admitSeeds_records [] ?_ ?_ h
  · exact ⟨rfl, (by decide : (0 : Int) ≤ 8388608), Nat.zero_le _⟩
  · refine ⟨hbroker, ?_, ?_⟩
    · intro write hwrite
      exact absurd hwrite List.not_mem_nil
    · intro key
      rfl

/-! ## Writes -/

/-- What a write answers. -/
def writeResult (address : Address) (value : Units) : UnityBridgeScopedWriteResult where
  projectId := address.projectId
  scope := address.scope
  path := address.path
  projectRelativePath := lit (placement address.scope).2 ++ address.path
  chars := value.length
  artifactRef := artifactRef address.scope address.path

theorem writeScopedText_cases (s : FakeUnityBridge) (address : Address) (text : Text) (maxChars : Option Number) :
    (∃ e, s.writeScopedText address.projectId address.scope address.path text maxChars = (.error e, s)) ∨
      ∃ value, text = .string value ∧ address.Accepted s.broker ∧
        (s.storeScopedText address.key text).1 = .ok () ∧
        s.writeScopedText address.projectId address.scope address.path text maxChars =
          (.ok (writeResult address value), (s.storeScopedText address.key text).2) := by
  cases text with
  | other =>
      exact Or.inl ⟨_, rfl⟩
  | string value =>
      simp only [writeScopedText]
      generalize hchecked : (boundedPositiveInteger maxChars 1048576 1048576 "maxChars" >>= fun limit =>
        if value.length > limit then newError .invalidPath "text exceeds bounded write limit"
        else s.resolveWorkflowPath address.projectId address.scope address.path) = checked
      cases checked with
      | error e =>
          exact Or.inl ⟨e, rfl⟩
      | ok resolved =>
          obtain ⟨limit, -, hchecked⟩ := bind_eq_ok_iff.1 hchecked
          simp only [newError, ite_error_eq_ok_iff] at hchecked
          obtain ⟨haccepted, hresolved⟩ := (resolveWorkflowPath_eq_ok_iff _).1 hchecked.2
          have hkey : scopedFileKey address.projectId address.scope resolved.path = address.key := by
            rw [hresolved]
            rfl
          simp only [hkey]
          cases houtcome : (s.storeScopedText address.key (.string value)).1 with
          | error e =>
              refine Or.inl ⟨e, ?_⟩
              have hpair : s.storeScopedText address.key (.string value) = (.error e, s) :=
                Prod.ext houtcome (storeScopedText_error houtcome)
              rw [hpair]
          | ok done =>
              have hpair : s.storeScopedText address.key (.string value) =
                  (.ok (), (s.storeScopedText address.key (.string value)).2) := Prod.ext houtcome rfl
              refine Or.inr ⟨value, rfl, haccepted, rfl, ?_⟩
              rw [hpair, hresolved]
              rfl

/-- A rejected write changes nothing. -/
theorem writeScopedText_error {s : FakeUnityBridge} {address : Address} {text : Text} {maxChars : Option Number}
    {e : PathError}
    (h : (s.writeScopedText address.projectId address.scope address.path text maxChars).1 = .error e) :
    (s.writeScopedText address.projectId address.scope address.path text maxChars).2 = s := by
  rcases writeScopedText_cases s address text maxChars with ⟨e', heq⟩ | ⟨value, -, -, -, heq⟩
  · rw [heq]
  · rw [heq] at h
    cases h

/-! ## Reads -/

/-- What a read answers. -/
def textResult (address : Address) (limit : Nat) (text : Units) : UnityBridgeScopedTextResult where
  projectId := address.projectId
  scope := address.scope
  path := address.path
  projectRelativePath := lit (placement address.scope).2 ++ address.path
  text := text.take limit
  truncated := decide (text.length > limit)
  artifactRef := artifactRef address.scope address.path

theorem truncated_eq_take (text : Units) (limit : Nat) :
    (if decide (text.length > limit) = true then text.take limit else text) = text.take limit := by
  split_ifs with hlong
  · rfl
  · rw [List.take_of_length_le]
    apply Nat.le_of_not_gt
    intro hover
    exact hlong (decide_eq_true hover)

/-- A read answers with the last text of its address, or with none. -/
theorem readScopedText_eq_ok_iff {log : List (Address × Units)} {s : FakeUnityBridge} (h : s.Records log)
    {address : Address} {maxChars : Option Number} {result : UnityBridgeScopedTextResult} :
    s.readScopedText address.projectId address.scope address.path maxChars = .ok result ↔
      ∃ limit, boundedPositiveInteger maxChars 65536 1048576 "maxChars" = .ok limit ∧ address.Accepted s.broker ∧
        result = textResult address limit ((Keyed.latest address log).getD []) := by
  have hread (haccepted : address.Accepted s.broker) :
      s.scopedFiles.lookup (scopedFileKey address.projectId address.scope (workflowPath address).path) =
        Keyed.latest address log :=
    h.lookup_key _ (h.named _ haccepted.project).2 haccepted.workflow
  rw [readScopedText]
  simp only [bind_eq_ok_iff, resolveWorkflowPath_eq_ok_iff, truncated_eq_take]
  constructor
  · rintro ⟨limit, hlimit, resolved, ⟨haccepted, rfl⟩, heq⟩
    rw [hread haccepted] at heq
    cases heq
    exact ⟨limit, hlimit, haccepted, rfl⟩
  · rintro ⟨limit, hlimit, haccepted, rfl⟩
    refine ⟨limit, hlimit, workflowPath address, ⟨haccepted, rfl⟩, ?_⟩
    rw [hread haccepted]
    rfl

/-! ## Query budgets -/

/-- A query takes this work from its budget and finds this, or fails for want of budget. -/
def Costs {β : Type} (work : Nat) (found : β) (query : Nat → Except PathError (β × Nat)) : Prop :=
  ∀ budget, query budget =
    if work ≤ budget then .ok (found, budget - work)
    else newError .invalidPath "scoped query exceeds matching or traversal work limit"

theorem consume_bind {β : Type} (units budget : Nat) (query : Nat → Except PathError β) :
    (consume units budget >>= query) =
      if units ≤ budget then query (budget - units)
      else newError .invalidPath "scoped query exceeds matching or traversal work limit" := by
  rw [consume]
  by_cases h : units ≤ budget
  · rw [if_neg (Nat.not_lt.2 h), if_pos h]
    rfl
  · rw [if_pos (Nat.lt_of_not_le h), if_neg h]
    rfl

theorem Costs.consume {β : Type} {work : Nat} {found : β} {query : Nat → Except PathError (β × Nat)}
    (h : Costs work found query) (units : Nat) :
    Costs (units + work) found fun budget => TS.consume units budget >>= query := by
  intro budget
  simp only [consume_bind]
  by_cases hunits : units ≤ budget
  · rw [if_pos hunits, h]
    have hiff : work ≤ budget - units ↔ units + work ≤ budget := by
      omega
    simp only [hiff, Nat.sub_sub]
  · rw [if_neg hunits, if_neg]
    intro hboth
    exact hunits (Nat.le_trans (Nat.le_add_right units work) hboth)

theorem Costs.map {β γ : Type} {work : Nat} {found : β} {query : Nat → Except PathError (β × Nat)}
    (h : Costs work found query) (f : β → γ) :
    Costs work (f found) fun budget => query budget >>= fun answer => .ok (f answer.1, answer.2) := by
  intro budget
  simp only [h budget]
  by_cases hwork : work ≤ budget
  · rw [if_pos hwork, if_pos hwork]
    rfl
  · rw [if_neg hwork, if_neg hwork]
    rfl

/-! ## Listings -/

/-- The path of a key below a leader. -/
def pathUnder (leader key : Units) : Option Units :=
  if startsWith key leader then some (key.drop leader.length) else none

theorem pathUnder_eq_some_iff {leader key path : Units} : pathUnder leader key = some path ↔ key = leader ++ path := by
  rw [pathUnder, startsWith]
  constructor
  · intro h
    split_ifs at h with hleads
    cases h
    exact (List.prefix_iff_eq_append.1 (List.isPrefixOf_iff_prefix.1 hleads)).symm
  · rintro rfl
    rw [if_pos (List.isPrefixOf_iff_prefix.2 (List.prefix_append leader path)), List.drop_left]

/-- The entry of a listed text. -/
def scopedEntry (scope : UnityMCPPathScope) (path text : Units) : UnityBridgeScopedEntry where
  scope := scope
  path := path
  projectRelativePath := lit (placement scope).2 ++ path
  chars := text.length
  artifactRef := artifactRef scope path

def entriesUnder (leader : Units) (scope : UnityMCPPathScope) (stored : List (Sigma fun _ : Units => Units)) :
    List UnityBridgeScopedEntry :=
  stored.filterMap fun entry => (pathUnder leader entry.1).map fun path => scopedEntry scope path entry.2

/-- The work of a scan: the compared part of every key, and every path below the leader. -/
def scanWork (leader : Units) (stored : List (Sigma fun _ : Units => Units)) : Nat :=
  (stored.map fun entry => min entry.1.length leader.length + ((pathUnder leader entry.1).map List.length).getD 0).sum

/-- A scan of accepted paths costs its work and finds the paths below the leader. -/
theorem examineEntries_costs {leader : Units} {scope : UnityMCPPathScope}
    {stored : List (Sigma fun _ : Units => Units)} (hscope : isWorkflowScope scope = true)
    (h : ∀ entry ∈ stored, ∀ path, pathUnder leader entry.1 = some path →
      ∃ resolved, normalizeScopedPath scope path = .ok resolved) :
    Costs (scanWork leader stored) (entriesUnder leader scope stored)
      (examineEntries leader scope (acceptsUnder none) stored) := by
  induction stored with
  | nil =>
      intro budget
      exact (if_pos (Nat.zero_le budget)).symm
  | cons entry stored ih =>
      obtain ⟨key, text⟩ := entry
      have hhead := h ⟨key, text⟩ List.mem_cons_self
      have hrest := ih fun entry hentry => h entry (List.mem_cons_of_mem _ hentry)
      cases hunder : pathUnder leader key with
      | none =>
          -- the key is compared and skipped
          have hskip : startsWith key leader = false := by
            rw [pathUnder] at hunder
            split_ifs at hunder with hleads
            exact Bool.eq_false_iff.2 hleads
          have hcost := hrest.consume (min key.length leader.length)
          rw [entriesUnder, List.filterMap_cons, hunder, scanWork, List.map_cons, List.sum_cons, hunder]
          intro budget
          simp only [examineEntries, hskip, if_true]
          exact hcost budget
      | some path =>
          obtain ⟨resolved, hresolved⟩ := hhead path hunder
          have hkey : key = leader ++ path := pathUnder_eq_some_iff.1 hunder
          have hleads : startsWith key leader = true := by
            rw [hkey]
            exact List.isPrefixOf_iff_prefix.2 (List.prefix_append leader path)
          have hpath : key.drop leader.length = path := by
            rw [hkey, List.drop_left]
          have hresult := (Ports.normalizeScopedPath_eq_ok_iff.1 hresolved).2
          have hkind : resolved.kind = .project := by
            rw [hresult]
            exact placement_workflow hscope
          have hcost := ((hrest.map fun rest => scopedEntry scope path text :: rest).consume path.length).consume
            (min key.length leader.length)
          rw [entriesUnder, List.filterMap_cons, hunder, scanWork, List.map_cons, List.sum_cons, hunder, Nat.add_assoc]
          intro budget
          simp only [examineEntries, hleads, hpath, hresolved, hkind, acceptsUnder, ok_bind, Bool.true_eq_false,
            if_false, ne_eq, not_true_eq_false]
          rw [hresult]
          exact hcost budget

/-- The work of the comparisons of a sort. -/
def compareWork (comparisons : List (Units × Units)) : Nat :=
  (comparisons.map fun pair => pair.1.length + pair.2.length).sum

theorem consumeComparisons_bind {β : Type} (comparisons : List (Units × Units)) (budget : Nat)
    (query : Nat → Except PathError β) :
    (consumeComparisons comparisons budget >>= query) =
      if compareWork comparisons ≤ budget then query (budget - compareWork comparisons)
      else newError .invalidPath "scoped query exceeds matching or traversal work limit" := by
  induction comparisons generalizing budget with
  | nil =>
      exact (if_pos (Nat.zero_le budget)).symm
  | cons pair comparisons ih =>
      obtain ⟨left, right⟩ := pair
      have hwork : compareWork ((left, right) :: comparisons) = left.length + right.length + compareWork comparisons := by
        rw [compareWork, List.map_cons, List.sum_cons]
        rfl
      rw [consumeComparisons, bind_assoc, consume_bind, hwork, ih]
      by_cases hunits : left.length + right.length ≤ budget
      · rw [if_pos hunits]
        have hiff : compareWork comparisons ≤ budget - (left.length + right.length) ↔
            left.length + right.length + compareWork comparisons ≤ budget := by
          omega
        simp only [hiff, Nat.sub_sub]
      · rw [if_neg hunits, if_neg]
        intro hboth
        exact hunits (Nat.le_trans (Nat.le_add_right _ _) hboth)

/-- The stored texts of a project and a scope. -/
def storedEntries (s : FakeUnityBridge) (projectId : Units) (scope : UnityMCPPathScope) : List UnityBridgeScopedEntry :=
  entriesUnder (scopedFileKey projectId scope []) scope s.scopedFiles.entries

/-- The work of a listing without a path prefix. -/
def listWork (s : FakeUnityBridge) (order : ScopedEntryOrder) (projectId : Units) (scope : UnityMCPPathScope) : Nat :=
  scanWork (scopedFileKey projectId scope []) s.scopedFiles.entries +
    compareWork (order.comparisons ((s.storedEntries projectId scope).map UnityBridgeScopedEntry.path))

/-- A stored key below the leader of a project and a scope belongs to an address of both. -/
theorem Records.pathUnder_leader {log : List (Address × Units)} {s : FakeUnityBridge} (h : s.Records log)
    {projectId path : Units} {scope : UnityMCPPathScope} (hname : nul ∉ projectId)
    (hscope : isWorkflowScope scope = true) {entry : Sigma fun _ : Units => Units} (hentry : entry ∈ s.scopedFiles.entries)
    (hunder : pathUnder (scopedFileKey projectId scope []) entry.1 = some path) :
    entry.1 = Address.key ⟨projectId, scope, path⟩ ∧ Keyed.latest ⟨projectId, scope, path⟩ log = some entry.2 := by
  have hkey : entry.1 = Address.key ⟨projectId, scope, path⟩ := by
    rw [pathUnder_eq_some_iff.1 hunder, ← scopedFileKey_eq]
    rfl
  refine ⟨hkey, ?_⟩
  rw [← h.lookup_key ⟨projectId, scope, path⟩ hname hscope, ← hkey]
  exact AList.mem_lookup_iff.2 hentry

theorem Records.accepted_of_latest {log : List (Address × Units)} {s : FakeUnityBridge} (h : s.Records log)
    {address : Address} {text : Units} (hlatest : Keyed.latest address log = some text) :
    address.Accepted s.broker := by
  have hmem : address ∈ log.map Prod.fst := by
    by_contra hnone
    rw [Keyed.latest_eq_none_iff.2 hnone] at hlatest
    cases hlatest
  obtain ⟨write, hwrite, rfl⟩ := List.mem_map.1 hmem
  exact h.accepted write hwrite

/-- A scan without a path prefix fails for want of budget only. -/
theorem scopedEntries_eq {log : List (Address × Units)} {s : FakeUnityBridge} (haccounted : s.Accounted)
    (h : s.Records log) {projectId : Units} {scope : UnityMCPPathScope} (hproject : projectId ∈ s.broker.projects)
    (hscope : isWorkflowScope scope = true) (order : ScopedEntryOrder) :
    s.scopedEntries order projectId scope (acceptsUnder none) =
      if s.listWork order projectId scope ≤ 4000000 then
        .ok ((s.storedEntries projectId scope).mergeSort fun left right => order.le left.path right.path)
      else newError .invalidPath "scoped query exceeds matching or traversal work limit" := by
  have hname : nul ∉ projectId := (h.named projectId hproject).2
  obtain ⟨project, hproject⟩ := getProject_eq_ok_iff.2 hproject
  have hcost : Costs (scanWork (scopedFileKey projectId scope []) s.scopedFiles.entries)
      (s.storedEntries projectId scope)
      (examineEntries (scopedFileKey projectId scope []) scope (acceptsUnder none) s.scopedFiles.entries) := by
    apply examineEntries_costs hscope
    intro entry hentry path hunder
    exact (h.accepted_of_latest (h.pathUnder_leader hname hscope hentry hunder).2).path
  have hsize : ¬s.scopedFiles.keys.length > maxScopedEntriesExamined := Nat.not_lt.2 haccounted.size_le
  rw [scopedEntries, hproject, ok_bind, if_neg hsize, hcost, listWork, maxScopedQueryWork]
  by_cases hscan : scanWork (scopedFileKey projectId scope []) s.scopedFiles.entries ≤ 4000000
  · rw [if_pos hscan, ok_bind, consumeComparisons_bind]
    have hiff (work : Nat) :
        work ≤ 4000000 - scanWork (scopedFileKey projectId scope []) s.scopedFiles.entries ↔
          scanWork (scopedFileKey projectId scope []) s.scopedFiles.entries + work ≤ 4000000 := by
      omega
    simp only [hiff]
  · rw [if_neg hscan, if_neg]
    · rfl
    · intro hboth
      exact hscan (Nat.le_trans (Nat.le_add_right _ _) hboth)

/-- What a listing without a path prefix answers. -/
def listResult (s : FakeUnityBridge) (order : ScopedEntryOrder) (projectId : Units) (scope : UnityMCPPathScope)
    (limit : Nat) : UnityBridgeScopedListResult where
  projectId := projectId
  scope := scope
  pathPrefix := none
  entries := ((s.storedEntries projectId scope).mergeSort fun left right => order.le left.path right.path).take limit
  truncated := decide ((s.storedEntries projectId scope).length > limit)

theorem listScoped_eq {log : List (Address × Units)} {s : FakeUnityBridge} (haccounted : s.Accounted)
    (h : s.Records log) {projectId : Units} {scope : UnityMCPPathScope} (hproject : projectId ∈ s.broker.projects)
    (hscope : isWorkflowScope scope = true) (order : ScopedEntryOrder) {maxEntries : Option Number} {limit : Nat}
    (hlimit : boundedPositiveInteger maxEntries 100 1000 "maxEntries" = .ok limit) :
    s.listScoped order projectId scope none maxEntries =
      if s.listWork order projectId scope ≤ 4000000 then .ok (s.listResult order projectId scope limit)
      else newError .invalidPath "scoped query exceeds matching or traversal work limit" := by
  rw [listScoped, hlimit, ok_bind]
  simp only [ok_bind]
  rw [scopedEntries_eq haccounted h hproject hscope order]
  split_ifs with hwork
  · rw [ok_bind, listResult, List.length_mergeSort]
  · rfl

/-- The paths of a project and a scope, each with its last text. -/
theorem mem_storedEntries_iff {log : List (Address × Units)} {s : FakeUnityBridge} (h : s.Records log)
    {projectId : Units} {scope : UnityMCPPathScope} (hname : nul ∉ projectId) (hscope : isWorkflowScope scope = true)
    (entry : UnityBridgeScopedEntry) :
    entry ∈ s.storedEntries projectId scope ↔
      ∃ path text, Keyed.latest ⟨projectId, scope, path⟩ log = some text ∧ entry = scopedEntry scope path text := by
  rw [storedEntries, entriesUnder, List.mem_filterMap]
  constructor
  · rintro ⟨stored, hstored, hentry⟩
    obtain ⟨path, hunder, rfl⟩ := Option.map_eq_some_iff.1 hentry
    exact ⟨path, stored.2, (h.pathUnder_leader hname hscope hstored hunder).2, rfl⟩
  · rintro ⟨path, text, hlatest, rfl⟩
    rw [← h.lookup_key ⟨projectId, scope, path⟩ hname hscope] at hlatest
    refine ⟨⟨Address.key ⟨projectId, scope, path⟩, text⟩, AList.mem_lookup_iff.1 hlatest, ?_⟩
    have hunder : pathUnder (scopedFileKey projectId scope []) (Address.key ⟨projectId, scope, path⟩) = some path :=
      pathUnder_eq_some_iff.2 (scopedFileKey_eq projectId scope path)
    rw [hunder]
    rfl

theorem nodup_storedEntries (s : FakeUnityBridge) (projectId : Units) (scope : UnityMCPPathScope) :
    ((s.storedEntries projectId scope).map UnityBridgeScopedEntry.path).Nodup := by
  have hpaths : (s.storedEntries projectId scope).map UnityBridgeScopedEntry.path =
      s.scopedFiles.keys.filterMap (pathUnder (scopedFileKey projectId scope [])) := by
    rw [storedEntries, entriesUnder, List.map_filterMap, AList.keys, List.keys, List.filterMap_map]
    congr 1
    funext entry
    rw [Option.map_map, Function.comp_apply]
    exact Option.map_id'
  rw [hpaths]
  apply List.Nodup.filterMap ?_ s.scopedFiles.keys_nodup
  intro key key' path hkey hkey'
  rw [pathUnder_eq_some_iff.1 (Option.mem_def.1 hkey), pathUnder_eq_some_iff.1 (Option.mem_def.1 hkey')]

/-- A listing within its limit has every path once. -/
theorem paths_listResult {log : List (Address × Units)} {s : FakeUnityBridge} (h : s.Records log)
    {projectId : Units} {scope : UnityMCPPathScope} (hproject : projectId ∈ s.broker.projects)
    (hscope : isWorkflowScope scope = true) (order : ScopedEntryOrder) {limit : Nat}
    (hlimit : (s.storedEntries projectId scope).length ≤ limit) :
    ((s.listResult order projectId scope limit).entries.map UnityBridgeScopedEntry.path).Nodup ∧
      ∀ path, path ∈ (s.listResult order projectId scope limit).entries.map UnityBridgeScopedEntry.path ↔
        ⟨projectId, scope, path⟩ ∈ log.map Prod.fst := by
  have hperm : (s.listResult order projectId scope limit).entries.Perm (s.storedEntries projectId scope) := by
    rw [listResult, List.take_of_length_le]
    · exact List.mergeSort_perm _ _
    · rw [List.length_mergeSort]
      exact hlimit
  refine ⟨(hperm.map _).nodup_iff.2 (nodup_storedEntries s projectId scope), ?_⟩
  intro path
  have hlogged : ⟨projectId, scope, path⟩ ∈ log.map Prod.fst ↔
      ∃ text, Keyed.latest (⟨projectId, scope, path⟩ : Address) log = some text := by
    rw [← Option.ne_none_iff_exists', ne_eq, Keyed.latest_eq_none_iff, not_not]
  rw [(hperm.map _).mem_iff, List.mem_map, hlogged]
  simp only [mem_storedEntries_iff h (h.named projectId hproject).2 hscope]
  constructor
  · rintro ⟨entry, ⟨path', text, hlatest, rfl⟩, rfl⟩
    exact ⟨text, hlatest⟩
  · rintro ⟨text, hlatest⟩
    exact ⟨scopedEntry scope path text, ⟨path, text, hlatest, rfl⟩, rfl⟩

/-! ## Runs -/

/-- A write, or a call of the broker between two writes. -/
inductive Action
  | broker (call : CanonicalPathBroker.Call)
  | writeScopedText (address : Address) (text : Text) (maxChars : Option Number)

/-- What a write adds to the log: nothing where it is rejected. -/
def accepted (address : Address) (text : Text) (outcome : Except PathError UnityBridgeScopedWriteResult) :
    List (Address × Units) :=
  match outcome, text with
  | .ok _, .string value => [(address, value)]
  | _, _ => []

/-- Every action is possible in every state. -/
def step (s : FakeUnityBridge) : Action → Option (FakeUnityBridge × List (Address × Units))
  | .broker call => some ({ s with broker := (s.broker.perform call).2 }, [])
  | .writeScopedText address text maxChars =>
      let written := s.writeScopedText address.projectId address.scope address.path text maxChars
      some (written.2, accepted address text written.1)

theorem Records.perform {log : List (Address × Units)} {s : FakeUnityBridge} (h : s.Records log)
    (call : CanonicalPathBroker.Call) : Records log { s with broker := (s.broker.perform call).2 } where
  named := CanonicalPathBroker.perform_named h.named call
  accepted := by
    intro write hwrite
    have haccepted := h.accepted write hwrite
    exact ⟨(CanonicalPathBroker.mem_perform call _).1 haccepted.project, haccepted.workflow, haccepted.path⟩
  contents := h.contents

theorem step_records {log events : List (Address × Units)} {s s' : FakeUnityBridge} {action : Action}
    (haccounted : s.Accounted) (h : s.Records log) (hstep : s.step action = some (s', events)) :
    s'.Accounted ∧ s'.Records (log ++ events) := by
  cases action with
  | broker call =>
      cases hstep
      rw [List.append_nil]
      exact ⟨⟨haccounted.counted, haccounted.bounded, haccounted.size_le⟩, h.perform call⟩
  | writeScopedText address text maxChars =>
      cases hstep
      rcases writeScopedText_cases s address text maxChars with ⟨e, heq⟩ | ⟨value, rfl, haccepted, hstore, heq⟩
      · have hnone : accepted address text (.error e) = [] := rfl
        rw [heq, hnone, List.append_nil]
        exact ⟨haccounted, h⟩
      · obtain ⟨value', hvalue, hrecords⟩ := storeScopedText_records h haccepted hstore
        cases hvalue
        rw [heq, accepted]
        exact ⟨storeScopedText_accounted haccounted _ _, hrecords⟩

/-- What a state of the bridge owes to the writes that it accepted. -/
structure Faithful (log : List (Address × Units)) (s : FakeUnityBridge) : Prop where
  accounted : s.Accounted
  /-- Keys tell the addresses of registered projects. -/
  key_injective : ∀ a b : Address, a.Accepted s.broker → b.Accepted s.broker → a.key = b.key → a = b
  /-- A rejected write changes nothing. -/
  rejected : ∀ (address : Address) (text : Text) (maxChars : Option Number) (e : PathError),
    (s.writeScopedText address.projectId address.scope address.path text maxChars).1 = .error e →
      (s.writeScopedText address.projectId address.scope address.path text maxChars).2 = s
  /-- A read that passes its checks answers with the last text of its address. -/
  reads : ∀ (address : Address) (maxChars : Option Number) (result : UnityBridgeScopedTextResult),
    s.readScopedText address.projectId address.scope address.path maxChars = .ok result ↔
      ∃ limit, boundedPositiveInteger maxChars 65536 1048576 "maxChars" = .ok limit ∧ address.Accepted s.broker ∧
        result = textResult address limit ((Keyed.latest address log).getD [])
  /-- A listing within its budget answers; one within its limit has every path of its project and scope once. -/
  lists : ∀ (order : ScopedEntryOrder) (projectId : Units) (scope : UnityMCPPathScope) (maxEntries : Option Number)
    (limit : Nat), projectId ∈ s.broker.projects → isWorkflowScope scope = true →
      boundedPositiveInteger maxEntries 100 1000 "maxEntries" = .ok limit →
      (s.listWork order projectId scope ≤ 4000000 →
        ∃ result, s.listScoped order projectId scope none maxEntries = .ok result) ∧
      ∀ result, s.listScoped order projectId scope none maxEntries = .ok result →
        (result.truncated = true ↔ limit < (s.storedEntries projectId scope).length) ∧
        (result.truncated = false → (result.entries.map UnityBridgeScopedEntry.path).Nodup ∧
          ∀ path, path ∈ result.entries.map UnityBridgeScopedEntry.path ↔ ⟨projectId, scope, path⟩ ∈ log.map Prod.fst)

theorem Records.faithful {log : List (Address × Units)} {s : FakeUnityBridge} (haccounted : s.Accounted)
    (h : s.Records log) : s.Faithful log where
  accounted := haccounted
  key_injective := by
    intro a b ha hb hkey
    exact Address.key_injective (h.named _ ha.project).2 (h.named _ hb.project).2 ha.workflow hb.workflow hkey
  rejected := by
    intro address text maxChars e herror
    exact writeScopedText_error herror
  reads := by
    intro address maxChars result
    exact readScopedText_eq_ok_iff h
  lists := by
    intro order projectId scope maxEntries limit hproject hscope hlimit
    have hlist := listScoped_eq haccounted h hproject hscope order hlimit
    rw [hlist]
    constructor
    · intro hwork
      rw [if_pos hwork]
      exact ⟨_, rfl⟩
    · intro result hresult
      split_ifs at hresult with hwork
      · cases hresult
        refine ⟨decide_eq_true_iff, ?_⟩
        intro hwhole
        exact paths_listResult h hproject hscope order (Nat.le_of_not_gt (decide_eq_false_iff_not.1 hwhole))
      · cases hresult

/-- After every construction and every run the bridge is faithful to its seeds and its accepted writes. -/
theorem fakeBridge_accounts {calls : List (Except PathError Unit)} {broker : CanonicalPathBroker}
    {seeds : List (Units × Text)} {bridge s : FakeUnityBridge} {log : List (Address × Units)}
    (hbroker : Run CanonicalPathBroker.step { projects := ∅ } calls broker) (hcreate : create broker seeds = .ok bridge)
    (hrun : Run step bridge log s) :
    ∃ seeded : List (Address × Units),
      seeds = seeded.map (fun write => (write.1.key, Text.string write.2)) ∧ s.Faithful (seeded ++ log) := by
  obtain ⟨haccounted, seeded, hseeds, hrecords⟩ := create_records (CanonicalPathBroker.named_of_run hbroker) hcreate
  refine ⟨seeded, hseeds, ?_⟩
  have hreached : s.Accounted ∧ s.Records (seeded ++ log) := by
    refine hrun.logged (P := fun log s => s.Accounted ∧ s.Records (seeded ++ log)) ?_ ?_
    · rw [List.append_nil]
      exact ⟨haccounted, hrecords⟩
    · intro log s action s' events hs hstep
      rw [← List.append_assoc]
      exact step_records hs.1 hs.2 hstep
  exact hreached.2.faithful hreached.1

/-- A project with a seeded text that a write replaces. -/
theorem fakeBridge_accounts_seeded :
    ∃ bridge s : FakeUnityBridge,
      create ((CanonicalPathBroker.perform { projects := ∅ } (.registerProject {
          projectId := lit "p", projectRoot := lit "/a" })).2)
        [(scopedFileKey (lit "p") .knowledge (lit "n"), .string (lit "old"))] = .ok bridge ∧
      bridge.step (.writeScopedText ⟨lit "p", .knowledge, lit "n"⟩ (.string (lit "new")) none) =
        some (s, [(⟨lit "p", .knowledge, lit "n"⟩, lit "new")]) ∧
      ∃ seeded : List (Address × Units), [(scopedFileKey (lit "p") .knowledge (lit "n"), Text.string (lit "old"))] =
        seeded.map (fun write => (write.1.key, Text.string write.2)) ∧
          s.Faithful (seeded ++ [(⟨lit "p", .knowledge, lit "n"⟩, lit "new")]) := by
  have hcreated : ((create ((CanonicalPathBroker.perform { projects := ∅ } (.registerProject {
          projectId := lit "p", projectRoot := lit "/a" })).2)
        [(scopedFileKey (lit "p") .knowledge (lit "n"), .string (lit "old"))]).map fun bridge =>
      accepted ⟨lit "p", .knowledge, lit "n"⟩ (.string (lit "new"))
        (bridge.writeScopedText (lit "p") .knowledge (lit "n") (.string (lit "new")) none).1).toOption =
      some [(⟨lit "p", .knowledge, lit "n"⟩, lit "new")] := by
    decide +kernel
  cases hcreate : create ((CanonicalPathBroker.perform { projects := ∅ } (.registerProject {
          projectId := lit "p", projectRoot := lit "/a" })).2)
        [(scopedFileKey (lit "p") .knowledge (lit "n"), .string (lit "old"))] with
  | error e =>
      rw [hcreate] at hcreated
      cases hcreated
  | ok bridge =>
      rw [hcreate] at hcreated
      have hlog := Option.some.inj hcreated
      have hstep : bridge.step (.writeScopedText ⟨lit "p", .knowledge, lit "n"⟩ (.string (lit "new")) none) =
          some ((bridge.writeScopedText (lit "p") .knowledge (lit "n") (.string (lit "new")) none).2,
            [(⟨lit "p", .knowledge, lit "n"⟩, lit "new")]) := by
        rw [step, ← hlog]
      refine ⟨bridge, _, rfl, hstep, ?_⟩
      exact fakeBridge_accounts (.snoc (.nil _) rfl) hcreate (.snoc (.nil _) hstep)

end FakeUnityBridge

end TS

end CanonicalPath
