import CanonicalPath.Daemon.Credentials
import CanonicalPath.FS.Handles
import CanonicalPath.Library.History

/-!
# CredentialsSafety — credentials are written to checked private files, and the marker after all of them

The statements are about the log of a run up to any event of it, so that they hold where a run is cut off: at every
moment the host may have answered anything before, and may answer anything afterwards.

* `vault` : a private directory under a name that was made, reached through directories that were checked one by one
* `complete` : a file that was written whole, synced and closed
* `Allowed` : what may happen after what has happened
* `run_publishes` : every event of every run was allowed
-/

namespace CanonicalPath

namespace Daemon

namespace Credentials

open CodeUnit

open Effect (Triple)

open FS.Shared (Handle mem_openHandles objects objects_close objects_concat openHandles openHandles_close_of_eq
  openHandles_concat)

/-! ## What has happened -/

/-- A directory was entered under a name that led to it, and was no link. -/
def entered (dir : Nat) (name : Bytes) (child : Nat) : Lasting Event :=
  .some (fun seen : Nat × FileInfo => seen.2.directory = true ∧ seen.2.symlink = false ∧ seen.2.irregular = false)
    fun seen => (Lasting.mem (.looked dir name seen.1 seen.2)).both (.mem (.entered dir name child seen.1))

def checked (euid : Int) (dir : Nat) (isPrivate : Bool) : Lasting Event :=
  .some (fun seen : Nat × FileInfo => seen.2.directory = true ∧ validateAccess euid seen.2 isPrivate = .ok ())
    fun seen => (Lasting.mem (.reopened dir seen.1)).both (.mem (.told seen.1 seen.2))

/-- A directory below the file system root, the names in reverse; every one of them was checked. -/
def walked (euid : Int) : List Bytes → Nat → Lasting Event
  | [], dir => .mem (.anchored dir)
  | name :: above, dir => .some (fun _ => True) fun parent =>
      (walked euid above parent).both ((entered parent name dir).both (checked euid dir false))

/-- The private parent of the new directory. -/
def guarded (euid : Int) (above : List Bytes) (dir : Nat) : Lasting Event :=
  (walked euid above dir).both (checked euid dir true)

/-- What was entered under the name that the private parent was asked to make. -/
def vault (euid : Int) (parts : List Bytes) (directory : Nat) : Lasting Event :=
  .some (fun place : Bytes × List Bytes × Nat => parts.reverse = place.1 :: place.2.1 ∧ place.2.1 ≠ []) fun place =>
    (guarded euid place.2.1 place.2.2).both ((Lasting.mem (.made place.2.2 place.1)).both
      ((entered place.2.2 place.1 directory).both (checked euid directory true)))

/-- A file that was written whole, synced and closed. -/
def complete (directory : Nat) (name data : Bytes) : Lasting Event :=
  .some (fun _ => True) fun file => (Lasting.mem (.created directory name file)).both
    ((Lasting.mem (.written file data)).both ((Lasting.mem (.synced file)).both (.mem (.closed file true))))

/-- A file that is private to the user. -/
def secured (euid : Int) (file : Nat) : Lasting Event :=
  .some (fun info : FileInfo => info.isRegular = true ∧ validateAccess euid info true = .ok ()) fun info =>
    .mem (.told file info)

/-! ## What may happen -/

structure Plan where
  euid : Int
  /-- The names that lead to the new directory. -/
  parts : List Bytes
  files : Bytes → Bytes

/-- The handle that an event opens. -/
def Event.opens : Event → Option Nat
  | .anchored handle | .entered _ _ handle _ | .reopened _ handle | .created _ _ handle => some handle
  | _ => none

def Permitted (plan : Plan) (before : List Event) : Event → Prop
  | .made dir name => ∃ above, plan.parts.reverse = name :: above ∧ above ≠ [] ∧
      (guarded plan.euid above dir).Holds before
  | .created dir name _ => (vault plan.euid plan.parts dir).Holds before ∧ ∃ done more,
      published = done ++ name :: more ∧ ∀ earlier ∈ done, (complete dir earlier (plan.files earlier)).Holds before
  | .written file chunk => (secured plan.euid file).Holds before ∧ ∃ dir name, .created dir name file ∈ before ∧
      chunk <+: plan.files name
  | .synced file => ∃ dir name, .created dir name file ∈ before ∧ .written file (plan.files name) ∈ before
  | .printed => ∃ dir, (vault plan.euid plan.parts dir).Holds before ∧
      ∀ name ∈ published, (complete dir name (plan.files name)).Holds before
  | .stale _ => False
  | _ => True

/-- A handle that is opened was never given before. -/
def Allowed (plan : Plan) (before : List Event) (event : Event) : Prop :=
  Permitted plan before event ∧ ∀ handle, event.opens = some handle → ∀ other ∈ before, other.opens ≠ some handle

/-! ## States -/

structure Stands (plan : Plan) (opened : List Nat) (F : Lasting Event) (s : State) : Prop where
  lawful : Lawful (Allowed plan) s.log
  opened_eq : openHandles s.handles = opened
  holds : F.Holds s.log
  issued : ∀ event ∈ s.log, ∀ handle, event.opens = some handle → handle < s.handles.length
  objects_entered : ∀ dir name child id, Event.entered dir name child id ∈ s.log → (objects s.handles)[child]? = some id

section

variable {host : Host} {plan : Plan} {opened before after : List Nat} {F G : Lasting Event} {s : State} {handle dir : Nat}
  {name : Bytes} {event : Event}

theorem Stands.imp (h : Stands plan opened F s) (hF : ∀ log, F.Holds log → G.Holds log) : Stands plan opened G s :=
  { h with holds := hF _ h.holds }

theorem Stands.left (h : Stands plan opened (F.both G) s) : Stands plan opened F s :=
  h.imp fun _ hboth => hboth.1

/-! ## Calls -/

theorem call_spec : Triple (Stands plan opened F) (call host) (fun _ => Stands plan opened F)
    fun _ => Stands plan opened F := by
  intro s hs
  rw [call]
  cases host.fault s.calls with
  | none =>
      exact ⟨fun _ _ => { hs with }, fun e he => nomatch he⟩
  | some error =>
      exact ⟨fun b hb => (nomatch hb), fun _ _ => { hs with }⟩

theorem record_spec {E : Failure → State → Prop} (hpermitted : ∀ log, F.Holds log → Permitted plan log event)
    (hopens : event.opens = none) :
    Triple (Stands plan opened F) (record event) (fun _ => Stands plan opened (F.both (.mem event))) E := by
  apply Triple.modify
  intro s hs
  have hnone : ∀ handle, event.opens ≠ some handle := by
    intro handle h
    rw [hopens] at h
    cases h
  refine ⟨hs.lawful.concat ⟨hpermitted _ hs.holds, fun handle h => absurd h (hnone handle)⟩, hs.opened_eq,
    ⟨F.lasts event hs.holds, List.mem_append_right _ (List.mem_singleton_self _)⟩, ?_, ?_⟩
  · intro other hother handle h
    rcases List.mem_append.1 hother with hold | hnew
    · exact hs.issued other hold handle h
    · cases List.mem_singleton.1 hnew
      exact absurd h (hnone handle)
  · intro dir name child id hmem
    rcases List.mem_append.1 hmem with hold | hnew
    · exact hs.objects_entered dir name child id hold
    · cases List.mem_singleton.1 hnew
      cases hopens

/-- The object of an open handle is the one that it was opened with. -/
theorem object_spec {E : Failure → State → Prop} (hopen : handle ∈ opened) :
    Triple (Stands plan opened F) (object handle)
      (fun id s => (∀ dir name entry, (∀ log, F.Holds log → Event.entered dir name handle entry ∈ log) → entry = id) ∧
        Stands plan opened F s) E := by
  apply Triple.observe_bind
  intro s hs
  rw [← hs.opened_eq] at hopen
  obtain ⟨id, hhandle⟩ := mem_openHandles.1 hopen
  rw [hhandle]
  apply Triple.pure
  rintro s' rfl
  refine ⟨?_, hs⟩
  intro dir name entry hentered
  have hobject := hs.objects_entered dir name handle entry (hentered _ hs.holds)
  rw [objects, List.getElem?_map, hhandle] at hobject
  exact (Option.some.inj hobject).symm

theorem newHandle_spec {E : Failure → State → Prop} {id : Nat} {event : Nat → Event}
    (hpermitted : ∀ handle log, F.Holds log → Permitted plan log (event handle))
    (hopens : ∀ handle, (event handle).opens = some handle)
    (hentered : ∀ handle dir name child entry, event handle = .entered dir name child entry → entry = id) :
    Triple (Stands plan opened F) (newHandle id event)
      (fun handle => Stands plan (opened ++ [handle]) (F.both (.mem (event handle)))) E := by
  apply Triple.observe_bind
  intro s hs
  apply Triple.bind (Q := fun _ s' => s' = { s with handles := s.handles ++ [⟨id, false⟩] })
  · apply Triple.modify
    rintro s' rfl
    rfl
  intro _
  apply Triple.bind (Q := fun _ => Stands plan (opened ++ [s.handles.length])
    (F.both (.mem (event s.handles.length))))
  · apply Triple.modify
    rintro s' rfl
    have hnew : (event s.handles.length) ∈ s.log ++ [event s.handles.length] :=
      List.mem_append_right _ (List.mem_singleton_self _)
    refine ⟨hs.lawful.concat ⟨hpermitted _ _ hs.holds, ?_⟩, ?_, ⟨F.lasts _ hs.holds, hnew⟩, ?_, ?_⟩
    · intro handle hhandle other hother hsame
      rw [hopens] at hhandle
      cases hhandle
      exact Nat.lt_irrefl _ (hs.issued other hother _ hsame)
    · rw [openHandles_concat, hs.opened_eq]
    · intro other hother handle hhandle
      rw [List.length_append, List.length_singleton]
      rcases List.mem_append.1 hother with hold | hlast
      · exact Nat.lt_succ_of_lt (hs.issued other hold handle hhandle)
      · cases List.mem_singleton.1 hlast
        rw [hopens] at hhandle
        cases hhandle
        exact Nat.lt_succ_self _
    · intro dir name child entry hmem
      rw [objects_concat]
      rcases List.mem_append.1 hmem with hold | hlast
      · have hobject := hs.objects_entered dir name child entry hold
        rw [List.getElem?_append_left (List.getElem?_eq_some_iff.1 hobject).1]
        exact hobject
      · have hevent := (List.mem_singleton.1 hlast).symm
        cases hentered _ dir name child entry hevent
        have hchild := hopens s.handles.length
        rw [hevent] at hchild
        cases hchild
        have hlength : (objects s.handles).length = s.handles.length := List.length_map _
        rw [← hlength, List.getElem?_append_right (Nat.le_refl _), Nat.sub_self]
        rfl
  intro _
  exact Triple.pure fun _ hs => hs

theorem close_spec (before after : List Nat) :
    Triple (Stands plan (before ++ handle :: after) F) (close host handle)
      (fun _ => Stands plan (before ++ after) (F.both (.mem (.closed handle true))))
      fun _ => Stands plan (before ++ after) F := by
  have hopen : handle ∈ before ++ handle :: after := List.mem_append_right _ (List.mem_cons_self ..)
  apply Triple.bind (Q := fun _ => Stands plan (before ++ handle :: after) F)
  · exact Triple.attempt call_spec
  intro outcome
  apply (object_spec hopen).bind
  intro id
  apply Triple.bind (Q := fun _ => Stands plan (before ++ after) F)
  · apply Triple.modify
    rintro s ⟨-, hs⟩
    refine ⟨hs.lawful, openHandles_close_of_eq hs.opened_eq, hs.holds, ?_, ?_⟩
    · rw [List.length_modify]
      exact hs.issued
    · rw [objects_close]
      exact hs.objects_entered
  intro _
  cases outcome with
  | ok turn =>
      apply record_spec (fun _ _ => ?_) rfl
      trivial
  | error e =>
      have hrecord : Triple (Stands plan (before ++ after) F) (record (.closed handle false)) _
          fun _ => Stands plan (before ++ after) F :=
        record_spec (fun _ _ => trivial) rfl
      apply hrecord.bind
      intro _
      exact Triple.fail fun _ hs => hs.left

theorem attempt_close_spec (before after : List Nat) :
    Triple (Stands plan (before ++ handle :: after) F) (Effect.attempt (close host handle))
      (fun _ => Stands plan (before ++ after) F) fun _ => Stands plan (before ++ after) F :=
  Triple.attempt ((close_spec before after).conseq (fun _ hs => hs) (fun _ _ hs => hs.left) fun _ _ hs => hs)

theorem attempt_closeLast_spec :
    Triple (Stands plan (opened ++ [handle]) F) (Effect.attempt (close host handle)) (fun _ => Stands plan opened F)
      fun _ => Stands plan opened F := by
  have hclose : Triple (Stands plan (opened ++ [handle]) F) (Effect.attempt (close host handle)) _ _ :=
    attempt_close_spec opened []
  rw [List.append_nil] at hclose
  exact hclose

/-- What was opened last is given up for an error. -/
theorem giveUp_spec {β : Type} {e : Failure} {Q : β → State → Prop} (hF : ∀ log, G.Holds log → F.Holds log) :
    Triple (Stands plan (opened ++ [handle]) G) (do
      let _ ← Effect.attempt (close host handle)
      Effect.fail e) Q fun _ => Stands plan opened F := by
  apply Triple.bind (Q := fun _ => Stands plan opened F)
  · exact attempt_closeLast_spec.conseq (fun _ hs => hs) (fun _ _ hs => hs.imp hF) fun _ _ hs => hs.imp hF
  intro _
  exact Triple.fail fun _ hs => hs

/-- What a body leaves open stays open, but for the handle whose closing was deferred. -/
theorem deferClose_spec {β : Type} {body : Running β} {P : State → Prop} {left : β → List Nat} {K : β → Lasting Event}
    (h : Triple P body (fun b => Stands plan (before ++ handle :: left b) (K b))
      fun _ => Stands plan (before ++ [handle]) F) :
    Triple P (deferClose host handle body) (fun b => Stands plan (before ++ left b) (K b))
      fun _ => Stands plan before F := by
  apply Triple.attempt_bind h
  · intro b
    apply Triple.bind (Q := fun _ => Stands plan (before ++ left b) (K b))
    · exact Triple.attempt ((close_spec before (left b)).conseq (fun _ hs => hs) (fun _ _ hs => hs.left) fun _ _ hs => hs)
    intro _
    exact Triple.pure fun _ hs => hs
  · intro e
    apply attempt_closeLast_spec.bind
    intro _
    exact Triple.fail fun _ hs => hs

theorem deferCloseLast_spec {β : Type} {body : Running β} {P : State → Prop} {K : β → Lasting Event}
    (h : Triple P body (fun b => Stands plan (opened ++ [handle]) (K b)) fun _ => Stands plan (opened ++ [handle]) F) :
    Triple P (deferClose host handle body) (fun b => Stands plan opened (K b)) fun _ => Stands plan opened F := by
  have hdefer : Triple P (deferClose host handle body) (fun b => Stands plan (opened ++ []) (K b)) _ :=
    deferClose_spec h
  rw [List.append_nil] at hdefer
  exact hdefer

theorem openAnchor_spec :
    Triple (Stands plan opened F) (openAnchor host)
      (fun handle => Stands plan (opened ++ [handle]) (F.both (.mem (.anchored handle))))
      fun _ => Stands plan opened F := by
  apply call_spec.bind
  intro turn
  cases host.anchor turn with
  | none =>
      exact Triple.fail fun _ hs => hs
  | some id =>
      exact newHandle_spec (fun _ _ _ => trivial) (fun _ => rfl) fun _ _ _ _ _ h => nomatch h

theorem lstat_spec (hopen : dir ∈ opened) (name : Bytes) :
    Triple (Stands plan opened F) (lstat host dir name)
      (fun seen => Stands plan opened (F.both (.mem (.looked dir name seen.1 seen.2))))
      fun _ => Stands plan opened F := by
  apply call_spec.bind
  intro turn
  apply (object_spec hopen).bind
  intro id
  apply Triple.lift
  intro _
  cases host.lookup turn id name with
  | none =>
      exact Triple.fail fun _ hs => hs
  | some id =>
      refine (record_spec (fun _ _ => ?_) rfl).bind fun _ => Triple.pure fun _ hs => hs
      trivial

theorem openRoot_spec (hopen : dir ∈ opened) (name : Bytes) :
    Triple (Stands plan opened F) (openRoot host dir name)
      (fun child s => ∃ id, Stands plan (opened ++ [child]) (F.both (.mem (.entered dir name child id))) s)
      fun _ => Stands plan opened F := by
  apply call_spec.bind
  intro turn
  apply (object_spec hopen).bind
  intro id
  apply Triple.lift
  intro _
  cases host.child turn id name with
  | none =>
      exact Triple.fail fun _ hs => hs
  | some id =>
      refine (newHandle_spec (fun _ _ _ => ?_) (fun _ => rfl) ?_).conseq (fun _ hs => hs) (fun _ _ hs => ⟨id, hs⟩)
        fun _ _ hs => hs
      · trivial
      · rintro handle dir' name' child entry h
        cases h
        rfl

theorem openSelf_spec (hopen : dir ∈ opened) :
    Triple (Stands plan opened F) (openSelf host dir)
      (fun file => Stands plan (opened ++ [file]) (F.both (.mem (.reopened dir file))))
      fun _ => Stands plan opened F := by
  apply call_spec.bind
  intro turn
  apply (object_spec hopen).bind
  intro id
  apply Triple.lift
  intro _
  exact newHandle_spec (fun _ _ _ => trivial) (fun _ => rfl) fun _ _ _ _ _ h => nomatch h

theorem stat_spec (hopen : handle ∈ opened) :
    Triple (Stands plan opened F) (stat host handle)
      (fun told s => (∀ dir name entry, (∀ log, F.Holds log → Event.entered dir name handle entry ∈ log) →
        entry = told.1) ∧ Stands plan opened (F.both (.mem (.told handle told.2))) s)
      fun _ => Stands plan opened F := by
  apply call_spec.bind
  intro turn
  apply (object_spec hopen).bind
  intro id
  apply Triple.lift
  intro hentered
  refine (record_spec (fun _ _ => ?_) rfl).bind fun _ => Triple.pure fun _ hs => ⟨hentered, hs⟩
  trivial

theorem mkdir_spec (hopen : dir ∈ opened) (hpermitted : ∀ log, F.Holds log → Permitted plan log (.made dir name)) :
    Triple (Stands plan opened F) (mkdir host dir name) (fun _ => Stands plan opened (F.both (.mem (.made dir name))))
      fun _ => Stands plan opened F := by
  apply call_spec.bind
  intro turn
  apply (object_spec hopen).bind
  intro id
  apply Triple.lift
  intro _
  cases host.lookup turn id name with
  | some id =>
      exact Triple.fail fun _ hs => hs
  | none =>
      exact record_spec hpermitted rfl

theorem openExclusive_spec (hopen : dir ∈ opened)
    (hpermitted : ∀ file log, F.Holds log → Permitted plan log (.created dir name file)) :
    Triple (Stands plan opened F) (openExclusive host dir name)
      (fun file => Stands plan (opened ++ [file]) (F.both (.mem (.created dir name file))))
      fun _ => Stands plan opened F := by
  apply call_spec.bind
  intro turn
  apply (object_spec hopen).bind
  intro id
  apply Triple.lift
  intro _
  cases host.lookup turn id name with
  | some id =>
      exact Triple.fail fun _ hs => hs
  | none =>
      exact newHandle_spec hpermitted (fun _ => rfl) fun _ _ _ _ _ h => nomatch h

theorem write_spec {data : Bytes} (hopen : handle ∈ opened)
    (hpermitted : ∀ chunk log, chunk <+: data → F.Holds log → Permitted plan log (.written handle chunk)) :
    Triple (Stands plan opened F) (write host handle data)
      (fun _ => Stands plan opened (F.both (.mem (.written handle data)))) fun _ => Stands plan opened F := by
  apply Triple.observe_bind
  intro s₀ hs₀
  apply Triple.bind (Q := fun _ => Stands plan opened F)
  · exact (Triple.attempt call_spec).pre fun s hs => hs ▸ hs₀
  intro outcome
  apply (object_spec hopen).bind
  intro id
  apply Triple.lift
  intro _
  cases outcome with
  | ok turn =>
      exact record_spec (fun log hlog => hpermitted data log List.prefix_rfl hlog) rfl
  | error e =>
      apply Triple.bind (Q := fun _ => Stands plan opened F)
      · exact (record_spec (fun log hlog => hpermitted _ log (List.take_prefix _ _) hlog) rfl).conseq
          (fun _ hs => hs) (fun _ _ hs => hs.left) fun _ _ hs => hs
      intro _
      exact Triple.fail fun _ hs => hs

theorem sync_spec (hopen : handle ∈ opened) (hpermitted : ∀ log, F.Holds log → Permitted plan log (.synced handle)) :
    Triple (Stands plan opened F) (sync host handle) (fun _ => Stands plan opened (F.both (.mem (.synced handle))))
      fun _ => Stands plan opened F := by
  apply call_spec.bind
  intro turn
  apply (object_spec hopen).bind
  intro id
  apply Triple.lift
  intro _
  exact record_spec hpermitted rfl

/-! ## Directories -/

/-- No other user can do anything, so none can write. -/
theorem perm_weaken {perm : Nat} (h : perm &&& 0o077 = 0) : perm &&& 0o022 = 0 := by
  calc perm &&& 0o022
      = perm &&& (0o077 &&& 0o022) := rfl
    _ = (perm &&& 0o077) &&& 0o022 := (Nat.and_assoc ..).symm
    _ = 0 := by rw [h, Nat.zero_and]

/-- What is private is protected. -/
theorem validateAccess_weaken {euid : Int} {info : FileInfo} (h : validateAccess euid info true = .ok ()) :
    validateAccess euid info false = .ok () := by
  rw [validateAccess] at h ⊢
  cases huid : info.uid with
  | none =>
      rw [huid] at h
      cases h
  | some uid =>
      rw [huid] at h
      simp only at h ⊢
      by_cases hnegative : euid < 0
      · rw [if_pos hnegative] at h
        cases h
      rw [if_neg hnegative] at h ⊢
      rw [if_pos trivial] at h
      rw [if_neg (by decide)]
      by_cases hforeign : ¬(uid : Int) = euid ∨ info.perm &&& 0o077 ≠ 0
      · rw [if_pos hforeign] at h
        cases h
      rw [not_or, not_not, not_ne_iff] at hforeign
      rw [if_neg]
      rintro (⟨howned, -⟩ | ⟨hbits, -⟩)
      · exact howned hforeign.1
      · exact hbits (perm_weaken hforeign.2)

theorem checked_weaken {euid : Int} {log : List Event} (h : (checked euid dir true).Holds log) :
    (checked euid dir false).Holds log := by
  obtain ⟨seen, ⟨hdirectory, haccess⟩, hseen⟩ := h
  exact ⟨seen, ⟨hdirectory, validateAccess_weaken haccess⟩, hseen⟩

theorem openPinnedDirectory_spec (hopen : dir ∈ opened) (name : Bytes) :
    Triple (Stands plan opened F) (openPinnedDirectory host dir name)
      (fun child => Stands plan (opened ++ [child]) (F.both (entered dir name child)))
      fun _ => Stands plan opened F := by
  apply (lstat_spec hopen name).bind
  rintro ⟨id, info⟩
  apply Triple.ite
  · intro _
    exact Triple.fail fun _ hs => hs.left
  intro hplain
  simp only [not_or, Bool.not_eq_false, Bool.not_eq_true] at hplain
  apply ((openRoot_spec hopen name).conseq (fun _ hs => hs) (fun _ _ hs => hs) fun _ _ hs => hs.left).bind
  intro child
  apply Triple.exists_pre
  intro entry
  have hchild : child ∈ opened ++ [child] := List.mem_append_right _ (List.mem_singleton_self _)
  -- the child is the object that was looked at, or it is given up
  apply Triple.attempt_bind (stat_spec hchild)
  · rintro ⟨identity, told⟩
    apply Triple.lift
    intro hidentity
    apply Triple.ite
    · intro hsame
      have hentry : entry = id := by
        have hfound : identity = id := Option.some.inj hsame
        rw [← hfound]
        exact hidentity dir name entry fun log hlog => hlog.2
      subst hentry
      apply Triple.pure
      intro s hs
      exact hs.imp fun log hlog => ⟨hlog.1.1.1, (entry, info), hplain, hlog.1.1.2, hlog.1.2⟩
    · intro _
      exact giveUp_spec fun log hlog => hlog.1.1.1
  · intro e
    exact giveUp_spec fun log hlog => hlog.1.1

theorem validateDirectory_spec (heuid : host.geteuid = plan.euid) (hopen : dir ∈ opened) (isPrivate : Bool) :
    Triple (Stands plan opened F) (validateDirectory host dir isPrivate)
      (fun _ => Stands plan opened (F.both (checked plan.euid dir isPrivate))) fun _ => Stands plan opened F := by
  apply (openSelf_spec hopen).bind
  intro file
  have hfile : file ∈ opened ++ [file] := List.mem_append_right _ (List.mem_singleton_self _)
  apply deferCloseLast_spec
  apply Triple.attempt_bind (stat_spec hfile)
  · rintro ⟨id, info⟩
    apply Triple.lift
    intro _
    apply Triple.ite
    · intro _
      exact Triple.fail fun _ hs => hs.left.left
    · intro hdirectory
      apply Triple.finish
      · intro _ haccess s hs
        rw [heuid] at haccess
        exact hs.imp fun log hlog =>
          ⟨hlog.1.1, (file, info), ⟨Bool.eq_true_of_not_eq_false hdirectory, haccess⟩, hlog.1.2, hlog.2⟩
      · exact fun _ _ _ hs => hs.left.left
  · intro e
    exact Triple.fail fun _ hs => hs.left

/-- Where the loop stands after some names: the last of them is a private directory. -/
def reached (euid : Int) (names above : List Bytes) (dir : Nat) : Lasting Event :=
  (walked euid (names.reverse ++ above) dir).both (.every (fun _ : Unit => names ≠ []) fun _ => checked euid dir true)

theorem descend_spec (heuid : host.geteuid = plan.euid) (base : List Nat) (names above : List Bytes) (parent : Nat)
    (hF : ∀ log, G.Holds log → F.Holds log ∧ (walked plan.euid above parent).Holds log) :
    Triple (Stands plan (base ++ [parent]) G) (descend host parent names)
      (fun last => Stands plan (base ++ [last]) (F.both (reached plan.euid names above last)))
      fun _ => Stands plan base F := by
  induction names generalizing above parent G with
  | nil =>
      apply Triple.pure
      intro s hs
      exact hs.imp fun log hlog => ⟨(hF log hlog).1, (hF log hlog).2, fun _ hne => absurd rfl hne⟩
  | cons part more ih =>
      have hparent : parent ∈ base ++ [parent] := List.mem_append_right _ (List.mem_singleton_self _)
      have hpinned : Triple (Stands plan (base ++ [parent]) G) (openPinnedDirectory host parent part)
          (fun child => Stands plan (base ++ parent :: [child]) (G.both (entered parent part child)))
          fun _ => Stands plan (base ++ [parent]) F := by
        refine (openPinnedDirectory_spec hparent part).conseq (fun _ hs => hs) ?_
          fun _ _ hs => hs.imp fun log hlog => (hF log hlog).1
        intro child s hs
        rw [List.append_assoc] at hs
        exact hs
      apply (deferClose_spec hpinned).bind
      intro child
      have hchild : child ∈ base ++ [child] := List.mem_append_right _ (List.mem_singleton_self _)
      apply Triple.attempt_bind (validateDirectory_spec heuid hchild (more = []))
      · intro _
        have hwalked : ∀ log, ((G.both (entered parent part child)).both
            (checked plan.euid child (more = []))).Holds log →
            F.Holds log ∧ (walked plan.euid (part :: above) child).Holds log := by
          rintro log ⟨⟨hG, hentered⟩, hchecked⟩
          refine ⟨(hF log hG).1, parent, trivial, (hF log hG).2, hentered, ?_⟩
          by_cases hlast : more = []
          · rw [decide_eq_true hlast] at hchecked
            exact checked_weaken hchecked
          · rw [decide_eq_false hlast] at hchecked
            exact hchecked
        by_cases hlast : more = []
        · subst hlast
          apply Triple.pure
          intro s hs
          exact hs.imp fun log hlog => ⟨(hwalked log hlog).1, (hwalked log hlog).2, fun _ _ => hlog.2⟩
        · refine (ih (part :: above) child hwalked).conseq (fun _ hs => hs) ?_ fun _ _ hs => hs
          intro last s hs
          refine hs.imp fun log hlog => ⟨hlog.1, ?_, fun _ _ => hlog.2.2 () hlast⟩
          rw [List.reverse_cons, List.append_assoc, List.singleton_append]
          exact hlog.2.1
      · intro e
        exact giveUp_spec fun log hlog => (hF log hlog.1).1

theorem createBelow_spec (heuid : host.geteuid = plan.euid) {above : List Bytes} (hopen : dir ∈ opened)
    (hparts : plan.parts.reverse = name :: above) (habove : above ≠ [])
    (hF : ∀ log, F.Holds log → (guarded plan.euid above dir).Holds log) :
    Triple (Stands plan opened F) (createBelow host dir name)
      (fun directory => Stands plan (opened ++ [directory]) (F.both (vault plan.euid plan.parts directory)))
      fun _ => Stands plan opened F := by
  apply Triple.attempt_bind (mkdir_spec hopen fun log hlog => ⟨above, hparts, habove, hF log hlog⟩)
  · intro _
    have hpinned : Triple (Stands plan opened (F.both (.mem (.made dir name)))) (openPinnedDirectory host dir name) _
        fun _ => Stands plan opened F :=
      (openPinnedDirectory_spec hopen name).conseq (fun _ hs => hs) (fun _ _ hs => hs) fun _ _ hs => hs.left
    apply hpinned.bind
    intro directory
    have hdirectory : directory ∈ opened ++ [directory] := List.mem_append_right _ (List.mem_singleton_self _)
    apply Triple.attempt_bind (validateDirectory_spec heuid hdirectory true)
    · intro _
      apply Triple.pure
      intro s hs
      exact hs.imp fun log hlog => ⟨hlog.1.1.1, (name, above, dir), ⟨hparts, habove⟩, hF log hlog.1.1.1, hlog.1.1.2,
        hlog.1.2, hlog.2⟩
    · intro e
      exact giveUp_spec fun log hlog => hlog.1.1
  · intro e
    exact Triple.fail fun _ hs => hs

theorem bootstrapParts_ne_nil {outDir : Bytes} {parts : List Bytes} (h : bootstrapParts host outDir = .ok parts) :
    parts ≠ [] := by
  rw [bootstrapParts] at h
  cases habsolute : FS.HostPath.abs host.workingDirectory outDir with
  | none =>
      rw [habsolute] at h
      cases h
  | some absolute =>
      rw [habsolute] at h
      cases hrelative : FS.HostPath.rel (lit "/") absolute with
      | none =>
          simp only [hrelative] at h
          cases h
      | some relative =>
          simp only [hrelative] at h
          split_ifs at h
          rw [← Except.ok.inj h]
          exact List.splitOn_ne_nil _ _

theorem createBootstrapDirectory_spec (heuid : host.geteuid = plan.euid) {outDir : Bytes}
    (hplan : ∀ parts, bootstrapParts host outDir = .ok parts → plan.parts = parts) (base : List Nat) :
    Triple (Stands plan base F) (createBootstrapDirectory host outDir)
      (fun directory => Stands plan (base ++ [directory]) (F.both (vault plan.euid plan.parts directory)))
      fun _ => Stands plan base F := by
  apply Triple.bind (Q := fun parts s => (plan.parts = parts ∧ parts ≠ []) ∧ Stands plan base F s)
  · exact Triple.finish (fun parts hparts _ hs => ⟨⟨hplan parts hparts, bootstrapParts_ne_nil hparts⟩, hs⟩)
      fun _ _ _ hs => hs
  intro parts
  apply Triple.lift
  rintro ⟨hparts, hne⟩
  obtain ⟨front, name, rfl⟩ : ∃ front name, parts = front ++ [name] :=
    ⟨parts.dropLast, parts.getLast hne, (List.dropLast_append_getLast hne).symm⟩
  apply openAnchor_spec.bind
  intro anchor
  apply (descend_spec heuid base _ [] anchor fun log hlog => hlog).bind
  intro parent
  rw [List.dropLast_concat, List.length_append, List.length_singleton, List.getLastD_concat]
  have hparent : parent ∈ base ++ [parent] := List.mem_append_right _ (List.mem_singleton_self _)
  have hbody : Triple (Stands plan (base ++ [parent]) (F.both (reached plan.euid front [] parent)))
      (if front.length + 1 = 1 then
        Effect.fail (.message "bootstrap parent must be a private directory below the filesystem root")
      else
        createBelow host parent name)
      (fun directory => Stands plan (base ++ parent :: [directory]) (F.both (vault plan.euid plan.parts directory)))
      fun _ => Stands plan (base ++ [parent]) F := by
    apply Triple.ite
    · intro _
      exact Triple.fail fun _ hs => hs.left
    · intro hlength
      have hfront : front ≠ [] := by
        rintro rfl
        exact hlength rfl
      have hreverse : plan.parts.reverse = name :: front.reverse := by
        rw [hparts, List.reverse_append, List.reverse_singleton, List.singleton_append]
      have hguarded : ∀ log, (F.both (reached plan.euid front [] parent)).Holds log →
          (guarded plan.euid front.reverse parent).Holds log := by
        rintro log ⟨-, hwalked, hchecked⟩
        rw [List.append_nil] at hwalked
        exact ⟨hwalked, hchecked () hfront⟩
      refine (createBelow_spec heuid hparent hreverse (fun h => hfront (List.reverse_eq_nil_iff.1 h)) hguarded).conseq
        (fun _ hs => hs) ?_ fun _ _ hs => hs.left
      intro directory s hs
      rw [List.append_assoc] at hs
      exact hs.imp fun log hlog => ⟨hlog.1.1, hlog.2⟩
  exact deferClose_spec hbody

/-! ## Files -/

theorem writeCreated_spec (heuid : host.geteuid = plan.euid) (hopen : handle ∈ opened)
    (hcreated : ∀ log, F.Holds log → Event.created dir name handle ∈ log) :
    Triple (Stands plan opened F) (writeCreated host handle (plan.files name))
      (fun _ => Stands plan opened (F.both ((Lasting.mem (.written handle (plan.files name))).both
        (.mem (.synced handle)))))
      fun _ => Stands plan opened F := by
  apply Triple.attempt_bind (stat_spec hopen)
  · rintro ⟨id, info⟩
    apply Triple.lift
    intro _
    apply Triple.ite
    · intro _
      exact Triple.fail fun _ hs => hs.left
    intro hregular
    apply Triple.bind (Q := fun _ => Stands plan opened (F.both (secured plan.euid handle)))
    · apply Triple.finish
      · intro _ haccess s hs
        rw [heuid] at haccess
        exact hs.imp fun log hlog => ⟨hlog.1, info, ⟨Bool.eq_true_of_not_eq_false hregular, haccess⟩, hlog.2⟩
      · exact fun _ _ _ hs => hs.left
    intro _
    have hwritten : ∀ chunk log, chunk <+: plan.files name → (F.both (secured plan.euid handle)).Holds log →
        Permitted plan log (.written handle chunk) :=
      fun chunk log hchunk hlog => ⟨hlog.2, dir, name, hcreated log hlog.1, hchunk⟩
    have hsynced : ∀ log, ((F.both (secured plan.euid handle)).both (.mem (.written handle (plan.files name)))).Holds log →
        Permitted plan log (.synced handle) :=
      fun log hlog => ⟨dir, name, hcreated log hlog.1.1, hlog.2⟩
    apply ((write_spec hopen hwritten).conseq (fun _ hs => hs) (fun _ _ hs => hs) fun _ _ hs => hs.left).bind
    intro _
    exact (sync_spec hopen hsynced).conseq (fun _ hs => hs)
      (fun _ _ hs => hs.imp fun log hlog => ⟨hlog.1.1.1, hlog.1.2, hlog.2⟩) fun _ _ hs => hs.left.left
  · intro e
    exact Triple.fail fun _ hs => hs

theorem writePrivateFile_spec (heuid : host.geteuid = plan.euid) (hopen : dir ∈ opened)
    (hpermitted : ∀ file log, F.Holds log → Permitted plan log (.created dir name file)) :
    Triple (Stands plan opened F) (writePrivateFile host dir name (plan.files name))
      (fun _ => Stands plan opened (F.both (complete dir name (plan.files name)))) fun _ => Stands plan opened F := by
  apply (openExclusive_spec hopen hpermitted).bind
  intro file
  have hfile : file ∈ opened ++ [file] := List.mem_append_right _ (List.mem_singleton_self _)
  have hcreated : ∀ log, (F.both (.mem (.created dir name file))).Holds log → Event.created dir name file ∈ log :=
    fun log hlog => hlog.2
  apply Triple.attempt_bind (writeCreated_spec heuid hfile hcreated)
  · intro _
    have hclose : Triple (Stands plan (opened ++ [file]) ((F.both (.mem (.created dir name file))).both
        ((Lasting.mem (.written file (plan.files name))).both (.mem (.synced file))))) (close host file) _ _ :=
      close_spec opened []
    rw [List.append_nil] at hclose
    apply Triple.attempt_bind hclose
    · intro _
      apply Triple.pure
      intro s hs
      exact hs.imp fun log hlog => ⟨hlog.1.1.1, file, trivial, hlog.1.1.2, hlog.1.2.1, hlog.1.2.2, hlog.2⟩
    · intro e
      exact Triple.fail fun _ hs => hs.left.left
  · intro e
    have hclosed : Triple (Stands plan (opened ++ [file]) (F.both (.mem (.created dir name file))))
        (Effect.attempt (close host file)) (fun _ => Stands plan opened F) fun _ => Stands plan opened F :=
      attempt_closeLast_spec.conseq (fun _ hs => hs) (fun _ _ hs => hs.left) fun _ _ hs => hs.left
    apply hclosed.bind
    intro closed
    rw [Effect.finish_error_bind]
    exact Triple.fail fun _ hs => hs

theorem writeAll_spec (heuid : host.geteuid = plan.euid) (hopen : dir ∈ opened) (done names : List Bytes)
    (hpublished : published = done ++ names)
    (hF : ∀ log, F.Holds log → (vault plan.euid plan.parts dir).Holds log ∧
      ∀ name ∈ done, (complete dir name (plan.files name)).Holds log) :
    Triple (Stands plan opened F) (writeAll host dir plan.files names)
      (fun _ => Stands plan opened (F.both (.every (· ∈ published) fun name => complete dir name (plan.files name))))
      fun _ => Stands plan opened F := by
  induction names generalizing done F with
  | nil =>
      apply Triple.pure
      intro s hs
      rw [List.append_nil] at hpublished
      rw [hpublished]
      exact hs.imp fun log hlog => ⟨hlog, (hF log hlog).2⟩
  | cons name more ih =>
      apply Triple.attempt_bind (writePrivateFile_spec heuid hopen fun file log hlog =>
        ⟨(hF log hlog).1, done, more, hpublished, (hF log hlog).2⟩)
      · intro _
        refine (ih (done ++ [name]) ?_ ?_).conseq (fun _ hs => hs)
          (fun _ _ hs => hs.imp fun log hlog => ⟨hlog.1.1, hlog.2⟩) fun _ _ hs => hs.left
        · rw [hpublished, List.append_assoc, List.singleton_append]
        · rintro log ⟨hlog, hcomplete⟩
          refine ⟨(hF log hlog).1, ?_⟩
          intro earlier hearlier
          rcases List.mem_append.1 hearlier with hold | hlast
          · exact (hF log hlog).2 earlier hold
          · cases List.mem_singleton.1 hlast
            exact hcomplete
      · intro e
        exact Triple.fail fun _ hs => hs

/-! ## The command -/

theorem print_spec (hF : ∀ log, F.Holds log → Permitted plan log .printed) :
    Triple (Stands plan opened F) (print host) (fun _ => Stands plan opened (F.both (.mem .printed)))
      fun _ => Stands plan opened F := by
  apply call_spec.bind
  intro turn
  exact record_spec hF rfl

end

/-- What a run is about to write. -/
def planOf (host : Host) (libraries : Libraries) (hostName listen outDir : Bytes) : Plan where
  euid := host.geteuid
  parts := (bootstrapParts host outDir).toOption.getD []
  files := ((bootstrapEndpoint libraries hostName listen).toOption.bind (credentialFiles libraries hostName)).getD
    fun _ => []

theorem run_spec {host : Host} {libraries : Libraries} {hostName listen outDir : Bytes} {plan : Plan}
    (heuid : host.geteuid = plan.euid) (hparts : ∀ parts, bootstrapParts host outDir = .ok parts → plan.parts = parts)
    (hfiles : ∀ endpoint files, bootstrapEndpoint libraries hostName listen = .ok endpoint →
      credentialFiles libraries hostName endpoint = some files → plan.files = files) (base : List Nat)
    (F : Lasting Event) :
    Triple (Stands plan base F) (run host libraries hostName listen outDir)
      (fun _ => Stands plan base (F.both (.mem .printed))) fun _ => Stands plan base F := by
  apply Triple.bind (Q := fun endpoint s => bootstrapEndpoint libraries hostName listen = .ok endpoint ∧
    Stands plan base F s)
  · exact Triple.finish (fun _ hendpoint _ hs => ⟨hendpoint, hs⟩) fun _ _ _ hs => hs
  intro endpoint
  apply Triple.lift
  intro hendpoint
  apply Triple.ite
  · intro _
    exact Triple.fail fun _ hs => hs
  intro _
  apply (createBootstrapDirectory_spec heuid hparts base).bind
  intro directory
  have hdirectory : directory ∈ base ++ [directory] := List.mem_append_right _ (List.mem_singleton_self _)
  apply deferCloseLast_spec
  cases hgenerated : credentialFiles libraries hostName endpoint with
  | none =>
      exact Triple.fail fun _ hs => hs.left
  | some files =>
      obtain rfl := hfiles endpoint files hendpoint hgenerated
      have hall := writeAll_spec heuid hdirectory [] published rfl fun log
        (hlog : (F.both (vault plan.euid plan.parts directory)).Holds log) => ⟨hlog.2, nofun⟩
      apply (hall.conseq (fun _ hs => hs) (fun _ _ hs => hs) fun _ _ hs => hs.left).bind
      intro _
      have hprinted : ∀ log, ((F.both (vault plan.euid plan.parts directory)).both
          (.every (· ∈ published) fun name => complete directory name (plan.files name))).Holds log →
          Permitted plan log .printed :=
        fun log hlog => ⟨directory, hlog.1.2, hlog.2⟩
      exact (print_spec hprinted).conseq (fun _ hs => hs)
        (fun _ _ hs => hs.imp fun log hlog => ⟨hlog.1.1.1, hlog.2⟩) fun _ _ hs => hs.left.left

theorem planOf_files {host : Host} {libraries : Libraries} {hostName listen outDir endpoint : Bytes}
    {files : Bytes → Bytes} (hendpoint : bootstrapEndpoint libraries hostName listen = .ok endpoint)
    (hfiles : credentialFiles libraries hostName endpoint = some files) :
    (planOf host libraries hostName listen outDir).files = files := by
  rw [planOf, hendpoint]
  change (credentialFiles libraries hostName endpoint).getD _ = files
  rw [hfiles]
  rfl

theorem planOf_parts {host : Host} {libraries : Libraries} {hostName listen outDir : Bytes} {parts : List Bytes}
    (hparts : bootstrapParts host outDir = .ok parts) : (planOf host libraries hostName listen outDir).parts = parts := by
  rw [planOf, hparts]
  rfl

/-- Every event of every run was allowed by what had happened, no handle is left open, and a run that succeeds has
told so. -/
theorem run_publishes (host : Host) (libraries : Libraries) (hostName listen outDir : Bytes) (handles : List Handle)
    (calls : Nat) :
    match run host libraries hostName listen outDir ⟨handles, [], calls⟩ with
    | (outcome, s) => Lawful (Allowed (planOf host libraries hostName listen outDir)) s.log ∧
        openHandles s.handles = openHandles handles ∧ (outcome = .ok () → .printed ∈ s.log) := by
  have hstart : Stands (planOf host libraries hostName listen outDir) (openHandles handles)
      (.every (fun _ : Unit => False) fun _ => .mem .printed) ⟨handles, [], calls⟩ :=
    ⟨.nil, rfl, fun _ => False.elim, nofun, nofun⟩
  obtain ⟨hok, herror⟩ := run_spec rfl (fun _ => planOf_parts) (fun _ _ => planOf_files) _ _ _ hstart
  cases hrun : run host libraries hostName listen outDir ⟨handles, [], calls⟩ with
  | mk outcome s =>
      rw [hrun] at hok herror
      cases outcome with
      | ok _ =>
          have hs := hok () rfl
          exact ⟨hs.lawful, hs.opened_eq, fun _ => hs.holds.2⟩
      | error e =>
          have hs := herror e rfl
          exact ⟨hs.lawful, hs.opened_eq, nofun⟩

/-- A private directory `/home` in which nothing is called `new` before the ninth call. -/
def launchHost : Host where
  workingDirectory := none
  geteuid := 1000
  anchor := fun _ => some 0
  lookup := fun turn _ name => if name = lit "home" then some 1 else if name = lit "new" ∧ 8 < turn then some 2 else none
  child := fun _ _ name => if name = lit "home" then some 1 else some 2
  fresh := fun turn => 3 + turn
  tell := fun _ id => { directory := id < 3, perm := if id < 3 then 0o700 else 0o600, uid := some 1000 }
  fault := fun _ => none
  accept := fun _ _ => 0

def launchLibraries : Libraries where
  splitHostPort := fun _ => some (lit "127.0.0.1", lit "8765")
  parseIP := fun _ => some (Vector.replicate 16 0)
  isLoopback := fun _ => true
  generate := fun _ => some ⟨[1], [2], [3], [4], Vector.replicate 32 0⟩
  pem := fun _ data => data
  marshal := fun _ => some (lit "\x7b\x7d")

example : (run launchHost launchLibraries (lit "127.0.0.1") (lit "127.0.0.1:8765") (lit "/home/new") {}).1 = .ok () := by
  decide +kernel

end Credentials

end Daemon

end CanonicalPath
