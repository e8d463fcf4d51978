import CanonicalPath.FS.ArchiveNames
import CanonicalPath.FS.SharedExtraction
import CanonicalPath.Library.History

/-!
# SharedSafety — a walk to a directory is never raced out of its path

Whatever others do between the calls, a directory is returned only when each name on the way to it was seen to be a
directory, and what is made on the way is made in such a directory.

* `Pinned` : the names of a path, each seen in the directory that the ones before lead to
* `Allowed` : what a call may do, by what it has done before
* `Holding` : what is known of a state, the table of handles exactly
* `openParts_spec` : the walk, by what one step keeps
* `openScopedRoot_pinned` : the result, for every schedule of the others
-/

namespace CanonicalPath

namespace FS

open CodeUnit Segments Go

open Effect (Triple)

namespace Shared

/-! ## Paths in a log -/

/-- Each name was seen to be a directory, in the directory that the ones before lead to. -/
inductive Pinned (log : List Event) (top : Nat) : List Bytes → Nat → Prop
  | here : Pinned log top [] top
  | step {path : List Bytes} {dir id : Nat} {name : Bytes} : Pinned log top path dir →
      Event.lstat dir name ⟨id, .directory⟩ ∈ log → Pinned log top (path ++ [name]) id

theorem Pinned.mono {log log' : List Event} {top id : Nat} {path : List Bytes} (h : Pinned log top path id)
    (hsub : log ⊆ log') : Pinned log' top path id := by
  induction h with
  | here =>
      exact .here
  | step _ hseen ih =>
      exact .step ih (hsub hseen)

/-! ## Logs -/

/-- A file that was made, and what was written to it. -/
structure Output where
  dir : Nat
  name : Bytes
  id : Nat
  content : Bytes
  deriving DecidableEq, Repr

def output (outs : List Output) : Event → List Output
  | .created dir name id => outs ++ [⟨dir, name, id, []⟩]
  | .written id chunk => outs.map fun out => if out.id = id then { out with content := out.content ++ chunk } else out
  | _ => outs

/-- The files of a log, in the order in which they were made. -/
def outputs (log : List Event) : List Output :=
  log.foldl output []

theorem outputs_concat (log : List Event) (event : Event) : outputs (log ++ [event]) = output (outputs log) event := by
  rw [outputs, List.foldl_append]
  rfl

/-- The identity that an event gives to a new object. -/
def Event.new : Event → Option Nat
  | .made _ _ id => some id
  | .created _ _ id => some id
  | _ => none

/-- What a call has been asked to make: directories on the way to some, and files. -/
structure Plan where
  top : Nat
  /-- How many objects there were. -/
  count : Nat
  walks : List (List Bytes)
  files : List (List Bytes)

/-- What a call may do, by what it has done before.  It never calls on a handle that is not open. -/
inductive Allowed (plan : Plan) (front : List Event) : Event → Prop
  | lstat (dir : Nat) (name : Bytes) (info : FileInfo) : Allowed plan front (.lstat dir name info)
  | made {path walk : List Bytes} {dir id : Nat} {name : Bytes} : Pinned front plan.top path dir → walk ∈ plan.walks →
      path ++ [name] <+: walk → plan.count ≤ id → Allowed plan front (.made dir name id)
  | created {path : List Bytes} {dir id : Nat} {name : Bytes} : Pinned front plan.top path dir →
      path ++ [name] ∈ plan.files → plan.count ≤ id → Allowed plan front (.created dir name id)
  | written {dir id : Nat} {name : Bytes} (chunk : Bytes) : Event.created dir name id ∈ front →
      Allowed plan front (.written id chunk)
  | removed {dir id : Nat} {name : Bytes} : Event.created dir name id ∈ front → Allowed plan front (.removed dir name)

/-! ## States -/

/-- What is known of a state: its handles and the files it has made, and that some events are in its log. -/
structure Holding (plan : Plan) (handles : List Handle) (outs : List Output) (events : List Event) (s : State) :
    Prop where
  lawful : Lawful (Allowed plan) s.log
  count_le : plan.count ≤ s.world.objects.length
  issued : ∀ event ∈ s.log, ∀ id, event.new = some id → id < s.world.objects.length
  told : ∀ dir name info, Event.lstat dir name info ∈ s.log → s.world.objects[info.id]? = some info.kind
  behind : events ⊆ s.log
  handles_eq : s.handles = handles
  outputs_eq : outputs s.log = outs

section

variable {host : Host} {plan : Plan} {handles : List Handle} {outs : List Output} {events more : List Event}
  {event : Event} {s : State} {handle dir id : Nat} {name : Bytes}

theorem getElem?_append_of_some {α : Type} {front : List α} {a : α} (h : front[id]? = some a) (added : List α) :
    (front ++ added)[id]? = some a := by
  obtain ⟨hlt, -⟩ := List.getElem?_eq_some_iff.1 h
  rw [List.getElem?_append_left hlt, h]

theorem Holding.mono (h : Holding plan handles outs events s) (hsub : more ⊆ events) :
    Holding plan handles outs more s :=
  { h with behind := List.Subset.trans hsub h.behind }

/-- The others add objects and keep the ones there are. -/
theorem Holding.moved (h : Holding plan handles outs events s) (move : Move) (calls : Nat) :
    Holding plan handles outs events { s with world := s.world.moved move, calls := calls } := by
  have hle : s.world.objects.length ≤ (s.world.moved move).objects.length := by
    rw [World.moved, List.length_append]
    exact Nat.le_add_right _ _
  refine ⟨h.lawful, Nat.le_trans h.count_le hle, ?_, ?_, h.behind, h.handles_eq, h.outputs_eq⟩
  · intro event hevent id hid
    exact Nat.lt_of_lt_of_le (h.issued event hevent id hid) hle
  · intro dir name info hinfo
    exact getElem?_append_of_some (h.told dir name info hinfo) _

theorem Holding.record (h : Holding plan handles outs events s) (hallowed : Allowed plan s.log event)
    (hissued : ∀ id, event.new = some id → id < s.world.objects.length)
    (htold : ∀ dir name info, event = .lstat dir name info → s.world.objects[info.id]? = some info.kind) :
    Holding plan handles (output outs event) (event :: events) { s with log := s.log ++ [event] } := by
  have hmem : ∀ other, other ∈ s.log ++ [event] → other ∈ s.log ∨ other = event := by
    intro other hother
    rcases List.mem_append.1 hother with hold | hnew
    · exact .inl hold
    · exact .inr (List.mem_singleton.1 hnew)
  refine ⟨h.lawful.concat hallowed, h.count_le, ?_, ?_, ?_, h.handles_eq, ?_⟩
  · intro other hother id hid
    rcases hmem other hother with hold | rfl
    · exact h.issued other hold id hid
    · exact hissued id hid
  · intro dir name info hinfo
    rcases hmem _ hinfo with hold | hnew
    · exact h.told dir name info hold
    · exact htold dir name info hnew.symm
  · intro other hother
    rcases List.mem_cons.1 hother with rfl | hold
    · exact List.mem_append_right _ List.mem_cons_self
    · exact List.mem_append_left _ (h.behind hold)
  · change outputs (s.log ++ [event]) = output outs event
    rw [outputs_concat, h.outputs_eq]

/-- A new object gets an identity that no event has given. -/
theorem Holding.make (h : Holding plan handles outs events s) (dir : Nat) (name : Bytes) (kind : Kind) :
    Holding plan handles outs events { s with world := s.world.make dir name kind } := by
  have hlength : (s.world.make dir name kind).objects.length = s.world.objects.length + 1 := List.length_append
  have hle : s.world.objects.length ≤ (s.world.make dir name kind).objects.length := by omega
  refine ⟨h.lawful, Nat.le_trans h.count_le hle, ?_, ?_, h.behind, h.handles_eq, h.outputs_eq⟩
  · intro event hevent id hid
    exact Nat.lt_of_lt_of_le (h.issued event hevent id hid) hle
  · intro dir name info hinfo
    exact getElem?_append_of_some (h.told dir name info hinfo) _

/-! ## What a call keeps -/

/-- A computation that neither makes nor closes anything. -/
def Keeps {β : Type} (x : Sharing β) : Prop :=
  ∀ plan handles outs events, Triple (Holding plan handles outs events) x (fun _ => Holding plan handles outs events)
    fun _ => Holding plan handles outs events

theorem keeps_contextErr (ctx : Context) : Keeps (contextErr ctx) := by
  intro plan handles outs events s hs
  cases ctx with
  | background =>
      exact ⟨fun _ _ => hs, fun e he => nomatch he⟩
  | timeout =>
      cases hpatience : s.patience with
      | zero =>
          simp only [contextErr, hpatience]
          exact ⟨fun b hb => (nomatch hb), fun _ _ => hs⟩
      | succ patience =>
          simp only [contextErr, hpatience]
          exact ⟨fun _ _ => { hs with }, fun e he => nomatch he⟩

theorem keeps_call : Keeps (call host) := by
  intro plan handles outs events s hs
  rw [call]
  cases host.fault s.calls with
  | none =>
      exact ⟨fun _ _ => hs.moved _ _, fun e he => nomatch he⟩
  | some error =>
      exact ⟨fun b hb => (nomatch hb), fun _ _ => hs.moved _ _⟩

theorem keeps_finish {β : Type} (outcome : Except OpenError β) : Keeps (Effect.finish outcome : Sharing β) := by
  intro plan handles outs events
  exact Triple.finish (fun _ _ _ hs => hs) fun _ _ _ hs => hs

theorem keeps_check {β : Type} (outcome : Except Error β) : Keeps (check outcome) :=
  keeps_finish _

theorem keeps_fail {β : Type} (e : OpenError) : Keeps (Effect.fail e : Sharing β) :=
  keeps_finish (.error e)

theorem keeps_pure {β : Type} (b : β) : Keeps (pure b : Sharing β) :=
  keeps_finish (.ok b)

theorem Keeps.bind {β γ : Type} {x : Sharing β} {f : β → Sharing γ} (hx : Keeps x) (hf : ∀ b, Keeps (f b)) :
    Keeps (x >>= f) := by
  intro plan handles outs events
  exact (hx plan handles outs events).bind fun b => hf b plan handles outs events

theorem Keeps.ite {β : Type} {A : Prop} [Decidable A] {x y : Sharing β} (hx : Keeps x) (hy : Keeps y) :
    Keeps (if A then x else y) := by
  intro plan handles outs events
  exact Triple.ite (fun _ => hx plan handles outs events) fun _ => hy plan handles outs events

theorem keeps_observe {β : Type} (read : State → β) : Keeps (Effect.observe read : Sharing β) := by
  intro plan handles outs events
  exact Triple.observe fun _ hs => hs

/-! ## Calls on an open handle -/

theorem object_spec {E : OpenError → State → Prop} (hopen : handles[handle]? = some ⟨dir, false⟩) :
    Triple (Holding plan handles outs events) (object handle)
      (fun found s => found = dir ∧ Holding plan handles outs events s) E := by
  apply Triple.observe_bind
  intro s hs
  rw [hs.handles_eq, hopen]
  apply Triple.pure
  intro s' hsame
  rw [hsame]
  exact ⟨rfl, hs⟩

theorem objects_of_told {w : World} {info : FileInfo} (h : w.told id = some info) :
    w.objects[info.id]? = some info.kind := by
  obtain ⟨kind, hkind, hsame⟩ := Option.map_eq_some_iff.1 h
  cases hsame
  exact hkind

theorem objects_of_find {w : World} {info : FileInfo} (h : w.find dir name = some info) :
    w.objects[info.id]? = some info.kind := by
  obtain ⟨entry, -, htold⟩ := Option.bind_eq_some_iff.1 h
  exact objects_of_told htold

/-- What is found at a plain name, and in which directory. -/
theorem look_spec (hopen : handles[handle]? = some ⟨dir, false⟩) (hname : IsName name) :
    Triple (Holding plan handles outs events) (look host handle name)
      (fun found s => found.1 = dir ∧ (∀ info, found.2 = some info → s.world.objects[info.id]? = some info.kind) ∧
        Holding plan handles outs events s)
      fun _ => Holding plan handles outs events := by
  apply (keeps_call plan handles outs events).bind
  intro _
  apply (object_spec hopen).bind
  intro found
  apply Triple.lift
  rintro rfl
  rw [if_neg hname.ne_dot, parent, if_neg hname.slash_not_mem, Effect.pure_bind]
  apply Triple.observe_bind
  intro s hs
  apply Triple.pure
  intro s' hsame
  rw [hsame]
  exact ⟨rfl, fun info hinfo => objects_of_find hinfo, hs⟩

/-- The root of a handle itself. -/
theorem look_dot_spec (hopen : handles[handle]? = some ⟨dir, false⟩) :
    Triple (Holding plan handles outs events) (look host handle (lit "."))
      (fun found s => (∀ info, found.2 = some info → info.id = dir) ∧ Holding plan handles outs events s)
      fun _ => Holding plan handles outs events := by
  apply (keeps_call plan handles outs events).bind
  intro _
  apply (object_spec hopen).bind
  intro found
  apply Triple.lift
  rintro rfl
  rw [if_pos rfl]
  apply Triple.observe_bind
  intro s hs
  apply Triple.pure
  intro s' hsame
  rw [hsame]
  refine ⟨?_, hs⟩
  intro info hinfo
  obtain ⟨kind, -, hsame⟩ := Option.map_eq_some_iff.1 hinfo
  cases hsame
  rfl

/-- A file of a log was made in it. -/
theorem mem_of_outputs {log : List Event} {out : Output} (h : out ∈ outputs log) :
    Event.created out.dir out.name out.id ∈ log := by
  induction log using List.reverseRecOn generalizing out with
  | nil =>
      cases h
  | append_singleton log event ih =>
      rw [outputs_concat] at h
      have hold : ∀ out ∈ outputs log, Event.created out.dir out.name out.id ∈ log ++ [event] := by
        intro out hout
        exact List.mem_append_left _ (ih hout)
      cases event with
      | created dir name id =>
          rcases List.mem_append.1 h with hout | hnew
          · exact hold out hout
          · rw [List.mem_singleton.1 hnew]
            exact List.mem_append_right _ List.mem_cons_self
      | written id chunk =>
          obtain ⟨earlier, hearlier, rfl⟩ := List.mem_map.1 h
          have hmade := hold earlier hearlier
          split_ifs
          · exact hmade
          · exact hmade
      | made dir name id =>
          exact hold out h
      | lstat dir name info =>
          exact hold out h
      | removed dir name =>
          exact hold out h
      | stale handle =>
          exact hold out h

/-- A new object is none of the files made so far. -/
theorem create_spec {kind : Kind} {event : Nat → Event} {E : OpenError → State → Prop}
    (hnew : ∀ id, (event id).new = some id)
    (hallowed : ∀ front id, events ⊆ front → plan.count ≤ id → Allowed plan front (event id)) :
    Triple (Holding plan handles outs events) (create kind event dir name)
      (fun id s => (∀ out ∈ outs, out.id ≠ id) ∧ Holding plan handles (output outs (event id)) (event id :: events) s)
      E := by
  apply Triple.observe_bind
  intro s hs
  have hlength : (s.world.make dir name kind).objects.length = s.world.objects.length + 1 := List.length_append
  have hmade : Holding plan handles outs events { s with world := s.world.make dir name kind } := hs.make dir name kind
  apply Triple.bind (Q := fun _ s' => s' = { s with world := s.world.make dir name kind })
  · exact Triple.modify fun s' hsame => by rw [hsame]
  intro _
  apply Triple.bind (Q := fun _ => Holding plan handles (output outs (event s.world.objects.length))
    (event s.world.objects.length :: events))
  · apply Triple.modify
    rintro s' rfl
    apply hmade.record (hallowed s.log s.world.objects.length hs.behind hs.count_le)
    · intro id hid
      rw [hnew] at hid
      cases hid
      change s.world.objects.length < (s.world.make dir name kind).objects.length
      omega
    · intro d n info hinfo
      have hnone := hnew s.world.objects.length
      rw [hinfo] at hnone
      cases hnone
  intro _
  apply Triple.pure
  intro s' hs'
  refine ⟨?_, hs'⟩
  intro out hout hsame
  rw [← hs.outputs_eq] at hout
  have hlt := hs.issued _ (mem_of_outputs hout) out.id rfl
  omega

theorem base_name (h : IsName name) : Path.base name = name :=
  Path.base_of_slash_not_mem h.ne_nil h.slash_not_mem

theorem mkdir_spec (hopen : handles[handle]? = some ⟨dir, false⟩) (hname : IsName name)
    (hallowed : ∀ front id, events ⊆ front → plan.count ≤ id → Allowed plan front (.made dir name id)) :
    Triple (Holding plan handles outs events) (mkdir host handle name)
      (fun _ => Holding plan handles outs events) fun _ => Holding plan handles outs events := by
  apply (look_spec hopen hname).bind
  rintro ⟨place, found⟩
  apply Triple.lift
  rintro rfl
  refine Triple.pre (P := Holding plan handles outs events) ?_ fun s hs => hs.2
  cases found with
  | some info =>
      exact keeps_fail _ plan handles outs events
  | none =>
      rw [base_name hname]
      apply (create_spec (fun _ => rfl) hallowed).bind
      intro id
      apply Triple.pure
      intro s hs
      exact hs.2.mono (List.subset_cons_self _ _)

/-- What `Lstat` tells is in the log from now on. -/
theorem lstat_spec (hopen : handles[handle]? = some ⟨dir, false⟩) (hname : IsName name) :
    Triple (Holding plan handles outs events) (lstat host handle name)
      (fun info => Holding plan handles outs (.lstat dir name info :: events))
      fun _ => Holding plan handles outs events := by
  apply (look_spec hopen hname).bind
  rintro ⟨place, found⟩
  apply Triple.lift
  rintro rfl
  cases found with
  | none =>
      exact Triple.fail fun s hs => hs.2
  | some info =>
      rw [base_name hname]
      apply Triple.bind (Q := fun _ => Holding plan handles outs (.lstat place name info :: events))
      · apply Triple.modify
        rintro s ⟨htold, hs⟩
        apply hs.record (.lstat place name info)
        · intro id hid
          cases hid
        · intro dir name other hother
          cases hother
          exact htold info rfl
      intro _
      exact Triple.pure fun s hs => hs

theorem newHandle_spec {E : OpenError → State → Prop} :
    Triple (Holding plan handles outs events) (newHandle id)
      (fun handle s => handle = handles.length ∧ Holding plan (handles ++ [⟨id, false⟩]) outs events s) E := by
  apply Triple.observe_bind
  intro s hs
  apply Triple.bind (Q := fun _ => Holding plan (handles ++ [⟨id, false⟩]) outs events)
  · apply Triple.modify
    rintro s' rfl
    refine { hs with handles_eq := ?_ }
    change s'.handles ++ [⟨id, false⟩] = handles ++ [⟨id, false⟩]
    rw [hs.handles_eq]
  intro _
  apply Triple.pure
  intro s' hs'
  rw [hs.handles_eq]
  exact ⟨rfl, hs'⟩

theorem getElem?_length_append (front : List Handle) (opened : Handle) (back : List Handle) :
    (front ++ opened :: back)[front.length]? = some opened := by
  rw [List.getElem?_append_right (Nat.le_refl _), Nat.sub_self]
  rfl

theorem modify_length_append (f : Handle → Handle) (front : List Handle) (opened : Handle) (back : List Handle) :
    (front ++ opened :: back).modify front.length f = front ++ f opened :: back := by
  induction front with
  | nil =>
      rfl
  | cons first front ih =>
      exact congrArg (first :: ·) ih

/-- A handle is closed whether or not an error is told. -/
theorem close_spec {front back : List Handle} :
    Triple (Holding plan (front ++ ⟨id, false⟩ :: back) outs events) (close host front.length)
      (fun _ => Holding plan (front ++ ⟨id, true⟩ :: back) outs events)
      fun _ => Holding plan (front ++ ⟨id, true⟩ :: back) outs events := by
  apply Triple.bind (Q := fun _ => Holding plan (front ++ ⟨id, false⟩ :: back) outs events)
  · exact Triple.attempt (keeps_call plan _ outs events)
  intro outcome
  apply (object_spec (getElem?_length_append front ⟨id, false⟩ back)).bind
  intro _
  apply Triple.bind (Q := fun _ => Holding plan (front ++ ⟨id, true⟩ :: back) outs events)
  · apply Triple.modify
    rintro s ⟨-, hs⟩
    refine { hs with handles_eq := ?_ }
    change s.handles.modify front.length (fun opened => { opened with closed := true }) = front ++ ⟨id, true⟩ :: back
    rw [hs.handles_eq, modify_length_append]
  intro _
  exact keeps_finish outcome plan _ outs events

/-! ## Looks that change nothing -/

theorem keeps_parent (dir : Nat) (name : Bytes) : Keeps (parent host dir name) :=
  Keeps.ite (keeps_observe _) (keeps_pure dir)

/-- What is found is an object with its kind. -/
theorem told_spec {read : State → Option FileInfo} {place : Nat}
    (hread : ∀ s info, read s = some info → s.world.objects[info.id]? = some info.kind) {E : OpenError → State → Prop} :
    Triple (Holding plan handles outs events)
      (Effect.observe read >>= fun found => (pure (place, found) : Sharing (Nat × Option FileInfo)))
      (fun found s => (∀ info, found.2 = some info → s.world.objects[info.id]? = some info.kind) ∧
        Holding plan handles outs events s) E := by
  apply Triple.observe_bind
  intro s hs
  apply Triple.pure
  rintro s' rfl
  exact ⟨fun info hinfo => hread s' info hinfo, hs⟩

theorem look_told (hopen : handles[handle]? = some ⟨dir, false⟩) (name : Bytes) :
    Triple (Holding plan handles outs events) (look host handle name)
      (fun found s => (∀ info, found.2 = some info → s.world.objects[info.id]? = some info.kind) ∧
        Holding plan handles outs events s)
      fun _ => Holding plan handles outs events := by
  apply (keeps_call plan handles outs events).bind
  intro _
  apply (object_spec hopen).bind
  intro found
  apply Triple.lift
  rintro rfl
  apply Triple.ite
  · exact fun _ => told_spec fun s info => objects_of_told
  · intro _
    apply (keeps_parent found name plan handles outs events).bind
    intro place
    exact told_spec fun s info => objects_of_find

theorem look_keeps (hopen : handles[handle]? = some ⟨dir, false⟩) (name : Bytes) :
    Triple (Holding plan handles outs events) (look host handle name)
      (fun _ => Holding plan handles outs events) fun _ => Holding plan handles outs events :=
  (look_told hopen name).conseq (fun _ hs => hs) (fun _ _ hs => hs.2) fun _ _ hs => hs

theorem lstat_keeps (hopen : handles[handle]? = some ⟨dir, false⟩) (name : Bytes) :
    Triple (Holding plan handles outs events) (lstat host handle name)
      (fun _ => Holding plan handles outs events) fun _ => Holding plan handles outs events := by
  apply (look_told hopen name).bind
  rintro ⟨place, found⟩
  cases found with
  | none =>
      exact Triple.fail fun s hs => hs.2
  | some info =>
      apply Triple.bind (Q := fun _ => Holding plan handles outs events)
      · apply Triple.modify
        rintro s ⟨htold, hs⟩
        have hnext := hs.record (.lstat place (Path.base name) info) nofun (by
          intro dir name other hother
          cases hother
          exact htold info rfl)
        exact hnext.mono (List.subset_cons_self _ _)
      intro _
      exact Triple.pure fun s hs => hs

theorem stat_keeps (hopen : handles[handle]? = some ⟨dir, false⟩) (name : Bytes) :
    Triple (Holding plan handles outs events) (stat host handle name)
      (fun _ => Holding plan handles outs events) fun _ => Holding plan handles outs events := by
  apply (look_keeps hopen name).bind
  rintro ⟨place, found⟩
  cases found with
  | none =>
      exact keeps_fail _ plan handles outs events
  | some info =>
      apply Triple.ite
      · intro _
        apply (keeps_observe _ plan handles outs events).bind
        intro target
        cases target with
        | none =>
            exact keeps_fail _ plan handles outs events
        | some info =>
            exact keeps_pure _ plan handles outs events
      · intro _
        exact keeps_pure _ plan handles outs events

/-- The object of a handle itself. -/
theorem stat_dot_spec (hopen : handles[handle]? = some ⟨dir, false⟩) :
    Triple (Holding plan handles outs events) (stat host handle (lit "."))
      (fun info s => info.id = dir ∧ Holding plan handles outs events s) fun _ => Holding plan handles outs events := by
  apply (look_dot_spec hopen).bind
  rintro ⟨place, found⟩
  apply Triple.lift
  intro hself
  cases found with
  | none =>
      exact Triple.fail fun s hs => hs
  | some info =>
      have hstay : ¬(info.kind = .link ∧ lit "." ≠ (lit "." : Bytes)) := fun h => h.2 rfl
      change Triple _ (if info.kind = .link ∧ lit "." ≠ (lit "." : Bytes) then _ else pure info) _ _
      rw [if_neg hstay]
      exact Triple.pure fun s hs => ⟨hself info rfl, hs⟩

theorem openRoot_of_stat {Q : Nat → Prop}
    (h : Triple (Holding plan handles outs events) (stat host handle name)
      (fun info s => Q info.id ∧ Holding plan handles outs events s) fun _ => Holding plan handles outs events) :
    Triple (Holding plan handles outs events) (openRoot host handle name)
      (fun child s => child = handles.length ∧ ∃ d, Q d ∧ Holding plan (handles ++ [⟨d, false⟩]) outs events s)
      fun _ => Holding plan handles outs events := by
  apply h.bind
  intro info
  apply Triple.lift
  intro hinfo
  apply Triple.ite
  · intro _
    exact newHandle_spec.conseq (fun _ hs => hs) (fun _ _ hs => ⟨hs.1, info.id, hinfo, hs.2⟩) fun _ _ hs => hs
  · intro _
    exact Triple.fail fun s hs => hs

/-! ## Roots -/

/-- A name that is accepted is its own clean form. -/
theorem cleanRelative_name {clean : Bytes} (h : IsName name) (hclean : cleanRelative name = .ok clean) :
    clean = name := by
  obtain ⟨-, parts, hresolve, hspell⟩ := cleanRelative_eq_ok_iff.1 hclean
  have hnames : ∀ part ∈ [name], IsName part := by
    intro part hpart
    rw [List.mem_singleton.1 hpart]
    exact h
  have hjoin : joinOn (chr '/') [name] = name := by
    simp [joinOn]
  have hparts : resolve false (joinOn (chr '/') [name]) = some [name] := resolve_joinOn hnames
  rw [hjoin, hresolve] at hparts
  cases hparts
  rw [← hspell, spell, if_neg (List.cons_ne_nil _ _), hjoin]

theorem check_spec {β : Type} {outcome : Except Error β} {P : State → Prop} :
    Triple P (check outcome) (fun b s => outcome = .ok b ∧ P s) fun _ => P := by
  apply Triple.finish
  · intro b hb s hs
    cases houtcome : outcome with
    | error e =>
        rw [houtcome] at hb
        cases hb
    | ok b' =>
        rw [houtcome] at hb
        cases hb
        exact ⟨rfl, hs⟩
  · exact fun _ _ _ hs => hs

theorem requireSupportedPlatform_eq (hsupported : host.rootConfinementSupported = true) :
    requireSupportedPlatform host = pure () :=
  if_pos hsupported

namespace Root

/-- The root of a new handle. -/
def ofHandle (handle : Nat) : Root where
  root := some handle

variable {r : Root}

theorem rootHandle_eq (hsupported : host.rootConfinementSupported = true) (hroot : r.root = some handle) :
    r.rootHandle host = pure handle := by
  rw [rootHandle, requireSupportedPlatform_eq hsupported, Effect.pure_bind, hroot]

theorem close_eq (hsupported : host.rootConfinementSupported = true) :
    (ofHandle handle).close host = Shared.close host handle := by
  rw [close, requireSupportedPlatform_eq hsupported, Effect.pure_bind]
  rfl

theorem close_spec (hsupported : host.rootConfinementSupported = true) {front back : List Handle} :
    Triple (Holding plan (front ++ ⟨id, false⟩ :: back) outs events) ((ofHandle front.length).close host)
      (fun _ => Holding plan (front ++ ⟨id, true⟩ :: back) outs events)
      fun _ => Holding plan (front ++ ⟨id, true⟩ :: back) outs events := by
  rw [close_eq hsupported]
  exact Shared.close_spec

/-- The root of a plain name below an open one. -/
theorem openRoot_spec (hsupported : host.rootConfinementSupported = true) (hroot : r.root = some handle)
    (hopen : handles[handle]? = some ⟨dir, false⟩) (rel : Bytes) :
    Triple (Holding plan handles outs events) (r.openRoot host rel)
      (fun child s => child = ofHandle handles.length ∧
        ∃ d, (rel = lit "." → d = dir) ∧ Holding plan (handles ++ [⟨d, false⟩]) outs events s)
      fun _ => Holding plan handles outs events := by
  rw [openRoot, requireSupportedPlatform_eq hsupported, Effect.pure_bind]
  apply check_spec.bind
  intro clean
  apply Triple.lift
  intro hclean
  rw [rootHandle_eq hsupported hroot, Effect.pure_bind]
  have hstat : Triple (Holding plan handles outs events) (Shared.stat host handle clean)
      (fun info s => (rel = lit "." → info.id = dir) ∧ Holding plan handles outs events s)
      fun _ => Holding plan handles outs events := by
    by_cases hdot : rel = lit "."
    · have hsame : cleanRelative (lit ".") = .ok (lit ".") := rfl
      rw [hdot, hsame] at hclean
      cases hclean
      exact (stat_dot_spec hopen).conseq (fun _ hs => hs) (fun _ _ hs => ⟨fun _ => hs.1, hs.2⟩) fun _ _ hs => hs
    · exact (stat_keeps hopen clean).conseq (fun _ hs => hs) (fun _ _ hs => ⟨fun h => absurd h hdot, hs⟩)
        fun _ _ hs => hs
  apply (openRoot_of_stat (Q := fun d => rel = lit "." → d = dir) hstat).bind
  intro child
  apply Triple.pure
  rintro s ⟨rfl, hs⟩
  exact ⟨rfl, hs⟩

/-- The object of a root itself. -/
theorem stat_dot_spec (hsupported : host.rootConfinementSupported = true)
    (hopen : handles[handle]? = some ⟨dir, false⟩) :
    Triple (Holding plan handles outs events) ((ofHandle handle).stat host (lit "."))
      (fun info s => info.id = dir ∧ Holding plan handles outs events s) fun _ => Holding plan handles outs events := by
  have hsame : cleanRelative (lit ".") = .ok (lit ".") := rfl
  rw [stat, requireSupportedPlatform_eq hsupported, Effect.pure_bind, hsame]
  change Triple _ ((ofHandle handle).rootHandle host >>= fun root => Shared.stat host root (lit ".")) _ _
  rw [rootHandle_eq hsupported rfl, Effect.pure_bind]
  exact Shared.stat_dot_spec hopen

end Root

/-! ## The walk -/

/-- Handles that have been closed. -/
def Spent (more : List Handle) : Prop :=
  ∀ opened ∈ more, opened.closed = true

/-- Every handle that was opened is closed. -/
def Released (plan : Plan) (base : List Handle) (outs : List Output) (events : List Event) (s : State) : Prop :=
  ∃ more, Spent more ∧ Holding plan (base ++ more) outs events s

/-- One handle is open, on a directory that a path is pinned to. -/
def Anchored (plan : Plan) (base : List Handle) (outs : List Output) (events : List Event) (path : List Bytes)
    (child : Root) (s : State) : Prop :=
  ∃ more events' d, Spent more ∧ events ⊆ events' ∧ Pinned events' plan.top path d ∧
    child = Root.ofHandle (base ++ more).length ∧ Holding plan (base ++ more ++ [⟨d, false⟩]) outs events' s

theorem Spent.concat {more : List Handle} (h : Spent more) (id : Nat) : Spent (more ++ [⟨id, true⟩]) := by
  intro opened hopened
  rcases List.mem_append.1 hopened with hold | hnew
  · exact h opened hold
  · rw [List.mem_singleton.1 hnew]

section Walk

variable {base : List Handle} {d : Nat} {path : List Bytes} {part : Bytes} {code : ErrorCode} {ctx : Context}

theorem released {more : List Handle} {events' : List Event} (hmore : Spent more) (hsub : events ⊆ events')
    (h : Holding plan (base ++ more ++ [⟨d, true⟩]) outs events' s) : Released plan base outs events s := by
  rw [List.append_assoc] at h
  exact ⟨more ++ [⟨d, true⟩], hmore.concat d, h.mono hsub⟩

/-- A root is closed behind a failure. -/
theorem orClose_spec (hsupported : host.rootConfinementSupported = true) {β : Type} {x : Sharing β}
    {P : State → Prop} {Q : β → State → Prop} {more : List Handle} {events' : List Event} (hmore : Spent more)
    (hsub : events ⊆ events') (h : Triple P x Q fun _ => Holding plan (base ++ more ++ [⟨d, false⟩]) outs events') :
    Triple P (orClose host (Root.ofHandle (base ++ more).length) x) Q fun _ => Released plan base outs events := by
  apply Triple.attempt_bind h
  · intro b
    exact Triple.pure fun _ hs => hs
  · intro e
    apply Triple.bind (Q := fun _ => Holding plan (base ++ more ++ [⟨d, true⟩]) outs events')
    · exact Triple.attempt (Root.close_spec hsupported)
    intro _
    exact Triple.fail fun _ hs => released hmore hsub hs

theorem makePart_spec {create : Bool} (hopen : handles[handle]? = some ⟨dir, false⟩) (hname : IsName name)
    (hallowed : create = true → ∀ front id, events ⊆ front → plan.count ≤ id → Allowed plan front (.made dir name id)) :
    Triple (Holding plan handles outs events) (makePart host create handle name)
      (fun _ => Holding plan handles outs events) fun _ => Holding plan handles outs events := by
  apply Triple.ite
  · intro hcreate
    apply Triple.bind (Q := fun _ => Holding plan handles outs events)
    · exact Triple.attempt (mkdir_spec hopen hname (hallowed hcreate))
    intro made
    exact Keeps.ite (keeps_pure _) (keeps_finish _) plan handles outs events
  · intro _
    exact keeps_pure _ plan handles outs events

theorem lstatDirectory_spec (hopen : handles[handle]? = some ⟨dir, false⟩) (hname : IsName name) :
    Triple (Holding plan handles outs events) (lstatDirectory host code handle name)
      (fun info s => Holding plan handles outs (.lstat dir name ⟨info.id, .directory⟩ :: events) s)
      fun _ => Holding plan handles outs events := by
  apply Triple.attempt_bind (lstat_spec hopen hname)
  · rintro ⟨id, kind⟩
    have hrefused : Triple (Holding plan handles outs (.lstat dir name ⟨id, kind⟩ :: events))
        (check (newError code "directory anchor contains a link or non-directory") : Sharing FileInfo)
        (fun info s => Holding plan handles outs (.lstat dir name ⟨info.id, .directory⟩ :: events) s)
        fun _ => Holding plan handles outs events := by
      apply Triple.finish
      · intro b hb
        cases hb
      · exact fun _ _ _ hs => hs.mono (List.subset_cons_self _ _)
    cases kind with
    | directory =>
        exact Triple.pure fun _ hs => hs
    | regular =>
        exact hrefused
    | link =>
        exact hrefused
    | special =>
        exact hrefused
  · intro e
    apply Triple.finish
    · intro b hb
      cases hb
    · exact fun _ _ _ hs => hs

theorem statSame_spec (hsupported : host.rootConfinementSupported = true)
    (hopen : handles[handle]? = some ⟨dir, false⟩) (info : FileInfo) :
    Triple (Holding plan handles outs events) (statSame host code info (Root.ofHandle handle))
      (fun _ s => info.id = dir ∧ Holding plan handles outs events s) fun _ => Holding plan handles outs events := by
  have hrefused : Triple (Holding plan handles outs events)
      (check (newError code "directory anchor changed during opening") : Sharing Unit)
      (fun _ s => info.id = dir ∧ Holding plan handles outs events s) fun _ => Holding plan handles outs events := by
    apply Triple.finish
    · intro b hb
      cases hb
    · exact fun _ _ _ hs => hs
  apply Triple.attempt_bind (Root.stat_dot_spec hsupported hopen)
  · intro opened
    apply Triple.lift
    intro hopened
    apply Triple.ite
    · intro hsame
      rw [hopened] at hsame
      exact Triple.pure fun _ hs => ⟨hsame, hs⟩
    · intro _
      exact hrefused
  · intro e
    exact hrefused

/-- A directory is closed behind the opening of later handles. -/
theorem closeAbove_spec (hsupported : host.rootConfinementSupported = true) {more back : List Handle}
    {E : OpenError → State → Prop} :
    Triple (Holding plan (base ++ more ++ [⟨d, false⟩] ++ back) outs events)
      (Effect.attempt ((Root.ofHandle (base ++ more).length).close host))
      (fun _ => Holding plan (base ++ (more ++ [⟨d, true⟩]) ++ back) outs events) E := by
  have hbefore : base ++ more ++ [⟨d, false⟩] ++ back = (base ++ more) ++ ⟨d, false⟩ :: back :=
    List.append_assoc _ _ _
  have hafter : base ++ (more ++ [⟨d, true⟩]) ++ back = (base ++ more) ++ ⟨d, true⟩ :: back := by
    rw [← List.append_assoc base, List.append_assoc (base ++ more)]
    rfl
  rw [hbefore, hafter]
  exact Triple.attempt (Root.close_spec hsupported)

/-- What is known of a root that was returned. -/
theorem anchored_pre {β : Type} {x : Sharing β} {Q : β → State → Prop} {E : OpenError → State → Prop} {child : Root}
    (h : ∀ more events' d, Spent more → events ⊆ events' → Pinned events' plan.top path d →
      child = Root.ofHandle (base ++ more).length →
        Triple (Holding plan (base ++ more ++ [⟨d, false⟩]) outs events') x Q E) :
    Triple (Anchored plan base outs events path child) x Q E := by
  rintro s ⟨more, events', d, hmore, hsub, hpinned, hchild, hs⟩
  exact h more events' d hmore hsub hpinned hchild s hs

/-- One step of the walk, and so all of it: the handle of a directory is given up for the one of the next. -/
theorem openParts_spec (hsupported : host.rootConfinementSupported = true) {create : Bool} {parts walk : List Bytes}
    {more : List Handle} (hnames : ∀ part ∈ parts, IsName part)
    (hwalk : create = true → walk ∈ plan.walks ∧ path ++ parts <+: walk) (hmore : Spent more)
    (hpinned : Pinned events plan.top path d) :
    Triple (Holding plan (base ++ more ++ [⟨d, false⟩]) outs events)
      (openParts host ctx create code (Root.ofHandle (base ++ more).length) parts)
      (Anchored plan base outs events (path ++ parts)) fun _ => Released plan base outs events := by
  induction parts generalizing path more d events with
  | nil =>
      apply Triple.pure
      intro s hs
      rw [List.append_nil]
      exact ⟨more, events, d, hmore, List.Subset.refl _, hpinned, rfl, hs⟩
  | cons part parts ih =>
      have hname : IsName part := hnames part List.mem_cons_self
      have hopen : (base ++ more ++ [⟨d, false⟩])[(base ++ more).length]? = some (⟨d, false⟩ : Handle) :=
        getElem?_length_append _ _ _
      have hmade : create = true → ∀ front id, events ⊆ front → plan.count ≤ id →
          Allowed plan front (.made d part id) := by
        intro hcreate front id hsub hcount
        obtain ⟨hmem, hprefix⟩ := hwalk hcreate
        have hbelow : path ++ [part] <+: walk := by
          rw [List.append_cons] at hprefix
          exact (List.prefix_append _ _).trans hprefix
        exact .made (hpinned.mono hsub) hmem hbelow hcount
      rw [openParts]
      apply (orClose_spec hsupported hmore (List.Subset.refl _) (keeps_contextErr ctx plan _ outs events)).bind
      intro _
      rw [Root.rootHandle_eq hsupported rfl, Effect.pure_bind]
      apply (orClose_spec hsupported hmore (List.Subset.refl _) (makePart_spec hopen hname hmade)).bind
      intro _
      apply (orClose_spec hsupported hmore (List.Subset.refl _) (keeps_contextErr ctx plan _ outs events)).bind
      intro _
      apply (orClose_spec hsupported hmore (List.Subset.refl _) (lstatDirectory_spec hopen hname)).bind
      intro info
      have hseen : events ⊆ .lstat d part ⟨info.id, .directory⟩ :: events := List.subset_cons_self _ _
      apply (orClose_spec hsupported hmore hseen (keeps_contextErr ctx plan _ outs _)).bind
      intro _
      apply Triple.attempt_bind (Root.openRoot_spec hsupported rfl hopen part)
      · -- the child is open, so the directory above it is closed
        intro child
        apply Triple.lift
        rintro rfl
        apply Triple.exists_pre
        intro d'
        apply Triple.lift
        intro _
        apply (closeAbove_spec hsupported).bind
        intro _
        have hlength : (base ++ more ++ [(⟨d, false⟩ : Handle)]).length =
            (base ++ (more ++ [(⟨d, true⟩ : Handle)])).length := by
          simp
        have hspent := hmore.concat d
        have hchild := getElem?_length_append (base ++ (more ++ [⟨d, true⟩])) ⟨d', false⟩ []
        rw [hlength, Effect.finish_ok_bind]
        apply (orClose_spec hsupported hspent hseen (keeps_contextErr ctx plan _ outs _)).bind
        intro _
        apply (orClose_spec hsupported hspent hseen (statSame_spec hsupported hchild info)).bind
        intro _
        apply Triple.lift
        intro hsame
        -- the child is the object that was seen, so the path is pinned to it
        have hstep : Pinned (.lstat d part ⟨info.id, .directory⟩ :: events) plan.top (path ++ [part]) d' := by
          rw [← hsame]
          exact .step (hpinned.mono hseen) List.mem_cons_self
        rw [List.append_cons path]
        apply (ih (fun part hpart => hnames part (List.mem_cons_of_mem _ hpart)) _ hspent hstep).conseq
        · exact fun _ hs => hs
        · rintro child s ⟨more', events', d'', hmore', hsub, hpinned', rfl, hs⟩
          exact ⟨more', events', d'', hmore', List.Subset.trans hseen hsub, hpinned', rfl, hs⟩
        · rintro e s ⟨more', hmore', hs⟩
          exact ⟨more', hmore', hs.mono hseen⟩
        · rw [← List.append_cons path]
          exact hwalk
      · -- nothing was opened
        intro e
        apply Triple.bind (Q := fun _ => Holding plan (base ++ more ++ [⟨d, true⟩]) outs
          (.lstat d part ⟨info.id, .directory⟩ :: events))
        · exact Triple.attempt (Root.close_spec hsupported)
        intro _
        rw [Effect.finish_error_bind]
        exact Triple.fail fun _ hs => released hmore hseen hs

theorem Holding.released (h : Holding plan base outs events s) : Released plan base outs events s :=
  ⟨[], fun _ hopened => (nomatch hopened), by rwa [List.append_nil]⟩

/-- The walk from a root, to the directory itself or to one below it. -/
theorem openPinnedDirectoryContext_spec {create : Bool} {parts walk : List Bytes} {r : Root}
    (hroot : r.root = some handle) (hopen : base[handle]? = some ⟨d, false⟩) (hnames : ∀ part ∈ parts, IsName part)
    (hwalk : create = true → walk ∈ plan.walks ∧ path ++ parts <+: walk) (hpinned : Pinned events plan.top path d) :
    Triple (Holding plan base outs events) (openPinnedDirectoryContext host ctx r (spell parts) create code)
      (fun child s => host.rootConfinementSupported = true ∧ Anchored plan base outs events (path ++ parts) child s)
      fun _ => Released plan base outs events := by
  have hreleased : ∀ s, Holding plan base outs events s → Released plan base outs events s := fun _ hs => hs.released
  by_cases hsupported : host.rootConfinementSupported = true
  · rw [openPinnedDirectoryContext, requireSupportedPlatform_eq hsupported, Effect.pure_bind]
    apply ((keeps_contextErr ctx plan base outs events).conseq (fun _ hs => hs) (fun _ _ hs => hs)
      fun _ => hreleased).bind
    intro _
    apply ((Root.openRoot_spec hsupported hroot hopen (lit ".")).conseq (fun _ hs => hs) (fun _ _ hs => hs)
      fun _ => hreleased).bind
    intro current
    apply Triple.lift
    intro hcurrent
    apply Triple.exists_pre
    intro d'
    apply Triple.lift
    intro hself
    rw [hself rfl]
    -- the walk begins at a second handle of the same directory
    have hnil : base ++ [] = base := List.append_nil base
    have hspent : Spent [] := fun _ hopened => nomatch hopened
    have hstart : Triple (Holding plan (base ++ [⟨d, false⟩]) outs events)
        (orClose host current (contextErr ctx)) (fun _ => Holding plan (base ++ [⟨d, false⟩]) outs events)
        fun _ => Released plan base outs events := by
      have h := orClose_spec hsupported hspent (List.Subset.refl events)
        (keeps_contextErr ctx plan (base ++ [] ++ [⟨d, false⟩]) outs events)
      rw [hnil] at h
      rw [hcurrent]
      exact h
    apply Triple.ite
    · intro hdot
      have hempty : parts = [] := (spell_eq_dot_iff hnames).1 hdot
      apply hstart.bind
      intro _
      apply Triple.pure
      intro s hs
      rw [hempty, List.append_nil]
      exact ⟨hsupported, [], events, d, hspent, List.Subset.refl _, hpinned, by rw [hnil, hcurrent],
        by rw [hnil]; exact hs⟩
    · intro hdot
      have hne : parts ≠ [] := fun hempty => hdot ((spell_eq_dot_iff hnames).2 hempty)
      have hsplit : (spell parts).splitOn (chr '/') = parts := by
        rw [spell, if_neg hne]
        exact splitOn_joinOn (fun part hpart => (hnames part hpart).slash_not_mem) hne
      have h : Triple (Holding plan (base ++ [] ++ [⟨d, false⟩]) outs events)
          (openParts host ctx create code (Root.ofHandle (base ++ []).length) parts) _ _ :=
        openParts_spec hsupported hnames hwalk hspent hpinned
      rw [hnil, ← hcurrent] at h
      rw [hsplit]
      apply h.bind
      intro child
      apply anchored_pre
      rintro more events' d'' hmore hsub hpinned' rfl
      apply (orClose_spec hsupported hmore hsub (keeps_contextErr ctx plan _ outs events')).bind
      intro _
      exact Triple.pure fun s hs => ⟨hsupported, more, events', d'', hmore, hsub, hpinned', rfl, hs⟩
  · have hrefused : openPinnedDirectoryContext host ctx r (spell parts) create code =
        Effect.fail .unsupportedOperation := by
      rw [openPinnedDirectoryContext, requireSupportedPlatform, if_neg hsupported]
      rfl
    rw [hrefused]
    exact Triple.fail fun _ => hreleased _

end Walk

end

/-! ## Scoped roots -/

section

variable {host : Host} {r : Root} {handle top : Nat} {handles : List Handle} {w : World}

/-- The names of a cleaned path. -/
def partsOf (clean : Bytes) : List Bytes :=
  if clean = lit "." then [] else clean.splitOn (chr '/')

theorem partsOf_spell {parts : List Bytes} (hnames : ∀ part ∈ parts, IsName part) : partsOf (spell parts) = parts := by
  rw [partsOf]
  split_ifs with hdot
  · exact ((spell_eq_dot_iff hnames).1 hdot).symm
  · have hne : parts ≠ [] := fun hempty => hdot ((spell_eq_dot_iff hnames).2 hempty)
    rw [spell, if_neg hne]
    exact splitOn_joinOn (fun part hpart => (hnames part hpart).slash_not_mem) hne

/-- What `openScopedRoot` is asked to make: missing directories on the way, where it may create. -/
def scopePlan (top count : Nat) (create : Bool) (rel : Bytes) : Plan where
  top := top
  count := count
  walks := if create = true then ((cleanRelative rel).toOption.map partsOf).toList else []
  files := []

theorem holding_init (plan : Plan) (hcount : plan.count = w.objects.length) (patience : Nat) :
    Holding plan handles [] [] { world := w, handles := handles, patience := patience } where
  lawful := .nil
  count_le := Nat.le_of_eq hcount
  issued := fun _ hevent => nomatch hevent
  told := fun _ _ _ hevent => nomatch hevent
  behind := List.nil_subset _
  handles_eq := rfl
  outputs_eq := rfl

theorem Pinned.directory {log : List Event} {id : Nat} {path : List Bytes} (h : Pinned log top path id)
    (hne : path ≠ [])
    (htold : ∀ dir name info, Event.lstat dir name info ∈ log → w.objects[info.id]? = some info.kind) :
    w.objects[id]? = some .directory := by
  cases h with
  | here =>
      exact absurd rfl hne
  | step _ hseen =>
      exact htold _ _ _ hseen

theorem openScopedRoot_spec (hroot : r.root = some handle) (hopen : handles[handle]? = some ⟨top, false⟩)
    (create : Bool) (rel : Bytes) (count : Nat) :
    Triple (Holding (scopePlan top count create rel) handles [] []) (openScopedRoot host r rel create)
      (fun child s => ∃ parts, cleanRelative rel = .ok (spell parts) ∧ parts ≠ [] ∧ child.rejectFileLinks = true ∧
        Anchored (scopePlan top count create rel) handles [] [] parts { child with rejectFileLinks := false } s)
      fun _ => Released (scopePlan top count create rel) handles [] [] := by
  generalize hplan : scopePlan top count create rel = plan
  have hreleased : ∀ s, Holding plan handles [] [] s → Released plan handles [] [] s := fun _ hs => hs.released
  have hplatform : Keeps (requireSupportedPlatform host) := Keeps.ite (keeps_pure _) (keeps_fail _)
  apply ((hplatform plan handles [] []).conseq (fun _ hs => hs) (fun _ _ hs => hs) fun _ => hreleased).bind
  intro _
  apply (check_spec.conseq (fun _ hs => hs) (fun _ _ hs => hs) fun _ => hreleased).bind
  intro clean
  apply Triple.lift
  intro hclean
  apply Triple.ite
  · intro _
    apply Triple.finish
    · intro b hb
      cases hb
    · exact fun _ _ => hreleased
  · intro hdot
    obtain ⟨-, parts, hresolve, hspell⟩ := cleanRelative_eq_ok_iff.1 hclean
    have hnames := isName_of_resolve hresolve
    have hne : parts ≠ [] := by
      rintro rfl
      exact hdot hspell.symm
    rw [← hspell] at hclean ⊢
    have hwalk : create = true → parts ∈ plan.walks ∧ [] ++ parts <+: parts := by
      intro hcreate
      refine ⟨?_, List.prefix_refl _⟩
      rw [← hplan, scopePlan, if_pos hcreate, hclean]
      change parts ∈ [partsOf (spell parts)]
      rw [partsOf_spell hnames]
      exact List.mem_singleton_self parts
    have htop : Pinned [] plan.top [] top := by
      rw [← hplan]
      exact .here
    apply (openPinnedDirectoryContext_spec hroot hopen hnames hwalk htop).bind
    rintro child
    apply Triple.pure
    rintro s ⟨-, more, events, d, hmore, hsub, hpinned, rfl, hs⟩
    exact ⟨parts, hclean, hne, rfl, more, events, d, hmore, hsub, hpinned, rfl, hs⟩

/-- Whatever the others do: what is made is made on the way, in directories that the way is pinned to; a root that is
returned is such a directory, at the end of the path, and every other handle that was opened is closed. -/
theorem openScopedRoot_pinned (hroot : r.root = some handle) (hopen : handles[handle]? = some ⟨top, false⟩)
    (create : Bool) (rel : Bytes) :
    let ended := openScopedRoot host r rel create { world := w, handles := handles }
    Lawful (Allowed (scopePlan top w.objects.length create rel)) ended.2.log ∧
      ∃ more, Spent more ∧
        match ended.1 with
        | .ok child => ∃ parts id, cleanRelative rel = .ok (spell parts) ∧ Pinned ended.2.log top parts id ∧
            ended.2.world.objects[id]? = some .directory ∧ ended.2.handles = handles ++ more ++ [⟨id, false⟩] ∧
            child = { root := some (handles ++ more).length, rejectFileLinks := true }
        | .error _ => ended.2.handles = handles ++ more := by
  intro ended
  have hspec : Triple _ (openScopedRoot host r rel create) _ _ :=
    openScopedRoot_spec hroot hopen create rel w.objects.length
  obtain ⟨hok, herror⟩ := hspec { world := w, handles := handles } (holding_init _ rfl 0)
  cases hended : ended.1 with
  | ok child =>
      obtain ⟨parts, hclean, hne, hflag, more, events, id, hmore, -, hpinned, hchild, hs⟩ := hok child hended
      have hlogged := hpinned.mono hs.behind
      refine ⟨hs.lawful, more, hmore, parts, id, hclean, hlogged, hlogged.directory hne hs.told, hs.handles_eq, ?_⟩
      cases child
      cases hflag
      cases hchild
      rfl
  | error e =>
      obtain ⟨more, hmore, hs⟩ := herror e hended
      exact ⟨hs.lawful, more, hmore, hs.handles_eq⟩

/-! ### A tree -/

/-- The others exchange a directory before one call. -/
def sampleHost (turn : Nat) : Host where
  moves := fun calls =>
    if calls = turn then ⟨fun entries => ⟨0, lit "out", 3⟩ :: entries, [.directory]⟩ else ⟨fun entries => entries, []⟩
  fault := fun _ => none
  above := fun _ dir _ => dir
  behind := fun _ _ _ => none
  accept := fun _ _ => 0
  archiveReads := 1

def sampleWorld : World where
  entries := [⟨0, lit "a.zip", 1⟩, ⟨0, lit "out", 2⟩]
  objects := [.directory, .regular, .directory]

def sampleState : State where
  world := sampleWorld
  handles := [⟨0, false⟩]
  patience := 30

/-- The exchange comes too late to be noticed, and changes nothing. -/
theorem openScopedRoot_pinned_sample :
    let ended := openScopedRoot (sampleHost 4) { root := some 0 } (lit "out/x") true
      { world := sampleWorld, handles := [⟨0, false⟩] }
    ended.1 = .ok { root := some 3, rejectFileLinks := true } ∧
      Lawful (Allowed (scopePlan 0 3 true (lit "out/x"))) ended.2.log ∧ ∃ more, Spent more ∧
        match ended.1 with
        | .ok child => ∃ parts id, cleanRelative (lit "out/x") = .ok (spell parts) ∧ Pinned ended.2.log 0 parts id ∧
            ended.2.world.objects[id]? = some .directory ∧
            ended.2.handles = [⟨0, false⟩] ++ more ++ [⟨id, false⟩] ∧
            child = { root := some (more.length + 1), rejectFileLinks := true }
        | .error _ => ended.2.handles = [⟨0, false⟩] ++ more :=
  ⟨by decide +kernel, openScopedRoot_pinned rfl rfl true (lit "out/x")⟩

/-- An exchange between the look and the opening is noticed. -/
example : (openScopedRoot (sampleHost 2) { root := some 0 } (lit "out") false sampleState).1 =
    .error (.checked ⟨.symlinkEscape, "directory anchor changed during opening"⟩) := by
  decide +kernel

end

end Shared

end FS

end CanonicalPath
