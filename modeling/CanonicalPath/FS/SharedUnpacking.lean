import CanonicalPath.FS.ExtractionLimits
import CanonicalPath.FS.SharedSafety

/-!
# SharedUnpacking — an extraction is never raced out of its destination

Whatever others do between the calls, a file is made below a directory that the destination and the member's path are
pinned to, only files that were made are written to, and every handle is closed in the end.

* `Copying` : a file that is being written
* `extractZipFile_spec`, `extractEntry_spec` : one file, one entry
* `extractZipWithLimits_confined` : the result, for every schedule of the others
-/

namespace CanonicalPath

namespace FS

open CodeUnit Segments Go

open Effect (Triple)

namespace Shared

open Disk (Member Reader allowance NonNegative)

section

variable {host : Host} {plan : Plan} {handles : List Handle} {outs : List Output} {events : List Event}
  {handle dst d id : Nat} {name : Bytes} {reader : Reader}

/-! ## One file -/

/-- A file that was made last, and its handle. -/
structure Output.Fresh (out : Output) (outs : List Output) (events : List Event) : Prop where
  ne : ∀ earlier ∈ outs, earlier.id ≠ out.id
  created : Event.created out.dir out.name out.id ∈ events

/-- The file has this content. -/
def Copying (plan : Plan) (handles : List Handle) (outs : List Output) (events : List Event) (out : Output)
    (content : Bytes) (s : State) : Prop :=
  Holding plan handles (outs ++ [{ out with content := content }]) events s

theorem output_written {out : Output} (hfresh : out.Fresh outs events) (content chunk : Bytes) :
    output (outs ++ [{ out with content := content }]) (.written out.id chunk) =
      outs ++ [{ out with content := content ++ chunk }] := by
  have hkeep : outs.map (fun earlier => if earlier.id = out.id then
      { earlier with content := earlier.content ++ chunk } else earlier) = outs := by
    conv_rhs => rw [← List.map_id outs]
    apply List.map_congr_left
    intro earlier hearlier
    exact if_neg (hfresh.ne earlier hearlier)
  rw [output, List.map_append, hkeep, List.map_singleton, if_pos rfl]

/-- A write makes the content longer; one that fails by a part of the chunk. -/
theorem write_spec {out : Output} (hfresh : out.Fresh outs events) (hopen : handles[dst]? = some ⟨out.id, false⟩)
    (content chunk : Bytes) :
    Triple (Copying plan handles outs events out content) (write host dst chunk)
      (fun _ => Copying plan handles outs events out (content ++ chunk))
      fun _ s => ∃ part, part <+: chunk ∧ Copying plan handles outs events out (content ++ part) s := by
  have hrecord : ∀ part, ∀ {E : OpenError → State → Prop}, Triple (Copying plan handles outs events out content)
      (record (.written out.id part)) (fun _ => Copying plan handles outs events out (content ++ part)) E := by
    intro part E
    apply Triple.modify
    intro s hs
    have hallowed : Allowed plan s.log (.written out.id part) := .written part (hs.behind hfresh.created)
    have hnext := Holding.record hs hallowed nofun nofun
    rw [output_written hfresh] at hnext
    exact hnext.mono (List.subset_cons_self _ _)
  apply Triple.bind (Q := fun _ => Copying plan handles outs events out content)
  · exact Triple.observe fun _ hs => hs
  intro calls
  apply Triple.bind (Q := fun _ => Copying plan handles outs events out content)
  · exact Triple.attempt (keeps_call plan handles _ events)
  intro outcome
  apply (object_spec hopen).bind
  intro found
  apply Triple.lift
  rintro rfl
  apply (hrecord _).bind
  intro _
  cases outcome with
  | ok =>
      rw [if_pos rfl]
      exact Triple.pure fun _ hs => hs
  | error e =>
      rw [if_neg nofun]
      exact Triple.fail fun _ hs => ⟨_, List.take_prefix _ _, hs⟩

theorem copier_writes {out : Output} (hfresh : out.Fresh outs events) (hopen : handles[dst]? = some ⟨out.id, false⟩) :
    (copier host dst).Writes (Copying plan handles outs events out) where
  contextErr := fun _ => keeps_contextErr .timeout plan handles _ events
  write := write_spec hfresh hopen

/-! ## A file of the archive -/

theorem openFile_spec (hsupported : host.rootConfinementSupported = true) (hopen : handles[handle]? = some ⟨d, false⟩)
    (hname : IsName name)
    (hallowed : ∀ front id, events ⊆ front → plan.count ≤ id → Allowed plan front (.created d name id)) :
    Triple (Holding plan handles outs events) ((Root.ofHandle handle).openFile host name)
      (fun dst s => dst = handles.length ∧ ∃ id, (Output.mk d name id []).Fresh outs (.created d name id :: events) ∧
        Copying plan (handles ++ [⟨id, false⟩]) outs (.created d name id :: events) ⟨d, name, id, []⟩ [] s)
      fun _ => Holding plan handles outs events := by
  rw [Root.openFile, requireSupportedPlatform_eq hsupported, Effect.pure_bind]
  apply check_spec.bind
  intro clean
  apply Triple.lift
  intro hclean
  rw [cleanRelative_name hname hclean, Root.rootHandle_eq hsupported rfl, Effect.pure_bind]
  apply (look_spec hopen hname).bind
  rintro ⟨place, found⟩
  apply Triple.lift
  rintro rfl
  refine Triple.pre (P := Holding plan handles outs events) ?_ fun s hs => hs.2
  cases found with
  | some info =>
      exact Triple.fail fun _ hs => hs
  | none =>
      rw [base_name hname]
      apply (create_spec (fun _ => rfl) hallowed).bind
      intro id
      apply Triple.lift
      intro hne
      apply newHandle_spec.conseq (fun _ hs => hs)
      · rintro dst s ⟨rfl, hs⟩
        exact ⟨rfl, id, ⟨hne, List.mem_cons_self⟩, hs⟩
      · exact fun _ _ hs => hs

theorem remove_spec (hsupported : host.rootConfinementSupported = true) (hopen : handles[handle]? = some ⟨d, false⟩)
    (hname : IsName name) (hcreated : Event.created d name id ∈ events) :
    Triple (Holding plan handles outs events) ((Root.ofHandle handle).remove host name)
      (fun _ => Holding plan handles outs events) fun _ => Holding plan handles outs events := by
  rw [Root.remove, requireSupportedPlatform_eq hsupported, Effect.pure_bind]
  apply check_spec.bind
  intro clean
  apply Triple.lift
  intro hclean
  rw [cleanRelative_name hname hclean, Root.rootHandle_eq hsupported rfl, Effect.pure_bind]
  apply (look_spec hopen hname).bind
  rintro ⟨place, found⟩
  apply Triple.lift
  rintro rfl
  refine Triple.pre (P := Holding plan handles outs events) ?_ fun s hs => hs.2
  cases found with
  | none =>
      exact Triple.fail fun _ hs => hs
  | some info =>
      rw [base_name hname]
      apply (keeps_observe _ plan handles outs events).bind
      intro held
      apply Triple.ite
      · intro _
        exact Triple.fail fun _ hs => hs
      · intro _
        apply Triple.bind (Q := fun _ => Holding plan handles outs events)
        · exact Triple.modify fun s hs => { hs with }
        intro _
        apply Triple.modify
        intro s hs
        exact (hs.record (.removed (hs.behind hcreated)) nofun nofun).mono (List.subset_cons_self _ _)

/-- One file: all of a stream, or a part of it within the limit, or nothing. -/
theorem extractZipFile_spec (hsupported : host.rootConfinementSupported = true)
    (hopen : handles[handle]? = some ⟨d, false⟩) (hname : IsName name) {path : List Bytes}
    (hpinned : Pinned events plan.top path d) (hfile : path ++ [name] ∈ plan.files) (limit : Int) :
    Triple (Holding plan handles outs events) (extractZipFile host reader (Root.ofHandle handle) name limit)
      (fun n s => ∃ id content events', (events ⊆ events' ∧ content.length = n ∧ n ≤ limit.toNat ∧
          ∀ stream, reader.Follows stream → content = stream) ∧
        Holding plan (handles ++ [⟨id, true⟩]) (outs ++ [⟨d, name, id, content⟩]) events' s)
      (fun _ s => Holding plan handles outs events s ∨ ∃ id content, content.length ≤ limit.toNat ∧
        Holding plan (handles ++ [⟨id, true⟩]) (outs ++ [⟨d, name, id, content⟩]) events s) := by
  have hallowed : ∀ front id, events ⊆ front → plan.count ≤ id → Allowed plan front (.created d name id) :=
    fun front id hsub hcount => .created (hpinned.mono hsub) hfile hcount
  apply ((keeps_call plan handles outs events).conseq (fun _ hs => hs) (fun _ _ hs => hs) fun _ _ hs => .inl hs).bind
  intro _
  apply ((openFile_spec hsupported hopen hname hallowed).conseq (fun _ hs => hs) (fun _ _ hs => hs)
    fun _ _ hs => .inl hs).bind
  intro dst
  apply Triple.lift
  rintro rfl
  apply Triple.exists_pre
  intro id
  apply Triple.lift
  intro hfresh
  have hdst : (handles ++ [⟨id, false⟩])[handles.length]? = some (⟨id, false⟩ : Handle) :=
    getElem?_length_append _ _ _
  have hparent : (handles ++ [⟨id, true⟩])[handle]? = some (⟨d, false⟩ : Handle) :=
    getElem?_append_of_some hopen _
  have hsub : events ⊆ .created d name id :: events := List.subset_cons_self _ _
  -- the copy ends with some content, whether or not it fails
  apply Triple.attempt_bind (Copier.copyBounded_spec (copier_writes hfresh hdst) limit.toNat)
  · intro n
    apply Triple.exists_pre
    intro content
    apply Triple.lift
    intro hcontent
    apply Triple.bind (Q := fun _ => Holding plan (handles ++ [⟨id, true⟩]) (outs ++ [⟨d, name, id, content⟩])
      (.created d name id :: events))
    · exact Triple.attempt close_spec
    intro closed
    cases closed with
    | ok =>
        exact Triple.pure fun s hs => ⟨id, content, _, ⟨hsub, hcontent⟩, hs⟩
    | error e =>
        apply Triple.bind (Q := fun _ => Holding plan (handles ++ [⟨id, true⟩]) (outs ++ [⟨d, name, id, content⟩])
          (.created d name id :: events))
        · exact Triple.attempt (remove_spec hsupported hparent hname List.mem_cons_self)
        intro _
        have hle : content.length ≤ limit.toNat := hcontent.1 ▸ hcontent.2.1
        exact Triple.fail fun s hs => .inr ⟨id, content, hle, hs.mono hsub⟩
  · intro e
    apply Triple.exists_pre
    intro content
    apply Triple.lift
    intro hle
    apply Triple.bind (Q := fun _ => Holding plan (handles ++ [⟨id, true⟩]) (outs ++ [⟨d, name, id, content⟩])
      (.created d name id :: events))
    · exact Triple.attempt close_spec
    intro closed
    apply Triple.bind (Q := fun _ => Holding plan (handles ++ [⟨id, true⟩]) (outs ++ [⟨d, name, id, content⟩])
      (.created d name id :: events))
    · exact Triple.attempt (remove_spec hsupported hparent hname List.mem_cons_self)
    intro _
    exact Triple.fail fun s hs => .inr ⟨id, content, hle, hs.mono hsub⟩

end

/-! ## The byte limits -/

def written (outs : List Output) : Nat :=
  (outs.map fun out => out.content.length).sum

structure Within (limits : ZipLimits) (outs : List Output) : Prop where
  entry_le : ∀ out ∈ outs, (out.content.length : Int) ≤ limits.maxEntryBytes
  total_le : (written outs : Int) ≤ limits.maxTotalBytes

theorem written_concat (outs : List Output) (out : Output) :
    written (outs ++ [out]) = written outs + out.content.length := by
  rw [written, List.map_append, List.sum_append]
  rfl

theorem Within.nil {limits : ZipLimits} (h : NonNegative limits) : Within limits [] where
  entry_le := fun _ hout => nomatch hout
  total_le := h.maxTotalBytes

/-- A file that keeps to what is left. -/
theorem Within.concat {limits : ZipLimits} {outs : List Output} {out : Output} (h : Within limits outs)
    (hlimits : NonNegative limits) (hle : out.content.length ≤ (allowance limits (written outs)).toNat) :
    Within limits (outs ++ [out]) := by
  have hentry := hlimits.maxEntryBytes
  have htotal := h.total_le
  have hallowance : allowance limits (written outs) =
      min limits.maxEntryBytes (limits.maxTotalBytes - written outs) := rfl
  refine ⟨?_, ?_⟩
  · intro other hother
    rcases List.mem_append.1 hother with hold | hnew
    · exact h.entry_le other hold
    · rw [List.mem_singleton.1 hnew]
      omega
  · rw [written_concat]
    omega

/-! ## One entry -/

/-- A file holds the stream of a member, below a directory that its path is pinned to. -/
def Delivered (log : List Event) (top : Nat) (destination : List Bytes) (member : Member) (out : Output) : Prop :=
  ∃ front, Resolved member.entry (front ++ [out.name]) ∧ Pinned log top (destination ++ front) out.dir ∧
    ∀ stream, member.reader.Follows stream → out.content = stream

theorem Delivered.mono {log log' : List Event} {top : Nat} {destination : List Bytes} {member : Member} {out : Output}
    (h : Delivered log top destination member out) (hsub : log ⊆ log') :
    Delivered log' top destination member out := by
  obtain ⟨front, hresolved, hpinned, hall⟩ := h
  exact ⟨front, hresolved, hpinned.mono hsub, hall⟩

/-- The members that are files. -/
def files (members : List Member) : List Member :=
  members.filter fun member => member.entry.mode ≠ .directory

theorem files_concat (members : List Member) (member : Member) :
    files (members ++ [member]) =
      files members ++ if member.entry.mode = .directory then [] else [member] := by
  rw [files, List.filter_append, files]
  by_cases hmode : member.entry.mode = .directory
  · simp [hmode]
  · simp [hmode]

/-- Every handle that was opened is closed, and the files keep to the limits. -/
def Stopped (plan : Plan) (base : List Handle) (limits : ZipLimits) (s : State) : Prop :=
  ∃ more outs, Spent more ∧ Within limits outs ∧ Holding plan (base ++ more) outs [] s

/-- The members so far are unpacked to these files, and the handles opened for them are closed. -/
structure Progress (plan : Plan) (limits : ZipLimits) (destination : List Bytes) (events : List Event)
    (members : List Member) (total : Int) (more : List Handle) (outs : List Output) (events' : List Event) : Prop where
  spent : Spent more
  within : Within limits outs
  subset : events ⊆ events'
  total_eq : total = written outs
  delivered : List.Forall₂ (Delivered events' plan.top destination) (files members) outs

/-- The members so far are unpacked. -/
def Unpacked (plan : Plan) (base : List Handle) (limits : ZipLimits) (destination : List Bytes) (events : List Event)
    (members : List Member) (total : Int) (s : State) : Prop :=
  ∃ more outs events', Progress plan limits destination events members total more outs events' ∧
    Holding plan (base ++ more) outs events' s

section

variable {host : Host} {plan : Plan} {base : List Handle} {limits : ZipLimits} {destination : List Bytes}
  {events : List Event} {handle d : Nat}

theorem Spent.append {more more' : List Handle} (h : Spent more) (h' : Spent more') : Spent (more ++ more') := by
  intro opened hopened
  rcases List.mem_append.1 hopened with hold | hnew
  · exact h opened hold
  · exact h' opened hnew

/-- What is made for a member. -/
structure Planned (plan : Plan) (destination : List Bytes) (member : Member) : Prop where
  directory : member.entry.mode = .directory → ∀ parts, Resolved member.entry parts → destination ++ parts ∈ plan.walks
  parent : member.entry.mode ≠ .directory → ∀ parts, Resolved member.entry parts →
    destination ++ parts.dropLast ∈ plan.walks
  file : member.entry.mode ≠ .directory → ∀ parts, Resolved member.entry parts → destination ++ parts ∈ plan.files

theorem openZipDestination_spec {outs : List Output} {r : Root} {parts : List Bytes} (hroot : r.root = some handle)
    (hopen : base[handle]? = some ⟨d, false⟩) (hnames : ∀ part ∈ parts, IsName part)
    (hwalk : destination ++ parts ∈ plan.walks) (hpinned : Pinned events plan.top destination d) :
    Triple (Holding plan base outs events) (openZipDestination host r (spell parts))
      (fun child s => host.rootConfinementSupported = true ∧
        Anchored plan base outs events (destination ++ parts) child s)
      fun _ => Released plan base outs events :=
  openPinnedDirectoryContext_spec hroot hopen hnames (fun _ => ⟨hwalk, List.prefix_refl _⟩) hpinned

/-- Nothing was made. -/
theorem Released.stopped (hlimits : NonNegative limits) {s : State} (h : Released plan base [] [] s) :
    Stopped plan base limits s := by
  obtain ⟨more, hmore, hs⟩ := h
  exact ⟨more, [], hmore, .nil hlimits, hs⟩

section Turn

variable {members : List Member} {member : Member} {parts : List Bytes} {total : Int} {more more' : List Handle}
  {outs : List Output} {events' events'' : List Event} {d' id : Nat} {content : Bytes}

theorem Progress.stopped (h : Progress plan limits destination events members total more outs events') {s : State}
    (hs : Released plan (base ++ more) outs events' s) : Stopped plan base limits s := by
  obtain ⟨more', hmore', hs⟩ := hs
  rw [List.append_assoc] at hs
  exact ⟨more ++ more', outs, h.spent.append hmore', h.within, hs.mono (List.nil_subset _)⟩

theorem Progress.directory (h : Progress plan limits destination events members total more outs events')
    (hmode : member.entry.mode = .directory) (hmore' : Spent more') (hsub : events' ⊆ events'') :
    Progress plan limits destination events (members ++ [member]) total (more ++ more') outs events'' where
  spent := h.spent.append hmore'
  within := h.within
  subset := List.Subset.trans h.subset hsub
  total_eq := h.total_eq
  delivered := by
    rw [files_concat, if_pos hmode, List.append_nil]
    exact h.delivered.imp fun _ _ hout => hout.mono hsub

theorem Progress.file (h : Progress plan limits destination events members (written outs) more outs events')
    (hlimits : NonNegative limits) (hmode : member.entry.mode ≠ .directory) (hmore' : Spent more')
    (hsub : events' ⊆ events'') {out : Output} (hle : out.content.length ≤ (allowance limits (written outs)).toNat)
    (hout : Delivered events'' plan.top destination member out) :
    Progress plan limits destination events (members ++ [member]) (written outs + out.content.length) (more ++ more')
      (outs ++ [out]) events'' where
  spent := h.spent.append hmore'
  within := h.within.concat hlimits hle
  subset := List.Subset.trans h.subset hsub
  total_eq := by
    rw [written_concat]
    exact (Int.natCast_add _ _).symm
  delivered := by
    rw [files_concat, if_neg hmode]
    exact List.rel_append (h.delivered.imp fun _ _ hout => hout.mono hsub) (.cons hout .nil)

/-- The turn of a directory: the walk to it, which makes it. -/
theorem directoryTurn_spec (hplanned : Planned plan destination member) (hmode : member.entry.mode = .directory)
    (hresolved : Resolved member.entry parts) (hopen : base[handle]? = some ⟨d, false⟩)
    (hpinned : Pinned events plan.top destination d)
    (h : Progress plan limits destination events members total more outs events') :
    Triple (Holding plan (base ++ more) outs events')
      (do
        let dir ← openZipDestination host (Root.ofHandle handle) (spell parts)
        let _ ← Effect.attempt (dir.close host)
        pure total)
      (Unpacked plan base limits destination events (members ++ [member])) fun _ => Stopped plan base limits := by
  have hhandle : (base ++ more)[handle]? = some (⟨d, false⟩ : Handle) :=
    getElem?_append_of_some hopen _
  apply ((openZipDestination_spec rfl hhandle hresolved.names (hplanned.directory hmode parts hresolved)
    (hpinned.mono h.subset)).conseq (fun _ hs => hs) (fun _ _ hs => hs) fun _ _ => h.stopped).bind
  intro dir
  apply Triple.lift
  intro hsupported
  apply anchored_pre
  rintro more' events'' d' hmore' hsub - rfl
  apply Triple.bind (Q := fun _ => Holding plan (base ++ more ++ more' ++ [⟨d', true⟩]) outs events'')
  · exact Triple.attempt (Root.close_spec hsupported)
  intro _
  apply Triple.pure
  intro s hs
  rw [List.append_assoc, List.append_assoc] at hs
  exact ⟨_, outs, events'', h.directory hmode (hmore'.concat d') hsub, hs⟩

/-- The end of a file's turn: its parent is closed, and the total told. -/
theorem closeParent_spec (hsupported : host.rootConfinementSupported = true) (hlimits : NonNegative limits)
    (hmode : member.entry.mode ≠ .directory)
    (h : Progress plan limits destination events members (written outs) more outs events') (hmore' : Spent more')
    (hsub : events' ⊆ events'') {out : Output} (hle : out.content.length ≤ (allowance limits (written outs)).toNat)
    (hout : Delivered events'' plan.top destination member out) :
    Triple (Holding plan (base ++ more ++ more' ++ [⟨d', false⟩] ++ [⟨id, true⟩]) (outs ++ [out]) events'')
      (do
        let _ ← Effect.attempt ((Root.ofHandle (base ++ more ++ more').length).close host)
        let n ← Effect.finish (.ok out.content.length)
        pure ((written outs : Int) + (n : Nat)))
      (Unpacked plan base limits destination events (members ++ [member])) fun _ => Stopped plan base limits := by
  apply (closeAbove_spec hsupported).bind
  intro _
  rw [Effect.finish_ok_bind]
  apply Triple.pure
  intro s hs
  rw [List.append_assoc base, List.append_assoc base, List.append_assoc more] at hs
  exact ⟨_, _, events'', h.file hlimits hmode ((hmore'.concat d').concat id) hsub hle hout, hs⟩

/-- The turn of a file: the walk to its parent, its bytes, and the end of the parent. -/
theorem fileTurn_spec (hlimits : NonNegative limits) (hplanned : Planned plan destination member)
    (hmode : member.entry.mode ≠ .directory) (hresolved : Resolved member.entry parts)
    (hopen : base[handle]? = some ⟨d, false⟩) (hpinned : Pinned events plan.top destination d)
    (h : Progress plan limits destination events members (written outs) more outs events') :
    Triple (Holding plan (base ++ more) outs events')
      (do
        let parent ← openZipDestination host (Root.ofHandle handle) (spell parts.dropLast)
        let extracted ← Effect.attempt (extractZipFile host member.reader parent (parts.getLast hresolved.ne_nil)
          (allowance limits (written outs)))
        let _ ← Effect.attempt (parent.close host)
        let n ← Effect.finish extracted
        pure ((written outs : Int) + (n : Nat)))
      (Unpacked plan base limits destination events (members ++ [member])) fun _ => Stopped plan base limits := by
  have hhandle : (base ++ more)[handle]? = some (⟨d, false⟩ : Handle) :=
    getElem?_append_of_some hopen _
  have hinit : ∀ part ∈ parts.dropLast, IsName part :=
    fun part hpart => hresolved.names part (List.dropLast_subset _ hpart)
  have hlast : IsName (parts.getLast hresolved.ne_nil) := hresolved.names _ (List.getLast_mem hresolved.ne_nil)
  apply ((openZipDestination_spec rfl hhandle hinit (hplanned.parent hmode parts hresolved)
    (hpinned.mono h.subset)).conseq (fun _ hs => hs) (fun _ _ hs => hs) fun _ _ => h.stopped).bind
  intro parent
  apply Triple.lift
  intro hsupported
  apply anchored_pre
  rintro more' events'' d' hmore' hsub hpinned' rfl
  have hparent : (base ++ more ++ more' ++ [⟨d', false⟩])[(base ++ more ++ more').length]? =
      some (⟨d', false⟩ : Handle) := getElem?_length_append _ _ _
  have hfile : destination ++ parts.dropLast ++ [parts.getLast hresolved.ne_nil] ∈ plan.files := by
    rw [List.append_assoc, List.dropLast_append_getLast]
    exact hplanned.file hmode parts hresolved
  apply Triple.attempt_bind (extractZipFile_spec hsupported hparent hlast hpinned' hfile _)
  · intro n
    apply Triple.exists_pre
    intro id
    apply Triple.exists_pre
    intro content
    apply Triple.exists_pre
    intro events₃
    apply Triple.lift
    rintro ⟨hsub', rfl, hle, hall⟩
    apply closeParent_spec hsupported hlimits hmode h hmore' (List.Subset.trans hsub hsub') hle
    refine ⟨parts.dropLast, ?_, hpinned'.mono hsub', hall⟩
    rw [List.dropLast_append_getLast]
    exact hresolved
  · intro e
    apply Triple.or_pre
    · apply Triple.bind (Q := fun _ => Holding plan (base ++ more ++ more' ++ [⟨d', true⟩]) outs events'')
      · exact Triple.attempt (Root.close_spec hsupported)
      intro _
      rw [Effect.finish_error_bind]
      exact Triple.fail fun s hs => h.stopped (released hmore' hsub hs)
    · apply Triple.exists_pre
      intro id
      apply Triple.exists_pre
      intro content
      apply Triple.lift
      intro hle
      apply (closeAbove_spec hsupported).bind
      intro _
      rw [Effect.finish_error_bind]
      apply Triple.fail
      intro s hs
      rw [List.append_assoc base, List.append_assoc base, List.append_assoc more] at hs
      have hspent := h.spent.append ((hmore'.concat d').concat id)
      exact ⟨_, _, hspent, h.within.concat hlimits hle, hs.mono (List.nil_subset _)⟩

/-- One turn of the loop. -/
theorem extractEntry_spec (hlimits : NonNegative limits) (hplanned : Planned plan destination member)
    (hresolved : Resolved member.entry parts) (hopen : base[handle]? = some ⟨d, false⟩)
    (hpinned : Pinned events plan.top destination d) (total : Int) :
    Triple (Unpacked plan base limits destination events members total)
      (extractEntry host limits (Root.ofHandle handle) total member)
      (Unpacked plan base limits destination events (members ++ [member])) fun _ => Stopped plan base limits := by
  rw [extractEntry, hresolved.entryRel_eq, hresolved.dir_eq.1, hresolved.dir_eq.2]
  rintro s ⟨more, outs, events', h, hs⟩
  obtain rfl := h.total_eq
  refine Triple.ite (fun hmode => ?_) (fun hmode => ?_) s hs
  · exact directoryTurn_spec hplanned hmode hresolved hopen hpinned h
  · exact fileTurn_spec hlimits hplanned hmode hresolved hopen hpinned h

end Turn

/-! ## All entries -/

/-- What neither makes nor closes anything may stop the extraction. -/
theorem Keeps.unpacked {β : Type} {x : Sharing β} (hx : Keeps x) (members : List Member) (total : Int) :
    Triple (Unpacked plan base limits destination events members total) x
      (fun _ => Unpacked plan base limits destination events members total) fun _ => Stopped plan base limits := by
  rintro s ⟨more, outs, events', h, hs⟩
  obtain ⟨hok, herror⟩ := hx plan (base ++ more) outs events' s hs
  refine ⟨fun b hb => ⟨more, outs, events', h, hok b hb⟩, fun e he => ?_⟩
  exact ⟨more, outs, h.spent, h.within, (herror e he).mono (List.nil_subset _)⟩

/-- The extraction loop. -/
theorem extractEntries_spec (hlimits : NonNegative limits) (hopen : base[handle]? = some ⟨d, false⟩)
    (hpinned : Pinned events plan.top destination d) {members : List Member}
    (hmembers : ∀ member ∈ members, Planned plan destination member ∧ ∃ parts, Resolved member.entry parts)
    (done : List Member) (total : Int) :
    Triple (Unpacked plan base limits destination events done total)
      (extractEntries host limits (Root.ofHandle handle) total members)
      (Unpacked plan base limits destination events (done ++ members)) fun _ => Stopped plan base limits := by
  induction members generalizing done total with
  | nil =>
      rw [List.append_nil]
      exact Triple.pure fun _ hs => hs
  | cons member members ih =>
      obtain ⟨hplanned, parts, hresolved⟩ := hmembers member List.mem_cons_self
      apply ((keeps_contextErr .timeout).unpacked done total).bind
      intro _
      apply (extractEntry_spec hlimits hplanned hresolved hopen hpinned total).bind
      intro total'
      rw [List.append_cons done member members]
      exact ih (fun member hmember => hmembers member (List.mem_cons_of_mem _ hmember)) (done ++ [member]) total'

theorem preflightEntries_spec {outs : List Output} (budget : ZipPathBudget) (declared : UInt64)
    (entries : List ZipEntry) :
    Triple (Holding plan base outs events) (preflightEntries limits budget declared entries)
      (fun _ s => preflight limits budget declared entries = .ok () ∧ Holding plan base outs events s)
      fun _ => Holding plan base outs events := by
  induction entries generalizing budget declared with
  | nil =>
      exact Triple.pure fun s hs => ⟨rfl, hs⟩
  | cons entry entries ih =>
      apply (keeps_contextErr .timeout plan base outs events).bind
      intro _
      apply check_spec.bind
      intro next
      apply Triple.lift
      intro hnext
      apply (ih next.1 next.2).conseq (fun _ hs => hs) ?_ fun _ _ hs => hs
      rintro _ s ⟨hrest, hs⟩
      refine ⟨?_, hs⟩
      rw [preflight, hnext]
      exact hrest

theorem keeps_contextErrs (count : Nat) : Keeps (contextErrs count) := by
  induction count with
  | zero =>
      exact keeps_pure ()
  | succ count ih =>
      exact (keeps_contextErr .timeout).bind fun _ => ih

/-! ## All of it -/

theorem deferring_spec {β : Type} {deferred : Sharing Unit} {x : Sharing β} {P : State → Prop} {Q Q' : β → State → Prop}
    {E E' : OpenError → State → Prop} (hx : Triple P x Q E)
    (hok : ∀ b, Triple (Q b) (Effect.attempt deferred) (fun _ => Q' b) E')
    (herror : ∀ e, Triple (E e) (Effect.attempt deferred) (fun _ => E' e) E') :
    Triple P (deferring deferred x) Q' E' := by
  apply Triple.attempt_bind hx
  · intro b
    apply (hok b).bind
    intro _
    exact Triple.pure fun _ hs => hs
  · intro e
    apply (herror e).bind
    intro _
    exact Triple.fail fun _ hs => hs

/-- What is known of an extraction when a handle below the ones of the extraction is closed. -/
theorem closeUnpacked_spec (hsupported : host.rootConfinementSupported = true) {more : List Handle} (hmore : Spent more)
    {members : List Member} {total : Int} {E : OpenError → State → Prop} :
    Triple (Unpacked plan (base ++ more ++ [⟨d, false⟩]) limits destination events members total)
      (Effect.attempt ((Root.ofHandle (base ++ more).length).close host))
      (fun _ => Unpacked plan base limits destination [] members total) E := by
  rintro s ⟨more', outs, events', h, hs⟩
  obtain ⟨hok, herror⟩ := closeAbove_spec hsupported s hs
  refine ⟨fun b hb => ?_, herror⟩
  have hclosed := hok b hb
  rw [List.append_assoc base] at hclosed
  have hspent := (hmore.concat d).append h.spent
  exact ⟨_, outs, events', { h with spent := hspent, subset := List.nil_subset _ }, hclosed⟩

theorem closeStopped_spec (hsupported : host.rootConfinementSupported = true) {more : List Handle} (hmore : Spent more)
    {E : OpenError → State → Prop} :
    Triple (Stopped plan (base ++ more ++ [⟨d, false⟩]) limits)
      (Effect.attempt ((Root.ofHandle (base ++ more).length).close host)) (fun _ => Stopped plan base limits) E := by
  rintro s ⟨more', outs, hmore', hwithin, hs⟩
  obtain ⟨hok, herror⟩ := closeAbove_spec hsupported s hs
  refine ⟨fun b hb => ?_, herror⟩
  have hclosed := hok b hb
  rw [List.append_assoc base] at hclosed
  exact ⟨_, outs, (hmore.concat d).append hmore', hwithin, hclosed⟩

/-- The names of a member's path. -/
def memberParts (member : Member) : List Bytes :=
  partsOf ((zipEntryPath (lit ".") member.entry.name).toOption.getD [])

theorem memberParts_eq {member : Member} {parts : List Bytes} (h : Resolved member.entry parts) :
    memberParts member = parts := by
  rw [memberParts, h.entryRel_eq, partsOf_spell h.names]

/-- What an extraction is asked to make: directories on the way to the members, and the files among them. -/
def extractionPlan (top count : Nat) (destination : List Bytes) (members : List Member) : Plan where
  top := top
  count := count
  walks := destination :: members.map fun member =>
    destination ++ if member.entry.mode = .directory then memberParts member else (memberParts member).dropLast
  files := (files members).map fun member => destination ++ memberParts member

theorem planned_extractionPlan {top count : Nat} {members : List Member} {member : Member} (h : member ∈ members) :
    Planned (extractionPlan top count destination members) destination member := by
  refine ⟨?_, ?_, ?_⟩
  · intro hmode parts hresolved
    refine List.mem_cons_of_mem _ (List.mem_map.2 ⟨member, h, ?_⟩)
    rw [if_pos hmode, memberParts_eq hresolved]
  · intro hmode parts hresolved
    refine List.mem_cons_of_mem _ (List.mem_map.2 ⟨member, h, ?_⟩)
    rw [if_neg hmode, memberParts_eq hresolved]
  · intro hmode parts hresolved
    refine List.mem_map.2 ⟨member, List.mem_filter.2 ⟨h, decide_eq_true hmode⟩, ?_⟩
    rw [memberParts_eq hresolved]

/-- The extraction while the archive is open. -/
theorem extractArchive_spec {r : Root} {budget : ZipPathBudget} {members : List Member} {count : Nat}
    (hlimits : NonNegative limits) (hroot : r.root = some handle) (hopen : base[handle]? = some ⟨d, false⟩)
    (hnames : ∀ part ∈ destination, IsName part) :
    Triple (Holding (extractionPlan d count destination members) base [] [])
      (extractArchive host r (spell destination) limits budget members)
      (fun _ s => ∃ total,
        Unpacked (extractionPlan d count destination members) base limits destination [] members total s)
      fun _ => Stopped (extractionPlan d count destination members) base limits := by
  generalize hplan : extractionPlan d count destination members = plan
  have hheld : ∀ s, Holding plan base [] [] s → Stopped plan base limits s := fun s hs => hs.released.stopped hlimits
  apply ((keeps_call plan base [] []).conseq (fun _ hs => hs) (fun _ _ hs => hs) fun _ => hheld).bind
  intro _
  apply ((keeps_contextErrs _ plan base [] []).conseq (fun _ hs => hs) (fun _ _ hs => hs) fun _ => hheld).bind
  intro _
  apply ((keeps_check _ plan base [] []).conseq (fun _ hs => hs) (fun _ _ hs => hs) fun _ => hheld).bind
  intro _
  apply ((preflightEntries_spec _ _ _).conseq (fun _ hs => hs) (fun _ _ hs => hs) fun _ => hheld).bind
  intro _
  apply Triple.lift
  intro hpreflight
  apply ((keeps_contextErr .timeout plan base [] []).conseq (fun _ hs => hs) (fun _ _ hs => hs) fun _ => hheld).bind
  intro _
  -- the destination is pinned, and every member was resolved by the preflight
  have htop : Pinned [] plan.top [] d := by
    rw [← hplan]
    exact .here
  have hwalk : [] ++ destination ∈ plan.walks := by
    rw [← hplan]
    exact List.mem_cons_self
  have hmembers : ∀ member ∈ members, Planned plan destination member ∧ ∃ parts, Resolved member.entry parts := by
    intro member hmember
    rw [← hplan]
    exact ⟨planned_extractionPlan hmember,
      resolved_of_preflight hpreflight member.entry (List.mem_map_of_mem hmember)⟩
  apply ((openZipDestination_spec hroot hopen hnames hwalk htop).conseq (fun _ hs => hs) (fun _ _ hs => hs)
    fun _ _ hs => hs.stopped hlimits).bind
  intro opened
  apply Triple.lift
  intro hsupported
  apply anchored_pre
  rintro more events' d' hmore - hpinned rfl
  have hopened : (base ++ more ++ [⟨d', false⟩])[(base ++ more).length]? = some (⟨d', false⟩ : Handle) :=
    getElem?_length_append _ _ _
  have hloop : Triple (Holding plan (base ++ more ++ [⟨d', false⟩]) [] events')
      (do
        let _ ← extractEntries host limits (Root.ofHandle (base ++ more).length) 0 members
        pure ())
      (fun _ s => ∃ total, Unpacked plan (base ++ more ++ [⟨d', false⟩]) limits destination events' members total s)
      fun _ => Stopped plan (base ++ more ++ [⟨d', false⟩]) limits := by
    apply Triple.bind (Q := Unpacked plan (base ++ more ++ [⟨d', false⟩]) limits destination events' members)
    · apply (extractEntries_spec hlimits hopened hpinned hmembers [] 0).pre
      intro s hs
      refine ⟨[], [], events', ⟨nofun, .nil hlimits, List.Subset.refl _, rfl, .nil⟩, ?_⟩
      rwa [List.append_nil]
    · intro total
      exact Triple.pure fun s hs => ⟨total, hs⟩
  apply deferring_spec hloop
  · intro _
    apply Triple.exists_pre
    intro total
    exact (closeUnpacked_spec hsupported hmore).conseq (fun _ hs => hs) (fun _ _ hs => ⟨total, hs⟩) fun _ _ hs => hs
  · intro _
    exact closeStopped_spec hsupported hmore

/-- What is asked of a file changes nothing. -/
theorem checkOpened_keeps (hopen : base[handle]? = some ⟨d, false⟩) {outs : List Output} (before : Option FileInfo) :
    Triple (Holding plan base outs events) (checkOpened host before handle)
      (fun _ => Holding plan base outs events) fun _ => Holding plan base outs events := by
  apply (stat_keeps hopen (lit ".")).bind
  intro info
  apply Triple.ite
  · exact fun _ => Triple.fail fun _ hs => hs
  · intro _
    apply Triple.ite
    · exact fun _ => Triple.pure fun _ hs => hs
    · exact fun _ => keeps_check _ plan base outs events

theorem lstatRegular_keeps {r : Root} (hopen : base[handle]? = some ⟨d, false⟩) {outs : List Output} (clean : Bytes) :
    Triple (Holding plan base outs events) (lstatRegular host r handle clean)
      (fun _ => Holding plan base outs events) fun _ => Holding plan base outs events := by
  apply Triple.ite
  · intro _
    apply (lstat_keeps hopen clean).bind
    intro before
    apply Triple.ite
    · exact fun _ => Triple.pure fun _ hs => hs
    · exact fun _ => keeps_check _ plan base outs events
  · exact fun _ => Triple.pure fun _ hs => hs

/-- A file is open behind a success, and closed behind a failure. -/
theorem openRegularFile_spec {r : Root} {outs : List Output} (hroot : r.root = some handle)
    (hopen : base[handle]? = some ⟨d, false⟩) (rel : Bytes) :
    Triple (Holding plan base outs events) (openRegularFile host r rel)
      (fun file s => host.rootConfinementSupported = true ∧ file = base.length ∧
        ∃ id, Holding plan (base ++ [⟨id, false⟩]) outs events s)
      fun _ => Released plan base outs events := by
  by_cases hsupported : host.rootConfinementSupported = true
  · rw [openRegularFile, requireSupportedPlatform_eq hsupported, Effect.pure_bind]
    have hfiles : Keeps (requireRegularFiles host) := Keeps.ite (keeps_pure _) (keeps_fail _)
    apply ((hfiles plan base outs events).conseq (fun _ hs => hs) (fun _ _ hs => hs) fun _ _ hs => hs.released).bind
    intro _
    apply (check_spec.conseq (fun _ hs => hs) (fun _ _ hs => hs) fun _ _ hs => hs.released).bind
    intro clean
    apply Triple.lift
    intro _
    rw [Root.rootHandle_eq hsupported hroot, Effect.pure_bind]
    apply ((lstatRegular_keeps hopen clean).conseq (fun _ hs => hs) (fun _ _ hs => hs) fun _ _ hs => hs.released).bind
    intro before
    apply ((stat_keeps hopen clean).conseq (fun _ hs => hs) (fun _ _ hs => hs) fun _ _ hs => hs.released).bind
    intro info
    apply newHandle_spec.bind
    intro file
    apply Triple.lift
    rintro rfl
    have hfile : (base ++ [⟨info.id, false⟩])[base.length]? = some (⟨info.id, false⟩ : Handle) :=
      getElem?_length_append _ _ _
    apply Triple.attempt_bind (checkOpened_keeps hfile before)
    · intro _
      exact Triple.pure fun s hs => ⟨hsupported, rfl, info.id, hs⟩
    · intro e
      apply Triple.bind (Q := fun _ => Holding plan (base ++ [⟨info.id, true⟩]) outs events)
      · exact Triple.attempt close_spec
      intro _
      exact Triple.fail fun s hs => ⟨[⟨info.id, true⟩], by simp [Spent], hs⟩
  · rw [openRegularFile, requireSupportedPlatform, if_neg hsupported]
    exact Triple.fail fun _ hs => hs.released

/-- The names of the destination. -/
def destinationParts (destRel : Bytes) : List Bytes :=
  partsOf ((cleanRelative destRel).toOption.getD [])

theorem extractZipWithLimits_spec (count : Nat) {r : Root} {zipRel destRel : Bytes} {l : ZipLimits}
    {members : List Member} (hroot : r.root = some handle) (hopen : base[handle]? = some ⟨d, false⟩) :
    Triple (Holding (extractionPlan d count (destinationParts destRel) members) base [] [])
      (extractZipWithLimits host r zipRel destRel l members)
      (fun _ s => ∃ limits total, (defaultZipLimits l = .ok limits ∧
          cleanRelative destRel = .ok (spell (destinationParts destRel))) ∧
        Unpacked (extractionPlan d count (destinationParts destRel) members) base limits (destinationParts destRel) []
          members total s)
      fun _ s => Holding (extractionPlan d count (destinationParts destRel) members) base [] [] s ∨
        ∃ limits, defaultZipLimits l = .ok limits ∧
          Stopped (extractionPlan d count (destinationParts destRel) members) base limits s := by
  have hplatform : Keeps (requireSupportedPlatform host) := Keeps.ite (keeps_pure _) (keeps_fail _)
  apply ((hplatform _ base [] []).conseq (fun _ hs => hs) (fun _ _ hs => hs) fun _ _ hs => .inl hs).bind
  intro _
  apply (check_spec.conseq (fun _ hs => hs) (fun _ _ hs => hs) fun _ _ hs => .inl hs).bind
  intro limits
  apply Triple.lift
  intro hlimits
  have hnonneg := Disk.nonNegative_of_defaultZipLimits hlimits
  apply ((keeps_check _ _ base [] []).conseq (fun _ hs => hs) (fun _ _ hs => hs) fun _ _ hs => .inl hs).bind
  intro _
  apply ((keeps_check _ _ base [] []).conseq (fun _ hs => hs) (fun _ _ hs => hs) fun _ _ hs => .inl hs).bind
  intro zipClean
  apply (check_spec.conseq (fun _ hs => hs) (fun _ _ hs => hs) fun _ _ hs => .inl hs).bind
  intro destClean
  apply Triple.lift
  intro hclean
  apply ((keeps_contextErr .timeout _ base [] []).conseq (fun _ hs => hs) (fun _ _ hs => hs) fun _ _ hs => .inl hs).bind
  intro _
  apply ((keeps_check _ _ base [] []).conseq (fun _ hs => hs) (fun _ _ hs => hs) fun _ _ hs => .inl hs).bind
  intro budget
  apply ((openRegularFile_spec hroot hopen zipClean).conseq (fun _ hs => hs) (fun _ _ hs => hs)
    fun _ _ hs => .inr ⟨limits, hlimits, hs.stopped hnonneg⟩).bind
  intro archive
  apply Triple.lift
  intro hsupported
  apply Triple.lift
  rintro rfl
  apply Triple.exists_pre
  intro id
  -- the names of the destination are those of its clean form
  obtain ⟨-, destination, hresolve, hspell⟩ := cleanRelative_eq_ok_iff.1 hclean
  have hnames := isName_of_resolve hresolve
  have hdestination : destinationParts destRel = destination := by
    rw [destinationParts, hclean, ← hspell]
    exact partsOf_spell hnames
  rw [← hspell] at hclean ⊢
  rw [hdestination]
  have hbelow : (base ++ [⟨id, false⟩])[handle]? = some (⟨d, false⟩ : Handle) :=
    getElem?_append_of_some hopen _
  have hspent : Spent [] := nofun
  have hnil : base ++ [] = base := List.append_nil base
  have hclose : close host base.length = (Root.ofHandle (base ++ []).length).close host := by
    rw [Root.close_eq hsupported, hnil]
  rw [hclose]
  apply deferring_spec (extractArchive_spec hnonneg hroot hbelow hnames)
  · intro _
    apply Triple.exists_pre
    intro total
    apply (closeUnpacked_spec hsupported hspent).conseq
    · intro s hs
      rw [hnil]
      exact hs
    · exact fun _ s hs => ⟨limits, total, ⟨hlimits, hclean⟩, hs⟩
    · exact fun _ _ hs => hs
  · intro _
    apply (closeStopped_spec hsupported hspent).conseq
    · intro s hs
      rw [hnil]
      exact hs
    · exact fun _ s hs => .inr ⟨limits, hlimits, hs⟩
    · exact fun _ _ hs => hs

end

/-! ## The result -/

section

variable {host : Host} {r : Root} {handle top : Nat} {handles : List Handle} {w : World}

/-- Whatever the others do and wherever it stops: directories and files are made on the ways of the members, in
directories those ways are pinned to; only what was made is written or removed; the files keep to the limits; every
handle is closed.  Behind a success each file member has its stream in a file of its own. -/
theorem extractZipWithLimits_confined (hroot : r.root = some handle) (hopen : handles[handle]? = some ⟨top, false⟩)
    (zipRel destRel : Bytes) (l : ZipLimits) (members : List Member) (patience : Nat) :
    let destination := destinationParts destRel
    let ended := extractZipWithLimits host r zipRel destRel l members
      { world := w, handles := handles, patience := patience }
    Lawful (Allowed (extractionPlan top w.objects.length destination members)) ended.2.log ∧
      (∃ more, Spent more ∧ ended.2.handles = handles ++ more) ∧
      (∀ limits, defaultZipLimits l = .ok limits → Within limits (outputs ended.2.log)) ∧
      (ended.1 = .ok () → cleanRelative destRel = .ok (spell destination) ∧
        List.Forall₂ (Delivered ended.2.log top destination) (files members) (outputs ended.2.log)) := by
  intro destination ended
  have hspec : Triple _ (extractZipWithLimits host r zipRel destRel l members) _ _ :=
    extractZipWithLimits_spec w.objects.length hroot hopen
  obtain ⟨hok, herror⟩ := hspec { world := w, handles := handles, patience := patience }
    (holding_init (extractionPlan top w.objects.length destination members) rfl patience)
  cases hended : ended.1 with
  | ok =>
      obtain ⟨limits, total, ⟨hlimits, hclean⟩, more, outs, events, ⟨hmore, hwithin, -, -, hdone⟩, hs⟩ := hok () hended
      have houts : outputs ended.2.log = outs := hs.outputs_eq
      refine ⟨hs.lawful, ⟨more, hmore, hs.handles_eq⟩, ?_, fun _ => ⟨hclean, ?_⟩⟩
      · intro limits' hlimits'
        rw [hlimits] at hlimits'
        cases hlimits'
        rw [houts]
        exact hwithin
      · rw [houts]
        exact hdone.imp fun _ _ h => h.mono hs.behind
  | error e =>
      refine ⟨?_, ?_, ?_, nofun⟩
      · rcases herror e hended with hs | ⟨limits, -, more, outs, -, -, hs⟩
        · exact hs.lawful
        · exact hs.lawful
      · rcases herror e hended with hs | ⟨limits, -, more, outs, hmore, -, hs⟩
        · exact ⟨[], nofun, by rw [List.append_nil]; exact hs.handles_eq⟩
        · exact ⟨more, hmore, hs.handles_eq⟩
      · intro limits' hlimits'
        rcases herror e hended with hs | ⟨limits, hlimits, more, outs, -, hwithin, hs⟩
        · have houts : outputs ended.2.log = [] := hs.outputs_eq
          rw [houts]
          exact .nil (Disk.nonNegative_of_defaultZipLimits hlimits')
        · have houts : outputs ended.2.log = outs := hs.outputs_eq
          rw [hlimits] at hlimits'
          cases hlimits'
          rw [houts]
          exact hwithin

def sampleMembers : List Member :=
  [⟨{ name := lit "d/f", mode := .regular, uncompressedSize := 3, compressedSize := 3 }, Reader.ofBytes (lit "abc")⟩]

/-- The destination is exchanged while it is walked below, and the file comes into the one that was opened. -/
theorem extractZipWithLimits_confined_sample :
    let ended := extractZipWithLimits (sampleHost 7) { root := some 0 } (lit "a.zip") (lit "out")
      ⟨0, 0, 0, 0, 0, 0, 0, 0, 0, 0, 0⟩ sampleMembers { world := sampleWorld, handles := [⟨0, false⟩], patience := 30 }
    outputs ended.2.log = [⟨4, lit "f", 5, lit "abc"⟩] ∧
      Lawful (Allowed (extractionPlan 0 3 (destinationParts (lit "out")) sampleMembers)) ended.2.log ∧
      (∃ more, Spent more ∧ ended.2.handles = [⟨0, false⟩] ++ more) ∧
      (∀ limits, defaultZipLimits ⟨0, 0, 0, 0, 0, 0, 0, 0, 0, 0, 0⟩ = .ok limits →
        Within limits (outputs ended.2.log)) ∧
      (ended.1 = .ok () → cleanRelative (lit "out") = .ok (spell (destinationParts (lit "out"))) ∧
        List.Forall₂ (Delivered ended.2.log 0 (destinationParts (lit "out"))) (files sampleMembers)
          (outputs ended.2.log)) :=
  ⟨by decide +kernel,
    extractZipWithLimits_confined rfl rfl (lit "a.zip") (lit "out") ⟨0, 0, 0, 0, 0, 0, 0, 0, 0, 0, 0⟩ sampleMembers 30⟩

end

end Shared

end FS

end CanonicalPath
