import CanonicalPath.FS.ArchiveNames
import CanonicalPath.FS.SharedSafety
import CanonicalPath.Library.Follows

/-!
# Outline — both extractions follow the one that only names its calls

The extraction of `Archive` is an outline: a host that may answer anything stands for the tree, the archive and the
context.  The extraction into a tree of its own and the one into a tree that others change follow it: they make its
checks in its order, clean the same names, and end as it does against some host.

* `Outlines` : what it is to follow the outline
* `Disk.extractZipWithLimits_follows`, `Shared.extractZipWithLimits_follows` : the two simulations
* `Disk.checkArchive_of_extracted`, `Shared.checkArchive_of_extracted` : nothing is extracted that the checks refuse
-/

namespace CanonicalPath

namespace FS

open CodeUnit Go

open Traced (Failure Agree Follows follows_ask follows_ask_bind follows_ask_bind₂ follows_check follows_finish
  follows_pure)

section

variable {σ ε β γ : Type} {own : Error → ε}

/-- Followed in its outcomes, whatever the values. -/
abbrev Outlines (own : Error → ε) (x : (Nat → HostCall → Option ε) → Extract ε β) (y : Effect σ ε γ) : Prop :=
  Follows own (fun _ _ => True) x y

/-! ## Path operations -/

theorem follows_pathOperation (call : Bytes → HostCall) (rel : Bytes) (y : Bytes → Effect σ ε γ) :
    Outlines own (fun host => pathOperation host call rel)
      ((Effect.finish ((cleanRelative rel).mapError own) : Effect σ ε Bytes) >>= y) := by
  have hvalidate : Follows own Eq (fun _ : Nat → HostCall → Option ε => Traced.validate cleanRelative rel)
      (Effect.finish ((cleanRelative rel).mapError own) : Effect σ ε Bytes) :=
    (follows_check (cleanRelative rel)).touch rel
  exact hvalidate.bind fun clean _ _ => follows_ask (call clean) _

/-- The name of the directory itself is always clean. -/
theorem follows_pathOperation_dot (call : Bytes → HostCall) (y : Effect σ ε γ) :
    Outlines own (fun host => pathOperation host call (lit ".")) y :=
  follows_pathOperation call (lit ".") fun _ => y

/-! ## One file -/

theorem follows_copyBounded (c : Copier σ ε) (reader : Disk.Reader) (limit : Nat) :
    Outlines own (fun host => Traced.ask host HostCall.copy >>= fun _ => Traced.ask host .probe)
      (c.copyBounded reader limit) :=
  follows_ask_bind HostCall.copy _ fun _ => follows_ask HostCall.probe _

/-- The end of an output file, where what removes it follows the removal. -/
theorem follows_endOutput {entryRel : Bytes} {removed : Effect σ ε Unit}
    (hremoved : Outlines own (fun host => pathOperation host .remove entryRel) removed)
    {ending : Except ε Nat → Except ε Unit → Effect σ ε Nat} (hdone : ∀ n, ending (.ok n) (.ok ()) = pure n)
    (hcopied : ∀ e closed, ending (.error e) closed = Effect.attempt removed >>= fun _ => Effect.finish (.error e))
    (hclosed : ∀ n e, ending (.ok n) (.error e) = Effect.attempt removed >>= fun _ => Effect.finish (.error e))
    {copied closed : Except (Failure Error ε) Unit} {copied' : Except ε Nat} {closed' : Except ε Unit}
    (hcopy : Agree own (fun _ _ => True) copied copied') (hclose : Agree own (fun _ _ => True) closed closed') :
    Outlines own (fun host => endOutput host entryRel copied closed) (ending copied' closed') := by
  cases copied with
  | error failure =>
      cases copied' with
      | ok n =>
          exact hcopy.elim
      | error e =>
          rw [hcopied]
          exact hremoved.attempt.bind fun _ _ _ => follows_finish hcopy
  | ok done =>
      cases copied' with
      | error e =>
          exact hcopy.elim
      | ok n =>
          cases closed with
          | error failure =>
              cases closed' with
              | ok done' =>
                  exact hclose.elim
              | error e =>
                  rw [hclosed]
                  exact hremoved.attempt.bind fun _ _ _ => follows_finish hclose
          | ok done' =>
              cases closed' with
              | error e =>
                  exact hclose.elim
              | ok done'' =>
                  rw [hdone]
                  exact follows_pure trivial

/-! ## What is known of the outline -/

/-- What succeeds along the outline has passed all of its checks. -/
theorem Outlines.checked {zipRel destRel : Bytes} {limits : ZipLimits} {entries : List ZipEntry} {y : Effect σ ε Unit}
    (h : Outlines own (fun host => extractZipWithLimits host zipRel destRel limits entries) y) {s : σ}
    (hdone : (y s).1 = .ok ()) : ∃ destClean, checkArchive zipRel destRel limits entries = .ok destClean := by
  obtain ⟨host, hagree⟩ := h.exists_host s
  rw [hdone] at hagree
  cases hrun : extractZipWithLimits host zipRel destRel limits entries {} with
  | mk outcome t =>
      rw [hrun] at hagree
      cases outcome with
      | error failure =>
          exact hagree.elim
      | ok done =>
          obtain ⟨destClean, t', hprepare, -⟩ := Traced.bind_run_ok hrun
          exact ⟨destClean, prepare_ok hprepare⟩

end

/-! ## A tree of its own -/

namespace Disk

section

variable (host : Host)

theorem openParts_follows (code : ErrorCode) (dir parts : List Bytes) :
    Outlines Failure.checked (fun host' => FS.openParts host' true parts) (openParts host true code dir parts) := by
  induction parts generalizing dir with
  | nil =>
      exact follows_pure trivial
  | cons part more ih =>
      apply follows_ask_bind
      intro _
      apply follows_ask_bind₂
      intro _
      apply follows_ask_bind
      intro _
      apply follows_ask_bind₂
      intro _
      apply follows_ask_bind
      intro _
      refine (follows_pathOperation .openRoot part _).bind fun _ child _ => ?_
      apply follows_ask_bind
      intro _
      rw [← Effect.bind_assoc]
      exact (follows_pathOperation_dot .stat _).bind fun _ _ _ => ih child

theorem openZipDestination_follows (dir : List Bytes) (rel : Bytes) :
    Outlines Failure.checked (fun host' => FS.openZipDestination host' rel) (openZipDestination host dir rel) := by
  apply follows_ask_bind
  intro _
  refine (follows_pathOperation .openRoot (lit ".") _).bind fun _ current _ => ?_
  by_cases hdot : rel = lit "."
  · simp only [if_pos hdot]
    exact follows_ask HostCall.contextErr _
  · simp only [if_neg hdot]
    refine (openParts_follows host .archiveTraversal current (rel.splitOn (chr '/'))).bind fun _ _ _ => ?_
    exact follows_ask HostCall.contextErr _

theorem extractZipFile_follows (reader : Reader) (dir : List Bytes) (entryRel : Bytes) (limit : Int) :
    Outlines Failure.checked (fun host' => FS.extractZipFile host' entryRel)
      (extractZipFile host reader dir entryRel limit) := by
  apply follows_ask_bind
  intro _
  refine (follows_pathOperation .openFile entryRel _).bind fun _ path _ => ?_
  refine (follows_copyBounded (copier host path) reader limit.toNat).attempt.bind fun copied _ hcopy => ?_
  refine (follows_ask HostCall.close (call host .close)).attempt.bind fun closed _ hclose => ?_
  exact follows_endOutput (follows_pathOperation .remove entryRel _) (fun _ => rfl) (fun _ _ => rfl) (fun _ _ => rfl)
    hcopy hclose

theorem extractEntry_follows (limits : ZipLimits) (destination : List Bytes) (total : Int) (member : Member) :
    Outlines Failure.checked (fun host' => FS.extractEntry host' member.entry)
      (extractEntry host limits destination total member) := by
  rw [extractEntry]
  by_cases hdirectory : member.entry.mode = .directory
  · simp only [FS.extractEntry, if_pos hdirectory]
    exact (openZipDestination_follows host destination _).map fun _ _ _ => trivial
  · simp only [FS.extractEntry, if_neg hdirectory]
    refine (openZipDestination_follows host destination _).bind fun _ parent _ => ?_
    -- the allowance is recorded, and nobody asked
    apply Follows.behind (fun w => ⟨(), _, rfl⟩)
    intro _
    exact (extractZipFile_follows host member.reader parent _ _).map fun _ _ _ => trivial

theorem extractEntries_follows (limits : ZipLimits) (destination : List Bytes) (total : Int) (members : List Member) :
    Outlines Failure.checked (fun host' => FS.extractEntries host' (members.map Member.entry))
      (extractEntries host limits destination total members) := by
  induction members generalizing total with
  | nil =>
      exact follows_pure trivial
  | cons member more ih =>
      apply follows_ask_bind
      intro _
      exact (extractEntry_follows host limits destination total member).bind fun _ total' _ => ih total'

theorem preflightEntries_follows (limits : ZipLimits) (budget : ZipPathBudget) (declared : UInt64)
    (entries : List ZipEntry) :
    Outlines Failure.checked (fun host' => FS.preflightEntries host' limits budget declared entries)
      (preflightEntries limits budget declared entries) := by
  induction entries generalizing budget declared with
  | nil =>
      exact follows_pure trivial
  | cons entry more ih =>
      apply follows_ask_bind
      intro _
      refine (follows_check (preflightEntry limits budget declared entry)).bind ?_
      rintro next _ rfl
      exact ih next.1 next.2

theorem prepare_follows (zipRel destRel : Bytes) (limits : ZipLimits) (entries : List ZipEntry) :
    Follows Failure.checked (fun destClean prepared => destClean = prepared.2)
      (fun host' => FS.prepare host' zipRel destRel limits entries) (prepare host zipRel destRel limits entries) := by
  refine (follows_check (defaultZipLimits limits)).bind ?_
  rintro limits _ rfl
  refine (follows_check (checkDestinationName limits destRel)).bind fun _ _ _ => ?_
  refine (follows_check (cleanRelative zipRel)).bind fun zipClean _ _ => ?_
  refine (follows_check (cleanRelative destRel)).bind ?_
  rintro destClean _ rfl
  apply follows_ask_bind
  intro _
  refine (follows_check (destinationBudget limits destClean)).bind ?_
  rintro budget _ rfl
  apply follows_ask_bind₂
  intro _
  refine (follows_check (checkEntryCount limits entries)).bind fun _ _ _ => ?_
  refine (preflightEntries_follows limits budget 0 entries).bind fun _ _ _ => ?_
  apply follows_ask_bind
  intro _
  exact follows_pure rfl

/-- Every run of the extraction is one of the outline. -/
theorem extractZipWithLimits_follows (zipRel destRel : Bytes) (limits : ZipLimits) (members : List Member) :
    Outlines Failure.checked
      (fun host' => FS.extractZipWithLimits host' zipRel destRel limits (members.map Member.entry))
      (extractZipWithLimits host zipRel destRel limits members) := by
  refine (prepare_follows host zipRel destRel limits (members.map Member.entry)).bind ?_
  rintro _ prepared rfl
  refine (openZipDestination_follows host [] prepared.2).bind fun _ destination _ => ?_
  exact (extractEntries_follows host prepared.1 destination 0 members).map fun _ _ _ => trivial

/-- An archive that is extracted has passed the checks. -/
theorem checkArchive_of_extracted {zipRel destRel : Bytes} {limits : ZipLimits} {members : List Member} {w : World}
    (h : (extractZipWithLimits host zipRel destRel limits members w).1 = .ok ()) :
    ∃ destClean, checkArchive zipRel destRel limits (members.map Member.entry) = .ok destClean :=
  Outlines.checked (extractZipWithLimits_follows host zipRel destRel limits members) h

end

end Disk

/-! ## A tree that others change -/

namespace Shared

open Disk (Member Reader)

section

variable {host : Host}

/-- A cleaned path, and whatever is done with it below the root. -/
theorem follows_below (hsupported : host.rootConfinementSupported = true) {β : Type} (call : Bytes → HostCall)
    (rel : Bytes) (y : Bytes → Sharing β) :
    Outlines OpenError.checked (fun host' => pathOperation host' call rel)
      (requireSupportedPlatform host >>= fun _ => check (cleanRelative rel) >>= y) := by
  rw [requireSupportedPlatform_eq hsupported, Effect.pure_bind]
  exact follows_pathOperation call rel y

theorem openRoot_follows (hsupported : host.rootConfinementSupported = true) (r : Root) (rel : Bytes) :
    Follows OpenError.checked (fun _ child => ∃ handle, child = Root.ofHandle handle)
      (fun host' => pathOperation host' .openRoot rel) (r.openRoot host rel) := by
  have hopened := follows_below hsupported .openRoot rel fun clean => r.rootHandle host >>= fun handle =>
    openRoot host handle clean
  have hroot : r.openRoot host rel = (requireSupportedPlatform host >>= fun _ => check (cleanRelative rel) >>=
      fun clean => r.rootHandle host >>= fun handle => openRoot host handle clean) >>= fun child =>
        pure (Root.ofHandle child) := by
    simp only [Effect.bind_assoc]
    rfl
  rw [hroot]
  exact hopened.map fun _ child _ => ⟨child, rfl⟩

theorem openParts_follows (hsupported : host.rootConfinementSupported = true) (code : ErrorCode) (handle : Nat)
    (parts : List Bytes) :
    Outlines OpenError.checked (fun host' => FS.openParts host' true parts)
      (openParts host .timeout true code (Root.ofHandle handle) parts) := by
  induction parts generalizing handle with
  | nil =>
      exact follows_pure trivial
  | cons part more ih =>
      apply follows_ask_bind
      intro _
      rw [Root.rootHandle_eq hsupported rfl, Effect.pure_bind]
      apply follows_ask_bind
      intro _
      apply follows_ask_bind
      intro _
      apply follows_ask_bind
      intro info
      apply follows_ask_bind
      intro _
      -- the parent is closed behind the child, whether or not that is opened
      refine (openRoot_follows hsupported _ part).deferred_bind _ ?_
      rintro _ _ ⟨child, rfl⟩
      apply follows_ask_bind
      intro _
      exact (follows_pathOperation_dot .stat _).bind fun _ _ _ => ih child

theorem openZipDestination_follows (hsupported : host.rootConfinementSupported = true) (r : Root) (rel : Bytes) :
    Outlines OpenError.checked (fun host' => FS.openZipDestination host' rel) (openZipDestination host r rel) := by
  rw [openZipDestination, openPinnedDirectoryContext, requireSupportedPlatform_eq hsupported, Effect.pure_bind]
  apply follows_ask_bind
  intro _
  refine (openRoot_follows hsupported r (lit ".")).bind ?_
  rintro _ _ ⟨current, rfl⟩
  by_cases hdot : rel = lit "."
  · simp only [if_pos hdot]
    exact follows_ask HostCall.contextErr _
  · simp only [if_neg hdot]
    refine (openParts_follows hsupported .archiveTraversal current (rel.splitOn (chr '/'))).bind fun _ _ _ => ?_
    exact follows_ask HostCall.contextErr _

theorem extractZipFile_follows (hsupported : host.rootConfinementSupported = true) (reader : Reader) (root : Root)
    (entryRel : Bytes) (limit : Int) :
    Outlines OpenError.checked (fun host' => FS.extractZipFile host' entryRel)
      (extractZipFile host reader root entryRel limit) := by
  apply follows_ask_bind
  intro _
  refine (follows_below hsupported .openFile entryRel _).bind fun _ dst _ => ?_
  refine (follows_copyBounded (copier host dst) reader limit.toNat).attempt.bind fun copied _ hcopy => ?_
  refine (follows_ask HostCall.close (close host dst)).attempt.bind fun closed _ hclose => ?_
  exact follows_endOutput (follows_below hsupported .remove entryRel _) (fun _ => rfl) (fun _ _ => rfl)
    (fun _ _ => rfl) hcopy hclose

theorem extractEntry_follows (hsupported : host.rootConfinementSupported = true) (limits : ZipLimits)
    (destination : Root) (total : Int) (member : Member) :
    Outlines OpenError.checked (fun host' => FS.extractEntry host' member.entry)
      (extractEntry host limits destination total member) := by
  rw [extractEntry]
  by_cases hdirectory : member.entry.mode = .directory
  · simp only [FS.extractEntry, if_pos hdirectory]
    exact (openZipDestination_follows hsupported destination _).before fun _ _ _ _ => ⟨total, rfl, trivial⟩
  · simp only [FS.extractEntry, if_neg hdirectory]
    refine (openZipDestination_follows hsupported destination _).bind fun _ parent _ => ?_
    exact (extractZipFile_follows hsupported member.reader parent _ _).deferred_map _ fun _ _ _ => trivial

theorem extractEntries_follows (hsupported : host.rootConfinementSupported = true) (limits : ZipLimits)
    (destination : Root) (total : Int) (members : List Member) :
    Outlines OpenError.checked (fun host' => FS.extractEntries host' (members.map Member.entry))
      (extractEntries host limits destination total members) := by
  induction members generalizing total with
  | nil =>
      exact follows_pure trivial
  | cons member more ih =>
      apply follows_ask_bind
      intro _
      exact (extractEntry_follows hsupported limits destination total member).bind fun _ total' _ => ih total'

theorem preflightEntries_follows (limits : ZipLimits) (budget : ZipPathBudget) (declared : UInt64)
    (entries : List ZipEntry) :
    Outlines OpenError.checked (fun host' => FS.preflightEntries host' limits budget declared entries)
      (preflightEntries limits budget declared entries) := by
  induction entries generalizing budget declared with
  | nil =>
      exact follows_pure trivial
  | cons entry more ih =>
      apply follows_ask_bind
      intro _
      refine (follows_check (preflightEntry limits budget declared entry)).bind ?_
      rintro next _ rfl
      exact ih next.1 next.2

/-- Every run of the extraction is one of the outline, whatever the others do. -/
theorem extractZipWithLimits_follows (hsupported : host.rootConfinementSupported = true) (r : Root)
    (zipRel destRel : Bytes) (limits : ZipLimits) (members : List Member) :
    Outlines OpenError.checked
      (fun host' => FS.extractZipWithLimits host' zipRel destRel limits (members.map Member.entry))
      (extractZipWithLimits host r zipRel destRel limits members) := by
  rw [extractZipWithLimits, requireSupportedPlatform_eq hsupported, Effect.pure_bind]
  simp only [FS.extractZipWithLimits, prepare, Traced.bind_assoc]
  refine (follows_check (defaultZipLimits limits)).bind ?_
  rintro limits _ rfl
  refine (follows_check (checkDestinationName limits destRel)).bind fun _ _ _ => ?_
  refine (follows_check (cleanRelative zipRel)).bind ?_
  rintro zipClean _ rfl
  refine (follows_check (cleanRelative destRel)).bind ?_
  rintro destClean _ rfl
  apply follows_ask_bind
  intro _
  refine (follows_check (destinationBudget limits destClean)).bind ?_
  rintro budget _ rfl
  -- the archive is open from here on, and closed in the end
  apply Follows.deferred_behind
  rw [extractArchive, ← Effect.bind_assoc]
  apply follows_ask_bind₂
  intro _
  refine (follows_check (checkEntryCount limits _)).bind fun _ _ _ => ?_
  refine (preflightEntries_follows limits budget 0 _).bind fun _ _ _ => ?_
  apply follows_ask_bind
  intro _
  refine (openZipDestination_follows hsupported r destClean).bind fun _ destination _ => ?_
  exact ((extractEntries_follows hsupported limits destination 0 members).map fun _ _ _ => trivial).deferred _

/-- The same where others change the tree. -/
theorem checkArchive_of_extracted (hsupported : host.rootConfinementSupported = true) {r : Root}
    {zipRel destRel : Bytes} {limits : ZipLimits} {members : List Member} {s : State}
    (h : (extractZipWithLimits host r zipRel destRel limits members s).1 = .ok ()) :
    ∃ destClean, checkArchive zipRel destRel limits (members.map Member.entry) = .ok destClean :=
  Outlines.checked (extractZipWithLimits_follows hsupported r zipRel destRel limits members) h

end

end Shared

end FS

end CanonicalPath
