import CanonicalPath.FS.Unpacking

/-!
# Extraction safety — what an extraction leaves, wherever it stops

No object that was there is changed, and the tree grows by directories and whole files only.

* `Kept` : objects stay as they are
* `WholeFrom` : a new file holds the stream of the first file entry of its name
* `Blocks` : an object in the way of an entry
* `extraction_leaves_whole_files` : all of it, for every fault of the host and every point of cancellation
-/

namespace CanonicalPath

namespace FS

open CodeUnit Segments Go

open Traced (Failure)

namespace Disk

variable {host : Host}

/-! ## Objects that stay -/

/-- Every object is what it was. -/
def Kept (s s' : Store) : Prop :=
  ∀ path node, s.tree.lookup path = some node → s'.tree.lookup path = some node

theorem Kept.trans {s s' s'' : Store} (h : Kept s s') (h' : Kept s' s'') : Kept s s'' :=
  fun path node hnode => h' path node (h path node hnode)

theorem Written.kept {reader : Reader} {path : List Bytes} {limit n : Nat} {s s' : Store}
    (h : Written reader path limit n s s') : Kept s s' := by
  obtain ⟨content, hcopying, -⟩ := h.copied
  intro path' node hnode
  have hne : path' ≠ path := by
    intro hpath
    rw [hpath, h.free] at hnode
    cases hnode
  rw [hcopying.tree_eq, AList.lookup_insert_ne hne]
  exact hnode

section

variable {limits : ZipLimits} {destination parts : List Bytes} {total total' : Int} {member : Member} {s s' : Store}

theorem EntryDone.kept (h : EntryDone limits destination total member parts s total' s') : Kept s s' := by
  cases h with
  | directory _ hwalked =>
      exact hwalked.kept
  | file _ hwalked hwritten =>
      exact Kept.trans hwalked.kept hwritten.kept

/-- A failed entry leaves new directories at most. -/
theorem EntryFailed.grows (hremoves : Removes host)
    (h : EntryFailed host limits destination total member parts s s') : Grows s s' := by
  cases h with
  | context =>
      exact Grows.refl s
  | directory _ hwalks =>
      exact hwalks.toGrows
  | parent _ hwalks =>
      exact hwalks.toGrows
  | file _ hwalked hundone =>
      have htree := hundone.tree_eq hremoves
      exact {
        kept := by
          rw [htree]
          exact hwalked.kept
        made := by
          rw [htree]
          exact hwalked.made
      }

end

/-- What grows by directories has no new file. -/
theorem Grows.file {s s' : Store} (h : Grows s s') {path : List Bytes} {content : Bytes}
    (hfile : s'.tree.lookup path = some (.file content)) : s.tree.lookup path = some (.file content) := by
  cases hnode : s.tree.lookup path with
  | none =>
      cases h.made path _ hnode hfile
  | some node =>
      exact (h.kept path node hnode).symm.trans hfile

/-! ## New files -/

/-- The name of a file entry. -/
def FileAt (destination : List Bytes) (member : Member) (path : List Bytes) : Prop :=
  member.entry.mode ≠ .directory ∧ ∃ parts, Resolved member.entry parts ∧ path = destination ++ parts

/-- The content is the stream of the first file entry of this name. -/
def WholeFrom (stream : Member → Bytes) (destination : List Bytes) (members : List Member) (path : List Bytes)
    (content : Bytes) : Prop :=
  ∃ earlier member later, members = earlier ++ member :: later ∧ FileAt destination member path ∧
    content = stream member ∧ ∀ other ∈ earlier, ¬FileAt destination other path

theorem WholeFrom.append {stream : Member → Bytes} {destination : List Bytes} {members : List Member}
    {path : List Bytes} {content : Bytes} (h : WholeFrom stream destination members path content)
    (more : List Member) : WholeFrom stream destination (members ++ more) path content := by
  obtain ⟨earlier, member, later, hmembers, hrest⟩ := h
  refine ⟨earlier, member, later ++ more, ?_, hrest⟩
  rw [hmembers, List.append_assoc]
  rfl

/-- What the loop keeps behind the entries it has done. -/
structure Unpacked (stream : Member → Bytes) (destination : List Bytes) (base : Store) (done : List Member)
    (s : Store) : Prop where
  kept : Kept base s
  whole : ∀ path content, base.tree.lookup path = none → s.tree.lookup path = some (.file content) →
    WholeFrom stream destination done path content
  present : ∀ member ∈ done, ∀ path, FileAt destination member path → s.tree.lookup path ≠ none

section

variable {stream : Member → Bytes} {destination : List Bytes} {base : Store} {done : List Member} {s s' : Store}

/-- New directories leave the files as they are. -/
theorem Unpacked.grows (h : Unpacked stream destination base done s) (hgrows : Grows s s') :
    Unpacked stream destination base done s' where
  kept := Kept.trans h.kept hgrows.kept
  whole := fun path content hnew hfile => h.whole path content hnew (hgrows.file hfile)
  present := by
    intro member hmember path hpath hnone
    cases hnode : s.tree.lookup path with
    | none =>
        exact h.present member hmember path hpath hnode
    | some node =>
        rw [hgrows.kept path node hnode] at hnone
        cases hnone

theorem Unpacked.snoc_directory (h : Unpacked stream destination base done s) {member : Member}
    (hmode : member.entry.mode = .directory) : Unpacked stream destination base (done ++ [member]) s where
  kept := h.kept
  whole := fun path content hnew hfile => (h.whole path content hnew hfile).append [member]
  present := by
    intro other hother path hpath
    cases List.mem_append.1 hother with
    | inl hold =>
        exact h.present other hold path hpath
    | inr hnew =>
        rw [List.mem_singleton.1 hnew] at hpath
        exact absurd hmode hpath.1

theorem Unpacked.snoc_file (h : Unpacked stream destination base done s) {member : Member} {parts : List Bytes}
    {limit n : Nat} (hmode : member.entry.mode ≠ .directory) (hresolved : Resolved member.entry parts)
    (hstream : member.reader.Follows (stream member))
    (hwritten : Written member.reader (destination ++ parts) limit n s s') :
    Unpacked stream destination base (done ++ [member]) s' := by
  obtain ⟨content, hcopying, -, hall⟩ := hwritten.copied
  have hcontent : content = stream member := hall _ hstream
  have hat : FileAt destination member (destination ++ parts) := ⟨hmode, parts, hresolved, rfl⟩
  refine ⟨Kept.trans h.kept hwritten.kept, ?_, ?_⟩
  · intro path content' hnew hfile
    rw [hcopying.tree_eq] at hfile
    by_cases hpath : path = destination ++ parts
    · -- the file of this entry, whose name was free
      rw [hpath, AList.lookup_insert] at hfile
      cases hfile
      refine ⟨done, member, [], rfl, hpath ▸ hat, hcontent, ?_⟩
      intro other hother hsame
      rw [hpath] at hsame
      exact h.present other hother _ hsame hwritten.free
    · rw [AList.lookup_insert_ne hpath] at hfile
      exact (h.whole path content' hnew hfile).append [member]
  · intro other hother path hpath hnone
    cases List.mem_append.1 hother with
    | inl hold =>
        cases hnode : s.tree.lookup path with
        | none =>
            exact h.present other hold path hpath hnode
        | some node =>
            rw [hwritten.kept path node hnode] at hnone
            cases hnone
    | inr hnew =>
        rw [List.mem_singleton.1 hnew] at hpath
        obtain ⟨-, parts', hparts', rfl⟩ := hpath
        have hsame : parts' = parts := Option.some.inj (hparts'.resolve_eq.symm.trans hresolved.resolve_eq)
        rw [hsame, hcopying.tree_eq, AList.lookup_insert] at hnone
        cases hnone

theorem Unpacked.snoc {limits : ZipLimits} {total total' : Int} {member : Member} {parts : List Bytes}
    (h : Unpacked stream destination base done s) (hresolved : Resolved member.entry parts)
    (hstream : member.reader.Follows (stream member))
    (hdone : EntryDone limits destination total member parts s total' s') :
    Unpacked stream destination base (done ++ [member]) s' := by
  cases hdone with
  | directory hmode hwalked =>
      exact (h.grows hwalked.toGrows).snoc_directory hmode
  | file hmode hwalked hwritten =>
      -- the allowance is a note in the log
      have hparent := h.grows hwalked.toGrows
      have hnoted : Unpacked stream destination base done (Store.record _ (.allowance (allowance limits total))) :=
        ⟨hparent.kept, hparent.whole, hparent.present⟩
      exact hnoted.snoc_file hmode hresolved hstream hwritten

end

/-! ## The run up to an entry -/

/-- The extraction up to an entry: the limits, the destination and the total that it is started with. -/
def extractUntil (host : Host) (zipRel destRel : Bytes) (limits : ZipLimits) (members done : List Member) :
    Extraction (ZipLimits × List Bytes × Int) := do
  let prepared ← prepare host zipRel destRel limits (members.map Member.entry)
  let destination ← openZipDestination host [] prepared.2
  let total ← extractEntries host prepared.1 destination 0 done
  pure (prepared.1, destination, total)

theorem extractEntries_append (limits : ZipLimits) (destination : List Bytes) (total : Int) (done more : List Member) :
    extractEntries host limits destination total (done ++ more) =
      extractEntries host limits destination total done >>= fun total =>
        extractEntries host limits destination total more := by
  induction done generalizing total with
  | nil =>
      rfl
  | cons member done ih =>
      simp only [List.cons_append, extractEntries, Effect.bind_assoc, ih]

/-- An extraction goes on from where its run up to an entry ends. -/
theorem extractZipWithLimits_eq (zipRel destRel : Bytes) (l : ZipLimits) (done more : List Member) :
    extractZipWithLimits host zipRel destRel l (done ++ more) =
      extractUntil host zipRel destRel l (done ++ more) done >>= fun reached =>
        extractEntries host reached.1 reached.2.1 reached.2.2 more >>= fun _ => pure () := by
  simp only [extractZipWithLimits, extractUntil, Effect.bind_assoc, Effect.pure_bind, extractEntries_append]

/-- The loop keeps what was there before it. -/
theorem extractEntries_kept {limits : ZipLimits} {destination : List Bytes} {members : List Member}
    (hresolved : ∀ member ∈ members, ∃ parts, Resolved member.entry parts) (total : Int) (base : Store) :
    Spec (Kept base) (extractEntries host limits destination total members) (fun _ => Kept base) fun _ => True := by
  apply (extractEntries_spec
    (I := fun members _ s => Kept base s ∧ ∀ member ∈ members, ∃ parts, Resolved member.entry parts)
    (E := fun _ => True) (fun _ _ _ _ => trivial) ?_ members total).conseq
  · exact fun s hs => ⟨hs, hresolved⟩
  · exact fun _ _ h => h.1
  · exact fun _ h => h
  · rintro member members total s ⟨hs, hnames⟩
    obtain ⟨parts, hparts⟩ := hnames member List.mem_cons_self
    apply (extractEntry_spec hparts s).conseq (fun _ hp => hp) ?_ fun _ _ => trivial
    intro total' s' hdone
    refine ⟨Kept.trans hs hdone.kept, ?_⟩
    intro other hother
    exact hnames other (List.mem_cons_of_mem _ hother)

/-- What is known where an entry is reached. -/
theorem reached_of_extractUntil {zipRel destRel : Bytes} {l : ZipLimits} {members done : List Member} {w w' : World}
    {reached : ZipLimits × List Bytes × Int} (hdone : ∀ member ∈ done, member ∈ members)
    (h : extractUntil host zipRel destRel l members done w = (.ok reached, w')) :
    (∀ member ∈ members, ∃ parts, Resolved member.entry parts) ∧ Kept w.store w'.store := by
  obtain ⟨prepared, w1, hprepare, h⟩ := Effect.bind_eq_ok_iff.1 h
  obtain ⟨destination, w2, hwalk, h⟩ := Effect.bind_eq_ok_iff.1 h
  obtain ⟨total, w3, hloop, h⟩ := Effect.bind_eq_ok_iff.1 h
  cases h
  have hchecked : Spec (fun s => s = w.store) (prepare host zipRel destRel l (members.map Member.entry))
      (fun prepared s => Prepared l prepared.1 destRel prepared.2 (members.map Member.entry) ∧ s = w.store)
      fun _ => True := prepare_spec fun _ _ => trivial
  have hready := (hchecked w rfl).1
  rw [hprepare] at hready
  obtain ⟨hprepared, hsame⟩ := hready prepared rfl
  obtain ⟨-, parts, hresolve, hspell⟩ := cleanRelative_eq_ok_iff.1 hprepared.clean_eq
  rw [← hspell] at hwalk
  have hopened : Spec (fun s => s = w1.store) (openZipDestination host [] (spell parts))
      (fun opened s => opened = [] ++ parts ∧ Walked [] parts w1.store s) (Walks [] parts w1.store) :=
    openZipDestination_spec (isName_of_resolve hresolve) [] w1.store
  have hwalked := (hopened w1 rfl).1
  rw [hwalk] at hwalked
  have hunpacked : Spec (Kept w2.store) (extractEntries host prepared.1 destination 0 done)
      (fun _ => Kept w2.store) fun _ => True :=
    extractEntries_kept (fun member hmember => hprepared.resolved member (hdone member hmember)) 0 w2.store
  have hentries := (hunpacked w2 fun _ _ h => h).1
  rw [hloop] at hentries
  refine ⟨hprepared.resolved, ?_⟩
  rw [← hsame]
  exact Kept.trans (hwalked destination rfl).2.kept (hentries total rfl)

/-! ## Collisions -/

/-- An object in the way of an entry: one that has the name of a file, or one that is no directory where the entry has
a directory or a parent. -/
inductive Blocks (s : Store) (destination : List Bytes) (member : Member) (parts : List Bytes) : List Bytes → Prop
  | file : member.entry.mode ≠ .directory → s.tree.lookup (destination ++ parts) ≠ none →
      Blocks s destination member parts (destination ++ parts)
  | directory {front : List Bytes} {node : Node} : member.entry.mode = .directory → front ≠ [] → front <+: parts →
      s.tree.lookup (destination ++ front) = some node → node ≠ .directory →
      Blocks s destination member parts (destination ++ front)
  | parent {front : List Bytes} {node : Node} : member.entry.mode ≠ .directory → front ≠ [] →
      front <+: parts.dropLast → s.tree.lookup (destination ++ front) = some node → node ≠ .directory →
      Blocks s destination member parts (destination ++ front)

/-- No walk goes through an object that is no directory. -/
theorem Walked.not_blocked {dir parts front : List Bytes} {s s' : Store} {node : Node} (h : Walked dir parts s s')
    (hfront : front ≠ []) (hbelow : front <+: parts) (hnode : s.tree.lookup (dir ++ front) = some node) :
    node = .directory := by
  have hsplit : front.dropLast ++ [front.getLast hfront] = front := List.dropLast_append_getLast hfront
  have hdirectory := h.directories front.dropLast (front.getLast hfront) (by rw [hsplit]; exact hbelow)
  rw [List.append_assoc, hsplit, h.kept _ node hnode] at hdirectory
  exact Option.some.inj hdirectory

theorem Blocks.not_done {limits : ZipLimits} {destination parts path : List Bytes} {total total' : Int}
    {member : Member} {s s' : Store} (h : Blocks s destination member parts path)
    (hdone : EntryDone limits destination total member parts s total' s') : False := by
  cases h with
  | file hmode htaken =>
      cases hdone with
      | directory hdirectory _ =>
          exact hmode hdirectory
      | file _ hwalked hwritten =>
          cases hnode : s.tree.lookup (destination ++ parts) with
          | none =>
              exact htaken hnode
          | some node =>
              have hkept := hwalked.kept _ node hnode
              have hfree := hwritten.free
              rw [Store.record, hkept] at hfree
              cases hfree
  | directory hmode hfront hbelow hnode hother =>
      cases hdone with
      | directory _ hwalked =>
          exact hother (hwalked.not_blocked hfront hbelow hnode)
      | file hfile _ _ =>
          exact hfile hmode
  | parent hmode hfront hbelow hnode hother =>
      cases hdone with
      | directory hdirectory _ =>
          exact hmode hdirectory
      | file _ hwalked _ =>
          exact hother (hwalked.not_blocked hfront hbelow hnode)

theorem Blocks.exists_node {destination parts path : List Bytes} {member : Member} {s : Store}
    (h : Blocks s destination member parts path) : ∃ node, s.tree.lookup path = some node := by
  cases h with
  | file _ htaken =>
      exact Option.ne_none_iff_exists'.1 htaken
  | directory _ _ _ hnode _ =>
      exact ⟨_, hnode⟩
  | parent _ _ _ hnode _ =>
      exact ⟨_, hnode⟩

/-- An entry with an object in its way fails, and leaves the object. -/
theorem extractEntries_blocked {limits : ZipLimits} {destination parts path : List Bytes} {total : Int}
    {member : Member} {later : List Member} {s : Store} (hremoves : Removes host)
    (hresolved : Resolved member.entry parts) (hblocks : Blocks s destination member parts path) :
    Spec (fun s' => s' = s) (extractEntries host limits destination total (member :: later) >>= fun _ => pure ())
      (fun _ _ => False) fun s' => s'.tree.lookup path = s.tree.lookup path := by
  have hentry : Spec (fun s' => s' = s) (extractEntries host limits destination total (member :: later))
      (fun _ _ => False) fun s' => s'.tree.lookup path = s.tree.lookup path := by
    apply Spec.quiet_bind quiet_contextErr
    · rintro s' rfl
      rfl
    intro _
    have hfirst : Spec (fun s' => s' = s) (extractEntry host limits destination total member)
        (fun _ _ => False) fun s' => s'.tree.lookup path = s.tree.lookup path := by
      apply (extractEntry_spec hresolved s).conseq (fun _ hp => hp)
      · intro total' s' hdone
        exact hblocks.not_done hdone
      · intro s' hfailed
        obtain ⟨node, hnode⟩ := hblocks.exists_node
        rw [hnode]
        exact (hfailed.grows hremoves).kept path node hnode
    apply hfirst.bind
    intro total' w hfalse
    exact hfalse.elim
  apply hentry.bind
  intro _ w hfalse
  exact hfalse.elim

/-! ## All of it -/

/-- What an extraction leaves of a store, whether it fails or not. -/
structure Leaves (stream : Member → Bytes) (destRel : Bytes) (members : List Member) (base s : Store) : Prop where
  kept : Kept base s
  whole : ∀ path content, base.tree.lookup path = none → s.tree.lookup path = some (.file content) →
    ∃ destination, cleanRelative destRel = .ok (spell destination) ∧ WholeFrom stream destination members path content

theorem Grows.leaves {stream : Member → Bytes} {destRel : Bytes} {members : List Member} {base s : Store}
    (h : Grows base s) : Leaves stream destRel members base s where
  kept := h.kept
  whole := by
    intro path content hnew hfile
    rw [h.file hfile] at hnew
    cases hnew

theorem Unpacked.leaves {stream : Member → Bytes} {destination : List Bytes} {destRel : Bytes} {base s : Store}
    {done : List Member} (h : Unpacked stream destination base done s)
    (hclean : cleanRelative destRel = .ok (spell destination)) (more : List Member) :
    Leaves stream destRel (done ++ more) base s where
  kept := h.kept
  whole := fun path content hnew hfile => ⟨destination, hclean, (h.whole path content hnew hfile).append more⟩

/-- Every run of the extraction, to its end or to a failure. -/
theorem extractZipWithLimits_leaves {zipRel destRel : Bytes} {l : ZipLimits} {stream : Member → Bytes}
    {members : List Member} (hremoves : Removes host)
    (hstreams : ∀ member ∈ members, member.reader.Follows (stream member)) (base : Store) :
    Spec (fun s => s = base) (extractZipWithLimits host zipRel destRel l members)
      (fun _ => Leaves stream destRel members base) (Leaves stream destRel members base) := by
  apply extractZipWithLimits_spec (Grows.refl base).leaves
  intro limits destination hready hnames
  refine ⟨fun s hwalks => hwalks.toGrows.leaves, ?_⟩
  intro s hwalked
  have hstart : Unpacked stream destination base [] s := by
    refine ⟨hwalked.kept, ?_, ?_⟩
    · intro path content hnew hfile
      rw [hwalked.toGrows.file hfile] at hnew
      cases hnew
    · intro member hmember
      exact absurd hmember List.not_mem_nil
  apply (extractEntries_spec
    (I := fun remaining _ s => ∃ done, members = done ++ remaining ∧ Unpacked stream destination base done s)
    (E := Leaves stream destRel members base) ?_ ?_ members 0).conseq
  · rintro s' rfl
    exact ⟨[], rfl, hstart⟩
  · rintro _ s' ⟨done, hmembers, hs'⟩
    rw [hmembers]
    exact hs'.leaves hready.clean_eq []
  · exact fun _ h => h
  · rintro remaining total s' ⟨done, hmembers, hs'⟩
    rw [hmembers]
    exact hs'.leaves hready.clean_eq remaining
  · rintro member remaining total s' ⟨done, hmembers, hs'⟩
    have hmember : member ∈ members := by
      rw [hmembers]
      exact List.mem_append_right done List.mem_cons_self
    obtain ⟨parts, hparts⟩ := hready.resolved member hmember
    apply (extractEntry_spec hparts s').conseq (fun _ hp => hp)
    · intro total' s'' hdone
      refine ⟨done ++ [member], ?_, hs'.snoc hparts (hstreams member hmember) hdone⟩
      rw [hmembers, List.append_assoc]
      rfl
    · intro s'' hfailed
      rw [hmembers]
      exact (hs'.grows (hfailed.grows hremoves)).leaves hready.clean_eq (member :: remaining)

/-- Wherever an extraction stops, what was there is what it was and a new file is whole; an entry with an object in its
way makes it fail, and leaves the object. -/
theorem extraction_leaves_whole_files {stream : Member → Bytes} {members : List Member} (hremoves : Removes host)
    (hstreams : ∀ member ∈ members, member.reader.Follows (stream member)) (zipRel destRel : Bytes) (l : ZipLimits)
    (w : World) :
    Leaves stream destRel members w.store (extractZipWithLimits host zipRel destRel l members w).2.store ∧
      ∀ done member later, members = done ++ member :: later →
        (∀ e w', extractUntil host zipRel destRel l members done w = (.error e, w') →
          extractZipWithLimits host zipRel destRel l members w = (.error e, w')) ∧
        ∀ limits destination total w',
          extractUntil host zipRel destRel l members done w = (.ok (limits, destination, total), w') →
            Kept w.store w'.store ∧
              ∀ parts path, resolve false member.entry.name = some parts →
                Blocks w'.store destination member parts path →
                  (∃ e, (extractZipWithLimits host zipRel destRel l members w).1 = .error e) ∧
                    (extractZipWithLimits host zipRel destRel l members w).2.store.tree.lookup path =
                      w'.store.tree.lookup path := by
  constructor
  · exact (extractZipWithLimits_leaves hremoves hstreams w.store).final (fun _ _ h => h) (fun _ h => h) rfl
  rintro done member later rfl
  rw [extractZipWithLimits_eq]
  constructor
  · intro e w' hrun
    exact Effect.bind_error hrun
  intro limits destination total w' hrun
  obtain ⟨hresolved, hkept⟩ :=
    reached_of_extractUntil (fun member hmember => List.mem_append_left _ hmember) hrun
  refine ⟨hkept, ?_⟩
  intro parts path hparts hblocks
  obtain ⟨parts', hparts'⟩ := hresolved member (List.mem_append_right done List.mem_cons_self)
  have hsame : parts' = parts := Option.some.inj (hparts'.resolve_eq.symm.trans hparts)
  rw [hsame] at hparts'
  rw [Effect.bind_ok hrun]
  have hblocked : Spec (fun s => s = w'.store)
      (extractEntries host limits destination total (member :: later) >>= fun _ => pure ()) (fun _ _ => False)
      fun s => s.tree.lookup path = w'.store.tree.lookup path := extractEntries_blocked hremoves hparts' hblocks
  obtain ⟨hok, herror⟩ := hblocked w' rfl
  cases hend : ((extractEntries host limits destination total (member :: later) >>= fun _ =>
      (pure () : Extraction Unit)) w').1 with
  | ok b =>
      exact (hok b hend).elim
  | error e =>
      exact ⟨⟨e, rfl⟩, herror e hend⟩

/-- Two entries of one name. -/
theorem extraction_leaves_whole_files_twice :
    Leaves (fun member => if member.entry.compressedSize = 1 then lit "b" else lit "cc") (lit "out")
      [⟨⟨lit "a", .regular, 1, 1⟩, Reader.ofBytes (lit "b")⟩, ⟨⟨lit "a", .regular, 2, 2⟩, Reader.ofBytes (lit "cc")⟩]
      ⟨∅, []⟩
      (extractZipWithLimits ⟨fun _ _ => none, fun _ count => count, 1⟩ (lit "z") (lit "out") {}
        [⟨⟨lit "a", .regular, 1, 1⟩, Reader.ofBytes (lit "b")⟩,
          ⟨⟨lit "a", .regular, 2, 2⟩, Reader.ofBytes (lit "cc")⟩] ⟨⟨∅, []⟩, 99, 0⟩).2.store := by
  have hremoves : Removes ⟨fun _ _ => none, fun _ count => count, 1⟩ := fun _ => rfl
  have hstreams : ∀ member ∈ ([⟨⟨lit "a", .regular, 1, 1⟩, Reader.ofBytes (lit "b")⟩,
      ⟨⟨lit "a", .regular, 2, 2⟩, Reader.ofBytes (lit "cc")⟩] : List Member),
      member.reader.Follows (if member.entry.compressedSize = 1 then lit "b" else lit "cc") := by
    intro member hmember
    simp only [List.mem_cons, List.not_mem_nil, or_false] at hmember
    rcases hmember with rfl | rfl
    · exact follows_ofBytes (lit "b")
    · exact follows_ofBytes (lit "cc")
  exact (extraction_leaves_whole_files hremoves hstreams (lit "z") (lit "out") {} ⟨⟨∅, []⟩, 99, 0⟩).1

end Disk

end FS

end CanonicalPath
