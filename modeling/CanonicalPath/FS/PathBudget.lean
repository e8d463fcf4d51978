import CanonicalPath.FS.ExtractionLimits

/-!
# Path budget — the work that a preflight has charged

The budget is charged with the components of cleaned names before any output.  The directories are made later, by
the walks to the destination, to each directory entry and to the parent of each file.

* `SoundAdd` : no operation of `add` leaves its range
* `Spends` : what the walks and the files of an entry add to the log
* `extraction_within_path_budgets` : the log of a run stays below the budget of its preflight
-/

namespace CanonicalPath

namespace FS

open CodeUnit Segments Outcome Go

/-! ## Adding to a budget -/

/-- Each counter is below its limit. -/
structure Within (limits : ZipLimits) (b : ZipPathBudget) : Prop where
  components : 0 ≤ b.components ∧ b.components ≤ limits.maxTotalPathComponents
  directories : 0 ≤ b.directories ∧ b.directories ≤ limits.maxDirectories
  objects : 0 ≤ b.objects ∧ b.objects ≤ limits.maxObjects

/-- The depth that `add` counts a name below. -/
def ZipPathBudget.parentDepth (b : ZipPathBudget) (destination : Bool) : Int :=
  if destination then 0 else b.destinationDepth

/-- The directories among the components of a name. -/
def directoryDepth (rel : Bytes) (directory : Bool) : Int :=
  if directory then zipPathDepth rel else zipPathDepth rel - 1

/-- The differences that `add` takes, where it comes to them. -/
def ZipPathBudget.differences (b : ZipPathBudget) (rel : Bytes) (directory destination : Bool) : List Int :=
  if b.parentDepth destination > b.limits.maxPathDepth then
    []
  else if zipPathDepth rel > b.limits.maxPathDepth - b.parentDepth destination then
    [b.limits.maxPathDepth - b.parentDepth destination]
  else
    [b.limits.maxPathDepth - b.parentDepth destination, directoryDepth rel directory,
      b.limits.maxTotalPathComponents - b.components, b.limits.maxDirectories - b.directories,
      b.limits.maxObjects - b.objects]

/-- No operation of `add` leaves its range: no difference is negative, and each sum is below a limit. -/
structure SoundAdd (b : ZipPathBudget) (rel : Bytes) (directory destination : Bool) : Prop where
  depth : 0 ≤ zipPathDepth rel ∧ zipPathDepth rel ≤ b.limits.maxEntryNameBytes
  differences : ∀ difference ∈ b.differences rel directory destination, 0 ≤ difference
  sums : ∀ next, b.add rel directory destination = .ok next → Within b.limits next

/-- What an accepted name adds. -/
structure Added (b : ZipPathBudget) (rel : Bytes) (directory destination : Bool) (next : ZipPathBudget) : Prop where
  limits_eq : next.limits = b.limits
  destinationDepth_eq : next.destinationDepth = b.destinationDepth
  depth_le : b.parentDepth destination + zipPathDepth rel ≤ b.limits.maxPathDepth
  components_eq : next.components = b.components + zipPathDepth rel
  components_le : next.components ≤ b.limits.maxTotalPathComponents
  directories_eq : next.directories = b.directories + directoryDepth rel directory
  directories_le : next.directories ≤ b.limits.maxDirectories
  objects_eq : next.objects = b.objects + zipPathDepth rel
  objects_le : next.objects ≤ b.limits.maxObjects

theorem added_of_add {b next : ZipPathBudget} {rel : Bytes} {directory destination : Bool}
    (h : b.add rel directory destination = .ok next) : Added b rel directory destination next := by
  rw [ZipPathBudget.add] at h
  simp only [newError, ite_error_eq_ok_iff, not_or, Int.not_lt] at h
  obtain ⟨⟨-, hdepth⟩, ⟨hcomponents, hdirectories, hobjects⟩, hnext⟩ := h
  cases hnext
  exact {
    limits_eq := rfl
    destinationDepth_eq := rfl
    depth_le := Int.add_le_of_le_sub_left hdepth
    components_eq := rfl
    components_le := Int.add_le_of_le_sub_left hcomponents
    directories_eq := rfl
    directories_le := Int.add_le_of_le_sub_left hdirectories
    objects_eq := rfl
    objects_le := Int.add_le_of_le_sub_left hobjects
  }

theorem zipPathDepth_nonneg (rel : Bytes) : 0 ≤ zipPathDepth rel := by
  rw [zipPathDepth]
  split_ifs
  · exact Int.le_refl 0
  · exact Int.natCast_nonneg (rel.count (chr '/') + 1)

/-- A directory has all of its components made, a file all but the last. -/
theorem directoryDepth_nonneg {rel : Bytes} {directory : Bool} (h : directory = true ∨ 1 ≤ zipPathDepth rel) :
    0 ≤ directoryDepth rel directory := by
  rw [directoryDepth]
  split_ifs with hdirectory
  · exact zipPathDepth_nonneg rel
  · exact Int.sub_nonneg_of_le (h.resolve_left hdirectory)

section

variable {b next : ZipPathBudget} {rel : Bytes} {directory destination : Bool}

theorem Added.within (h : Added b rel directory destination next) (hb : Within b.limits b)
    (hdirectory : directory = true ∨ 1 ≤ zipPathDepth rel) : Within b.limits next where
  components := by
    refine ⟨?_, h.components_le⟩
    rw [h.components_eq]
    exact Int.add_nonneg hb.components.1 (zipPathDepth_nonneg rel)
  directories := by
    refine ⟨?_, h.directories_le⟩
    rw [h.directories_eq]
    exact Int.add_nonneg hb.directories.1 (directoryDepth_nonneg hdirectory)
  objects := by
    refine ⟨?_, h.objects_le⟩
    rw [h.objects_eq]
    exact Int.add_nonneg hb.objects.1 (zipPathDepth_nonneg rel)

/-- From a budget within its limits nothing leaves its range. -/
theorem soundAdd_of_within (hb : Within b.limits b) (hdepth : zipPathDepth rel ≤ b.limits.maxEntryNameBytes)
    (hdirectory : directory = true ∨ 1 ≤ zipPathDepth rel) : SoundAdd b rel directory destination where
  depth := ⟨zipPathDepth_nonneg rel, hdepth⟩
  differences := by
    intro difference hmem
    rw [ZipPathBudget.differences] at hmem
    split_ifs at hmem with hparent hdeep
    · exact absurd hmem List.not_mem_nil
    · cases List.mem_singleton.1 hmem
      exact Int.sub_nonneg_of_le (Int.not_lt.1 hparent)
    · simp only [List.mem_cons, List.not_mem_nil, or_false] at hmem
      rcases hmem with rfl | rfl | rfl | rfl | rfl
      · exact Int.sub_nonneg_of_le (Int.not_lt.1 hparent)
      · exact directoryDepth_nonneg hdirectory
      · exact Int.sub_nonneg_of_le hb.components.2
      · exact Int.sub_nonneg_of_le hb.directories.2
      · exact Int.sub_nonneg_of_le hb.objects.2
  sums := fun _ hnext => (added_of_add hnext).within hb hdirectory

end

/-! ## Names -/

/-- A cleaned name is as deep as it has components. -/
theorem zipPathDepth_spell {parts : List Bytes} (h : ∀ part ∈ parts, IsName part) :
    zipPathDepth (spell parts) = parts.length := by
  rw [zipPathDepth]
  split_ifs with hdot
  · rw [(spell_eq_dot_iff h).1 hdot]
    rfl
  · have hne : parts ≠ [] := fun hnil => hdot ((spell_eq_dot_iff h).2 hnil)
    rw [spell, if_neg hne, ← count_joinOn (fun part hpart => (h part hpart).slash_not_mem) hne]
    rfl

/-- A name has no more components than bytes. -/
theorem length_parts_le {name : Bytes} {parts : List Bytes} (h : resolve false name = some parts) :
    parts.length ≤ name.length := by
  have hne : ∀ part ∈ parts, part ≠ [] := fun part hpart => (isName_of_resolve h part hpart).ne_nil
  exact Nat.le_trans (length_le_length_joinOn hne) (length_joinOn_le_of_resolve h)

/-- A cleaned name is no deeper than the name it comes from is long. -/
theorem zipPathDepth_le_of_cleanRelative {rel clean : Bytes} (h : cleanRelative rel = .ok clean) :
    zipPathDepth clean ≤ rel.length := by
  obtain ⟨-, parts, hresolve, hspell⟩ := cleanRelative_eq_ok_iff.1 h
  rw [← hspell, zipPathDepth_spell (isName_of_resolve hresolve)]
  exact Int.ofNat_le.2 (length_parts_le hresolve)

theorem Resolved.spell_eq {entry : ZipEntry} {parts : List Bytes} {path : Bytes} (h : Resolved entry parts)
    (hpath : zipEntryPath (lit ".") entry.name = .ok path) : path = spell parts := by
  rw [h.path_eq] at hpath
  rw [spell, if_neg h.ne_nil]
  exact (Except.ok.inj hpath).symm

/-- A member path is not empty, and no deeper than its name is long. -/
theorem zipPathDepth_of_zipEntryPath {entry : ZipEntry} {path : Bytes}
    (h : zipEntryPath (lit ".") entry.name = .ok path) :
    1 ≤ zipPathDepth path ∧ zipPathDepth path ≤ entry.name.length := by
  obtain ⟨parts, hparts⟩ := exists_resolved h
  rw [hparts.spell_eq h, zipPathDepth_spell hparts.names]
  have hpos : 0 < parts.length := List.length_pos_of_ne_nil hparts.ne_nil
  exact ⟨Int.ofNat_le.2 hpos, Int.ofNat_le.2 (length_parts_le hparts.resolve_eq)⟩

/-! ## The budget of a preflight -/

/-- What every entry leaves of a budget. -/
structure Grants (b next : ZipPathBudget) : Prop where
  limits_eq : next.limits = b.limits
  destinationDepth_eq : next.destinationDepth = b.destinationDepth
  directories_le : b.directories ≤ next.directories
  objects_le : b.objects ≤ next.objects
  within : Within b.limits b → Within b.limits next

theorem Grants.refl (b : ZipPathBudget) : Grants b b where
  limits_eq := rfl
  destinationDepth_eq := rfl
  directories_le := Int.le_refl _
  objects_le := Int.le_refl _
  within := fun h => h

theorem Grants.trans {b b' b'' : ZipPathBudget} (h : Grants b b') (h' : Grants b' b'') : Grants b b'' where
  limits_eq := h'.limits_eq.trans h.limits_eq
  destinationDepth_eq := h'.destinationDepth_eq.trans h.destinationDepth_eq
  directories_le := Int.le_trans h.directories_le h'.directories_le
  objects_le := Int.le_trans h.objects_le h'.objects_le
  within := by
    intro hb
    have hnext := h'.within
    rw [h.limits_eq] at hnext
    exact hnext (h.within hb)

theorem Added.grants {b next : ZipPathBudget} {rel : Bytes} {directory destination : Bool}
    (h : Added b rel directory destination next) (hdirectory : directory = true ∨ 1 ≤ zipPathDepth rel) :
    Grants b next where
  limits_eq := h.limits_eq
  destinationDepth_eq := h.destinationDepth_eq
  directories_le := by
    rw [h.directories_eq]
    exact Int.le_add_of_nonneg_right (directoryDepth_nonneg hdirectory)
  objects_le := by
    rw [h.objects_eq]
    exact Int.le_add_of_nonneg_right (zipPathDepth_nonneg rel)
  within := fun hb => h.within hb hdirectory

theorem Admits.grants {limits : ZipLimits} {budget : ZipPathBudget} {declared : UInt64} {entry : ZipEntry}
    {next : ZipPathBudget × UInt64} (h : Admits limits budget declared entry next) : Grants budget next.1 := by
  obtain ⟨path, hpath, hadd⟩ := h.added
  exact (added_of_add hadd).grants (Or.inr (zipPathDepth_of_zipEntryPath hpath).1)

theorem grants_of_preflightFrom {limits : ZipLimits} {start next : ZipPathBudget × UInt64} {entries : List ZipEntry}
    (h : Disk.preflightFrom limits start entries = .ok next) : Grants start.1 next.1 := by
  apply foldlM_keeps (P := fun next => Grants start.1 next.1) h
  · exact Grants.refl start.1
  · intro middle entry next hmiddle hnext
    exact hmiddle.trans (admits_of_preflightEntry hnext).grants

/-- The budget that nothing has been added to. -/
theorem within_start {l limits : ZipLimits} (h : defaultZipLimits l = .ok limits) (depth : Int) :
    Within limits { limits := limits, destinationDepth := depth } := by
  have hlimits := Disk.nonNegative_of_defaultZipLimits h
  exact {
    components := ⟨Int.le_refl 0, hlimits.maxTotalPathComponents⟩
    directories := ⟨Int.le_refl 0, hlimits.maxDirectories⟩
    objects := ⟨Int.le_refl 0, hlimits.maxObjects⟩
  }

/-- What the destination leaves. -/
theorem within_of_destinationBudget {l limits : ZipLimits} {destClean : Bytes} {budget : ZipPathBudget}
    (hlimits : defaultZipLimits l = .ok limits) (h : destinationBudget limits destClean = .ok budget) :
    budget.limits = limits ∧ Within limits budget := by
  have hadded := added_of_add h
  exact ⟨hadded.limits_eq, hadded.within (within_start hlimits _) (Or.inl rfl)⟩

namespace Disk

variable {host : Host}

/-! ## The work of an entry -/

/-- The components of the path that an event makes. -/
def Event.depth : Event → Nat
  | .mkdir path => path.length
  | .create path => path.length
  | _ => 0

/-- At most so many directories and objects are asked for between two stores, no deeper than this. -/
structure Spends (depth directories objects : Nat) (s s' : Store) : Prop where
  directories_le : tally Event.directories s'.log ≤ tally Event.directories s.log + directories
  objects_le : tally Event.objects s'.log ≤ tally Event.objects s.log + objects
  depth_le : ∀ event ∈ s'.log, event ∈ s.log ∨ event.depth ≤ depth

theorem Spends.trans {depth directories objects directories' objects' : Nat} {s s' s'' : Store}
    (h : Spends depth directories objects s s') (h' : Spends depth directories' objects' s' s'') :
    Spends depth (directories + directories') (objects + objects') s s'' where
  directories_le := by
    rw [← Nat.add_assoc]
    exact Nat.le_trans h'.directories_le (Nat.add_le_add_right h.directories_le _)
  objects_le := by
    rw [← Nat.add_assoc]
    exact Nat.le_trans h'.objects_le (Nat.add_le_add_right h.objects_le _)
  depth_le := by
    intro event hevent
    cases h'.depth_le event hevent with
    | inl hold =>
        exact h.depth_le event hold
    | inr hnew =>
        exact Or.inr hnew

theorem Spends.mono {depth directories objects directories' objects' : Nat} {s s' : Store}
    (h : Spends depth directories objects s s') (hdirectories : directories ≤ directories')
    (hobjects : objects ≤ objects') : Spends depth directories' objects' s s' where
  directories_le := Nat.le_trans h.directories_le (Nat.add_le_add_left hdirectories _)
  objects_le := Nat.le_trans h.objects_le (Nat.add_le_add_left hobjects _)
  depth_le := h.depth_le

theorem Walks.spends {dir parts : List Bytes} {s s' : Store} (h : Walks dir parts s s') {depth : Nat}
    (hdepth : dir.length + parts.length ≤ depth) : Spends depth parts.length parts.length s s' where
  directories_le := by
    have hle : tally Event.directories s'.log ≤ tally Event.directories s.log + 1 * parts.length :=
      h.tally_le fun _ => rfl
    rw [Nat.one_mul] at hle
    exact hle
  objects_le := by
    have hle : tally Event.objects s'.log ≤ tally Event.objects s.log + 1 * parts.length :=
      h.tally_le fun _ => rfl
    rw [Nat.one_mul] at hle
    exact hle
  depth_le := by
    intro event hevent
    apply (h.mem_log hevent).imp_right
    rintro ⟨front, hfront, rfl⟩
    have hlength := hfront.length_le
    rw [Event.depth, List.length_append]
    omega

theorem spends_refl (depth : Nat) (s : Store) : Spends depth 0 0 s s where
  directories_le := Nat.le_refl _
  objects_le := Nat.le_refl _
  depth_le := fun _ hevent => Or.inl hevent

theorem spends_allowance (depth : Nat) (s : Store) (remaining : Int) :
    Spends depth 0 0 s (s.record (.allowance remaining)) where
  directories_le := by
    rw [Store.record, tally_append]
    exact Nat.le_refl _
  objects_le := by
    rw [Store.record, tally_append]
    exact Nat.le_refl _
  depth_le := by
    intro event hevent
    apply (List.mem_append.1 hevent).imp_right
    intro hnew
    rw [List.mem_singleton.1 hnew]
    exact Nat.zero_le depth

/-- The log of an output file counts one object. -/
theorem spends_file {depth : Nat} {path : List Bytes} (hdepth : path.length ≤ depth) {s s' : Store} {counts : List Nat}
    (hlog : s'.log = s.log ++ .create path :: counts.map (Event.write path)) : Spends depth 0 1 s s' where
  directories_le := by
    have hwrites : ∀ count, Event.directories (.write path count) = 0 * count := fun count => (Nat.zero_mul count).symm
    rw [hlog, tally_append, tally_cons, tally_writes hwrites, Nat.zero_mul]
    exact Nat.le_refl _
  objects_le := by
    have hwrites : ∀ count, Event.objects (.write path count) = 0 * count := fun count => (Nat.zero_mul count).symm
    rw [hlog, tally_append, tally_cons, tally_writes hwrites, Nat.zero_mul]
    exact Nat.le_refl _
  depth_le := by
    intro event hevent
    rw [hlog] at hevent
    apply (List.mem_append.1 hevent).imp_right
    intro hnew
    cases List.mem_cons.1 hnew with
    | inl hcreate =>
        rw [hcreate]
        exact hdepth
    | inr hwrite =>
        obtain ⟨count, -, rfl⟩ := List.mem_map.1 hwrite
        exact Nat.zero_le depth

theorem Written.spends {reader : Reader} {path : List Bytes} {limit n depth : Nat} {s s' : Store}
    (h : Written reader path limit n s s') (hdepth : path.length ≤ depth) : Spends depth 0 1 s s' := by
  obtain ⟨content, hcopying, -⟩ := h.copied
  obtain ⟨counts, -, hlog⟩ := hcopying.calls
  exact spends_file hdepth hlog

theorem Undone.spends {path : List Bytes} {limit depth : Nat} {s s' : Store} (h : Undone host path limit s s')
    (hdepth : path.length ≤ depth) : Spends depth 0 1 s s' := by
  obtain ⟨counts, -, -, hlog⟩ := h.calls
  cases hlog with
  | inl hsame =>
      refine ⟨?_, ?_, ?_⟩
      · rw [hsame]
        exact Nat.le_refl _
      · rw [hsame]
        exact Nat.le_succ _
      · rw [hsame]
        exact fun _ hevent => Or.inl hevent
  | inr hlog =>
      exact spends_file hdepth hlog

/-- The directories that the walks of an entry ask for. -/
def entryDirectories (member : Member) (parts : List Bytes) : Nat :=
  if member.entry.mode = .directory then parts.length else parts.length - 1

section

variable {limits : ZipLimits} {destination parts : List Bytes} {total : Int} {member : Member} {s s' : Store}

/-- A walk to the parent and a file behind it are the work of a file. -/
theorem spends_parent {s'' : Store} (hparts : parts ≠ []) (hmode : member.entry.mode ≠ .directory)
    (hwalks : Walks destination parts.dropLast s s')
    (hfile : Spends (destination.length + parts.length) 0 1 s' s'') :
    Spends (destination.length + parts.length) (entryDirectories member parts) parts.length s s'' := by
  have hpos : 0 < parts.length := List.length_pos_of_ne_nil hparts
  have hparent : destination.length + parts.dropLast.length ≤ destination.length + parts.length := by
    rw [List.length_dropLast]
    omega
  have hboth := (hwalks.spends hparent).trans hfile
  rw [List.length_dropLast, Nat.sub_add_cancel hpos] at hboth
  rw [entryDirectories, if_neg hmode]
  exact hboth

theorem EntryDone.spends {total' : Int} (hparts : parts ≠ [])
    (h : EntryDone limits destination total member parts s total' s') :
    Spends (destination.length + parts.length) (entryDirectories member parts) parts.length s s' := by
  cases h with
  | directory hmode hwalked =>
      rw [entryDirectories, if_pos hmode]
      exact hwalked.walks.spends (Nat.le_refl _)
  | file hmode hwalked hwritten =>
      have hlength : (destination ++ parts).length ≤ destination.length + parts.length :=
        Nat.le_of_eq List.length_append
      exact spends_parent hparts hmode hwalked.walks ((spends_allowance _ _ _).trans (hwritten.spends hlength))

theorem EntryFailed.spends (hparts : parts ≠ []) (h : EntryFailed host limits destination total member parts s s') :
    Spends (destination.length + parts.length) (entryDirectories member parts) parts.length s s' := by
  cases h with
  | context =>
      exact (spends_refl _ s).mono (Nat.zero_le _) (Nat.zero_le _)
  | directory hmode hwalks =>
      rw [entryDirectories, if_pos hmode]
      exact hwalks.spends (Nat.le_refl _)
  | parent hmode hwalks =>
      exact spends_parent hparts hmode hwalks ((spends_refl _ s').mono (Nat.le_refl 0) (Nat.zero_le 1))
  | file hmode hwalked hundone =>
      have hlength : (destination ++ parts).length ≤ destination.length + parts.length :=
        Nat.le_of_eq List.length_append
      exact spends_parent hparts hmode hwalked.walks ((spends_allowance _ _ _).trans (hundone.spends hlength))

end

/-! ## The work of a run -/

/-- The log of a store stays below a budget. -/
structure LogWithin (b : ZipPathBudget) (s : Store) : Prop where
  directories_le : (tally Event.directories s.log : Int) ≤ b.directories
  objects_le : (tally Event.objects s.log : Int) ≤ b.objects
  depth_le : ∀ event ∈ s.log, (event.depth : Int) ≤ b.limits.maxPathDepth

theorem LogWithin.empty {b : ZipPathBudget} (h : Within b.limits b) (tree : Tree) : LogWithin b ⟨tree, []⟩ where
  directories_le := h.directories.1
  objects_le := h.objects.1
  depth_le := fun _ hevent => absurd hevent List.not_mem_nil

theorem LogWithin.grants {b next : ZipPathBudget} {s : Store} (h : LogWithin b s) (hgrants : Grants b next) :
    LogWithin next s where
  directories_le := Int.le_trans h.directories_le hgrants.directories_le
  objects_le := Int.le_trans h.objects_le hgrants.objects_le
  depth_le := by
    rw [hgrants.limits_eq]
    exact h.depth_le

/-- What a name has charged covers the work that is done for it. -/
theorem LogWithin.spends {b next : ZipPathBudget} {rel : Bytes} {directory destination : Bool}
    {depth directories objects : Nat} {s s' : Store} (h : LogWithin b s)
    (hadded : Added b rel directory destination next) (hspends : Spends depth directories objects s s')
    (hdirectories : directories ≤ directoryDepth rel directory) (hobjects : objects ≤ zipPathDepth rel)
    (hdepth : depth ≤ b.parentDepth destination + zipPathDepth rel) : LogWithin next s' where
  directories_le := by
    have hold := h.directories_le
    have hnew := hspends.directories_le
    rw [hadded.directories_eq]
    omega
  objects_le := by
    have hold := h.objects_le
    have hnew := hspends.objects_le
    rw [hadded.objects_eq]
    omega
  depth_le := by
    intro event hevent
    rw [hadded.limits_eq]
    cases hspends.depth_le event hevent with
    | inl hold =>
        exact h.depth_le event hold
    | inr hnew =>
        exact Int.le_trans (Int.ofNat_le.2 hnew) (Int.le_trans hdepth hadded.depth_le)

/-- An entry stays below what it has charged. -/
theorem logWithin_of_entry {limits : ZipLimits} {b : ZipPathBudget} {declared : UInt64}
    {next : ZipPathBudget × UInt64} {destination parts : List Bytes} {member : Member} {s s' : Store}
    (hadmits : Admits limits b declared member.entry next) (hresolved : Resolved member.entry parts)
    (hdestination : b.destinationDepth = destination.length) (h : LogWithin b s)
    (hspends : Spends (destination.length + parts.length) (entryDirectories member parts) parts.length s s') :
    LogWithin next.1 s' := by
  obtain ⟨path, hpath, hadd⟩ := hadmits.added
  have hdepth : zipPathDepth path = parts.length := by
    rw [hresolved.spell_eq hpath, zipPathDepth_spell hresolved.names]
  have hpos : 0 < parts.length := List.length_pos_of_ne_nil hresolved.ne_nil
  apply h.spends (added_of_add hadd) hspends
  · rw [directoryDepth, entryDirectories, hdepth]
    cases member.entry.mode with
    | directory =>
        exact Int.le_refl _
    | regular =>
        change ((parts.length - 1 : Nat) : Int) ≤ (parts.length : Int) - 1
        omega
    | special =>
        change ((parts.length - 1 : Nat) : Int) ≤ (parts.length : Int) - 1
        omega
  · exact Int.le_of_eq hdepth.symm
  · rw [ZipPathBudget.parentDepth, hdestination, hdepth]
    exact Int.le_refl _

/-- The loop stays below the budget of the preflight: behind each entry its log is below what the preflight had charged
up to there. -/
theorem extractEntries_logWithin {limits : ZipLimits} {destination : List Bytes} {members : List Member}
    {start last : ZipPathBudget × UInt64} (hpreflight : preflightFrom limits start (members.map Member.entry) = .ok last)
    (hdestination : start.1.destinationDepth = destination.length) (total : Int) :
    Spec (LogWithin start.1) (extractEntries host limits destination total members) (fun _ => LogWithin last.1)
      (LogWithin last.1) := by
  apply (extractEntries_spec
    (I := fun members _ s => ∃ next, preflightFrom limits next (members.map Member.entry) = .ok last ∧
      next.1.destinationDepth = destination.length ∧ LogWithin next.1 s)
    (E := LogWithin last.1) ?_ ?_ members total).conseq
  · exact fun s hs => ⟨start, hpreflight, hdestination, hs⟩
  · rintro _ s ⟨next, hrest, -, hs⟩
    cases hrest
    exact hs
  · exact fun _ h => h
  · rintro members total s ⟨next, hrest, -, hs⟩
    exact hs.grants (grants_of_preflightFrom hrest)
  · rintro member members total s ⟨next, hrest, hdepth, hs⟩
    rw [preflightFrom, List.map_cons, List.foldlM_cons] at hrest
    obtain ⟨next', hnext, hrest⟩ := bind_eq_ok_iff.1 hrest
    have hadmits := admits_of_preflightEntry hnext
    obtain ⟨path, hpath, -⟩ := hadmits.added
    obtain ⟨parts, hparts⟩ := exists_resolved hpath
    apply (extractEntry_spec hparts s).conseq (fun _ hp => hp)
    · intro total' s' hdone
      refine ⟨next', hrest, hadmits.grants.destinationDepth_eq.trans hdepth, ?_⟩
      exact logWithin_of_entry hadmits hparts hdepth hs (hdone.spends hparts.ne_nil)
    · intro s' hfailed
      have hstopped := logWithin_of_entry hadmits hparts hdepth hs (hfailed.spends hparts.ne_nil)
      exact hstopped.grants (grants_of_preflightFrom hrest)

/-- The walk to the destination stays below what it has charged. -/
theorem logWithin_of_destination {l limits : ZipLimits} {parts : List Bytes} {budget : ZipPathBudget} {tree : Tree}
    {s : Store} (hlimits : defaultZipLimits l = .ok limits)
    (hbudget : destinationBudget limits (spell parts) = .ok budget) (hnames : ∀ part ∈ parts, IsName part)
    (hwalks : Walks [] parts ⟨tree, []⟩ s) :
    budget.destinationDepth = parts.length ∧ LogWithin budget s := by
  have hadded := added_of_add hbudget
  have hdepth := zipPathDepth_spell hnames
  have hempty : LogWithin { limits := limits, destinationDepth := zipPathDepth (spell parts) } ⟨tree, []⟩ :=
    LogWithin.empty (within_start hlimits _) tree
  have hspends : Spends parts.length parts.length parts.length ⟨tree, []⟩ s :=
    hwalks.spends (Nat.le_of_eq (Nat.zero_add _))
  refine ⟨hadded.destinationDepth_eq.trans hdepth, hempty.spends hadded hspends ?_ ?_ ?_⟩
  · rw [directoryDepth, if_pos rfl]
    exact Int.le_of_eq hdepth.symm
  · exact Int.le_of_eq hdepth.symm
  · rw [hdepth]
    exact Int.le_of_eq (Int.zero_add _).symm

/-- Throughout a preflight every counter is within its limit and every operation of `add` within its range; and what
an accepted archive has charged covers the calls of its extraction, however it ends. -/
theorem extraction_within_path_budgets {l limits : ZipLimits} {destRel destClean : Bytes}
    (hlimits : defaultZipLimits l = .ok limits) (hname : checkDestinationName limits destRel = .ok ())
    (hclean : cleanRelative destRel = .ok destClean) :
    SoundAdd { limits := limits, destinationDepth := zipPathDepth destClean } destClean true true ∧
      ∀ budget, destinationBudget limits destClean = .ok budget →
        (∀ entries next, preflightFrom limits (budget, 0) entries = .ok next →
          next.1.limits = limits ∧ Within limits next.1 ∧
            ∀ (entry : ZipEntry) path, (entry.name.length : Int) ≤ limits.maxEntryNameBytes →
              zipEntryPath (lit ".") entry.name = .ok path →
                SoundAdd next.1 path (entry.mode == .directory) false) ∧
        ∀ members last, preflightFrom limits (budget, 0) (members.map Member.entry) = .ok last →
          ∀ (host : Host) (zipRel : Bytes) (tree : Tree) (patience calls : Nat),
            let s := (extractZipWithLimits host zipRel destRel l members ⟨⟨tree, []⟩, patience, calls⟩).2.store
            LogWithin last.1 s ∧ (tally Event.directories s.log : Int) ≤ limits.maxDirectories := by
  constructor
  · have hlength : (destRel.length : Int) ≤ limits.maxEntryNameBytes := by
      rw [checkDestinationName, newError, ite_error_eq_ok_iff] at hname
      exact Int.not_lt.1 hname.1
    apply soundAdd_of_within (within_start hlimits _) _ (Or.inl rfl)
    exact Int.le_trans (zipPathDepth_le_of_cleanRelative hclean) hlength
  intro budget hbudget
  obtain ⟨hsame, hwithin⟩ := within_of_destinationBudget hlimits hbudget
  -- what has been granted keeps the limits and stays within them
  have hpreflight {entries : List ZipEntry} {next : ZipPathBudget × UInt64}
      (h : preflightFrom limits (budget, 0) entries = .ok next) : next.1.limits = limits ∧ Within limits next.1 := by
    have hgrants := grants_of_preflightFrom h
    have hnext := hgrants.within
    rw [hsame] at hnext
    exact ⟨hgrants.limits_eq.trans hsame, hnext hwithin⟩
  constructor
  · intro entries next hnext
    obtain ⟨hnextLimits, hnextWithin⟩ := hpreflight hnext
    refine ⟨hnextLimits, hnextWithin, ?_⟩
    intro entry path hlength hpath
    obtain ⟨hpos, hle⟩ := zipPathDepth_of_zipEntryPath hpath
    apply soundAdd_of_within _ _ (Or.inr hpos)
    · rw [hnextLimits]
      exact hnextWithin
    · rw [hnextLimits]
      exact Int.le_trans hle hlength
  · intro members last hlast host zipRel tree patience calls
    obtain ⟨hlastLimits, hlastWithin⟩ := hpreflight hlast
    have hempty : LogWithin last.1 ⟨tree, []⟩ := by
      apply LogWithin.empty
      rw [hlastLimits]
      exact hlastWithin
    -- an extraction that stops early has made fewer calls than were charged
    have hextract : Spec (fun s => s = ⟨tree, []⟩) (extractZipWithLimits host zipRel destRel l members)
        (fun _ => LogWithin last.1) (LogWithin last.1) := by
      apply extractZipWithLimits_spec hempty
      intro limits' parts hready hnames
      have hsameLimits : limits' = limits := Except.ok.inj (hready.limits_eq.symm.trans hlimits)
      have hsameClean : spell parts = destClean := Except.ok.inj (hready.clean_eq.symm.trans hclean)
      subst hsameLimits
      rw [← hsameClean] at hbudget
      refine ⟨?_, ?_⟩
      · intro s hwalks
        obtain ⟨-, hs⟩ := logWithin_of_destination hlimits hbudget hnames hwalks
        exact hs.grants (grants_of_preflightFrom hlast)
      · intro s hwalked
        obtain ⟨hdepth, hs⟩ := logWithin_of_destination hlimits hbudget hnames hwalked.walks
        apply (extractEntries_logWithin hlast hdepth 0).conseq _ (fun _ _ h => h) fun _ h => h
        rintro s' rfl
        exact hs
    have hs := hextract.final (fun _ _ h => h) (fun _ h => h) (w := ⟨⟨tree, []⟩, patience, calls⟩) rfl
    exact ⟨hs, Int.le_trans hs.directories_le hlastWithin.directories.2⟩

/-- A file two components below the root handle, which charges three components and two directories. -/
theorem extraction_within_path_budgets_file :
    let s := (extractZipWithLimits ⟨fun _ _ => none, fun _ count => count, 1⟩ (lit "z") (lit "out")
      ⟨64, 4, 2, 3, 1000, 30, 64, 3, 3, 2, 3⟩ [⟨⟨lit "a/b", .regular, 1, 1⟩, Reader.ofBytes (lit "c")⟩]
      ⟨⟨∅, []⟩, 99, 0⟩).2.store
    LogWithin ⟨⟨64, 4, 2, 3, 1000, 30, 64, 3, 3, 2, 3⟩, 1, 3, 2, 3⟩ s ∧
      (tally Event.directories s.log : Int) ≤ 2 := by
  have hlimits : defaultZipLimits ⟨64, 4, 2, 3, 1000, 30, 64, 3, 3, 2, 3⟩ =
      .ok ⟨64, 4, 2, 3, 1000, 30, 64, 3, 3, 2, 3⟩ := by
    decide
  have hname : checkDestinationName ⟨64, 4, 2, 3, 1000, 30, 64, 3, 3, 2, 3⟩ (lit "out") = .ok () := by
    decide
  have hclean : cleanRelative (lit "out") = .ok (lit "out") := by
    decide
  have hbudget : destinationBudget ⟨64, 4, 2, 3, 1000, 30, 64, 3, 3, 2, 3⟩ (lit "out") =
      .ok ⟨⟨64, 4, 2, 3, 1000, 30, 64, 3, 3, 2, 3⟩, 1, 1, 1, 1⟩ := by
    decide
  have hpreflight : preflightFrom ⟨64, 4, 2, 3, 1000, 30, 64, 3, 3, 2, 3⟩
      (⟨⟨64, 4, 2, 3, 1000, 30, 64, 3, 3, 2, 3⟩, 1, 1, 1, 1⟩, 0) [⟨lit "a/b", .regular, 1, 1⟩] =
        .ok (⟨⟨64, 4, 2, 3, 1000, 30, 64, 3, 3, 2, 3⟩, 1, 3, 2, 3⟩, 1) := by
    decide
  have hcharged := ((extraction_within_path_budgets hlimits hname hclean).2 _ hbudget).2
    [⟨⟨lit "a/b", .regular, 1, 1⟩, Reader.ofBytes (lit "c")⟩] _ hpreflight
  exact hcharged ⟨fun _ _ => none, fun _ count => count, 1⟩ (lit "z") ∅ 99 0

end Disk

end FS

end CanonicalPath
