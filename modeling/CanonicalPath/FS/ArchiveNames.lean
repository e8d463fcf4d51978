import CanonicalPath.FS.Archive

/-!
# Archive names — which path operations an archive can fail

The preflight looks at a whole member path, the extraction at its components one by one.  A component
behind the first one may have a drive marker, which the whole path hides and `cleanRelative` rejects.

* `prepare_ok` : what has been checked when the first write begins
* `extractZipWithLimits_of_unmarked` : what can fail behind it
* `extractEntries_accepted_iff` : when no name can be rejected after it
-/

namespace CanonicalPath

namespace FS

open CodeUnit Segments Outcome Go Traced

/-! ## Components -/

/-- A name that a path operation does not reject. -/
def Accepted (name : Bytes) : Prop :=
  ∃ clean, cleanRelative name = .ok clean

theorem accepted_dot : Accepted (lit ".") :=
  ⟨lit ".", rfl⟩

/-- A component of an accepted path can only have a drive marker left. -/
theorem accepted_name_iff {name : Bytes} (h : IsName name) (hnul : nul ∉ name)
    (hback : chr '\\' ∉ name) : Accepted name ↔ needsRelativeMarker name = false := by
  have hhead : name.head? ≠ some (chr '/') := by
    intro hhead
    exact h.slash_not_mem (List.mem_of_mem_head? hhead)
  have hnames : ∀ part ∈ [name], IsName part := by
    intro part hpart
    rw [List.mem_singleton] at hpart
    rw [hpart]
    exact h
  have hjoin : joinOn (chr '/') [name] = name := by
    simp [joinOn]
  constructor
  · rintro ⟨clean, hclean⟩
    exact (cleanRelative_eq_ok_iff.1 hclean).1.no_marker
  · intro hmarker
    have hclean := cleanRelative_joinOn hnames (List.cons_ne_nil _ _)
    rw [hjoin] at hclean
    exact ⟨name, hclean ⟨hnul, hback, hhead, hmarker⟩⟩

/-! ## What the preflight leaves -/

/-- An entry that passed: its name resolves to components, and their join is the member path. -/
structure Resolved (entry : ZipEntry) (parts : List Bytes) : Prop where
  resolve_eq : resolve false entry.name = some parts
  path_eq : zipEntryPath (lit ".") entry.name = .ok (joinOn (chr '/') parts)
  ne_nil : parts ≠ []
  names : ∀ part ∈ parts, IsName part
  accepted_iff : ∀ part ∈ parts, Accepted part ↔ needsRelativeMarker part = false

theorem spell_eq_dot_iff {parts : List Bytes} (h : ∀ part ∈ parts, IsName part) :
    spell parts = lit "." ↔ parts = [] := by
  constructor
  · intro hspell
    by_contra hne
    rw [spell, if_neg hne] at hspell
    have hparts : parts = [lit "."] := by
      have hsplit := splitOn_joinOn (fun part hpart => (h part hpart).slash_not_mem) hne
      rw [hspell, splitOn_dot] at hsplit
      exact hsplit.symm
    rw [hparts] at h
    exact (h (lit ".") List.mem_cons_self).ne_dot rfl
  · intro hnil
    rw [spell, if_pos hnil]

/-- The checks of `zipEntryPath`, taken apart. -/
theorem zipEntryPath_ok {name path : Bytes} (h : zipEntryPath (lit ".") name = .ok path) :
    ∃ clean, cleanRelative name = .ok clean ∧ clean ≠ lit "." ∧ cleanRelative clean = .ok path := by
  rw [zipEntryPath] at h
  by_cases hunsafe : name = [] ∨ nul ∈ name ∨ chr '\\' ∈ name ∨ hasPrefix name (lit "/") = true
  · rw [if_pos hunsafe] at h
    cases h
  · rw [if_neg hunsafe] at h
    rcases hclean : cleanRelative name with error | clean
    · rw [hclean] at h
      cases h
    · simp only [hclean, if_true] at h
      by_cases hdot : clean = lit "."
      · rw [if_pos hdot] at h
        cases h
      · rw [if_neg hdot] at h
        refine ⟨clean, rfl, hdot, ?_⟩
        rcases hagain : cleanRelative clean with error | clean'
        · rw [hagain] at h
          cases h
        · rw [hagain] at h
          exact h

theorem exists_resolved {entry : ZipEntry} {path : Bytes}
    (h : zipEntryPath (lit ".") entry.name = .ok path) : ∃ parts, Resolved entry parts := by
  obtain ⟨clean, hclean, hdot, hagain⟩ := zipEntryPath_ok h
  obtain ⟨hrelative, parts, hresolve, hspell⟩ := cleanRelative_eq_ok_iff.1 hclean
  have hnames := isName_of_resolve hresolve
  have hne : parts ≠ [] := by
    rw [ne_eq, ← spell_eq_dot_iff hnames, hspell]
    exact hdot
  rw [spell, if_neg hne] at hspell
  -- the second cleaning finds the same components again
  obtain ⟨-, parts', hresolve', hspell'⟩ := cleanRelative_eq_ok_iff.1 hagain
  rw [← hspell, resolve_joinOn hnames] at hresolve'
  cases hresolve'
  rw [spell, if_neg hne] at hspell'
  refine ⟨parts, hresolve, ?_, hne, hnames, ?_⟩
  · rw [h, hspell']
  · intro part hpart
    refine accepted_name_iff (hnames part hpart) ?_ ?_
    · exact fun hmem => hrelative.nul_not_mem (mem_of_resolve hresolve hpart hmem)
    · exact fun hmem => hrelative.backslash_not_mem (mem_of_resolve hresolve hpart hmem)

/-- What one turn of the preflight has checked, and what it hands on. -/
structure Admits (limits : ZipLimits) (budget : ZipPathBudget) (declared : UInt64) (entry : ZipEntry)
    (next : ZipPathBudget × UInt64) : Prop where
  added : ∃ path, zipEntryPath (lit ".") entry.name = .ok path ∧
    budget.add path (entry.mode == .directory) false = .ok next.1
  not_special : entry.mode ≠ .special
  size_le : entry.uncompressedSize ≤ toUInt64 limits.maxTotalBytes - declared
  declared_eq : next.2 = declared + entry.uncompressedSize

theorem admits_of_preflightEntry {limits : ZipLimits} {budget : ZipPathBudget} {declared : UInt64} {entry : ZipEntry}
    {next : ZipPathBudget × UInt64} (h : preflightEntry limits budget declared entry = .ok next) :
    Admits limits budget declared entry next := by
  rw [preflightEntry] at h
  simp only [newError, ite_error_eq_ok_iff, bind_eq_ok_iff, not_or] at h
  obtain ⟨-, path, hpath, hspecial, budget', hbudget, ⟨-, hsize⟩, -, hnext⟩ := h
  cases hnext
  exact ⟨⟨path, hpath, hbudget⟩, hspecial, UInt64.not_lt.1 hsize, rfl⟩

/-- Every entry that the preflight accepts resolves. -/
theorem resolved_of_preflight {limits : ZipLimits} {budget : ZipPathBudget} {declared : UInt64}
    {entries : List ZipEntry} (h : preflight limits budget declared entries = .ok ()) :
    ∀ entry ∈ entries, ∃ parts, Resolved entry parts := by
  induction entries generalizing budget declared with
  | nil =>
      intro entry hentry
      exact absurd hentry List.not_mem_nil
  | cons head entries ih =>
      obtain ⟨next, hhead, hrest⟩ := bind_eq_ok_iff.1 h
      intro entry hentry
      rcases List.mem_cons.1 hentry with rfl | hentry
      · obtain ⟨path, hpath, -⟩ := (admits_of_preflightEntry hhead).added
        exact exists_resolved hpath
      · exact ih hrest entry hentry

theorem preflight_of_checkArchive {zipRel destRel destClean : Bytes} {limits : ZipLimits}
    {entries : List ZipEntry} (h : checkArchive zipRel destRel limits entries = .ok destClean) :
    ∃ limits budget, preflight limits budget 0 entries = .ok () := by
  obtain ⟨limits, -, h⟩ := bind_eq_ok_iff.1 h
  obtain ⟨-, -, h⟩ := bind_eq_ok_iff.1 h
  obtain ⟨-, -, h⟩ := bind_eq_ok_iff.1 h
  obtain ⟨destClean', -, h⟩ := bind_eq_ok_iff.1 h
  obtain ⟨budget, -, h⟩ := bind_eq_ok_iff.1 h
  obtain ⟨-, -, h⟩ := bind_eq_ok_iff.1 h
  obtain ⟨⟨⟩, hpreflight, -⟩ := bind_eq_ok_iff.1 h
  exact ⟨limits, budget, hpreflight⟩

/-! ## The names of the extraction -/

section

variable {ε : Type} {host : Nat → HostCall → Option ε}

theorem safe_pathOperation (call : Bytes → HostCall) {rel : Bytes} (h : Accepted rel) :
    Safe Accepted (pathOperation host call rel) := by
  apply Safe.bind (safe_validate h)
  intro clean
  exact safe_ask (call clean)

theorem safe_ask_bind {β : Type} (call : HostCall) {f : Unit → Extract ε β}
    (hf : ∀ b, Safe Accepted (f b)) : Safe Accepted (ask host call >>= f) :=
  (safe_ask call).bind hf

theorem safe_openParts {parts : List Bytes} (h : ∀ part ∈ parts, Accepted part) :
    Safe Accepted (openParts host true parts) := by
  induction parts with
  | nil =>
      exact safe_pure ()
  | cons part parts ih =>
      have hpart : Accepted part := h part List.mem_cons_self
      have hrest := ih fun part hmem => h part (List.mem_cons_of_mem _ hmem)
      iterate 5 refine safe_ask_bind _ fun _ => ?_
      refine (safe_pathOperation _ hpart).bind fun _ => safe_ask_bind _ fun _ => ?_
      exact (safe_pathOperation _ accepted_dot).bind fun _ => hrest

/-- The destination of components that are left. -/
theorem openZipDestination_spell {parts : List Bytes} (h : ∀ part ∈ parts, IsName part) :
    openZipDestination host (spell parts) =
      (ask host .contextErr >>= fun _ =>
        pathOperation host .openRoot (lit ".") >>= fun _ =>
          if parts = [] then ask host .contextErr
          else openParts host true parts >>= fun _ => ask host .contextErr) := by
  by_cases hnil : parts = []
  · rw [if_pos hnil, openZipDestination, openPinnedDirectoryContext, if_pos ((spell_eq_dot_iff h).2 hnil)]
  · have hdot : spell parts ≠ lit "." := by
      rw [ne_eq, spell_eq_dot_iff h]
      exact hnil
    have hsplit : (spell parts).splitOn (chr '/') = parts := by
      rw [spell, if_neg hnil]
      exact splitOn_joinOn (fun part hpart => (h part hpart).slash_not_mem) hnil
    rw [if_neg hnil, openZipDestination, openPinnedDirectoryContext, if_neg hdot, hsplit]

theorem safe_openZipDestination {parts : List Bytes} (hnames : ∀ part ∈ parts, IsName part)
    (h : ∀ part ∈ parts, Accepted part) :
    Safe Accepted (openZipDestination host (spell parts)) := by
  rw [openZipDestination_spell hnames]
  refine safe_ask_bind _ fun _ => (safe_pathOperation _ accepted_dot).bind fun _ => ?_
  by_cases hnil : parts = []
  · rw [if_pos hnil]
    exact safe_ask _
  · rw [if_neg hnil]
    exact (safe_openParts h).bind fun _ => safe_ask _

theorem safe_endOutput {name : Bytes} {copied closed : Except (Failure Error ε) Unit}
    (h : Accepted name) (hcopied : ∀ error, copied ≠ .error (.checked error))
    (hclosed : ∀ error, closed ≠ .error (.checked error)) :
    Safe Accepted (endOutput host name copied closed) := by
  have hremove : ∀ e : Failure Error ε, (∀ error, e ≠ .checked error) →
      Safe Accepted (attempt (pathOperation host .remove name) >>= fun _ =>
        (finish (.error e) : Extract ε Unit)) := by
    intro e he
    refine (safe_pathOperation _ h).attempt_bind fun _ _ => safe_finish ?_
    intro error herror
    exact he error (Except.error.inj herror)
  rcases copied with e | ⟨⟩
  · exact hremove e fun error he => hcopied error (congrArg Except.error he)
  · rcases closed with e | ⟨⟩
    · exact hremove e fun error he => hclosed error (congrArg Except.error he)
    · exact safe_pure ()

theorem safe_extractZipFile {name : Bytes} (h : Accepted name) :
    Safe Accepted (extractZipFile host name) := by
  have hcopy : Safe Accepted (ask host .copy >>= fun _ => ask host .probe : Extract ε Unit) :=
    safe_ask_bind _ fun _ => safe_ask _
  refine safe_ask_bind _ fun _ => (safe_pathOperation _ h).bind fun _ => ?_
  refine hcopy.attempt_bind fun copied hcopied => ?_
  exact (safe_ask _).attempt_bind fun closed hclosed => safe_endOutput h hcopied hclosed

/-- The member path, which no later step finds unsafe. -/
theorem Resolved.entryRel_eq {entry : ZipEntry} {parts : List Bytes} (h : Resolved entry parts) :
    (zipEntryPath (lit ".") entry.name).toOption.getD [] = spell parts := by
  rw [h.path_eq, spell, if_neg h.ne_nil]
  rfl

/-- A member path taken apart: the path of its directory, and its name. -/
theorem Resolved.dir_eq {entry : ZipEntry} {parts : List Bytes} (h : Resolved entry parts) :
    Path.dir (spell parts) = spell parts.dropLast ∧ Path.base (spell parts) = parts.getLast h.ne_nil := by
  have hinit : ∀ part ∈ parts.dropLast, IsName part :=
    fun part hpart => h.names part (List.dropLast_subset _ hpart)
  have hlast : IsName (parts.getLast h.ne_nil) := h.names _ (List.getLast_mem h.ne_nil)
  have hdir := Path.dir_joinOn hinit hlast
  have hbase : Path.base (joinOn (chr '/') (parts.dropLast ++ [parts.getLast h.ne_nil])) = _ :=
    Path.base_joinOn hlast
  rw [List.dropLast_append_getLast] at hdir hbase
  have hspell : spell parts = joinOn (chr '/') parts := by
    rw [spell, if_neg h.ne_nil]
  rw [hspell]
  refine ⟨?_, hbase⟩
  rw [hdir]
  rfl

/-- A file entry takes its components apart: those of its directory, and its name. -/
theorem Resolved.extractEntry_eq {entry : ZipEntry} {parts : List Bytes} (h : Resolved entry parts) :
    extractEntry host entry =
      if entry.mode = .directory then
        openZipDestination host (spell parts)
      else
        openZipDestination host (spell parts.dropLast) >>= fun _ =>
          extractZipFile host (parts.getLast h.ne_nil) := by
  rw [extractEntry, h.entryRel_eq, h.dir_eq.1, h.dir_eq.2]

theorem safe_extractEntry {entry : ZipEntry} {parts : List Bytes} (hentry : Resolved entry parts)
    (h : ∀ part ∈ parts, Accepted part) : Safe Accepted (extractEntry host entry) := by
  rw [hentry.extractEntry_eq]
  by_cases hdirectory : entry.mode = .directory
  · rw [if_pos hdirectory]
    exact safe_openZipDestination hentry.names h
  · rw [if_neg hdirectory]
    have hdir : Safe Accepted (openZipDestination host (spell parts.dropLast)) := by
      apply safe_openZipDestination
      · exact fun part hpart => hentry.names part (List.dropLast_subset _ hpart)
      · exact fun part hpart => h part (List.dropLast_subset _ hpart)
    have hfile : Accepted (parts.getLast hentry.ne_nil) := h _ (List.getLast_mem hentry.ne_nil)
    exact hdir.bind fun _ => safe_extractZipFile hfile

theorem safe_extractEntries {entries : List ZipEntry}
    (h : ∀ entry ∈ entries, ∃ parts, Resolved entry parts ∧ ∀ part ∈ parts, Accepted part) :
    Safe Accepted (extractEntries host entries) := by
  induction entries with
  | nil =>
      exact safe_pure ()
  | cons entry entries ih =>
      obtain ⟨parts, hentry, hparts⟩ := h entry List.mem_cons_self
      apply safe_ask_bind
      intro _
      apply (safe_extractEntry hentry hparts).bind
      intro _
      exact ih fun entry hmem => h entry (List.mem_cons_of_mem _ hmem)

/-! ### Against an obliging host -/

theorem covers_pathOperation_bind {β : Type} (call : Bytes → HostCall) (rel : Bytes) {names : List Bytes}
    {f : Unit → Extract ε β} (hf : ∀ b, Covers Accepted names (f b)) :
    Covers Accepted (rel :: names) (pathOperation obliging call rel >>= f) := by
  have hoperation : Covers Accepted [rel] (pathOperation (ε := ε) obliging call rel) :=
    (covers_validate cleanRelative rel).bind fun clean => covers_ask (call clean)
  exact hoperation.bind hf

theorem covers_openParts (parts : List Bytes) :
    Covers Accepted parts (openParts (ε := ε) obliging true parts) := by
  induction parts with
  | nil =>
      exact covers_pure ()
  | cons part parts ih =>
      iterate 5 refine covers_ask_bind _ fun _ => ?_
      refine covers_pathOperation_bind _ part fun _ => covers_ask_bind _ fun _ => ?_
      refine Covers.mono ?_ (List.subset_cons_self (lit ".") parts)
      exact covers_pathOperation_bind _ (lit ".") fun _ => ih

theorem covers_openZipDestination {parts : List Bytes} (h : ∀ part ∈ parts, IsName part) :
    Covers Accepted parts (openZipDestination (ε := ε) obliging (spell parts)) := by
  rw [openZipDestination_spell h]
  apply covers_ask_bind
  intro _
  refine Covers.mono ?_ (List.subset_cons_self (lit ".") parts)
  apply covers_pathOperation_bind
  intro _
  by_cases hnil : parts = []
  · rw [if_pos hnil, hnil]
    exact covers_ask _
  · rw [if_neg hnil]
    have hopen := (covers_openParts (ε := ε) parts).bind fun _ => covers_ask HostCall.contextErr
    rw [List.append_nil] at hopen
    exact hopen

theorem grows_endOutput (name : Bytes) (copied closed : Except (Failure Error ε) Unit) :
    Grows (endOutput obliging name copied closed) := by
  have hremove : ∀ e : Failure Error ε, Grows (attempt (pathOperation obliging .remove name) >>= fun _ =>
      (finish (.error e) : Extract ε Unit)) := by
    intro e
    have hoperation : Grows (pathOperation (ε := ε) obliging .remove name) :=
      (grows_validate cleanRelative name).bind fun clean => grows_ask (HostCall.remove clean)
    exact hoperation.attempt.bind fun _ => grows_finish _
  rcases copied with e | ⟨⟩
  · exact hremove e
  · rcases closed with e | ⟨⟩
    · exact hremove e
    · exact fun t => List.Subset.refl _

theorem covers_extractZipFile (name : Bytes) :
    Covers Accepted [name] (extractZipFile (ε := ε) obliging name) := by
  have hcopy : Covers (ε := ε) (χ := Error) Accepted []
      (ask obliging HostCall.copy >>= fun _ => ask obliging HostCall.probe) :=
    covers_ask_bind _ fun _ => covers_ask _
  apply covers_ask_bind
  intro _
  apply covers_pathOperation_bind
  intro _
  change Covers Accepted ([] ++ []) _
  refine hcopy.attempt_bind (fun copied => ?_) fun e => ?_
  · change Covers Accepted ([] ++ []) _
    refine (covers_ask _).attempt_bind (fun closed => covers_pure ()) fun e => ?_
    exact grows_endOutput name _ _
  · exact (grows_ask _).attempt.bind fun closed => grows_endOutput name _ _

theorem covers_extractEntry {entry : ZipEntry} {parts : List Bytes} (h : Resolved entry parts) :
    Covers Accepted parts (extractEntry (ε := ε) obliging entry) := by
  rw [h.extractEntry_eq]
  by_cases hdirectory : entry.mode = .directory
  · rw [if_pos hdirectory]
    exact covers_openZipDestination h.names
  · rw [if_neg hdirectory]
    have hinit : ∀ part ∈ parts.dropLast, IsName part :=
      fun part hpart => h.names part (List.dropLast_subset _ hpart)
    have hdir := covers_openZipDestination (ε := ε) hinit
    have hboth := hdir.bind fun _ => covers_extractZipFile (ε := ε) (parts.getLast h.ne_nil)
    rw [List.dropLast_append_getLast] at hboth
    exact hboth

/-- Against an obliging host the extraction touches the components of every entry. -/
theorem covers_extractEntries {entries : List ZipEntry}
    (h : ∀ entry ∈ entries, ∃ parts, Resolved entry parts) :
    Covers Accepted (entries.flatMap fun entry => (resolve false entry.name).getD [])
      (extractEntries (ε := ε) obliging entries) := by
  induction entries with
  | nil =>
      exact covers_pure ()
  | cons entry entries ih =>
      obtain ⟨parts, hentry⟩ := h entry List.mem_cons_self
      rw [List.flatMap_cons, hentry.resolve_eq]
      apply covers_ask_bind
      intro _
      apply (covers_extractEntry hentry).bind
      intro _
      exact ih fun entry hmem => h entry (List.mem_cons_of_mem _ hmem)

end

/-! ## The condition -/

/-- No component of an entry has a drive marker. -/
def Unmarked (entries : List ZipEntry) : Prop :=
  ∀ entry ∈ entries, ∀ parts, resolve false entry.name = some parts →
    ∀ part ∈ parts, needsRelativeMarker part = false

theorem safe_of_unmarked {ε : Type} {host : Nat → HostCall → Option ε} {entries : List ZipEntry}
    (hentries : ∀ entry ∈ entries, ∃ parts, Resolved entry parts) (h : Unmarked entries) :
    Safe Accepted (extractEntries host entries) := by
  apply safe_extractEntries
  intro entry hentry
  obtain ⟨parts, hparts⟩ := hentries entry hentry
  refine ⟨parts, hparts, ?_⟩
  intro part hpart
  exact (hparts.accepted_iff part hpart).2 (h entry hentry parts hparts.resolve_eq part hpart)

theorem unmarked_of_accepted {ε : Type} {entries : List ZipEntry}
    (hentries : ∀ entry ∈ entries, ∃ parts, Resolved entry parts)
    (h : ∀ name ∈ (extractEntries (ε := ε) obliging entries {}).2.names, Accepted name) :
    Unmarked entries := by
  obtain ⟨-, hcovered⟩ := (covers_extractEntries (ε := ε) hentries).2 {} h
  intro entry hentry parts hresolve part hpart
  obtain ⟨parts', hparts⟩ := hentries entry hentry
  have hsame : parts' = parts := by
    have hresolve' := hparts.resolve_eq
    rw [hresolve] at hresolve'
    exact (Option.some.inj hresolve').symm
  rw [hsame] at hparts
  have hmem : part ∈ entries.flatMap fun entry => (resolve false entry.name).getD [] := by
    rw [List.mem_flatMap]
    refine ⟨entry, hentry, ?_⟩
    rw [hresolve]
    exact hpart
  exact (hparts.accepted_iff part hpart).1 (h part (hcovered hmem))

/-! ### Behind the first write -/

section

variable {ε : Type} {host : Nat → HostCall → Option ε}

theorem preflightEntries_ok {limits : ZipLimits} {budget : ZipPathBudget} {declared : UInt64}
    {entries : List ZipEntry} {t t' : Trace Bytes}
    (h : preflightEntries host limits budget declared entries t = (.ok (), t')) :
    preflight limits budget declared entries = .ok () := by
  induction entries generalizing budget declared t with
  | nil =>
      rfl
  | cons entry entries ih =>
      obtain ⟨_, t₁, -, h⟩ := bind_run_ok h
      obtain ⟨next, t₂, hnext, h⟩ := bind_run_ok h
      rw [preflight, check_run_ok hnext]
      exact ih h

/-- What has been checked when the first write begins. -/
theorem prepare_ok {zipRel destRel destClean : Bytes} {limits : ZipLimits} {entries : List ZipEntry}
    {t t' : Trace Bytes} (h : prepare host zipRel destRel limits entries t = (.ok destClean, t')) :
    checkArchive zipRel destRel limits entries = .ok destClean := by
  obtain ⟨limits', t₁, hlimits, h⟩ := bind_run_ok h
  obtain ⟨_, t₂, hname, h⟩ := bind_run_ok h
  obtain ⟨zipClean, t₃, hzip, h⟩ := bind_run_ok h
  obtain ⟨destClean', t₄, hdest, h⟩ := bind_run_ok h
  obtain ⟨_, t₅, -, h⟩ := bind_run_ok h
  obtain ⟨budget, t₆, hbudget, h⟩ := bind_run_ok h
  obtain ⟨_, t₇, -, h⟩ := bind_run_ok h
  obtain ⟨_, t₈, hcount, h⟩ := bind_run_ok h
  obtain ⟨_, t₉, hpreflight, h⟩ := bind_run_ok h
  obtain ⟨_, t₁₀, -, h⟩ := bind_run_ok h
  have hdestClean : destClean' = destClean := Except.ok.inj (congrArg Prod.fst h)
  rw [hdestClean] at hdest
  refine bind_eq_ok_iff.2 ⟨limits', check_run_ok hlimits, ?_⟩
  refine bind_eq_ok_iff.2 ⟨_, check_run_ok hname, ?_⟩
  refine bind_eq_ok_iff.2 ⟨zipClean, check_run_ok hzip, ?_⟩
  refine bind_eq_ok_iff.2 ⟨destClean, check_run_ok hdest, ?_⟩
  refine bind_eq_ok_iff.2 ⟨budget, ?_, ?_⟩
  · rw [← hdestClean]
    exact check_run_ok hbudget
  · refine bind_eq_ok_iff.2 ⟨_, check_run_ok hcount, ?_⟩
    exact bind_eq_ok_iff.2 ⟨_, preflightEntries_ok hpreflight, rfl⟩

/-- Behind the destination, an archive without drive markers can only fail by the host. -/
theorem extractZipWithLimits_of_unmarked {zipRel destRel destClean : Bytes} {limits : ZipLimits}
    {entries : List ZipEntry} {t t₁ t₂ : Trace Bytes} (hunmarked : Unmarked entries)
    (hprepare : prepare host zipRel destRel limits entries t = (.ok destClean, t₁))
    (hdestination : openZipDestination host destClean t₁ = (.ok (), t₂))
    (hnames : ∀ name ∈ t₂.names, Accepted name) :
    (∀ name ∈ (extractZipWithLimits host zipRel destRel limits entries t).2.names, Accepted name) ∧
      ∀ error, (extractZipWithLimits host zipRel destRel limits entries t).1 ≠ .error (.checked error) := by
  obtain ⟨limits', budget, hpreflight⟩ := preflight_of_checkArchive (prepare_ok hprepare)
  rw [extractZipWithLimits, bind_ok hprepare, bind_ok hdestination]
  exact safe_of_unmarked (resolved_of_preflight hpreflight) hunmarked t₂ hnames

end

/-- No path operation on an entry of a checked archive is rejected, whatever the host answers, just in
case no component of an entry has a drive marker. -/
theorem extractEntries_accepted_iff {ε : Type} {zipRel destRel destClean : Bytes} {limits : ZipLimits}
    {entries : List ZipEntry} (h : checkArchive zipRel destRel limits entries = .ok destClean) :
    (∀ host : Nat → HostCall → Option ε,
      (∀ name ∈ (extractEntries host entries {}).2.names, ∃ clean, cleanRelative name = .ok clean) ∧
        ∀ error, (extractEntries host entries {}).1 ≠ .error (.checked error)) ↔
      ∀ entry ∈ entries, ∀ parts, resolve false entry.name = some parts →
        ∀ part ∈ parts, needsRelativeMarker part = false := by
  obtain ⟨limits', budget, hpreflight⟩ := preflight_of_checkArchive h
  have hentries := resolved_of_preflight hpreflight
  constructor
  · intro haccepted
    exact unmarked_of_accepted hentries (haccepted obliging).1
  · intro hunmarked host
    apply safe_of_unmarked hentries hunmarked
    intro name hname
    cases hname

/-- A file and a directory below a destination. -/
theorem extractEntries_accepted_iff_plain :
    let entries : List ZipEntry :=
      [{ name := lit "a/b", mode := .regular, uncompressedSize := 1, compressedSize := 1 },
        { name := lit "c/", mode := .directory, uncompressedSize := 0, compressedSize := 0 }]
    checkArchive (lit "a.zip") (lit "out") {} entries = .ok (lit "out") ∧
      ((∀ host : Nat → HostCall → Option Empty,
        (∀ name ∈ (extractEntries host entries {}).2.names, ∃ clean, cleanRelative name = .ok clean) ∧
          ∀ error, (extractEntries host entries {}).1 ≠ .error (.checked error)) ↔
        ∀ entry ∈ entries, ∀ parts, resolve false entry.name = some parts →
          ∀ part ∈ parts, needsRelativeMarker part = false) := by
  intro entries
  have hchecked : checkArchive (lit "a.zip") (lit "out") {} entries = .ok (lit "out") := by
    decide
  exact ⟨hchecked, extractEntries_accepted_iff hchecked⟩

/-- The drive marker of a second component is found behind the first file. -/
theorem extractEntries_rejects_marker :
    let entries : List ZipEntry :=
      [{ name := lit "a", mode := .regular, uncompressedSize := 0, compressedSize := 0 },
        { name := lit "x/C:y", mode := .regular, uncompressedSize := 0, compressedSize := 0 }]
    checkArchive (lit "a.zip") (lit "out") {} entries = .ok (lit "out") ∧
      ¬∀ host : Nat → HostCall → Option Empty,
        (∀ name ∈ (extractEntries host entries {}).2.names, ∃ clean, cleanRelative name = .ok clean) ∧
          ∀ error, (extractEntries host entries {}).1 ≠ .error (.checked error) := by
  intro entries
  -- the file `a` is written by then
  have hnames : (extractEntries (ε := Empty) obliging entries {}).2.names =
      [lit ".", lit "a", lit ".", lit "x", lit ".", lit "C:y"] := by
    decide +kernel
  have hmarker : ¬∃ clean, cleanRelative (lit "C:y") = .ok clean := by
    rintro ⟨clean, hclean⟩
    cases hclean
  refine ⟨by decide +kernel, ?_⟩
  intro hall
  apply hmarker
  apply (hall obliging).1
  rw [hnames]
  decide

end FS

end CanonicalPath
