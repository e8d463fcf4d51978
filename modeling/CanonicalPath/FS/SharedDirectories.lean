import CanonicalPath.FS.SharedSafety

/-!
# SharedDirectories — what `MkdirAll` makes in a tree that others change

`mkdir.go` on the tree of `Shared`.  The walk goes through names and not through handles, so the others can lead it
anywhere; what it makes is still no more than one directory for each name of the path, and it opens nothing.

* `Grown` : what a walk has added to the log
* `Root.mkdirAll_grown` : the result, for every schedule of the others
-/

namespace CanonicalPath

namespace FS

open CodeUnit Segments Go

open Effect (Triple)

namespace Shared

/-- A directory of that name is made. -/
def MakesAt (event : Event) (name : Bytes) : Prop :=
  ∃ dir id, event = .made dir name id

/-- The handles are as they were, and the log has grown by directories that have some of the names, in their order. -/
structure Grown (handles : List Handle) (log : List Event) (names : List Bytes) (s : State) : Prop where
  handles_eq : s.handles = handles
  log_eq : ∃ events, s.log = log ++ events ∧ List.SublistForall₂ MakesAt events names

section

variable {host : Host} {handles : List Handle} {log : List Event} {names : List Bytes} {handle dir : Nat}

theorem Grown.start {s : State} : Grown s.handles s.log [] s where
  handles_eq := rfl
  log_eq := ⟨[], (List.append_nil s.log).symm, .nil⟩

/-- More names are passed than made. -/
theorem Grown.pass {s : State} (h : Grown handles log names s) (more : List Bytes) :
    Grown handles log (names ++ more) s := by
  obtain ⟨events, hlog, hevents⟩ := h.log_eq
  obtain ⟨made, hmade, hsub⟩ := List.sublistForall₂_iff.1 hevents
  refine ⟨h.handles_eq, events, hlog, List.sublistForall₂_iff.2 ⟨made, hmade, ?_⟩⟩
  exact hsub.trans (List.sublist_append_left names more)

theorem Grown.make {s s' : State} {name : Bytes} {id : Nat} (h : Grown handles log names s)
    (hhandles : s'.handles = s.handles) (hlog : s'.log = s.log ++ [.made dir name id]) :
    Grown handles log (names ++ [name]) s' := by
  obtain ⟨events, hevents, hnames⟩ := h.log_eq
  obtain ⟨made, hmade, hsub⟩ := List.sublistForall₂_iff.1 hnames
  refine ⟨hhandles.trans h.handles_eq, events ++ [.made dir name id], ?_, ?_⟩
  · rw [hlog, hevents, List.append_assoc]
  · apply List.sublistForall₂_iff.2
    refine ⟨made ++ [name], ?_, hsub.append (List.Sublist.refl [name])⟩
    exact List.rel_append hmade (.cons ⟨dir, id, rfl⟩ .nil)

/-! ## Calls -/

theorem call_grown : Triple (Grown handles log names) (call host) (fun _ => Grown handles log names)
    fun _ => Grown handles log names := by
  intro s hs
  rw [call]
  cases host.fault s.calls with
  | none =>
      refine ⟨fun _ _ => { hs with }, ?_⟩
      intro e he
      cases he
  | some error =>
      refine ⟨?_, fun _ _ => { hs with }⟩
      intro b hb
      cases hb

theorem observe_grown {β : Type} (read : State → β) {E : OpenError → State → Prop} :
    Triple (Grown handles log names) (Effect.observe read : Sharing β) (fun _ => Grown handles log names) E :=
  Triple.observe fun _ hs => hs

theorem object_grown {E : OpenError → State → Prop} (hopen : handles[handle]? = some ⟨dir, false⟩) :
    Triple (Grown handles log names) (object handle) (fun _ => Grown handles log names) E := by
  apply Triple.observe_bind
  intro s hs
  rw [hs.handles_eq, hopen]
  apply Triple.pure
  rintro s' rfl
  exact hs

theorem look_grown (hopen : handles[handle]? = some ⟨dir, false⟩) (name : Bytes) :
    Triple (Grown handles log names) (look host handle name) (fun _ => Grown handles log names)
      fun _ => Grown handles log names := by
  have htell {place : Nat} {read : State → Option FileInfo} : Triple (Grown handles log names)
      (Effect.observe read >>= fun found => (pure (place, found) : Sharing (Nat × Option FileInfo)))
      (fun _ => Grown handles log names) fun _ => Grown handles log names := by
    apply (observe_grown read).bind
    intro found
    exact Triple.pure fun _ hs => hs
  apply call_grown.bind
  intro _
  apply (object_grown hopen).bind
  intro found
  apply Triple.ite
  · exact fun _ => htell
  · intro _
    apply Triple.bind (Q := fun _ => Grown handles log names)
    · apply Triple.ite
      · exact fun _ => observe_grown _
      · exact fun _ => Triple.pure fun _ hs => hs
    intro place
    exact htell

theorem mkdir_grown (hopen : handles[handle]? = some ⟨dir, false⟩) {path name : Bytes} (hname : Path.base path = name) :
    Triple (Grown handles log names) (mkdir host handle path) (fun _ => Grown handles log (names ++ [name]))
      fun _ => Grown handles log names := by
  subst hname
  apply (look_grown hopen path).bind
  rintro ⟨place, found⟩
  cases found with
  | some info =>
      exact Triple.fail fun _ hs => hs
  | none =>
      apply Triple.bind (Q := fun _ => Grown handles log (names ++ [Path.base path]))
      · apply Triple.observe_bind
        intro s hs
        apply Triple.bind (Q := fun _ s' => s' = { s with world := s.world.make place (Path.base path) .directory })
        · exact Triple.modify fun s' hsame => by rw [hsame]
        intro _
        apply Triple.bind (Q := fun _ => Grown handles log (names ++ [Path.base path]))
        · apply Triple.modify
          rintro s' rfl
          exact hs.make rfl rfl
        intro _
        exact Triple.pure fun _ hs => hs
      intro _
      exact Triple.pure fun _ hs => hs

theorem stat_grown (hopen : handles[handle]? = some ⟨dir, false⟩) (path : Bytes) :
    Triple (Grown handles log names) (stat host handle path) (fun _ => Grown handles log names)
      fun _ => Grown handles log names := by
  apply (look_grown hopen path).bind
  rintro ⟨place, found⟩
  cases found with
  | none =>
      exact Triple.fail fun _ hs => hs
  | some info =>
      apply Triple.ite
      · intro _
        apply (observe_grown _).bind
        intro target
        cases target with
        | none =>
            exact Triple.fail fun _ hs => hs
        | some info =>
            exact Triple.pure fun _ hs => hs
      · exact fun _ => Triple.pure fun _ hs => hs

/-! ## The walk -/

namespace Root

/-- A directory that is there already makes nothing. -/
theorem existing_grown (hopen : handles[handle]? = some ⟨dir, false⟩) (current : Bytes) (error : OpenError) :
    Triple (Grown handles log names) (existing host handle current error) (fun _ => Grown handles log names)
      fun _ => Grown handles log names := by
  apply Triple.ite
  · intro _
    apply Triple.bind (Q := fun _ => Grown handles log names)
    · exact Triple.attempt (stat_grown hopen current)
    intro found
    cases found with
    | error e =>
        exact Triple.fail fun _ hs => hs
    | ok info =>
        apply Triple.ite
        · exact fun _ => Triple.pure fun _ hs => hs
        · exact fun _ => Triple.fail fun _ hs => hs
  · exact fun _ => Triple.fail fun _ hs => hs

/-- The path of a name behind the names so far. -/
theorem joinOn_concat_name {part : Bytes} (hnames : ∀ name ∈ names, IsName name) :
    (if joinOn (chr '/') names = [] then part else joinOn (chr '/') names ++ chr '/' :: part) =
      joinOn (chr '/') (names ++ [part]) := by
  by_cases hnil : names = []
  · rw [if_pos ((joinOn_parts_eq_nil_iff hnames).2 hnil), hnil]
    simp [joinOn]
  · rw [if_neg fun h => hnil ((joinOn_parts_eq_nil_iff hnames).1 h), joinOn_append hnil (List.cons_ne_nil _ _)]
    simp [joinOn]

/-- One name is passed with each turn. -/
theorem mkdirParts_grown (hopen : handles[handle]? = some ⟨dir, false⟩) {parts : List Bytes}
    (hnames : ∀ name ∈ names, IsName name) (hparts : ∀ part ∈ parts, IsName part) :
    Triple (Grown handles log names) (mkdirParts host handle (joinOn (chr '/') names) parts)
      (fun _ => Grown handles log (names ++ parts)) fun _ => Grown handles log (names ++ parts) := by
  induction parts generalizing names with
  | nil =>
      rw [List.append_nil]
      exact Triple.pure fun _ hs => hs
  | cons part more ih =>
      have hpart : IsName part := hparts part List.mem_cons_self
      have hnext : ∀ name ∈ names ++ [part], IsName name := by
        intro name hname
        rcases List.mem_append.1 hname with hold | hnew
        · exact hnames name hold
        · rw [List.mem_singleton.1 hnew]
          exact hpart
      have hrest := ih hnext fun part hmem => hparts part (List.mem_cons_of_mem _ hmem)
      have hassoc : names ++ part :: more = names ++ [part] ++ more := by
        rw [List.append_assoc, List.singleton_append]
      rw [mkdirParts, joinOn_concat_name hnames, hassoc]
      apply Triple.attempt_bind (mkdir_grown hopen (Path.base_joinOn hpart))
      · intro _
        exact hrest
      · intro e
        apply ((existing_grown hopen _ e).conseq (fun _ hs => hs) (fun _ _ hs => hs.pass [part]) ?_).bind
        · intro _
          exact hrest
        · intro _ s hs
          exact (hs.pass [part]).pass more

/-- Whether or not it succeeds, one directory at most is made for each name of the path, in their order. -/
theorem mkdirAll_grown (hsupported : host.rootConfinementSupported = true) (rel : Bytes) (s : State)
    (hopen : s.handles[handle]? = some ⟨dir, false⟩) :
    Grown s.handles s.log ((resolve false rel).getD []) ((ofHandle handle).mkdirAll host rel s).2 := by
  have hwalk : Triple (Grown s.handles s.log []) ((ofHandle handle).mkdirAll host rel)
      (fun _ => Grown s.handles s.log ((resolve false rel).getD []))
      fun _ => Grown s.handles s.log ((resolve false rel).getD []) := by
    rw [mkdirAll, requireSupportedPlatform_eq hsupported, Effect.pure_bind]
    apply (check_spec.conseq (fun _ hs => hs) (fun _ _ hs => hs) fun _ _ hs => hs.pass _).bind
    intro clean
    apply Triple.lift
    intro hclean
    obtain ⟨-, parts, hresolve, hspell⟩ := cleanRelative_eq_ok_iff.1 hclean
    have hnames := isName_of_resolve hresolve
    rw [rootHandle_eq hsupported rfl, Effect.pure_bind, hresolve, ← hspell]
    by_cases hnil : parts = []
    · rw [if_pos ((spell_eq_dot_iff hnames).2 hnil)]
      exact Triple.pure fun _ hs => hs.pass _
    · have hdot : spell parts ≠ lit "." := fun h => hnil ((spell_eq_dot_iff hnames).1 h)
      have hsplit : (spell parts).splitOn (chr '/') = parts := by
        rw [spell, if_neg hnil]
        exact splitOn_joinOn (fun part hpart => (hnames part hpart).slash_not_mem) hnil
      rw [if_neg hdot, hsplit]
      exact mkdirParts_grown hopen (List.forall_mem_nil _) hnames
  exact hwalk.final (fun _ _ hs => hs) (fun _ _ hs => hs) Grown.start

end Root

end

end Shared

end FS

end CanonicalPath
