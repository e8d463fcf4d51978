import CanonicalPath.FS.Regular

/-!
# RegularSafety — an opening is never raced into the wrong file

Whatever others do between the calls, a scoped opening returns a regular file that was looked at before or that it
has created itself, truncates nothing else, and changes nothing where it fails.

* `Looking` : what is known as long as nothing has been changed; every call before the truncation keeps it
* `Opened` : what holds of a handle that is returned
* `openRegularFile_safe` : the result, for every schedule of the others
* `writeFile_spares` : a write changes nothing but the file that was opened
-/

namespace CanonicalPath

namespace FS

open CodeUnit Go

open Effect (Triple)

namespace Raced

/-! ## The namespace -/

namespace World

variable {w : World} {id other : Nat}

theorem kind?_moved {kind : Kind} (move : Move) (h : w.kind? id = some kind) : (w.moved move).kind? id = some kind := by
  obtain ⟨object, hobject, hkind⟩ := Option.map_eq_some_iff.1 h
  obtain ⟨hlt, -⟩ := List.getElem?_eq_some_iff.1 hobject
  rw [kind?, moved, List.getElem?_append_left (by rw [List.length_mapIdx]; exact hlt), List.getElem?_mapIdx, hobject]
  exact congrArg some hkind

theorem content?_moved (move : Move) (h : id < w.objects.length) :
    (w.moved move).content? id = (w.content? id).map (move.rewrite id) := by
  rw [content?, moved, List.getElem?_append_left (by rw [List.length_mapIdx]; exact h), List.getElem?_mapIdx, content?,
    Option.map_map, Option.map_map]
  rfl

theorem length_le_moved (move : Move) : w.objects.length ≤ (w.moved move).objects.length := by
  rw [moved, List.length_append, List.length_mapIdx]
  exact Nat.le_add_right _ _

theorem kind?_create {name : Bytes} {object : Object} {kind : Kind} (h : w.kind? id = some kind) :
    (w.create name object).kind? id = some kind := by
  obtain ⟨found, hfound, hkind⟩ := Option.map_eq_some_iff.1 h
  obtain ⟨hlt, -⟩ := List.getElem?_eq_some_iff.1 hfound
  rw [kind?, create, List.getElem?_append_left hlt, hfound]
  exact congrArg some hkind

theorem content?_create {name : Bytes} {object : Object} (h : id < w.objects.length) :
    (w.create name object).content? id = w.content? id := by
  rw [content?, create, List.getElem?_append_left h, content?]

theorem kind?_change (f : Bytes → Bytes) : (w.change id f).kind? other = w.kind? other := by
  rw [kind?, change, List.getElem?_modify, Option.map_eq_map, Option.map_map, kind?]
  by_cases h : id = other
  · simp only [h, ↓reduceIte]
    rfl
  · simp only [h, ↓reduceIte]
    rfl

theorem content?_change (f : Bytes → Bytes) (h : other ≠ id) : (w.change id f).content? other = w.content? other := by
  have hne : id ≠ other := fun hsame => h hsame.symm
  rw [content?, change, List.getElem?_modify, Option.map_eq_map, Option.map_map, content?]
  simp only [hne, ↓reduceIte]
  rfl

theorem length_change (f : Bytes → Bytes) : (w.change id f).objects.length = w.objects.length :=
  List.length_modify _ _ _

theorem kind?_of_find {name : Bytes} {info : FileInfo} (h : w.find name = some info) :
    w.kind? info.id = some info.kind := by
  obtain ⟨found, -, hinfo⟩ := Option.bind_eq_some_iff.1 h
  obtain ⟨kind, hkind, hsame⟩ := Option.map_eq_some_iff.1 hinfo
  cases hsame
  exact hkind

end World

/-! ## What is known of a run -/

section

variable {host : Host} {w : World} {s : State} {events : List Event} {event : Event} {flags : Flags} {f : Nat}

/-- The contents there were at the start are what the others have made of them, but for some objects. -/
def Spared (host : Host) (w : World) (changed : Nat → Prop) (s : State) : Prop :=
  ∀ id, id < w.objects.length → ¬changed id →
    s.world.content? id = (w.content? id).map (host.rewritten id s.calls)

/-- The log tells the truth. -/
structure Recorded (w : World) (s : State) : Prop where
  length_le : w.objects.length ≤ s.world.objects.length
  known : ∀ info, Event.lstat info ∈ s.log ∨ Event.stat info ∈ s.log → s.world.kind? info.id = some info.kind
  created : ∀ id exclusive, Event.created id exclusive ∈ s.log → w.objects.length ≤ id

/-- No object has been changed. -/
structure Untouched (host : Host) (w : World) (s : State) : Prop where
  log : ∀ id, Event.truncated id ∉ s.log ∧ Event.written id ∉ s.log
  spared : Spared host w (fun _ => False) s

/-- Nothing has been changed yet, and some events are in the log. -/
structure Looking (host : Host) (w : World) (events : List Event) (s : State) : Prop where
  recorded : Recorded w s
  untouched : Untouched host w s
  behind : events ⊆ s.log

/-- An object that `Lstat` has seen as a regular file, or that has been created exclusively. -/
def Vetted (w : World) (log : List Event) (id : Nat) : Prop :=
  Event.lstat ⟨id, .regular⟩ ∈ log ∨ Event.created id true ∈ log ∧ w.objects.length ≤ id

structure Opened (host : Host) (w : World) (flags : Flags) (f : Nat) (s : State) : Prop where
  recorded : Recorded w s
  regular : s.world.kind? f = some .regular
  vetted : Vetted w s.log f
  truncation : ∀ id front back, s.log = front ++ Event.truncated id :: back →
    id = f ∧ flags.truncate = true ∧ Vetted w front f ∧ Event.stat ⟨f, .regular⟩ ∈ front
  spared : Spared host w (fun id => id = f ∧ flags.truncate = true) s

theorem looking_init : Looking host w [] { world := w } := by
  refine ⟨⟨Nat.le_refl _, ?_, ?_⟩, ⟨?_, ?_⟩, List.nil_subset _⟩
  · rintro info (h | h)
    · cases h
    · cases h
  · intro id exclusive h
    cases h
  · intro id
    exact ⟨List.not_mem_nil, List.not_mem_nil⟩
  · intro id hid _
    cases w.content? id with
    | none =>
        rfl
    | some content =>
        rfl

theorem Looking.forget (h : Looking host w events s) : Looking host w [] s :=
  ⟨h.recorded, h.untouched, List.nil_subset _⟩

theorem Looking.of_cons (h : Looking host w (event :: events) s) : Looking host w events s :=
  ⟨h.recorded, h.untouched, fun _ hother => h.behind (List.mem_cons_of_mem _ hother)⟩

/-! ## What a call keeps -/

/-- What the others rewrite is theirs. -/
theorem Spared.moved {changed : Nat → Prop} (h : Spared host w changed s)
    (hle : w.objects.length ≤ s.world.objects.length) :
    Spared host w changed { s with world := s.world.moved (host.moves s.calls), calls := s.calls + 1 } := by
  intro id hid hchanged
  have hlt : id < s.world.objects.length := Nat.lt_of_lt_of_le hid hle
  calc
    (s.world.moved (host.moves s.calls)).content? id
        = (s.world.content? id).map ((host.moves s.calls).rewrite id) := World.content?_moved _ hlt
    _ = ((w.content? id).map (host.rewritten id s.calls)).map ((host.moves s.calls).rewrite id) := by
        rw [h id hid hchanged]
    _ = (w.content? id).map (host.rewritten id (s.calls + 1)) := by
        rw [Option.map_map]
        rfl

/-- The others keep the identities and kinds. -/
theorem Looking.moved (h : Looking host w events s) :
    Looking host w events { s with world := s.world.moved (host.moves s.calls), calls := s.calls + 1 } := by
  refine ⟨⟨?_, ?_, h.recorded.created⟩, ⟨h.untouched.log, ?_⟩, h.behind⟩
  · exact Nat.le_trans h.recorded.length_le (World.length_le_moved _)
  · intro info hinfo
    exact World.kind?_moved _ (h.recorded.known info hinfo)
  · exact h.untouched.spared.moved h.recorded.length_le

theorem Looking.record (h : Looking host w events s)
    (hknown : ∀ info, event = .lstat info ∨ event = .stat info → s.world.kind? info.id = some info.kind)
    (hcreated : ∀ id exclusive, event = .created id exclusive → w.objects.length ≤ id)
    (hquiet : ∀ id, event ≠ .truncated id ∧ event ≠ .written id) :
    Looking host w (event :: events) { s with log := s.log ++ [event] } := by
  have hmem : ∀ other, other ∈ s.log ++ [event] → other ∈ s.log ∨ event = other := by
    intro other hother
    rcases List.mem_append.1 hother with hold | hnew
    · exact .inl hold
    · exact .inr (List.mem_singleton.1 hnew).symm
  refine ⟨⟨h.recorded.length_le, ?_, ?_⟩, ⟨?_, h.untouched.spared⟩, ?_⟩
  · rintro info (hinfo | hinfo)
    · rcases hmem _ hinfo with hold | hnew
      · exact h.recorded.known info (.inl hold)
      · exact hknown info (.inl hnew)
    · rcases hmem _ hinfo with hold | hnew
      · exact h.recorded.known info (.inr hold)
      · exact hknown info (.inr hnew)
  · intro id exclusive hid
    rcases hmem _ hid with hold | hnew
    · exact h.recorded.created id exclusive hold
    · exact hcreated id exclusive hnew
  · intro id
    constructor
    · intro hid
      rcases hmem _ hid with hold | hnew
      · exact (h.untouched.log id).1 hold
      · exact (hquiet id).1 hnew
    · intro hid
      rcases hmem _ hid with hold | hnew
      · exact (h.untouched.log id).2 hold
      · exact (hquiet id).2 hnew
  · intro other hother
    rcases List.mem_cons.1 hother with hnew | hold
    · rw [hnew]
      exact List.mem_append_right _ List.mem_cons_self
    · exact List.mem_append_left _ (h.behind hold)

theorem Looking.create (h : Looking host w events s) (name : Bytes) (object : Object) :
    Looking host w events { s with world := s.world.create name object } := by
  refine ⟨⟨?_, ?_, h.recorded.created⟩, ⟨h.untouched.log, ?_⟩, h.behind⟩
  · have hlonger : (s.world.create name object).objects.length = s.world.objects.length + 1 := List.length_append
    have hle := h.recorded.length_le
    change w.objects.length ≤ (s.world.create name object).objects.length
    omega
  · intro info hinfo
    exact World.kind?_create (h.recorded.known info hinfo)
  · intro id hid hchanged
    have hlt : id < s.world.objects.length := Nat.lt_of_lt_of_le hid h.recorded.length_le
    exact (World.content?_create hlt).trans (h.untouched.spared id hid hchanged)

theorem call_looking :
    Triple (Looking host w events) (call host) (fun _ => Looking host w events) fun _ => Looking host w events := by
  intro s hs
  rw [call]
  cases host.fault s.calls with
  | none =>
      exact ⟨fun _ _ => hs.moved, fun e he => nomatch he⟩
  | some error =>
      exact ⟨fun b hb => (nomatch hb), fun _ _ => hs.moved⟩

/-- What is told of an object is recorded, and is true of it. -/
theorem record_told {info : FileInfo} (hs : Looking host w events s) (hknown : s.world.kind? info.id = some info.kind)
    (htold : event = .lstat info ∨ event = .stat info) :
    Triple (fun s' => s' = s) (record event) (fun _ => Looking host w (event :: events))
      fun _ => Looking host w events := by
  apply Triple.modify
  intro s' hsame
  rw [hsame]
  apply hs.record
  · intro other hother
    have hinfo : other = info := by
      rcases htold with rfl | rfl
      · rcases hother with hother | hother
        · cases hother
          rfl
        · cases hother
      · rcases hother with hother | hother
        · cases hother
        · cases hother
          rfl
    rw [hinfo]
    exact hknown
  · intro id exclusive hcreated
    rcases htold with rfl | rfl
    · cases hcreated
    · cases hcreated
  · intro id
    rcases htold with rfl | rfl
    · exact ⟨fun h => (nomatch h), fun h => nomatch h⟩
    · exact ⟨fun h => (nomatch h), fun h => nomatch h⟩

theorem lstat_looking (name : Bytes) :
    Triple (Looking host w events) (lstat host name) (fun info => Looking host w (.lstat info :: events))
      fun _ => Looking host w events := by
  apply call_looking.bind
  intro _
  apply Triple.observe_bind
  intro s hs
  cases hfind : s.world.find name with
  | none =>
      apply Triple.fail
      intro s' hsame
      rw [hsame]
      exact hs
  | some info =>
      apply (record_told hs (World.kind?_of_find hfind) (.inl rfl)).bind
      intro _
      exact Triple.pure fun _ h => h

theorem stat_looking :
    Triple (Looking host w events) (stat host f)
      (fun info s => info.id = f ∧ Looking host w (.stat info :: events) s) fun _ => Looking host w events := by
  apply call_looking.bind
  intro _
  apply Triple.observe_bind
  intro s hs
  cases hkind : s.world.kind? f with
  | none =>
      apply Triple.fail
      intro s' hsame
      rw [hsame]
      exact hs
  | some kind =>
      have hknown : s.world.kind? (⟨f, kind⟩ : FileInfo).id = some (⟨f, kind⟩ : FileInfo).kind := hkind
      apply (record_told hs hknown (.inr rfl)).bind
      intro _
      exact Triple.pure fun _ h => ⟨rfl, h⟩

/-! ## Opening -/

theorem createFile_looking (name : Bytes) (mode : Nat) :
    Triple (Looking host w events) (createFile name flags mode)
      (fun f => Looking host w (.created f flags.exclusive :: events)) fun _ => Looking host w events := by
  apply Triple.observe_bind
  intro s hs
  have hcreate : Triple (fun s' => s' = s)
      (Effect.modify fun s => { s with world := s.world.create name { kind := .regular, mode := mode } } : Opening Unit)
      (fun _ => Looking host w events) fun _ => Looking host w events := by
    apply Triple.modify
    intro s' hsame
    rw [hsame]
    exact hs.create name _
  have hrecord : Triple (Looking host w events) (record (.created s.world.objects.length flags.exclusive))
      (fun _ => Looking host w (.created s.world.objects.length flags.exclusive :: events))
      fun _ => Looking host w events := by
    apply Triple.modify
    intro s' hs'
    refine hs'.record ?_ ?_ fun id => ⟨fun h => (nomatch h), fun h => nomatch h⟩
    · rintro other (hother | hother)
      · cases hother
      · cases hother
    · intro id exclusive hsame
      cases hsame
      exact hs.recorded.length_le
  apply hcreate.bind
  intro _
  apply hrecord.bind
  intro _
  exact Triple.pure fun _ h => h

/-- Without `O_TRUNC` nothing is changed; an exclusive creation returns the object it has created. -/
theorem openFile_looking (htruncate : flags.truncate = false) (mode hops : Nat) (name : Bytes) :
    Triple (Looking host w events) (openFile host flags mode hops name)
      (fun f s => Looking host w events s ∧
        (flags.create = true → flags.exclusive = true → Event.created f true ∈ s.log))
      fun _ => Looking host w events := by
  induction hops generalizing name with
  | zero =>
      exact Triple.fail fun _ h => h
  | succ hops ih =>
      apply call_looking.bind
      intro _
      apply Triple.observe_bind
      intro s hs
      have hthis : ∀ s' : State, s' = s → Looking host w events s' := by
        intro s' hsame
        rw [hsame]
        exact hs
      cases hfind : s.world.find name with
      | none =>
          apply Triple.ite
          · intro hcreate
            refine (createFile_looking name mode).conseq hthis ?_ fun _ _ h => h
            intro f s' h
            refine ⟨h.of_cons, ?_⟩
            intro _ hexclusive
            have hmem := h.behind List.mem_cons_self
            rw [hexclusive] at hmem
            exact hmem
          · intro _
            exact Triple.fail hthis
      | some info =>
          -- an exclusive creation refuses every name that is taken
          apply Triple.ite
          · intro _
            exact Triple.fail hthis
          · intro hopen
            have hobject : Triple (fun s' => s' = s) (openObject flags info)
                (fun f s => Looking host w events s ∧
                  (flags.create = true → flags.exclusive = true → Event.created f true ∈ s.log))
                fun _ => Looking host w events := by
              rw [openObject, if_neg (by rw [htruncate]; exact fun h => nomatch h.1)]
              apply Triple.pure
              intro s' hsame
              exact ⟨hthis s' hsame, fun hcreate hexclusive => absurd ⟨hcreate, hexclusive⟩ hopen⟩
            cases hkind : info.kind with
            | link target =>
                -- the next name, with one hop less
                exact (ih target).conseq hthis (fun _ _ h => h) fun _ _ h => h
            | regular =>
                exact hobject
            | special =>
                exact hobject

/-- The look at the leaf lets a regular file pass, or a name to be created. -/
theorem lstatBefore_looking (clean : Bytes) :
    Triple (Looking host w []) (lstatBefore host clean flags)
      (fun before s => Looking host w (before.toList.map Event.lstat) s ∧
        (before = none → flags.create = true) ∧ ∀ seen, before = some seen → seen.kind = .regular)
      fun _ => Looking host w [] := by
  apply (lstat_looking clean).attempt_bind
  · intro info
    apply Triple.ite
    · intro hregular
      apply Triple.pure
      intro s hs
      refine ⟨hs, fun h => (nomatch h), ?_⟩
      intro seen hseen
      cases hseen
      exact hregular
    · intro _
      exact Triple.fail fun _ hs => hs.forget
  · intro e
    apply Triple.ite
    · intro hmissing
      apply Triple.pure
      intro s hs
      exact ⟨hs, fun _ => hmissing.2, fun seen h => nomatch h⟩
    · intro _
      exact Triple.fail fun _ h => h

/-! ## The truncation -/

variable {before : Option FileInfo}

/-- A handle that has passed the checks, before it is truncated. -/
theorem Looking.opened (h : Looking host w events s) (hstat : Event.stat ⟨f, .regular⟩ ∈ s.log)
    (hvetted : Vetted w s.log f) : Opened host w flags f s := by
  refine ⟨h.recorded, ?_, hvetted, ?_, ?_⟩
  · exact h.recorded.known ⟨f, .regular⟩ (.inr hstat)
  · intro id front back hlog
    have hmem : Event.truncated id ∈ s.log := by
      rw [hlog]
      exact List.mem_append_right _ List.mem_cons_self
    exact absurd hmem (h.untouched.log id).1
  · intro id hid _
    exact h.untouched.spared id hid fun hfalse => hfalse

/-- The truncation changes the checked object only. -/
theorem Looking.truncated (h : Looking host w events s) (htruncate : flags.truncate = true)
    (hstat : Event.stat ⟨f, .regular⟩ ∈ s.log) (hvetted : Vetted w s.log f) :
    Opened host w flags f
      { s with world := s.world.change f fun _ => [], log := s.log ++ [.truncated f] } := by
  have hold : ∀ event, event ≠ Event.truncated f → event ∈ s.log ++ [.truncated f] → event ∈ s.log := by
    intro event hne hmem
    rcases List.mem_append.1 hmem with hmem | hmem
    · exact hmem
    · exact absurd (List.mem_singleton.1 hmem) hne
  refine ⟨⟨?_, ?_, ?_⟩, ?_, ?_, ?_, ?_⟩
  · exact Nat.le_trans h.recorded.length_le (Nat.le_of_eq (World.length_change _).symm)
  · intro info hinfo
    rw [World.kind?_change]
    apply h.recorded.known
    rcases hinfo with hinfo | hinfo
    · exact .inl (hold _ (fun h => nomatch h) hinfo)
    · exact .inr (hold _ (fun h => nomatch h) hinfo)
  · intro id exclusive hid
    exact h.recorded.created id exclusive (hold _ (fun h => nomatch h) hid)
  · rw [World.kind?_change]
    exact h.recorded.known ⟨f, .regular⟩ (.inr hstat)
  · rcases hvetted with hseen | hcreated
    · exact .inl (List.mem_append_left _ hseen)
    · exact .inr ⟨List.mem_append_left _ hcreated.1, hcreated.2⟩
  · intro id front back hlog
    -- the log before held no truncation, so that the split is the one at its end
    rcases List.append_eq_append_iff.1 hlog with ⟨middle, hfront, hback⟩ | ⟨middle, hfront, hback⟩
    · cases middle with
      | nil =>
          rw [List.append_nil] at hfront
          rw [List.nil_append] at hback
          cases hback
          rw [hfront]
          exact ⟨rfl, htruncate, hvetted, hstat⟩
      | cons event more =>
          have hempty := congrArg List.length hback
          simp only [List.length_cons, List.length_append, List.length_nil] at hempty
          omega
    · cases middle with
      | nil =>
          rw [List.append_nil] at hfront
          rw [List.nil_append] at hback
          cases hback
          rw [← hfront]
          exact ⟨rfl, htruncate, hvetted, hstat⟩
      | cons event more =>
          cases hback
          have hmem : Event.truncated id ∈ s.log := by
            rw [hfront]
            exact List.mem_append_right _ List.mem_cons_self
          exact absurd hmem (h.untouched.log id).1
  · intro id hid hchanged
    have hne : id ≠ f := fun hsame => hchanged ⟨hsame, htruncate⟩
    exact (World.content?_change _ hne).trans (h.untouched.spared id hid fun hfalse => hfalse)

/-- The checks of a handle that was found by the look before, or that was created exclusively. -/
theorem checkOpened_opened (hseen : ∀ seen, before = some seen → seen.kind = .regular ∧ .lstat seen ∈ events)
    (hcreated : before = none → .created f true ∈ events) :
    Triple (Looking host w events) (checkOpened host before flags f) (fun _ => Opened host w flags f)
      fun _ => Looking host w events := by
  apply stat_looking.bind
  intro info
  apply Triple.lift
  intro hinfo
  obtain ⟨id, kind⟩ := info
  have hid : id = f := hinfo
  rw [hid]
  apply Triple.ite
  · intro _
    exact Triple.fail fun _ hs => hs.of_cons
  · intro hregular
    have hkind : kind = .regular := Decidable.not_not.1 hregular
    rw [hkind]
    apply Triple.ite
    · intro _
      exact Triple.fail fun _ hs => hs.of_cons
    · intro hsame
      -- the object behind the handle is the one that was seen, or the new one
      have hvetted : ∀ s, Looking host w (.stat ⟨f, .regular⟩ :: events) s → Vetted w s.log f := by
        intro s hs
        cases before with
        | none =>
            have hmem := hs.of_cons.behind (hcreated rfl)
            exact .inr ⟨hmem, hs.recorded.created f true hmem⟩
        | some seen =>
            obtain ⟨hkind', hmem⟩ := hseen seen rfl
            have hseenid : seen.id = f := by
              by_contra hne
              exact hsame (decide_eq_true hne)
            have hthis : seen = ⟨f, .regular⟩ := by
              rw [← hseenid, ← hkind']
            rw [hthis] at hmem
            exact .inl (hs.of_cons.behind hmem)
      apply Triple.ite
      · intro htruncate
        have hcall : Triple (Looking host w (.stat ⟨f, .regular⟩ :: events)) (call host)
            (fun _ => Looking host w (.stat ⟨f, .regular⟩ :: events)) fun _ => Looking host w events :=
          call_looking.conseq (fun _ hs => hs) (fun _ _ hs => hs) fun _ _ hs => hs.of_cons
        apply hcall.bind
        intro _ s hs
        constructor
        · intro _ _
          exact hs.truncated htruncate (hs.behind List.mem_cons_self) (hvetted s hs)
        · intro e he
          cases he
      · intro _
        apply Triple.pure
        intro s hs
        exact hs.opened (hs.behind List.mem_cons_self) (hvetted s hs)

/-! ## The run -/

variable {r : Root}

theorem requireSupportedPlatform_looking :
    Triple (Looking host w []) (requireSupportedPlatform host) (fun _ => Looking host w [])
      fun _ => Looking host w [] := by
  apply Triple.ite
  · intro _
    exact Triple.pure fun _ h => h
  · intro _
    exact Triple.fail fun _ h => h

theorem rootHandle_looking :
    Triple (Looking host w []) (r.rootHandle host) (fun _ => Looking host w []) fun _ => Looking host w [] := by
  apply requireSupportedPlatform_looking.bind
  intro _
  apply Triple.ite
  · intro _
    exact Triple.pure fun _ h => h
  · intro _
    exact Triple.fail fun _ h => h

/-- The opening behind a lookup: what the lookup has found is still known. -/
theorem openFile_before {before : Option FileInfo} {flags flags' : Flags} (hplain : flags'.truncate = false) (mode : Nat)
    (clean : Bytes) :
    Triple
      (fun s => Looking host w (before.toList.map Event.lstat) s ∧ (before = none → flags.create = true) ∧
        ∀ seen, before = some seen → seen.kind = .regular)
      (openFile host flags' mode (host.maxSymlinks + 1) clean)
      (fun f s => ((∀ seen, before = some seen → seen.kind = .regular) ∧ (before = none → flags.create = true)) ∧
        Looking host w (before.toList.map Event.lstat) s ∧
        (flags'.create = true → flags'.exclusive = true → Event.created f true ∈ s.log))
      fun _ => Looking host w [] := by
  intro s hs
  obtain ⟨hlook, hcreate, hkind⟩ := hs
  have hspec : Triple (Looking host w (before.toList.map Event.lstat))
      (openFile host flags' mode (host.maxSymlinks + 1) clean) _ _ := openFile_looking hplain mode _ clean
  obtain ⟨hok, herror⟩ := hspec s hlook
  exact ⟨fun f hf => ⟨⟨hkind, hcreate⟩, hok f hf⟩, fun e he => (herror e he).forget⟩

/-- The checks of a handle, whether a file was found before or the opening had to create one. -/
theorem checkOpened_before {before : Option FileInfo} {flags flags' : Flags} {f : Nat}
    (hcreate : before = none → flags.create = true ∧ flags.exclusive = true)
    (hkind : ∀ seen, before = some seen → seen.kind = .regular) :
    Triple
      (fun s => Looking host w (before.toList.map Event.lstat) s ∧
        (flags.create = true → flags.exclusive = true → Event.created f true ∈ s.log))
      (checkOpened host before flags' f) (fun _ => Opened host w flags' f) fun _ => Looking host w [] := by
  cases before with
  | some seen =>
      have hspec : Triple (Looking host w [.lstat seen]) (checkOpened host (some seen) flags' f) _ _ :=
        checkOpened_opened (by
          intro seen' hseen'
          cases hseen'
          exact ⟨hkind seen rfl, List.mem_cons_self⟩) fun h => nomatch h
      exact hspec.conseq (fun _ hs => hs.1) (fun _ _ hs => hs) fun _ _ hs => hs.forget
  | none =>
      have hspec : Triple (Looking host w [.created f true]) (checkOpened host none flags' f) _ _ :=
        checkOpened_opened (fun seen h => nomatch h) fun _ => List.mem_cons_self
      refine hspec.conseq ?_ (fun _ _ hs => hs) fun _ _ hs => hs.forget
      intro s hs
      obtain ⟨hcreated, hexclusive⟩ := hcreate rfl
      refine ⟨hs.1.recorded, hs.1.untouched, ?_⟩
      intro event hevent
      rw [List.mem_singleton.1 hevent]
      exact hs.2 hcreated hexclusive

/-- Of the flags, a handle that is returned knows the truncation only. -/
theorem Opened.of_truncate {flags flags' : Flags} {f : Nat} {s : State} (h : Opened host w flags' f s)
    (htruncate : flags'.truncate = flags.truncate) : Opened host w flags f s := by
  refine ⟨h.recorded, h.regular, h.vetted, ?_, ?_⟩
  · intro id front back hlog
    rw [← htruncate]
    exact h.truncation id front back hlog
  · intro id hid hchanged
    rw [← htruncate] at hchanged
    exact h.spared id hid hchanged

theorem openRegularFile_spec (hlinks : r.rejectFileLinks = true) (rel : Bytes) (flags : Flags) (mode : Nat) :
    Triple (Looking host w []) (openRegularFile host r rel flags mode) (fun f => Opened host w flags f)
      fun _ => Looking host w [] := by
  apply requireSupportedPlatform_looking.bind
  intro _
  apply Triple.ite
  swap
  · intro _
    exact Triple.fail fun _ h => h
  intro _
  have hclean : Triple (Looking host w []) (check (cleanRelative rel)) (fun _ => Looking host w [])
      fun _ => Looking host w [] := Triple.finish (fun _ _ _ h => h) fun _ _ _ h => h
  apply hclean.bind
  intro clean
  apply rootHandle_looking.bind
  intro _
  rw [if_pos hlinks]
  apply (lstatBefore_looking clean).bind
  intro before
  -- the flags of the opening: a missing leaf is created exclusively
  dsimp only
  generalize hflags : (if r.rejectFileLinks = true ∧ before = none then { flags with exclusive := true } else flags) =
    flags'
  have htruncate : flags'.truncate = flags.truncate := by
    rw [← hflags]
    split
    · rfl
    · rfl
  have hcreates : flags'.create = flags.create := by
    rw [← hflags]
    split
    · rfl
    · rfl
  have hexclusive : before = none → flags'.exclusive = true := by
    intro hnone
    rw [← hflags, if_pos ⟨hlinks, hnone⟩]
  apply (openFile_before rfl mode clean).bind
  intro f
  apply Triple.lift
  intro hbefore
  obtain ⟨hkind, hcreate⟩ := hbefore
  have hcreated : before = none → flags'.create = true ∧ flags'.exclusive = true := by
    intro hnone
    exact ⟨hcreates.trans (hcreate hnone), hexclusive hnone⟩
  apply (checkOpened_before hcreated hkind).attempt_bind
  · intro _
    apply Triple.pure
    intro s hs
    exact hs.of_truncate htruncate
  · intro e
    apply call_looking.attempt_bind
    · intro _
      exact Triple.fail fun _ hs => hs
    · intro _
      exact Triple.fail fun _ hs => hs

/-- Whatever the others do and whichever calls fail: a handle that is returned is of a regular file that was seen by
`Lstat` or created exclusively, only that file is truncated and only behind the check, and an error leaves every
content as the others have made it. -/
theorem openRegularFile_safe (hlinks : r.rejectFileLinks = true) (rel : Bytes) (flags : Flags) (mode : Nat) (w : World) :
    (∀ f s, openRegularFile host r rel flags mode { world := w } = (.ok f, s) → Opened host w flags f s) ∧
      ∀ e s, openRegularFile host r rel flags mode { world := w } = (.error e, s) → Untouched host w s := by
  obtain ⟨hok, herror⟩ := openRegularFile_spec hlinks rel flags mode { world := w } looking_init
  constructor
  · intro f s hrun
    rw [hrun] at hok
    exact hok f rfl
  · intro e s hrun
    rw [hrun] at herror
    exact (herror e rfl).untouched

/-- Two files, one of them under the name `a`. -/
def pair : World where
  names := fun name => if name = lit "a" then some 0 else none
  objects := [{ kind := .regular, content := lit "old" }, { kind := .regular, content := lit "kept" }]

/-- Between the look at a name and its opening, the other file is put there. -/
def exchanging (exchange : Bool) : Host where
  maxSymlinks := 8
  moves := fun turn => {
    names := fun names name => if exchange ∧ turn = 1 ∧ name = lit "a" then some 1 else names name
    rewrite := fun _ content => content
    added := [] }
  fault := fun _ => none
  accept := fun _ count => count

/-- The file is truncated where it is the one that was seen, and the exchange is found out behind the opening. -/
theorem openRegularFile_safe_exchanged :
    (∃ s, openRegularFile (exchanging false) { rejectFileLinks := true } (lit "a") { truncate := true } 0
        { world := pair } = (.ok 0, s) ∧ Opened (exchanging false) pair { truncate := true } 0 s) ∧
      ∃ error s, openRegularFile (exchanging true) { rejectFileLinks := true } (lit "a") { truncate := true } 0
        { world := pair } = (.error (.checked ⟨.raceDetected, error⟩), s) ∧ Untouched (exchanging true) pair s := by
  have hlinks : Root.rejectFileLinks { rejectFileLinks := true } = true := rfl
  have hseen : (openRegularFile (exchanging false) { rejectFileLinks := true } (lit "a") { truncate := true } 0
      { world := pair }).1 = .ok 0 := by
    decide
  have hraced : (openRegularFile (exchanging true) { rejectFileLinks := true } (lit "a") { truncate := true } 0
      { world := pair }).1 = .error (.checked ⟨.raceDetected, "scoped file changed during opening"⟩) := by
    decide
  constructor
  · refine ⟨_, Prod.ext hseen rfl, ?_⟩
    exact (openRegularFile_safe hlinks (lit "a") { truncate := true } 0 pair).1 0 _ (Prod.ext hseen rfl)
  · refine ⟨_, _, Prod.ext hraced rfl, ?_⟩
    exact (openRegularFile_safe hlinks (lit "a") { truncate := true } 0 pair).2 _ _ (Prod.ext hraced rfl)

/-! ## Writing -/

/-- The opened file may have been changed, no other. -/
structure Writing (host : Host) (w : World) (f : Nat) (s : State) : Prop where
  length_le : w.objects.length ≤ s.world.objects.length
  vetted : Vetted w s.log f
  spared : Spared host w (fun id => id = f) s

theorem Opened.writing (h : Opened host w flags f s) : Writing host w f s := by
  refine ⟨h.recorded.length_le, h.vetted, ?_⟩
  intro id hid hne
  exact h.spared id hid fun hchanged => hne hchanged.1

theorem Writing.spares (h : Writing host w f s) : Spared host w (Vetted w s.log) s := by
  intro id hid hvetted
  apply h.spared id hid
  intro hsame
  rw [hsame] at hvetted
  exact hvetted h.vetted

theorem Looking.spares (h : Looking host w events s) : Spared host w (Vetted w s.log) s :=
  fun id hid _ => h.untouched.spared id hid fun hfalse => hfalse

theorem call_writing :
    Triple (Writing host w f) (call host) (fun _ => Writing host w f) fun _ => Writing host w f := by
  have hmoved : ∀ s, Writing host w f s →
      Writing host w f { s with world := s.world.moved (host.moves s.calls), calls := s.calls + 1 } := by
    intro s hs
    exact ⟨Nat.le_trans hs.length_le (World.length_le_moved _), hs.vetted, hs.spared.moved hs.length_le⟩
  intro s hs
  rw [call]
  cases host.fault s.calls with
  | none =>
      exact ⟨fun _ _ => hmoved s hs, fun e he => nomatch he⟩
  | some error =>
      exact ⟨fun b hb => (nomatch hb), fun _ _ => hmoved s hs⟩

theorem write_writing (append : Bool) (data : Bytes) :
    Triple (Writing host w f) (write host append f data) (fun _ => Writing host w f) fun _ => Writing host w f := by
  apply Triple.observe_bind
  intro s hs
  have hcall : Triple (fun s' => s' = s) (Effect.attempt (call host)) (fun _ => Writing host w f)
      fun _ => Writing host w f := by
    apply Triple.attempt
    apply call_writing.pre
    intro s' hsame
    rw [hsame]
    exact hs
  apply hcall.bind
  intro outcome
  dsimp only
  generalize (if outcome = .ok () then data else data.take (host.accept s.calls data.length)) = part
  have hchange : Triple (Writing host w f)
      (Effect.modify fun s => { s with world := s.world.change f (writeAt append part) } : Opening Unit)
      (fun _ => Writing host w f) fun _ => Writing host w f := by
    apply Triple.modify
    intro s' hs'
    refine ⟨Nat.le_trans hs'.length_le (Nat.le_of_eq (World.length_change _).symm), hs'.vetted, ?_⟩
    intro id hid hne
    exact (World.content?_change _ hne).trans (hs'.spared id hid hne)
  have hrecord : Triple (Writing host w f) (record (.written f)) (fun _ => Writing host w f)
      fun _ => Writing host w f := by
    apply Triple.modify
    intro s' hs'
    refine ⟨hs'.length_le, ?_, hs'.spared⟩
    rcases hs'.vetted with hseen | hcreated
    · exact .inl (List.mem_append_left _ hseen)
    · exact .inr ⟨List.mem_append_left _ hcreated.1, hcreated.2⟩
  apply hchange.bind
  intro _
  apply hrecord.bind
  intro _
  exact Triple.finish (fun _ _ _ h => h) fun _ _ _ h => h

/-- A scoped write, however it ends, changes no content but that of a file it has vetted. -/
theorem writeFile_spares (hlinks : r.rejectFileLinks = true) (rel data : Bytes) (opts : OpenOptions) (w : World) :
    Spared host w (Vetted w (writeFile host r rel data opts { world := w }).2.log)
      (writeFile host r rel data opts { world := w }).2 := by
  have hplatform : Triple (Looking host w []) (requireSupportedPlatform host) (fun _ => Looking host w [])
      fun _ s => Spared host w (Vetted w s.log) s :=
    requireSupportedPlatform_looking.conseq (fun _ hs => hs) (fun _ _ hs => hs) fun _ _ hs => hs.spares
  have hspec : Triple (Looking host w []) (writeFile host r rel data opts)
      (fun _ s => Spared host w (Vetted w s.log) s) fun _ s => Spared host w (Vetted w s.log) s := by
    apply hplatform.bind
    intro _
    dsimp only
    generalize (if opts.append = true then opts else { opts with truncate := true }) = truncating
    have hopen : Triple (Looking host w [])
        (openRegularFile host r rel (openFlags { truncating with create := true })
          (openMode { truncating with create := true }))
        (fun f => Writing host w f) fun _ s => Spared host w (Vetted w s.log) s :=
      (openRegularFile_spec hlinks rel _ _).conseq (fun _ hs => hs) (fun _ _ hs => hs.writing) fun _ _ hs => hs.spares
    apply hopen.bind
    intro f
    have hwrite : Triple (Writing host w f) (Effect.attempt (write host truncating.append f data))
        (fun _ => Writing host w f) fun _ s => Spared host w (Vetted w s.log) s :=
      Triple.attempt (write_writing _ data)
    have hclose : Triple (Writing host w f) (Effect.attempt (close host)) (fun _ => Writing host w f)
        fun _ s => Spared host w (Vetted w s.log) s := Triple.attempt call_writing
    apply hwrite.bind
    intro outcome
    apply hclose.bind
    intro _
    exact Triple.finish (fun _ _ _ hs => hs.spares) fun _ _ _ hs => hs.spares
  exact hspec.final (fun _ _ hs => hs) (fun _ _ hs => hs) looking_init

end

end Raced

end FS

end CanonicalPath
