import CanonicalPath.FS.ArchiveNames
import CanonicalPath.FS.Extraction

/-!
# Unpacking — what each function of the extraction does to the tree

One lemma for each function: what it leaves of the tree and of the log behind a success and behind a failure.

* `Walks` : the calls and the new directories of a walk; `openZipDestination_spec`
* `Written` : the calls and the content of an output file; `extractZipFile_spec`
* `EntryDone`, `EntryFailed` : one entry; `extractEntry_spec`
-/

namespace CanonicalPath

namespace FS

open CodeUnit Segments Go

open Traced (Failure)

open Effect (Triple)

namespace Disk

variable {β γ : Type} {host : Host}

/-! ## Facts about the store -/

/-- A triple about the store, whatever the error of a failure. -/
def Spec (P : Store → Prop) (x : Extraction β) (Q : β → Store → Prop) (E : Store → Prop) : Prop :=
  Triple (fun w => P w.store) x (fun b w => Q b w.store) fun _ w => E w.store

abbrev Quiet (x : Extraction β) : Prop :=
  Effect.Quiet World.store x

section

variable {P : Store → Prop} {x : Extraction β} {f : β → Extraction γ} {Q : β → Store → Prop} {R : γ → Store → Prop}
  {E : Store → Prop}

theorem Spec.bind (hx : Spec P x Q E) (hf : ∀ b, Spec (Q b) (f b) R E) : Spec P (x >>= f) R E :=
  Triple.bind hx hf

/-- A quiet call keeps what is known of the store. -/
theorem Spec.quiet_bind (hx : Quiet x) (hE : ∀ s, P s → E s) (hf : ∀ b, Spec P (f b) R E) : Spec P (x >>= f) R E := by
  have hfirst : Spec P x (fun _ => P) E := (hx.triple P).conseq (fun _ hp => hp) (fun _ _ hq => hq) fun _ w => hE w.store
  exact hfirst.bind hf

theorem Spec.quiet (hx : Quiet x) (hQ : ∀ b s, P s → Q b s) (hE : ∀ s, P s → E s) : Spec P x Q E :=
  (hx.triple P).conseq (fun _ hp => hp) (fun b w => hQ b w.store) fun _ w => hE w.store

theorem Spec.conseq {P' E' : Store → Prop} {Q' : β → Store → Prop} (h : Spec P x Q E) (hP : ∀ s, P' s → P s)
    (hQ : ∀ b s, Q b s → Q' b s) (hE : ∀ s, E s → E' s) : Spec P' x Q' E' :=
  Triple.conseq h (fun w => hP w.store) (fun b w => hQ b w.store) fun _ w => hE w.store

theorem Spec.pure {b : β} (h : ∀ s, P s → Q b s) : Spec P (pure b) Q E :=
  Triple.pure fun w => h w.store

theorem Spec.fail {e : Failure Error HostError} (h : ∀ s, P s → E s) : Spec P (Effect.fail e : Extraction β) Q E :=
  Triple.fail fun w => h w.store

theorem Spec.finish {outcome : Except (Failure Error HostError) β} (hok : ∀ b, outcome = .ok b → ∀ s, P s → Q b s)
    (herror : ∀ s, P s → E s) : Spec P (Effect.finish outcome : Extraction β) Q E :=
  Triple.finish (fun b hb w => hok b hb w.store) fun _ _ w => herror w.store

theorem Spec.attempt {Q : Except (Failure Error HostError) β → Store → Prop}
    (h : Spec P x (fun b => Q (.ok b)) fun s => ∀ e, Q (.error e) s) : Spec P (Effect.attempt x) Q E :=
  Triple.attempt (Triple.conseq h (fun _ hp => hp) (fun _ _ hq => hq) fun e _ he => he e)

theorem Spec.ite {A : Prop} [Decidable A] {y : Extraction β} (hx : A → Spec P x Q E) (hy : ¬A → Spec P y Q E) :
    Spec P (if A then x else y) Q E :=
  Triple.ite hx hy

theorem Spec.lift {A : Prop} (h : A → Spec P x Q E) : Spec (fun s => A ∧ P s) x Q E :=
  Triple.lift h

theorem Spec.exists_pre {ι : Sort*} {P : ι → Store → Prop} (h : ∀ i, Spec (P i) x Q E) :
    Spec (fun s => ∃ i, P i s) x Q E :=
  Triple.exists_pre h

theorem Spec.final {F : Store → Prop} (h : Spec P x Q E) (hQ : ∀ b s, Q b s → F s) (hE : ∀ s, E s → F s) {w : World}
    (hw : P w.store) : F (x w).2.store :=
  Triple.final (F := fun w => F w.store) h (fun b w => hQ b w.store) (fun _ w => hE w.store) hw

/-- A triple about every store that meets its precondition. -/
theorem Spec.of_forall (h : ∀ s, P s → Spec (fun s' => s' = s) x Q E) : Spec P x Q E := by
  intro w hw
  exact h w.store hw w rfl

theorem spec_changeStore {change : Store → Store} {Q : Unit → Store → Prop} (h : ∀ s, P s → Q () (change s)) :
    Spec P (changeStore change) Q E :=
  Triple.modify fun w => h w.store

/-- A looked up node is a fact about the store. -/
theorem lookup_bind {path : List Bytes} {f : Option Node → Extraction γ} {s : Store}
    (hf : Spec (fun s' => s' = s) (f (s.tree.lookup path)) R E) : Spec (fun s' => s' = s) (lookup path >>= f) R E := by
  have hlookup : Spec (fun s' => s' = s) (Disk.lookup path) (fun node s' => node = s.tree.lookup path ∧ s' = s) E := by
    apply Triple.observe
    intro w hw
    rw [hw]
    exact ⟨rfl, rfl⟩
  apply hlookup.bind
  intro node
  apply Spec.lift
  intro hnode
  rw [hnode]
  exact hf

theorem observe_bind {read : World → β} (hf : ∀ b, Spec P (f b) R E) : Spec P (Effect.observe read >>= f) R E := by
  have hobserve : Spec P (Effect.observe read) (fun _ => P) E := Triple.observe fun _ hw => hw
  exact hobserve.bind hf

theorem changeStore_bind {change : Store → Store} {f : Unit → Extraction γ} {s : Store}
    (hf : Spec (fun s' => s' = change s) (f ()) R E) : Spec (fun s' => s' = s) (changeStore change >>= f) R E := by
  have hchange : Spec (fun s' => s' = s) (changeStore change) (fun _ s' => s' = change s) E := by
    apply spec_changeStore
    intro s' hs
    rw [hs]
  exact hchange.bind fun _ => hf

end

theorem quiet_contextErr : Quiet contextErr := by
  intro w
  rw [contextErr]
  cases w.patience with
  | zero =>
      rfl
  | succ patience =>
      rfl

theorem quiet_contextErrs (count : Nat) : Quiet (contextErrs count) := by
  induction count with
  | zero =>
      exact Effect.Quiet.pure ()
  | succ count ih =>
      exact quiet_contextErr.bind fun _ => ih

theorem quiet_call (next : Call) : Quiet (call host next) := by
  intro w
  rw [call]
  cases host.fault w.calls next with
  | none =>
      rfl
  | some e =>
      rfl

theorem quiet_check (outcome : Except Error β) : Quiet (check outcome) :=
  Effect.Quiet.finish _

/-! ## Walks -/

/-- Objects stay, and new ones are directories. -/
structure Grows (s s' : Store) : Prop where
  kept : ∀ path node, s.tree.lookup path = some node → s'.tree.lookup path = some node
  made : ∀ path node, s.tree.lookup path = none → s'.tree.lookup path = some node → node = .directory

theorem Grows.refl (s : Store) : Grows s s where
  kept := fun _ _ h => h
  made := by
    intro path node hnone hsome
    rw [hnone] at hsome
    cases hsome

theorem Grows.trans {s s' s'' : Store} (h : Grows s s') (h' : Grows s' s'') : Grows s s'' where
  kept := fun path node hnode => h'.kept path node (h.kept path node hnode)
  made := by
    intro path node hnone hnode
    cases hmiddle : s'.tree.lookup path with
    | none =>
        exact h'.made path node hmiddle hnode
    | some node' =>
        rw [h'.kept path node' hmiddle] at hnode
        cases hnode
        exact h.made path node hnone hmiddle

theorem eq_of_concat_prefix_singleton {part last : Bytes} {front : List Bytes} (h : front ++ [last] <+: [part]) :
    front = [] ∧ last = part := by
  cases front with
  | nil =>
      exact ⟨rfl, (List.cons_prefix_cons.1 h).1⟩
  | cons first front =>
      have hrest := List.prefix_nil.1 (List.cons_prefix_cons.1 h).2
      exact absurd hrest (by simp)

/-- The calls of a walk below a directory. -/
def mkdirCalls (dir : List Bytes) : List Bytes → List Event
  | [] => []
  | part :: more => .mkdir (dir ++ [part]) :: mkdirCalls (dir ++ [part]) more

/-- A walk that may have stopped early. -/
structure Walks (dir parts : List Bytes) (s s' : Store) : Prop extends Grows s s' where
  calls : ∃ front, front <+: parts ∧ s'.log = s.log ++ mkdirCalls dir front

/-- A walk to its end, where every step is a directory. -/
structure Walked (dir parts : List Bytes) (s s' : Store) : Prop extends Grows s s' where
  log_eq : s'.log = s.log ++ mkdirCalls dir parts
  directories : ∀ front part, front ++ [part] <+: parts → s'.tree.lookup (dir ++ front ++ [part]) = some .directory

theorem Walks.refl (dir parts : List Bytes) (s : Store) : Walks dir parts s s where
  toGrows := Grows.refl s
  calls := ⟨[], List.nil_prefix, (List.append_nil _).symm⟩

theorem Walked.refl (dir : List Bytes) (s : Store) : Walked dir [] s s where
  toGrows := Grows.refl s
  log_eq := (List.append_nil _).symm
  directories := fun front part hfront => absurd (List.prefix_nil.1 hfront) (by simp)

theorem Walked.walks {dir parts : List Bytes} {s s' : Store} (h : Walked dir parts s s') : Walks dir parts s s' where
  toGrows := h.toGrows
  calls := ⟨parts, List.prefix_refl parts, h.log_eq⟩

theorem Walked.cons {dir more : List Bytes} {part : Bytes} {s s' s'' : Store} (h : Walked dir [part] s s')
    (h' : Walked (dir ++ [part]) more s' s'') : Walked dir (part :: more) s s'' where
  toGrows := h.toGrows.trans h'.toGrows
  log_eq := by
    rw [h'.log_eq, h.log_eq, List.append_assoc]
    rfl
  directories := by
    intro front last hfront
    cases front with
    | nil =>
        have hlast : last = part := (List.cons_prefix_cons.1 hfront).1
        have hmade := h.directories [] part (List.prefix_refl [part])
        rw [hlast]
        exact h'.kept _ _ hmade
    | cons first front =>
        obtain ⟨hfirst, hrest⟩ := List.cons_prefix_cons.1 hfront
        have hmade := h'.directories front last hrest
        rw [hfirst, List.append_cons dir part front]
        exact hmade

theorem Walked.walks_cons {dir more : List Bytes} {part : Bytes} {s s' s'' : Store} (h : Walked dir [part] s s')
    (h' : Walks (dir ++ [part]) more s' s'') : Walks dir (part :: more) s s'' where
  toGrows := h.toGrows.trans h'.toGrows
  calls := by
    obtain ⟨front, hfront, hlog⟩ := h'.calls
    refine ⟨part :: front, List.cons_prefix_cons.2 ⟨rfl, hfront⟩, ?_⟩
    rw [hlog, h.log_eq, List.append_assoc]
    rfl

theorem Walks.of_single {dir more : List Bytes} {part : Bytes} {s s' : Store} (h : Walks dir [part] s s') :
    Walks dir (part :: more) s s' where
  toGrows := h.toGrows
  calls := by
    obtain ⟨front, hfront, hlog⟩ := h.calls
    exact ⟨front, hfront.trans (List.cons_prefix_cons.2 ⟨rfl, List.nil_prefix⟩), hlog⟩

theorem walks_record (dir : List Bytes) (part : Bytes) (s : Store) :
    Walks dir [part] s (s.record (.mkdir (dir ++ [part]))) where
  kept := fun _ _ h => h
  made := (Grows.refl s).made
  calls := ⟨[part], List.prefix_refl _, rfl⟩

theorem walks_insert {dir : List Bytes} {part : Bytes} {s : Store} (h : s.tree.lookup (dir ++ [part]) = none) :
    Walks dir [part] s ((s.record (.mkdir (dir ++ [part]))).insert (dir ++ [part]) .directory) where
  kept := by
    intro path node hnode
    have hne : path ≠ dir ++ [part] := by
      intro hpath
      rw [hpath, h] at hnode
      cases hnode
    exact (AList.lookup_insert_ne hne).trans hnode
  made := by
    intro path node hmissing hnode
    have hinsert : (s.tree.insert (dir ++ [part]) .directory).lookup path = some node := hnode
    by_cases hpath : path = dir ++ [part]
    · rw [hpath, AList.lookup_insert] at hinsert
      exact (Option.some.inj hinsert).symm
    · rw [AList.lookup_insert_ne hpath, hmissing] at hinsert
      cases hinsert
  calls := ⟨[part], List.prefix_refl _, rfl⟩

/-- The one call of `Mkdir`. -/
theorem mkdir_spec (dir : List Bytes) (part : Bytes) (s : Store) :
    Spec (fun s' => s' = s) (mkdir host (dir ++ [part]))
      (fun _ s' => Walks dir [part] s s' ∧ s'.log = s.log ++ mkdirCalls dir [part])
      fun s' => Walks dir [part] s s' ∧ s'.log = s.log ++ mkdirCalls dir [part] := by
  have hfailed : ∀ s', s' = s.record (.mkdir (dir ++ [part])) →
      Walks dir [part] s s' ∧ s'.log = s.log ++ mkdirCalls dir [part] := by
    rintro s' rfl
    exact ⟨walks_record dir part s, rfl⟩
  apply changeStore_bind
  apply Spec.quiet_bind (quiet_call .mkdir) hfailed
  intro _
  apply lookup_bind
  apply Spec.ite
  · intro hnone
    apply spec_changeStore
    rintro s' rfl
    exact ⟨walks_insert hnone, rfl⟩
  · intro _
    exact Spec.fail hfailed

/-- `Lstat` finds a directory where there is one. -/
theorem lstat_spec (path : List Bytes) (P : Store → Prop) :
    Spec P (Effect.attempt (lstat host path))
      (fun found s => P s ∧ (found = .ok true → s.tree.lookup path = some .directory)) P := by
  apply Spec.of_forall
  intro s hs
  apply Spec.attempt
  have hfailed : ∀ s', s' = s → ∀ e : Failure Error HostError,
      P s' ∧ (Except.error e = .ok true → s'.tree.lookup path = some .directory) := by
    rintro s' rfl e
    exact ⟨hs, fun h => nomatch h⟩
  apply Spec.quiet_bind (quiet_call .lstat) hfailed
  intro _
  apply lookup_bind
  apply Spec.pure
  rintro s' rfl
  exact ⟨hs, fun h => of_decide_eq_true (Except.ok.inj h)⟩

theorem requireDirectory_spec {code : ErrorCode} {found : Except (Failure Error HostError) Bool} {P : Store → Prop}
    {A : Store → Prop} (h : found = .ok true → ∀ s, P s → A s) :
    Spec P (requireDirectory code found) (fun _ s => P s ∧ A s) P := by
  apply Spec.ite
  · intro hfound
    exact Spec.pure fun s hs => ⟨hs, h hfound s hs⟩
  · intro _
    apply Spec.finish
    · intro b hb
      cases hb
    · exact fun _ hs => hs

theorem quiet_requireSameFile (code : ErrorCode) (found : Except (Failure Error HostError) Unit) :
    Quiet (requireSameFile code found) :=
  Effect.Quiet.ite (Effect.Quiet.pure ()) (quiet_check _)

theorem quiet_ignoreExist (outcome : Except (Failure Error HostError) Unit) : Quiet (ignoreExist outcome) :=
  Effect.Quiet.ite (Effect.Quiet.pure ()) (Effect.Quiet.finish outcome)

theorem quiet_stat (rel : Bytes) : Quiet (stat host rel) :=
  (quiet_check _).bind fun _ => quiet_call .stat

/-- The object of an accepted name. -/
theorem below_name {dir : List Bytes} {name clean : Bytes} (h : IsName name) (hclean : cleanRelative name = .ok clean) :
    below dir clean = dir ++ [name] := by
  obtain ⟨-, parts, hresolve, hspell⟩ := cleanRelative_eq_ok_iff.1 hclean
  have hnames : ∀ part ∈ [name], IsName part := by
    intro part hpart
    rw [List.mem_singleton.1 hpart]
    exact h
  have hjoin : joinOn (chr '/') [name] = name := by
    simp [joinOn]
  have hparts : resolve false (joinOn (chr '/') [name]) = some [name] := resolve_joinOn hnames
  rw [hjoin, hresolve] at hparts
  cases hparts
  rw [spell, if_neg (List.cons_ne_nil _ _), hjoin] at hspell
  rw [← hspell, below, if_neg h.ne_dot]
  have hsplit : (joinOn (chr '/') [name]).splitOn (chr '/') = [name] :=
    splitOn_joinOn (fun part hpart => (hnames part hpart).slash_not_mem) (List.cons_ne_nil _ _)
  rw [hjoin] at hsplit
  rw [hsplit]

/-- A value that is checked is known, and nothing has happened. -/
theorem check_spec {outcome : Except Error β} {P E : Store → Prop} (hE : ∀ s, P s → E s) :
    Spec P (check outcome) (fun value s => outcome = .ok value ∧ P s) E := by
  apply Spec.finish
  · intro value hvalue s hs
    cases houtcome : outcome with
    | error e =>
        rw [houtcome] at hvalue
        cases hvalue
    | ok value' =>
        rw [houtcome] at hvalue
        cases hvalue
        exact ⟨rfl, hs⟩
  · exact hE

theorem check_bind {outcome : Except Error β} {f : β → Extraction γ} {P : Store → Prop} {R : γ → Store → Prop}
    {E : Store → Prop} (hE : ∀ s, P s → E s) (hf : ∀ b, outcome = .ok b → Spec P (f b) R E) :
    Spec P (check outcome >>= f) R E := by
  apply (check_spec hE).bind
  intro b
  apply Spec.lift
  intro hb
  exact hf b hb

theorem openRoot_spec {dir child : List Bytes} {rel : Bytes} {P E : Store → Prop}
    (h : ∀ clean, cleanRelative rel = .ok clean → below dir clean = child) (hE : ∀ s, P s → E s) :
    Spec P (openRoot host dir rel) (fun opened s => opened = child ∧ P s) E := by
  apply check_bind hE
  intro clean hclean
  apply Spec.quiet_bind (quiet_call .openRoot) hE
  intro _
  exact Spec.pure fun s hs => ⟨h clean hclean, hs⟩

/-- The walk below a pinned directory. -/
theorem openParts_spec {code : ErrorCode} {parts : List Bytes} (hnames : ∀ part ∈ parts, IsName part)
    (dir : List Bytes) (s : Store) :
    Spec (fun s' => s' = s) (openParts host true code dir parts)
      (fun opened s' => opened = dir ++ parts ∧ Walked dir parts s s') (Walks dir parts s) := by
  induction parts generalizing dir s with
  | nil =>
      apply Spec.pure
      rintro s' rfl
      exact ⟨(List.append_nil dir).symm, Walked.refl dir s'⟩
  | cons part more ih =>
      have hname : IsName part := hnames part List.mem_cons_self
      have hwalks : ∀ s', Walks dir [part] s s' ∧ s'.log = s.log ++ mkdirCalls dir [part] →
          Walks dir (part :: more) s s' := fun s' h => h.1.of_single
      rw [openParts]
      apply Spec.quiet_bind quiet_contextErr
      · rintro s' rfl
        exact Walks.refl _ _ s'
      intro _
      -- the directory is made or was there already
      have hmade : Spec (fun s' => s' = s) (Effect.attempt (if true = true then mkdir host (dir ++ [part]) else pure ()))
          (fun _ s' => Walks dir [part] s s' ∧ s'.log = s.log ++ mkdirCalls dir [part]) (Walks dir (part :: more) s) := by
        rw [if_pos rfl]
        apply Spec.attempt
        exact (mkdir_spec dir part s).conseq (fun _ hp => hp) (fun _ _ hq => hq) fun _ he _ => he
      apply hmade.bind
      intro made
      apply Spec.quiet_bind (quiet_ignoreExist made) hwalks
      intro _
      apply Spec.quiet_bind quiet_contextErr hwalks
      intro _
      apply ((lstat_spec (dir ++ [part]) _).conseq (fun _ hp => hp) (fun _ _ hq => hq) hwalks).bind
      intro found
      -- what `lstat` found is a directory, so the step is taken
      have hwalked : Spec (fun s' => (Walks dir [part] s s' ∧ s'.log = s.log ++ mkdirCalls dir [part]) ∧
          (found = .ok true → s'.tree.lookup (dir ++ [part]) = some .directory)) (requireDirectory code found)
          (fun _ s' => Walked dir [part] s s') (Walks dir (part :: more) s) := by
        apply (requireDirectory_spec (A := fun s' => s'.tree.lookup (dir ++ [part]) = some .directory)
          fun hfound s' hs' => hs'.2 hfound).conseq (fun _ hp => hp) ?_ fun s' he => hwalks s' he.1
        rintro _ s' ⟨⟨⟨hgrows, hlog⟩, -⟩, hdirectory⟩
        refine ⟨hgrows.toGrows, hlog, ?_⟩
        intro front last hfront
        obtain ⟨rfl, rfl⟩ := eq_of_concat_prefix_singleton hfront
        rw [List.append_nil]
        exact hdirectory
      apply hwalked.bind
      intro _
      -- every later check may still end the walk here
      have hstopped : ∀ s', Walked dir [part] s s' → Walks dir (part :: more) s s' := fun s' h => h.walks.of_single
      apply Spec.quiet_bind quiet_contextErr hstopped
      intro _
      apply (openRoot_spec (fun clean hclean => below_name hname hclean) hstopped).bind
      intro child
      apply Spec.lift
      rintro rfl
      apply Spec.quiet_bind quiet_contextErr hstopped
      intro _
      apply Spec.quiet_bind (quiet_stat (lit ".")).attempt hstopped
      intro opened
      apply Spec.quiet_bind (quiet_requireSameFile code opened) hstopped
      intro _
      -- the rest of the walk begins in the store of this step
      apply Spec.of_forall
      intro s' hs'
      apply (ih (fun part hpart => hnames part (List.mem_cons_of_mem _ hpart)) (dir ++ [part]) s').conseq
      · exact fun _ hp => hp
      · rintro handle s'' ⟨hopened, hrest⟩
        refine ⟨?_, hs'.cons hrest⟩
        rw [hopened, ← List.append_cons]
      · intro s'' hrest
        exact hs'.walks_cons hrest

/-- A walk to a relative directory. -/
theorem openZipDestination_spec {parts : List Bytes} (hnames : ∀ part ∈ parts, IsName part) (dir : List Bytes)
    (s : Store) :
    Spec (fun s' => s' = s) (openZipDestination host dir (spell parts))
      (fun opened s' => opened = dir ++ parts ∧ Walked dir parts s s') (Walks dir parts s) := by
  have hrefl : ∀ s', s' = s → Walks dir parts s s' := by
    rintro s' rfl
    exact Walks.refl _ _ s'
  have hdot : ∀ clean, cleanRelative (lit ".") = .ok clean → below dir clean = dir := by
    intro clean hclean
    have hsame : cleanRelative (lit ".") = .ok (lit ".") := rfl
    rw [hsame] at hclean
    rw [← Except.ok.inj hclean, below, if_pos rfl]
  apply Spec.quiet_bind quiet_contextErr hrefl
  intro _
  apply (openRoot_spec hdot hrefl).bind
  intro current
  apply Spec.lift
  rintro rfl
  apply Spec.ite
  · -- `.` is the directory itself
    intro hspell
    have hnil : parts = [] := (spell_eq_dot_iff hnames).1 hspell
    apply Spec.quiet_bind quiet_contextErr hrefl
    intro _
    apply Spec.pure
    rintro s' rfl
    rw [hnil]
    exact ⟨(List.append_nil current).symm, Walked.refl current s'⟩
  · intro hspell
    have hne : parts ≠ [] := fun hnil => hspell ((spell_eq_dot_iff hnames).2 hnil)
    have hsplit : (spell parts).splitOn (chr '/') = parts := by
      rw [spell, if_neg hne]
      exact splitOn_joinOn (fun part hpart => (hnames part hpart).slash_not_mem) hne
    rw [hsplit]
    apply (openParts_spec hnames current s).bind
    intro opened
    apply Spec.quiet_bind quiet_contextErr
    · exact fun s' h => h.2.walks
    intro _
    exact Spec.pure fun s' h => h

/-! ## One file -/

/-- An output file with this content, in what was the store before it. -/
structure Copying (path : List Bytes) (base : Store) (content : Bytes) (s : Store) : Prop where
  tree_eq : s.tree = base.tree.insert path (.file content)
  calls : ∃ counts : List Nat, counts.sum = content.length ∧
    s.log = base.log ++ .create path :: counts.map (Event.write path)

theorem Copying.append {path : List Bytes} {base s : Store} {content chunk : Bytes} (h : Copying path base content s) :
    Copying path base (content ++ chunk) ((s.append path chunk).record (.write path chunk.length)) where
  tree_eq := by
    have hlookup : s.tree.lookup path = some (.file content) := by
      rw [h.tree_eq]
      exact AList.lookup_insert _
    rw [Store.append, hlookup]
    change s.tree.insert path (.file (content ++ chunk)) = _
    rw [h.tree_eq]
    exact AList.insert_insert _
  calls := by
    have hlog : (s.append path chunk).log = s.log := by
      rw [Store.append]
      split
      · rfl
      · rfl
    obtain ⟨counts, hsum, hcalls⟩ := h.calls
    refine ⟨counts ++ [chunk.length], ?_, ?_⟩
    · rw [List.sum_append, hsum, List.length_append, List.sum_singleton]
    · change (s.append path chunk).log ++ [Event.write path chunk.length] = _
      rw [hlog, hcalls, List.map_append, List.append_assoc, List.cons_append]
      rfl

theorem write_spec (path : List Bytes) (base : Store) (content chunk : Bytes) :
    Spec (Copying path base content) (write host path chunk) (fun _ => Copying path base (content ++ chunk))
      (fun s => ∃ part, part <+: chunk ∧ Copying path base (content ++ part) s) := by
  intro w hw
  rw [write]
  cases host.fault w.calls .write with
  | none =>
      refine ⟨fun _ _ => hw.append, ?_⟩
      intro e he
      cases he
  | some e =>
      constructor
      · intro b hb
        cases hb
      · intro e' _
        exact ⟨_, List.take_prefix _ chunk, hw.append⟩

theorem copier_writes (path : List Bytes) (base : Store) :
    (copier host path).Writes fun content w => Copying path base content w.store where
  contextErr := fun content => quiet_contextErr.triple (Copying path base content)
  write := write_spec path base

theorem copyBounded_spec {reader : Reader} (path : List Bytes) (base : Store) (limit : Nat) :
    Spec (Copying path base []) ((copier host path).copyBounded reader limit)
      (fun n s => ∃ content, (content.length = n ∧ n ≤ limit ∧ ∀ stream, reader.Follows stream → content = stream) ∧
        Copying path base content s)
      (fun s => ∃ content, content.length ≤ limit ∧ Copying path base content s) :=
  Copier.copyBounded_spec (copier_writes path base) limit

/-- Removing the file just created succeeds. -/
def Removes (host : Host) : Prop :=
  ∀ n, host.fault n .remove = none

/-- An output file that is whole: its name was free, and its stream has arrived. -/
structure Written (reader : Reader) (path : List Bytes) (limit n : Nat) (s s' : Store) : Prop where
  free : s.tree.lookup path = none
  le_limit : n ≤ limit
  copied : ∃ content, Copying path s content s' ∧ content.length = n ∧ ∀ stream, reader.Follows stream → content = stream

/-- A file that was not made or that was removed again; nothing is written where the name is taken. -/
structure Undone (host : Host) (path : List Bytes) (limit : Nat) (s s' : Store) : Prop where
  calls : ∃ counts : List Nat, counts.sum ≤ limit ∧ (s.tree.lookup path ≠ none → counts = []) ∧
    (s'.log = s.log ∨ s'.log = s.log ++ .create path :: counts.map (Event.write path))
  tree_eq : Removes host → s'.tree = s.tree

theorem Undone.refl (host : Host) (path : List Bytes) (limit : Nat) (s : Store) : Undone host path limit s s where
  calls := ⟨[], Nat.zero_le limit, fun _ => rfl, Or.inl rfl⟩
  tree_eq := fun _ => rfl

theorem Undone.called (host : Host) (path : List Bytes) (limit : Nat) (s : Store) :
    Undone host path limit s (s.record (.create path)) where
  calls := ⟨[], Nat.zero_le limit, fun _ => rfl, Or.inr rfl⟩
  tree_eq := fun _ => rfl

theorem openFile_spec {dir : List Bytes} {name : Bytes} (hname : IsName name) (limit : Nat) (s : Store) :
    Spec (fun s' => s' = s) (openFile host dir name)
      (fun path s' => (path = dir ++ [name] ∧ Accepted name ∧ s.tree.lookup (dir ++ [name]) = none) ∧
        Copying (dir ++ [name]) s [] s')
      (Undone host (dir ++ [name]) limit s) := by
  have hstart : ∀ s', s' = s → Undone host (dir ++ [name]) limit s s' := by
    rintro s' rfl
    exact Undone.refl host _ limit s'
  have hcalled : ∀ s', s' = s.record (.create (dir ++ [name])) → Undone host (dir ++ [name]) limit s s' := by
    rintro s' rfl
    exact Undone.called host _ limit s
  apply check_bind hstart
  intro clean hclean
  simp only [below_name hname hclean]
  apply changeStore_bind
  apply Spec.quiet_bind (quiet_call .openFile) hcalled
  intro _
  apply lookup_bind
  apply Spec.ite
  · intro _
    exact Spec.fail hcalled
  · intro htaken
    have hfree : s.tree.lookup (dir ++ [name]) = none := not_not.1 (not_or.1 htaken).2
    apply changeStore_bind
    apply Spec.pure
    rintro s' rfl
    exact ⟨⟨rfl, ⟨clean, hclean⟩, hfree⟩, rfl, [], rfl, rfl⟩

/-- A call that fails met a fault. -/
theorem call_spec {next : Call} {P : Store → Prop} :
    Spec P (call host next) (fun _ => P) fun s => P s ∧ ∃ n, host.fault n next ≠ none := by
  intro w hw
  rw [call]
  cases hfault : host.fault w.calls next with
  | none =>
      refine ⟨fun _ _ => hw, ?_⟩
      intro e he
      cases he
  | some e =>
      constructor
      · intro b hb
        cases hb
      · intro e' _
        refine ⟨hw, w.calls, ?_⟩
        rw [hfault]
        exact Option.some_ne_none e

/-- The output file is gone, where its removal succeeds. -/
theorem remove_spec {dir : List Bytes} {name : Bytes} (hname : IsName name) (haccepted : Accepted name) {limit : Nat}
    {base : Store} (hfree : base.tree.lookup (dir ++ [name]) = none) {content : Bytes} (hlimit : content.length ≤ limit)
    (E : Store → Prop) :
    Spec (Copying (dir ++ [name]) base content) (Effect.attempt (remove host dir name))
      (fun _ => Undone host (dir ++ [name]) limit base) E := by
  obtain ⟨clean, hclean⟩ := haccepted
  apply Spec.of_forall
  intro s hs
  obtain ⟨counts, hsum, hcalls⟩ := hs.calls
  -- either way no byte is written; only the tree depends on the removal
  have hundone {s' : Store} (hlog : s'.log = s.log) (htree : Removes host → s'.tree = base.tree) :
      Undone host (dir ++ [name]) limit base s' := {
    calls := by
      refine ⟨counts, hsum ▸ hlimit, ?_, Or.inr (hlog.trans hcalls)⟩
      intro htaken
      exact absurd hfree htaken
    tree_eq := htree
  }
  apply Spec.attempt
  have hcheck : (check (cleanRelative name) : Extraction Bytes) = pure clean := by
    rw [hclean]
    rfl
  rw [remove, hcheck]
  apply (Spec.pure (Q := fun found s' => found = clean ∧ s' = s) fun s' hs' => ⟨rfl, hs'⟩).bind
  intro found
  apply Spec.lift
  rintro rfl
  simp only [below_name hname hclean]
  apply ((call_spec (P := fun s' => s' = s)).conseq (fun _ hp => hp) (fun _ _ hq => hq) ?_).bind
  · intro _
    apply lookup_bind
    apply observe_bind
    intro held
    -- the file that was copied is there, and the one erased
    have hlookup : s.tree.lookup (dir ++ [name]) = some (.file content) := by
      rw [hs.tree_eq]
      exact AList.lookup_insert _
    have hfile : ¬(some (Node.file content) = some .directory ∧ held = true) := fun h => nomatch h.1
    rw [hlookup, if_neg (Option.some_ne_none _), if_neg hfile]
    apply spec_changeStore
    rintro s' rfl
    refine hundone rfl fun _ => ?_
    change s'.tree.erase (dir ++ [name]) = base.tree
    rw [hs.tree_eq]
    exact Keyed.erase_insert (AList.lookup_eq_none.1 hfree) _
  · -- a host that removes has no fault here
    rintro s' ⟨rfl, n, hfault⟩ e
    refine hundone rfl ?_
    intro hremoves
    exact absurd (hremoves n) hfault

theorem endOutput_spec {reader : Reader} {dir : List Bytes} {name : Bytes} (hname : IsName name)
    (haccepted : Accepted name) {limit : Nat} {base : Store} (hfree : base.tree.lookup (dir ++ [name]) = none)
    (copied : Except (Failure Error HostError) Nat) (closed : Except (Failure Error HostError) Unit) :
    Spec (fun s => ∃ content, Copying (dir ++ [name]) base content s ∧ content.length ≤ limit ∧
        ∀ n, copied = .ok n → content.length = n ∧ ∀ stream, reader.Follows stream → content = stream)
      (endOutput host dir name copied closed)
      (fun n s => Written reader (dir ++ [name]) limit n base s) (Undone host (dir ++ [name]) limit base) := by
  apply Spec.exists_pre
  intro content
  apply Spec.of_forall
  rintro s ⟨hs, hlimit, hcopied⟩
  have hremoved (e : Failure Error HostError) : Spec (fun s' => s' = s)
      (Effect.attempt (remove host dir name) >>= fun _ => (Effect.fail e : Extraction Nat))
      (fun n s => Written reader (dir ++ [name]) limit n base s) (Undone host (dir ++ [name]) limit base) := by
    apply ((remove_spec hname haccepted hfree hlimit _).conseq ?_ (fun _ _ hq => hq) fun _ he => he).bind
    · intro _
      exact Spec.fail fun _ h => h
    · rintro s' rfl
      exact hs
  cases copied with
  | error e =>
      exact hremoved e
  | ok n =>
      cases closed with
      | error e =>
          exact hremoved e
      | ok done =>
          obtain ⟨hlength, hall⟩ := hcopied n rfl
          apply Spec.pure
          rintro s' rfl
          exact ⟨hfree, hlength ▸ hlimit, content, hs, hlength, hall⟩

theorem extractZipFile_spec {reader : Reader} {dir : List Bytes} {name : Bytes} (hname : IsName name) (limit : Int)
    (s : Store) :
    Spec (fun s' => s' = s) (extractZipFile host reader dir name limit)
      (fun n s' => Written reader (dir ++ [name]) limit.toNat n s s') (Undone host (dir ++ [name]) limit.toNat s) := by
  apply Spec.quiet_bind (quiet_call .openEntry)
  · rintro s' rfl
    exact Undone.refl host _ _ s'
  intro _
  apply (openFile_spec hname limit.toNat s).bind
  intro path
  apply Spec.lift
  rintro ⟨rfl, haccepted, hfree⟩
  have hcopied : Spec (Copying (dir ++ [name]) s [])
      (Effect.attempt ((copier host (dir ++ [name])).copyBounded reader limit.toNat))
      (fun copied s' => ∃ content, Copying (dir ++ [name]) s content s' ∧ content.length ≤ limit.toNat ∧
        ∀ n, copied = .ok n → content.length = n ∧ ∀ stream, reader.Follows stream → content = stream)
      (Undone host (dir ++ [name]) limit.toNat s) := by
    apply Spec.attempt
    apply (copyBounded_spec (dir ++ [name]) s limit.toNat).conseq (fun _ hp => hp)
    · rintro n s' ⟨content, ⟨hlength, hlimit, hall⟩, hs'⟩
      refine ⟨content, hs', hlength ▸ hlimit, ?_⟩
      intro n' hn
      cases hn
      exact ⟨hlength, hall⟩
    · rintro s' ⟨content, hlimit, hs'⟩ e
      exact ⟨content, hs', hlimit, fun n hn => nomatch hn⟩
  apply hcopied.bind
  intro copied
  have hclosed : Spec (fun s' => ∃ content, Copying (dir ++ [name]) s content s' ∧ content.length ≤ limit.toNat ∧
      ∀ n, copied = .ok n → content.length = n ∧ ∀ stream, reader.Follows stream → content = stream)
      (Effect.attempt (call host .close)) (fun _ s' => ∃ content, Copying (dir ++ [name]) s content s' ∧
        content.length ≤ limit.toNat ∧
        ∀ n, copied = .ok n → content.length = n ∧ ∀ stream, reader.Follows stream → content = stream)
      (Undone host (dir ++ [name]) limit.toNat s) := by
    apply Spec.attempt
    exact Spec.quiet (quiet_call .close) (fun _ _ hs => hs) fun _ hs _ => hs
  apply hclosed.bind
  intro closed
  exact endOutput_spec hname haccepted hfree copied closed

/-! ## One entry -/

/-- What is left to the next file. -/
def allowance (limits : ZipLimits) (total : Int) : Int :=
  min limits.maxEntryBytes (limits.maxTotalBytes - total)

/-- An entry that is unpacked, from a store and a total to a total and a store. -/
inductive EntryDone (limits : ZipLimits) (destination : List Bytes) (total : Int) (member : Member)
    (parts : List Bytes) : Store → Int → Store → Prop
  | directory {s s' : Store} : member.entry.mode = .directory → Walked destination parts s s' →
      EntryDone limits destination total member parts s total s'
  | file {s s' s'' : Store} {n : Nat} : member.entry.mode ≠ .directory → Walked destination parts.dropLast s s' →
      Written member.reader (destination ++ parts) (allowance limits total).toNat n
        (s'.record (.allowance (allowance limits total))) s'' →
      EntryDone limits destination total member parts s (total + n) s''

/-- An entry at which the call fails. -/
inductive EntryFailed (host : Host) (limits : ZipLimits) (destination : List Bytes) (total : Int) (member : Member)
    (parts : List Bytes) : Store → Store → Prop
  | context (s : Store) : EntryFailed host limits destination total member parts s s
  | directory {s s' : Store} : member.entry.mode = .directory → Walks destination parts s s' →
      EntryFailed host limits destination total member parts s s'
  | parent {s s' : Store} : member.entry.mode ≠ .directory → Walks destination parts.dropLast s s' →
      EntryFailed host limits destination total member parts s s'
  | file {s s' s'' : Store} : member.entry.mode ≠ .directory → Walked destination parts.dropLast s s' →
      Undone host (destination ++ parts) (allowance limits total).toNat
        (s'.record (.allowance (allowance limits total))) s'' →
      EntryFailed host limits destination total member parts s s''

theorem extractEntry_spec {limits : ZipLimits} {destination parts : List Bytes} {total : Int} {member : Member}
    (h : Resolved member.entry parts) (s : Store) :
    Spec (fun s' => s' = s) (extractEntry host limits destination total member)
      (fun total' s' => EntryDone limits destination total member parts s total' s')
      (EntryFailed host limits destination total member parts s) := by
  rw [extractEntry, h.entryRel_eq, h.dir_eq.1, h.dir_eq.2]
  apply Spec.ite
  · intro hmode
    apply ((openZipDestination_spec h.names destination s).conseq (fun _ hp => hp) (fun _ _ hq => hq)
      fun _ he => EntryFailed.directory hmode he).bind
    intro opened
    apply Spec.pure
    rintro s' ⟨-, hwalked⟩
    exact EntryDone.directory hmode hwalked
  · intro hmode
    have hinit : ∀ part ∈ parts.dropLast, IsName part :=
      fun part hpart => h.names part (List.dropLast_subset _ hpart)
    have hlast : IsName (parts.getLast h.ne_nil) := h.names _ (List.getLast_mem h.ne_nil)
    have hpath : destination ++ parts.dropLast ++ [parts.getLast h.ne_nil] = destination ++ parts := by
      rw [List.append_assoc, List.dropLast_append_getLast]
    apply ((openZipDestination_spec hinit destination s).conseq (fun _ hp => hp) (fun _ _ hq => hq)
      fun _ he => EntryFailed.parent hmode he).bind
    intro opened
    apply Spec.lift
    rintro rfl
    apply Spec.of_forall
    intro s' hwalked
    apply changeStore_bind
    have hfile : Spec (fun s'' => s'' = s'.record (.allowance (allowance limits total)))
        (extractZipFile host member.reader (destination ++ parts.dropLast) (parts.getLast h.ne_nil)
          (allowance limits total)) _ _ :=
      extractZipFile_spec hlast (allowance limits total) (s'.record (.allowance (allowance limits total)))
    rw [hpath] at hfile
    apply (hfile.conseq (fun _ hp => hp) (fun _ _ hq => hq) fun _ he => EntryFailed.file hmode hwalked he).bind
    intro n
    apply Spec.pure
    intro s'' hwritten
    exact EntryDone.file hmode hwalked hwritten

/-- The rule of the extraction loop: what every entry keeps. -/
theorem extractEntries_spec {limits : ZipLimits} {destination : List Bytes} {I : List Member → Int → Store → Prop}
    {E : Store → Prop} (hstopped : ∀ members total s, I members total s → E s)
    (hentry : ∀ member members total s, I (member :: members) total s →
      Spec (fun s' => s' = s) (extractEntry host limits destination total member) (fun total' => I members total') E)
    (members : List Member) (total : Int) :
    Spec (I members total) (extractEntries host limits destination total members) (fun total' => I [] total') E := by
  induction members generalizing total with
  | nil =>
      exact Spec.pure fun _ hs => hs
  | cons member members ih =>
      apply Spec.quiet_bind quiet_contextErr
      · exact fun s hs => hstopped _ _ s hs
      intro _
      have hfirst : Spec (I (member :: members) total) (extractEntry host limits destination total member)
          (fun total' => I members total') E := Spec.of_forall fun s hs => hentry member members total s hs
      exact hfirst.bind fun total' => ih total'

/-! ## All of it -/

/-- What has been checked when the first directory is made. -/
structure Prepared (l limits : ZipLimits) (destRel destClean : Bytes) (entries : List ZipEntry) : Prop where
  limits_eq : defaultZipLimits l = .ok limits
  clean_eq : cleanRelative destRel = .ok destClean
  accepted : ∃ budget, destinationBudget limits destClean = .ok budget ∧ preflight limits budget 0 entries = .ok ()

theorem Prepared.resolved {l limits : ZipLimits} {destRel destClean : Bytes} {members : List Member}
    (h : Prepared l limits destRel destClean (members.map Member.entry)) :
    ∀ member ∈ members, ∃ parts, Resolved member.entry parts := by
  intro member hmember
  obtain ⟨budget, -, hpreflight⟩ := h.accepted
  exact resolved_of_preflight hpreflight member.entry (List.mem_map_of_mem hmember)

theorem preflightEntries_spec {limits : ZipLimits} (budget : ZipPathBudget) (declared : UInt64)
    (entries : List ZipEntry) {P : Store → Prop} {E : Store → Prop} (hE : ∀ s, P s → E s) :
    Spec P (preflightEntries limits budget declared entries)
      (fun _ s => preflight limits budget declared entries = .ok () ∧ P s) E := by
  induction entries generalizing budget declared with
  | nil =>
      exact Spec.pure fun s hs => ⟨rfl, hs⟩
  | cons entry entries ih =>
      apply Spec.quiet_bind quiet_contextErr hE
      intro _
      apply check_bind hE
      intro next hnext
      apply (ih next.1 next.2).conseq (fun _ hp => hp) ?_ fun _ he => he
      rintro _ s ⟨hrest, hs⟩
      refine ⟨?_, hs⟩
      rw [preflight, hnext]
      exact hrest

/-- Up to the first directory nothing is changed. -/
theorem prepare_spec {zipRel destRel : Bytes} {l : ZipLimits} {entries : List ZipEntry} {P : Store → Prop}
    {E : Store → Prop} (hE : ∀ s, P s → E s) :
    Spec P (prepare host zipRel destRel l entries)
      (fun prepared s => Prepared l prepared.1 destRel prepared.2 entries ∧ P s) E := by
  apply check_bind hE
  intro limits hlimits
  apply check_bind hE
  intro _ _
  apply check_bind hE
  intro _ _
  apply check_bind hE
  intro destClean hclean
  apply Spec.quiet_bind quiet_contextErr hE
  intro _
  apply check_bind hE
  intro budget hbudget
  apply Spec.quiet_bind (quiet_contextErrs host.archiveReads) hE
  intro _
  apply Spec.quiet_bind (quiet_call .readArchive) hE
  intro _
  apply check_bind hE
  intro _ _
  apply (preflightEntries_spec budget 0 entries hE).bind
  intro _
  apply Spec.lift
  intro hpreflight
  apply Spec.quiet_bind quiet_contextErr hE
  intro _
  exact Spec.pure fun s hs => ⟨⟨hlimits, hclean, budget, hbudget, hpreflight⟩, hs⟩

/-- The extraction, from the rule of its loop. -/
theorem extractZipWithLimits_spec {zipRel destRel : Bytes} {l : ZipLimits} {members : List Member} {s : Store}
    {Q E : Store → Prop} (hrefused : E s)
    (hprepared : ∀ limits parts, Prepared l limits destRel (spell parts) (members.map Member.entry) →
      (∀ part ∈ parts, IsName part) →
        (∀ s', Walks [] parts s s' → E s') ∧
          ∀ s', Walked [] parts s s' →
            Spec (fun s'' => s'' = s') (extractEntries host limits parts 0 members) (fun _ => Q) E) :
    Spec (fun s' => s' = s) (extractZipWithLimits host zipRel destRel l members) (fun _ => Q) E := by
  have hquiet : ∀ s', s' = s → E s' := by
    rintro s' rfl
    exact hrefused
  apply (prepare_spec (P := fun s' => s' = s) hquiet).bind
  intro prepared
  apply Spec.lift
  intro hready
  obtain ⟨-, parts, hresolve, hspell⟩ := cleanRelative_eq_ok_iff.1 hready.clean_eq
  rw [← hspell] at hready
  obtain ⟨hwalks, hloop⟩ := hprepared prepared.1 parts hready (isName_of_resolve hresolve)
  rw [← hspell]
  apply ((openZipDestination_spec (isName_of_resolve hresolve) [] s).conseq (fun _ hp => hp) (fun _ _ hq => hq)
    hwalks).bind
  intro destination
  apply Spec.lift
  rintro rfl
  apply Spec.of_forall
  intro s' hwalked
  apply (hloop s' hwalked).bind
  intro _
  exact Spec.pure fun _ hq => hq

end Disk

end FS

end CanonicalPath
