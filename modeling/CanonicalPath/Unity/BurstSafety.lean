import CanonicalPath.Identity.Root
import CanonicalPath.Unity.Burst
import Mathlib.Data.List.Induction

/-!
# BurstSafety — what the buffer helper accepts and writes

The helper never writes behind its capacity.  It accepts an input by its pieces between separators, and writes the
nonempty ones; two kinds of inputs keep it from its purpose, those with a dot as a component, which stays, and those
with a component of other units before exactly three dots, which is refused.

* `copyUnits_pieces` : a run over the pieces of an input, round by round
* `copy_ok_iff` : the inputs that are accepted, and the text that is written
* `copyRelativeCanonical_canonical_iff` : where the helper produces canonical relative paths
-/

namespace CanonicalPath

namespace Unity

namespace Burst

open CodeUnit Segments

open Effect (Triple)

variable {capacity : Int} {s s' : Buffer} {value : UInt16} {piece input : List UInt16} {pieces : List (List UInt16)}

/-! ## Writes -/

/-- Every index that has been written is within the capacity. -/
def Within (capacity : Int) (s : Buffer) : Prop :=
  ∀ i ∈ s.touched, (i : Int) < capacity

theorem put_run : put capacity value s =
    if capacity ≤ s.written then (.error .invalidPath, s) else (.ok (), s.push value) := by
  have hrun : put capacity value s = (if (s.written : Int) ≥ capacity then Effect.fail .invalidPath
      else Effect.modify fun s => s.push value : Copying Unit) s := rfl
  rw [hrun]
  by_cases hfull : capacity ≤ s.written
  · rw [if_pos hfull, if_pos hfull]
    rfl
  · rw [if_neg hfull, if_neg hfull]
    rfl

theorem put_within : Triple (Within capacity) (put capacity value) (fun _ => Within capacity) fun _ => Within capacity := by
  intro s hs
  rw [put_run]
  by_cases hfull : capacity ≤ s.written
  · rw [if_pos hfull]
    exact ⟨fun _ _ => hs, fun _ _ => hs⟩
  · rw [if_neg hfull]
    have hpush : Within capacity (s.push value) := by
      intro i hi
      rcases List.mem_append.1 hi with hold | hnew
      · exact hs i hold
      · rw [List.mem_singleton.1 hnew]
        exact Int.not_le.1 hfull
    exact ⟨fun _ _ => hpush, fun _ _ => hpush⟩

/-- The flags and counters are not written through the pointer. -/
theorem modify_within {change : Buffer → Buffer} (h : ∀ s, (change s).touched = s.touched) :
    Triple (Within capacity) (Effect.modify change : Copying Unit) (fun _ => Within capacity)
      fun _ => Within capacity := by
  apply Triple.modify
  intro s hs i hi
  rw [h s] at hi
  exact hs i hi

theorem copySeparator_within : Triple (Within capacity) (copySeparator capacity) (fun _ => Within capacity)
    fun _ => Within capacity := by
  apply Triple.observe_bind
  intro s hs
  have hthis : ∀ s', s' = s → Within capacity s' := by
    intro s' hsame
    rw [hsame]
    exact hs
  apply Triple.pre _ hthis
  apply Triple.ite
  · intro _
    exact Triple.fail fun _ h => h
  · intro _
    refine Triple.bind (Q := fun _ => Within capacity) (modify_within ?_) fun _ => ?_
    · intro _
      rfl
    apply Triple.ite
    · intro _
      exact Triple.pure fun _ h => h
    · intro _
      apply put_within.bind
      intro _
      exact modify_within fun _ => rfl

theorem copyOther_within : Triple (Within capacity) (copyOther capacity value) (fun _ => Within capacity)
    fun _ => Within capacity := by
  refine Triple.bind (Q := fun _ => Within capacity) (modify_within ?_) fun _ => ?_
  · intro _
    rfl
  apply put_within.bind
  intro _
  exact modify_within fun _ => rfl

theorem copyUnit_within : Triple (Within capacity) (copyUnit capacity value) (fun _ => Within capacity)
    fun _ => Within capacity := by
  apply Triple.ite
  · intro _
    exact Triple.fail fun _ h => h
  · intro _
    exact Triple.ite (fun _ => copySeparator_within) fun _ => copyOther_within

theorem copyUnits_within (input : List UInt16) : Triple (Within capacity) (copyUnits capacity input)
    (fun _ => Within capacity) fun _ => Within capacity := by
  induction input with
  | nil =>
      exact Triple.pure fun _ h => h
  | cons value more ih =>
      exact copyUnit_within.bind fun _ => ih

theorem finishCopy_within : Triple (Within capacity) finishCopy (fun _ => Within capacity) fun _ => Within capacity := by
  apply Triple.observe_bind
  intro s hs
  have hthis : ∀ s', s' = s → Within capacity s' := by
    intro s' hsame
    rw [hsame]
    exact hs
  apply Triple.pre _ hthis
  have hend : Triple (Within capacity)
      (Effect.observe Buffer.written >>= fun written =>
        if written = 0 then Effect.fail .emptyPath else (pure () : Copying Unit))
      (fun _ => Within capacity) fun _ => Within capacity := by
    apply Triple.bind (Q := fun _ => Within capacity) (Triple.observe fun _ h => h)
    intro written
    apply Triple.ite
    · intro _
      exact Triple.fail fun _ h => h
    · intro _
      exact Triple.pure fun _ h => h
  apply Triple.ite
  · intro _
    exact Triple.fail fun _ h => h
  · intro _
    apply Triple.ite
    · intro _
      refine Triple.bind (Q := fun _ => Within capacity) (modify_within ?_) fun _ => ?_
      · intro _
        rfl
      exact hend
    · intro _
      exact hend

/-- No run, successful or not, writes at or behind the capacity. -/
theorem copyRelativeCanonical_within (input : Option (List UInt16)) (output : Option (Nat → UInt16)) (capacity : Int) :
    Within capacity (copyRelativeCanonical input output capacity).2 := by
  have hstart : ∀ output, Within capacity { output := output } := fun output i hi => absurd hi List.not_mem_nil
  cases input with
  | none =>
      exact hstart _
  | some input =>
      cases output with
      | none =>
          exact hstart _
      | some output =>
          have hrun : Triple (Within capacity) (copyUnits capacity input >>= fun _ => finishCopy)
              (fun _ => Within capacity) fun _ => Within capacity :=
            (copyUnits_within input).bind fun _ => finishCopy_within
          rw [copyRelativeCanonical]
          split
          · exact hstart output
          · split
            · exact hstart output
            · dsimp only
              split
              · exact hstart output
              · exact hrun.final (fun _ _ h => h) (fun _ _ h => h) (hstart output)

/-! ## Rounds -/

/-- The state behind a unit that is copied. -/
def Buffer.copied (s : Buffer) (value : UInt16) : Buffer :=
  { s.push value with
    previousSeparator := false
    componentDots := nextDots s.componentDots value }

/-- A separator is left out at the start and behind another one. -/
def Buffer.Skips (s : Buffer) : Prop :=
  s.previousSeparator = true ∨ s.written = 0

instance (s : Buffer) : Decidable s.Skips :=
  inferInstanceAs (Decidable (_ ∨ _))

/-- The state behind a separator. -/
def Buffer.separated (s : Buffer) : Buffer :=
  if s.Skips then
    { s with componentDots := 0 }
  else
    { s.push (chr '/') with
      previousSeparator := true
      componentDots := 0 }

theorem isSeparator_iff : isSeparator value = true ↔ value = chr '/' ∨ value = chr '\\' := by
  rw [isSeparator, Bool.or_eq_true, beq_iff_eq, beq_iff_eq]

theorem copyOther_run : copyOther capacity value s =
    if capacity ≤ s.written then
      (.error .invalidPath, { s with componentDots := nextDots s.componentDots value })
    else
      (.ok (), s.copied value) := by
  have hrun : copyOther capacity value s = (put capacity value >>= fun _ =>
      Effect.modify fun s => { s with previousSeparator := false })
      { s with componentDots := nextDots s.componentDots value } := rfl
  -- the counter has moved on when the room is checked
  have hput := @put_run capacity { s with componentDots := nextDots s.componentDots value } value
  rw [hrun]
  by_cases hfull : capacity ≤ s.written
  · rw [if_pos hfull] at hput ⊢
    exact Effect.bind_error hput
  · rw [if_neg hfull] at hput ⊢
    exact Effect.bind_ok hput

theorem copySeparator_run : copySeparator capacity s =
    if s.componentDots = 2 then
      (.error .invalidPath, s)
    else if s.Skips then
      (.ok (), s.separated)
    else if capacity ≤ s.written then
      (.error .invalidPath, { s with componentDots := 0 })
    else
      (.ok (), s.separated) := by
  have hput := @put_run capacity { s with componentDots := 0 } (chr '/')
  have hrun : copySeparator capacity s = (if s.componentDots = 2 then Effect.fail .invalidPath else _ : Copying Unit) s :=
    rfl
  rw [hrun]
  -- two dots stop the pass; behind them come the separators that are left out, and then the room
  by_cases hdots : s.componentDots = 2
  · rw [if_pos hdots, if_pos hdots]
    rfl
  rw [if_neg hdots, if_neg hdots]
  change (if s.Skips then pure () else put capacity (chr '/') >>= fun _ =>
    Effect.modify fun s => { s with previousSeparator := true } : Copying Unit) { s with componentDots := 0 } = _
  rw [Buffer.separated]
  by_cases hskips : s.Skips
  · rw [if_pos hskips, if_pos hskips, if_pos hskips]
    rfl
  rw [if_neg hskips, if_neg hskips, if_neg hskips]
  by_cases hfull : capacity ≤ s.written
  · rw [if_pos hfull] at hput ⊢
    exact Effect.bind_error hput
  · rw [if_neg hfull] at hput ⊢
    exact Effect.bind_ok hput

/-- A run over two parts of an input. -/
theorem copyUnits_append (front more : List UInt16) :
    copyUnits capacity (front ++ more) = copyUnits capacity front >>= fun _ => copyUnits capacity more := by
  induction front with
  | nil =>
      rfl
  | cons value front ih =>
      rw [List.cons_append, copyUnits, ih, copyUnits, Effect.bind_assoc]

theorem copyUnits_cons_ok_iff {more : List UInt16} : copyUnits capacity (value :: more) s = (.ok (), s') ↔
    ∃ middle, copyUnit capacity value s = (.ok (), middle) ∧ copyUnits capacity more middle = (.ok (), s') := by
  rw [copyUnits, Effect.bind_eq_ok_iff]
  constructor
  · rintro ⟨_, middle, hfirst, hmore⟩
    exact ⟨middle, hfirst, hmore⟩
  · rintro ⟨middle, hfirst, hmore⟩
    exact ⟨(), middle, hfirst, hmore⟩

theorem copyUnit_other_ok_iff (hvalue : isSeparator value = false) :
    copyUnit capacity value s = (.ok (), s') ↔ value ≠ 0 ∧ (s.written : Int) < capacity ∧ s' = s.copied value := by
  rw [copyUnit, hvalue, if_neg Bool.false_ne_true]
  by_cases hnul : value = 0
  · rw [if_pos hnul]
    exact ⟨fun h => (nomatch h), fun h => absurd hnul h.1⟩
  rw [if_neg hnul, copyOther_run]
  by_cases hfull : capacity ≤ s.written
  · rw [if_pos hfull]
    exact ⟨fun h => (nomatch h), fun h => absurd hfull (Int.not_le.2 h.2.1)⟩
  · rw [if_neg hfull]
    constructor
    · intro h
      exact ⟨hnul, Int.not_le.1 hfull, (Prod.mk.inj h).2.symm⟩
    · intro h
      rw [h.2.2]

theorem copyUnit_separator_ok_iff (hvalue : isSeparator value = true) :
    copyUnit capacity value s = (.ok (), s') ↔
      s.componentDots ≠ 2 ∧ (s.Skips ∨ (s.written : Int) < capacity) ∧ s' = s.separated := by
  have hnul : value ≠ 0 := by
    rcases isSeparator_iff.1 hvalue with hslash | hbackslash
    · rw [hslash]
      decide
    · rw [hbackslash]
      decide
  rw [copyUnit, if_neg hnul, if_pos hvalue, copySeparator_run]
  by_cases hdots : s.componentDots = 2
  · rw [if_pos hdots]
    exact ⟨fun h => (nomatch h), fun h => absurd hdots h.1⟩
  rw [if_neg hdots]
  by_cases hskips : s.Skips
  · rw [if_pos hskips]
    constructor
    · intro h
      exact ⟨hdots, .inl hskips, (Prod.mk.inj h).2.symm⟩
    · intro h
      rw [h.2.2]
  rw [if_neg hskips]
  by_cases hfull : capacity ≤ s.written
  · rw [if_pos hfull]
    exact ⟨fun h => (nomatch h), fun h => absurd hfull (Int.not_le.2 (h.2.1.resolve_left hskips))⟩
  · rw [if_neg hfull]
    constructor
    · intro h
      exact ⟨hdots, .inr (Int.not_le.1 hfull), (Prod.mk.inj h).2.symm⟩
    · intro h
      rw [h.2.2]

/-! ## Pieces -/

/-- The count of a component's dots that the pass ends with. -/
def dotCount (piece : List UInt16) : Int :=
  piece.foldl nextDots 0

theorem written_copied (piece : List UInt16) (s : Buffer) :
    (piece.foldl Buffer.copied s).written = s.written + piece.length := by
  induction piece generalizing s with
  | nil =>
      rfl
  | cons value piece ih =>
      rw [List.foldl_cons, ih, List.length_cons]
      change s.written + 1 + piece.length = s.written + (piece.length + 1)
      omega

theorem componentDots_copied (piece : List UInt16) (s : Buffer) :
    (piece.foldl Buffer.copied s).componentDots = piece.foldl nextDots s.componentDots := by
  induction piece generalizing s with
  | nil =>
      rfl
  | cons value piece ih =>
      exact ih (s.copied value)

theorem text_push : (s.push value).text = s.text ++ [value] := by
  have hsame : ∀ i ∈ List.range s.written, (s.push value).output i = s.output i := by
    intro i hi
    exact Function.update_of_ne (Nat.ne_of_lt (List.mem_range.1 hi)) _ _
  have hnew : (s.push value).output s.written = value := Function.update_self _ _ _
  change (List.range (s.written + 1)).map (s.push value).output = _
  rw [List.range_succ, List.map_append, List.map_congr_left hsame, List.map_singleton, hnew]
  rfl

theorem text_copied (piece : List UInt16) (s : Buffer) : (piece.foldl Buffer.copied s).text = s.text ++ piece := by
  induction piece generalizing s with
  | nil =>
      exact (List.append_nil _).symm
  | cons value piece ih =>
      have hfirst : (s.copied value).text = s.text ++ [value] := text_push
      rw [List.foldl_cons, ih, hfirst, List.append_assoc, List.singleton_append]

/-- Behind a piece that is not empty a separator is copied. -/
theorem not_skips_copied (hpiece : piece ≠ []) (s : Buffer) : ¬(piece.foldl Buffer.copied s).Skips := by
  -- the first unit clears the flag, and no unit behind it sets it
  have hflag : ∀ (more : List UInt16) (s : Buffer), s.previousSeparator = false →
      (more.foldl Buffer.copied s).previousSeparator = false := by
    intro more
    induction more with
    | nil =>
        intro s hs
        exact hs
    | cons value more ih =>
        intro s _
        exact ih (s.copied value) rfl
  cases piece with
  | nil =>
      exact absurd rfl hpiece
  | cons value more =>
      rintro (hprevious | hwritten)
      · rw [List.foldl_cons, hflag more (s.copied value) rfl] at hprevious
        cases hprevious
      · rw [written_copied, List.length_cons] at hwritten
        omega

theorem copyUnits_piece_ok_iff (hpiece : ∀ value ∈ piece, isSeparator value = false) :
    copyUnits capacity piece s = (.ok (), s') ↔
      0 ∉ piece ∧ (piece = [] ∨ ((s.written + piece.length : Nat) : Int) ≤ capacity) ∧
        s' = piece.foldl Buffer.copied s := by
  induction piece generalizing s with
  | nil =>
      constructor
      · intro h
        exact ⟨List.not_mem_nil, .inl rfl, (Prod.mk.inj h).2.symm⟩
      · intro h
        rw [h.2.2]
        rfl
  | cons value piece ih =>
      obtain ⟨hvalue, hmore⟩ := List.forall_mem_cons.1 hpiece
      rw [copyUnits_cons_ok_iff]
      constructor
      · rintro ⟨middle, hfirst, hrest⟩
        obtain ⟨hnul, hroom, rfl⟩ := (copyUnit_other_ok_iff hvalue).1 hfirst
        obtain ⟨hnuls, hfits, rfl⟩ := (ih hmore).1 hrest
        refine ⟨?_, .inr ?_, rfl⟩
        · rw [List.mem_cons, not_or]
          exact ⟨fun h => hnul h.symm, hnuls⟩
        · have hwritten : (s.copied value).written = s.written + 1 := rfl
          rcases hfits with hnil | hfits
          · rw [hnil]
            exact hroom
          · rw [hwritten] at hfits
            rw [List.length_cons]
            omega
      · rintro ⟨hnuls, hfits, rfl⟩
        rw [List.mem_cons, not_or] at hnuls
        have hfits := hfits.resolve_left (List.cons_ne_nil _ _)
        rw [List.length_cons] at hfits
        refine ⟨s.copied value, (copyUnit_other_ok_iff hvalue).2 ⟨fun h => hnuls.1 h.symm, by omega, rfl⟩, ?_⟩
        refine (ih hmore).2 ⟨hnuls.2, .inr ?_, rfl⟩
        have hwritten : (s.copied value).written = s.written + 1 := rfl
        rw [hwritten]
        omega

/-- The nonempty pieces, each but the last with a separator behind it. -/
def squeezed : List (List UInt16) → List UInt16
  | [] => []
  | [piece] => piece
  | piece :: next :: more =>
      if piece = [] then squeezed (next :: more) else piece ++ chr '/' :: squeezed (next :: more)

/-- The state behind the pieces of an input. -/
def Buffer.walk (s : Buffer) : List (List UInt16) → Buffer
  | [] => s
  | [piece] => piece.foldl Buffer.copied s
  | piece :: next :: more => (piece.foldl Buffer.copied s).separated.walk (next :: more)

/-- Where a separator is left out, the state is the one at the start of a piece. -/
theorem separated_of_skips (hskips : s.Skips) (hdots : s.componentDots = 0) : s.separated = s := by
  rw [Buffer.separated, if_pos hskips]
  obtain ⟨output, touched, written, previousSeparator, componentDots⟩ := s
  cases hdots
  rfl

theorem separated_of_not_skips (hskips : ¬s.Skips) :
    s.separated.Skips ∧ s.separated.componentDots = 0 ∧ s.separated.written = s.written + 1 ∧
      s.separated.text = s.text ++ [chr '/'] := by
  have htext : (s.push (chr '/')).text = s.text ++ [chr '/'] := text_push
  rw [Buffer.separated, if_neg hskips]
  exact ⟨.inl rfl, rfl, rfl, htext⟩

/-- A piece and its separator, in front of the rest of an input: an empty piece leaves no trace. -/
theorem copyUnits_separated_ok_iff (hpiece : ∀ value ∈ piece, isSeparator value = false) (hskips : s.Skips)
    (hdots : s.componentDots = 0) (text : List UInt16) :
    copyUnits capacity (piece ++ chr '/' :: text) s = (.ok (), s') ↔
      0 ∉ piece ∧ dotCount piece ≠ 2 ∧ (piece = [] ∨ ((s.written + piece.length + 1 : Nat) : Int) ≤ capacity) ∧
        copyUnits capacity text (piece.foldl Buffer.copied s).separated = (.ok (), s') := by
  have hcount : (piece.foldl Buffer.copied s).componentDots = dotCount piece := by
    rw [componentDots_copied, hdots]
    rfl
  have hslash : isSeparator (chr '/') = true := rfl
  rw [copyUnits_append, Effect.bind_eq_ok_iff]
  constructor
  · intro h
    obtain ⟨_, middle, hfirst, hrest⟩ := h
    obtain ⟨hnuls, -, rfl⟩ := (copyUnits_piece_ok_iff hpiece).1 hfirst
    obtain ⟨after, hsep, hrest⟩ := copyUnits_cons_ok_iff.1 hrest
    obtain ⟨hdotted, hroom, rfl⟩ := (copyUnit_separator_ok_iff hslash).1 hsep
    rw [hcount] at hdotted
    refine ⟨hnuls, hdotted, ?_, hrest⟩
    by_cases hempty : piece = []
    · exact .inl hempty
    · have hroom := hroom.resolve_left (not_skips_copied hempty s)
      rw [written_copied] at hroom
      right
      omega
  · intro h
    obtain ⟨hnuls, hdotted, hroom, hrest⟩ := h
    have hfits : piece = [] ∨ ((s.written + piece.length : Nat) : Int) ≤ capacity := by
      apply hroom.imp_right
      intro hroom
      omega
    refine ⟨(), _, (copyUnits_piece_ok_iff hpiece).2 ⟨hnuls, hfits, rfl⟩, ?_⟩
    refine copyUnits_cons_ok_iff.2 ⟨_, (copyUnit_separator_ok_iff hslash).2 ⟨?_, ?_, rfl⟩, hrest⟩
    · rw [hcount]
      exact hdotted
    · rcases hroom with hempty | hroom
      · left
        rw [hempty]
        exact hskips
      · right
        rw [written_copied]
        omega

/-- A run over the pieces of an input: what makes it succeed, and the state it ends in. -/
theorem copyUnits_pieces_ok_iff (hpieces : ∀ piece ∈ pieces, ∀ value ∈ piece, isSeparator value = false)
    (hne : pieces ≠ []) (hskips : s.Skips) (hdots : s.componentDots = 0) :
    copyUnits capacity (joinOn (chr '/') pieces) s = (.ok (), s') ↔
      (∀ piece ∈ pieces, 0 ∉ piece) ∧ (∀ piece ∈ pieces.dropLast, dotCount piece ≠ 2) ∧
        (squeezed pieces = [] ∨ ((s.written + (squeezed pieces).length : Nat) : Int) ≤ capacity) ∧
          s' = s.walk pieces := by
  induction pieces generalizing s with
  | nil =>
      exact absurd rfl hne
  | cons piece pieces ih =>
      obtain ⟨hpiece, hmore⟩ := List.forall_mem_cons.1 hpieces
      cases pieces with
      | nil =>
          have hjoin : joinOn (chr '/') [piece] = piece := by simp [joinOn]
          rw [hjoin, copyUnits_piece_ok_iff hpiece, List.forall_mem_singleton]
          constructor
          · intro h
            exact ⟨h.1, List.forall_mem_nil _, h.2⟩
          · intro h
            exact ⟨h.1, h.2.2⟩
      | cons next more =>
          have hnext := fun {s : Buffer} => @ih s hmore (List.cons_ne_nil _ _)
          have hnulsiff : (∀ part ∈ piece :: next :: more, 0 ∉ part) ↔ 0 ∉ piece ∧ ∀ part ∈ next :: more, 0 ∉ part :=
            List.forall_mem_cons
          have hcountsiff : (∀ part ∈ (piece :: next :: more).dropLast, dotCount part ≠ 2) ↔
              dotCount piece ≠ 2 ∧ ∀ part ∈ (next :: more).dropLast, dotCount part ≠ 2 := List.forall_mem_cons
          rw [joinOn_cons_of_ne_nil (List.cons_ne_nil _ _), copyUnits_separated_ok_iff hpiece hskips hdots, hnulsiff,
            hcountsiff, squeezed, Buffer.walk]
          -- behind an empty piece the separator is left out, and the state is the same
          by_cases hempty : piece = []
          · have hstart : (piece.foldl Buffer.copied s).separated = s := by
              rw [hempty]
              exact separated_of_skips hskips hdots
            rw [if_pos hempty, hstart, hnext hskips hdots]
            constructor
            · intro h
              obtain ⟨hnuls, hdotted, -, hnuls', hcounts, hfits, hend⟩ := h
              exact ⟨⟨hnuls, hnuls'⟩, ⟨hdotted, hcounts⟩, hfits, hend⟩
            · intro h
              obtain ⟨⟨hnuls, hnuls'⟩, ⟨hdotted, hcounts⟩, hfits, hend⟩ := h
              exact ⟨hnuls, hdotted, .inl hempty, hnuls', hcounts, hfits, hend⟩
          · obtain ⟨hskips', hdots', hwritten', -⟩ := separated_of_not_skips (not_skips_copied hempty s)
            rw [written_copied] at hwritten'
            have hlength : (piece ++ chr '/' :: squeezed (next :: more)).length =
                piece.length + 1 + (squeezed (next :: more)).length := by
              rw [List.length_append, List.length_cons]
              omega
            have hnil : piece ++ chr '/' :: squeezed (next :: more) ≠ [] := by
              simp
            rw [if_neg hempty, or_iff_right hnil, hlength, hnext hskips' hdots', hwritten', or_iff_right hempty]
            constructor
            · intro h
              obtain ⟨hnuls, hdotted, hroom, hnuls', hcounts, hfits, hend⟩ := h
              refine ⟨⟨hnuls, hnuls'⟩, ⟨hdotted, hcounts⟩, ?_, hend⟩
              rcases hfits with hfits | hfits
              · rw [hfits, List.length_nil]
                omega
              · omega
            · intro h
              obtain ⟨⟨hnuls, hnuls'⟩, ⟨hdotted, hcounts⟩, hfits, hend⟩ := h
              refine ⟨hnuls, hdotted, ?_, hnuls', hcounts, .inr ?_, hend⟩
              · omega
              · omega

/-- The text and the counter behind the pieces of an input. -/
theorem walk_spec (hne : pieces ≠ []) (hskips : s.Skips) (hdots : s.componentDots = 0) :
    (s.walk pieces).text = s.text ++ squeezed pieces ∧
      (s.walk pieces).componentDots = dotCount (pieces.getLast hne) := by
  induction pieces generalizing s with
  | nil =>
      exact absurd rfl hne
  | cons piece pieces ih =>
      cases pieces with
      | nil =>
          refine ⟨text_copied piece s, ?_⟩
          change (piece.foldl Buffer.copied s).componentDots = dotCount piece
          rw [componentDots_copied, hdots]
          rfl
      | cons next more =>
          rw [Buffer.walk, squeezed, List.getLast_cons (List.cons_ne_nil _ _)]
          by_cases hempty : piece = []
          · have hstart : (piece.foldl Buffer.copied s).separated = s := by
              rw [hempty]
              exact separated_of_skips hskips hdots
            rw [if_pos hempty, hstart]
            exact ih (List.cons_ne_nil _ _) hskips hdots
          · obtain ⟨hskips', hdots', -, htext⟩ := separated_of_not_skips (not_skips_copied hempty s)
            obtain ⟨htext', hcount⟩ := ih (List.cons_ne_nil _ _) hskips' hdots'
            rw [if_neg hempty]
            refine ⟨?_, hcount⟩
            rw [htext', htext, text_copied, List.append_assoc, List.append_assoc, List.singleton_append]

/-! ## The end of the pass -/

/-- A separator at the end is taken back. -/
def Buffer.trimmed (s : Buffer) : Buffer :=
  if s.written > 0 ∧ s.output (s.written - 1) = chr '/' then { s with written := s.written - 1 } else s

def trimSlash (text : List UInt16) : List UInt16 :=
  if text.getLast? = some (chr '/') then text.dropLast else text

theorem length_text (s : Buffer) : s.text.length = s.written := by
  rw [Buffer.text, List.length_map, List.length_range]

theorem text_trimmed (s : Buffer) : s.trimmed.text = trimSlash s.text := by
  rw [Buffer.trimmed, trimSlash]
  rcases hwritten : s.written with _ | written
  · have hempty : s.text = [] := by
      rw [Buffer.text, hwritten]
      rfl
    rw [if_neg (fun h => Nat.lt_irrefl 0 h.1), hempty]
    rfl
  · have htext : s.text = (List.range written).map s.output ++ [s.output written] := by
      rw [Buffer.text, hwritten, List.range_succ, List.map_append, List.map_singleton]
    rw [htext, List.getLast?_concat, List.dropLast_concat, Nat.add_sub_cancel]
    by_cases hslash : s.output written = chr '/'
    · rw [if_pos ⟨Nat.succ_pos written, hslash⟩, if_pos (congrArg some hslash)]
      rfl
    · rw [if_neg fun h => hslash h.2, if_neg fun h => hslash (Option.some.inj h), htext]

theorem finishCopy_ok_iff : finishCopy s = (.ok (), s') ↔
    s.componentDots ≠ 2 ∧ s.trimmed.text ≠ [] ∧ s' = s.trimmed := by
  have hrun : finishCopy s = (if s.componentDots = 2 then Effect.fail .invalidPath else _ : Copying Unit) s := rfl
  rw [hrun]
  by_cases hdots : s.componentDots = 2
  · rw [if_pos hdots]
    exact ⟨fun h => (nomatch h), fun h => absurd hdots h.1⟩
  rw [if_neg hdots, ← List.length_pos_iff, length_text]
  have hend : ∀ s : Buffer, (Effect.observe Buffer.written >>= fun written =>
      if written = 0 then Effect.fail .emptyPath else (pure () : Copying Unit)) s = (.ok (), s') ↔
        0 < s.written ∧ s' = s := by
    intro s
    change (if s.written = 0 then Effect.fail .emptyPath else (pure () : Copying Unit)) s = (.ok (), s') ↔ _
    by_cases hempty : s.written = 0
    · rw [if_pos hempty, hempty]
      exact ⟨fun h => (nomatch h), fun h => absurd h.1 (Nat.lt_irrefl 0)⟩
    · rw [if_neg hempty]
      constructor
      · intro h
        exact ⟨Nat.pos_of_ne_zero hempty, (Prod.mk.inj h).2.symm⟩
      · intro h
        rw [h.2]
        rfl
  rw [Buffer.trimmed]
  -- the last test is made with the separator taken back and without
  by_cases htrim : s.written > 0 ∧ s.output (s.written - 1) = chr '/'
  · rw [if_pos htrim, if_pos htrim]
    exact (hend { s with written := s.written - 1 }).trans (and_iff_right hdots).symm
  · rw [if_neg htrim, if_neg htrim]
    exact (hend s).trans (and_iff_right hdots).symm

theorem trimSlash_cons {value : UInt16} {text : List UInt16} (h : text ≠ []) :
    trimSlash (value :: text) = value :: trimSlash text := by
  rw [trimSlash, trimSlash, List.getLast?_cons_of_ne_nil h, List.dropLast_cons_of_ne_nil h]
  split
  · rfl
  · rfl

theorem trimSlash_append {text : List UInt16} (front : List UInt16) (h : text ≠ []) :
    trimSlash (front ++ text) = front ++ trimSlash text := by
  induction front with
  | nil =>
      rfl
  | cons value front ih =>
      rw [List.cons_append, trimSlash_cons (List.append_ne_nil_of_right_ne_nil _ h), ih, List.cons_append]

theorem trimSlash_of_not_mem {text : List UInt16} (h : chr '/' ∉ text) : trimSlash text = text := by
  rw [trimSlash, if_neg fun hlast => h (List.mem_of_getLast? hlast)]

theorem squeezed_eq_nil_iff : squeezed pieces = [] ↔ pieces.filter (· ≠ []) = [] := by
  induction pieces with
  | nil =>
      exact iff_of_true rfl rfl
  | cons piece pieces ih =>
      by_cases hempty : piece = []
      · rw [List.filter_cons_of_neg (by simp [hempty]), ← ih, hempty]
        cases pieces with
        | nil =>
            exact Iff.rfl
        | cons next more =>
            rw [squeezed, if_pos rfl]
      · rw [List.filter_cons_of_pos (by simp [hempty])]
        cases pieces with
        | nil =>
            exact iff_of_false hempty (List.cons_ne_nil _ _)
        | cons next more =>
            rw [squeezed, if_neg hempty]
            exact iff_of_false (by simp) (List.cons_ne_nil _ _)

/-- What is left behind the pass: the nonempty pieces, joined. -/
theorem trimSlash_squeezed (h : ∀ piece ∈ pieces, chr '/' ∉ piece) :
    trimSlash (squeezed pieces) = joinOn (chr '/') (pieces.filter (· ≠ [])) := by
  induction pieces with
  | nil =>
      rfl
  | cons piece pieces ih =>
      obtain ⟨hpiece, hmore⟩ := List.forall_mem_cons.1 h
      by_cases hempty : piece = []
      · rw [List.filter_cons_of_neg (by simp [hempty]), ← ih hmore, hempty]
        cases pieces with
        | nil =>
            rfl
        | cons next more =>
            rw [squeezed, if_pos rfl]
      · rw [List.filter_cons_of_pos (by simp [hempty])]
        cases pieces with
        | nil =>
            have hjoin : joinOn (chr '/') [piece] = piece := by simp [joinOn]
            rw [squeezed, trimSlash_of_not_mem hpiece, List.filter_nil, hjoin]
        | cons next more =>
            rw [squeezed, if_neg hempty]
            by_cases hrest : squeezed (next :: more) = []
            · -- only the separator behind the piece is there to be taken back
              have hjoin : joinOn (chr '/') [piece] = piece := by simp [joinOn]
              have htrim : trimSlash [chr '/'] = [] := rfl
              rw [hrest, squeezed_eq_nil_iff.1 hrest, hjoin, trimSlash_append piece (List.cons_ne_nil _ _), htrim,
                List.append_nil]
            · rw [trimSlash_append piece (List.cons_ne_nil _ _), trimSlash_cons hrest, ih hmore,
                joinOn_cons_of_ne_nil fun hnil => hrest (squeezed_eq_nil_iff.2 hnil)]

/-! ## Inputs -/

/-- Both separators are one. -/
def slash (value : UInt16) : UInt16 :=
  if value = chr '\\' then chr '/' else value

/-- The pieces of an input between its separators. -/
def piecesOf (input : List UInt16) : List (List UInt16) :=
  (input.map slash).splitOn (chr '/')

theorem copyUnit_slash : copyUnit capacity (slash value) = copyUnit capacity value := by
  rw [slash]
  by_cases hvalue : value = chr '\\'
  · rw [if_pos hvalue, hvalue]
    rfl
  · rw [if_neg hvalue]

theorem copyUnits_slash (input : List UInt16) : copyUnits capacity (input.map slash) = copyUnits capacity input := by
  induction input with
  | nil =>
      rfl
  | cons value input ih =>
      rw [List.map_cons, copyUnits, copyUnits, ih, copyUnit_slash]

theorem slash_eq_zero_iff : slash value = 0 ↔ value = 0 := by
  rw [slash]
  by_cases hvalue : value = chr '\\'
  · rw [if_pos hvalue, hvalue]
    exact iff_of_false (by decide) (by decide)
  · rw [if_neg hvalue]

theorem slash_ne_backslash : slash value ≠ chr '\\' := by
  rw [slash]
  by_cases hvalue : value = chr '\\'
  · rw [if_pos hvalue]
    decide
  · rw [if_neg hvalue]
    exact hvalue

theorem mem_of_mem_piecesOf (hpiece : piece ∈ piecesOf input) (hvalue : value ∈ piece) :
    value ≠ chr '/' ∧ ∃ original ∈ input, slash original = value := by
  constructor
  · rintro rfl
    exact not_mem_of_mem_splitOn hpiece hvalue
  · exact List.mem_map.1 (mem_of_mem_splitOn hpiece hvalue)

theorem isSeparator_of_mem_piecesOf (hpiece : piece ∈ piecesOf input) (hvalue : value ∈ piece) :
    isSeparator value = false := by
  obtain ⟨hslash, original, -, hsame⟩ := mem_of_mem_piecesOf hpiece hvalue
  rw [Bool.eq_false_iff, Ne, isSeparator_iff, not_or]
  refine ⟨hslash, ?_⟩
  rw [← hsame]
  exact slash_ne_backslash

theorem joinOn_piecesOf (input : List UInt16) : joinOn (chr '/') (piecesOf input) = input.map slash := by
  simp [joinOn, piecesOf]

theorem piecesOf_ne_nil (input : List UInt16) : piecesOf input ≠ [] :=
  List.splitOn_ne_nil _ _

/-- NUL units are in the pieces. -/
theorem forall_not_mem_piecesOf_iff : (∀ piece ∈ piecesOf input, 0 ∉ piece) ↔ 0 ∉ input := by
  constructor
  · intro h hmem
    have hslashed : 0 ∈ joinOn (chr '/') (piecesOf input) := by
      rw [joinOn_piecesOf]
      exact List.mem_map.2 ⟨0, hmem, rfl⟩
    rcases mem_joinOn hslashed with hsep | ⟨piece, hpiece, hin⟩
    · exact absurd hsep (by decide)
    · exact h piece hpiece hin
  · intro h piece hpiece hmem
    obtain ⟨-, original, horiginal, hsame⟩ := mem_of_mem_piecesOf hpiece hmem
    rw [slash_eq_zero_iff.1 hsame] at horiginal
    exact h horiginal

/-- A letter and a colon in front. -/
def hasDrive : List UInt16 → Bool
  | first :: second :: _ => isLetter first && second == chr ':'
  | _ => false

/-- What the helper lets through in front: a first unit that is no separator, and no drive. -/
def startsRelative (input : List UInt16) : Bool :=
  match input with
  | [] => false
  | first :: _ => !isSeparator first && !hasDrive input

theorem startsRelative_cons_iff {first : UInt16} {more : List UInt16} :
    startsRelative (first :: more) = true ↔ isSeparator first = false ∧ hasDrive (first :: more) = false := by
  rw [startsRelative, Bool.and_eq_true, Bool.not_eq_true', Bool.not_eq_true']

/-- The refusals in front, for units that are not NUL. -/
theorem validateRelativePrefix_of_ne {length : Nat} {first second third : UInt16} {hasThird : Bool} (hlength : 0 < length)
    (hnul : ¬(first = 0 ∨ (length > 1 ∧ second = 0) ∨ (hasThird = true ∧ third = 0)))
    (hthird : hasThird = true ↔ length ≥ 3) :
    validateRelativePrefix length first second hasThird third = none ↔
      isSeparator first = false ∧ (isLetter first && second == chr ':') = false := by
  rw [validateRelativePrefix, if_neg (Nat.not_le.2 hlength), if_neg hnul, isWindowsDriveRoot, isWindowsDriveRelative]
  cases isSeparator first with
  | true =>
      simp
  | false =>
      cases (isLetter first && second == chr ':') with
      | false =>
          simp
      | true =>
          -- a drive is refused with a separator behind it and without one
          by_cases hlong : length ≥ 3
          · cases isSeparator third <;> simp [hlong, hthird.2 hlong]
          · have hshort : hasThird = false := Bool.eq_false_iff.2 fun h => hlong (hthird.1 h)
            simp [hlong, hshort]

theorem validateRelativePrefix_eq_none_iff (hnul : 0 ∉ input) :
    validateRelativePrefix input.length (input.getD 0 0) (if input.length > 1 then input.getD 1 0 else 0)
        (decide (input.length > 2)) (if input.length > 2 then input.getD 2 0 else 0) = none ↔
      startsRelative input = true := by
  have hne : ∀ value ∈ input, value ≠ 0 := fun value hvalue hzero => hnul (hzero ▸ hvalue)
  rcases input with _ | ⟨first, _ | ⟨second, _ | ⟨third, more⟩⟩⟩
  · simp [validateRelativePrefix, startsRelative]
  · have hfirst := hne first List.mem_cons_self
    have hcolon : (isLetter first && (0 : UInt16) == chr ':') = false := Bool.and_false _
    rw [startsRelative_cons_iff]
    refine (validateRelativePrefix_of_ne (Nat.succ_pos _) (by simp [hfirst]) (by simp)).trans ?_
    exact and_congr_right fun _ => iff_of_true hcolon rfl
  · have hfirst := hne first List.mem_cons_self
    have hsecond := hne second (by simp)
    rw [startsRelative_cons_iff]
    exact validateRelativePrefix_of_ne (Nat.succ_pos _) (by simp [hfirst, hsecond]) (by simp)
  · have hfirst := hne first List.mem_cons_self
    have hsecond := hne second (by simp)
    have hthird := hne third (by simp)
    rw [startsRelative_cons_iff]
    exact validateRelativePrefix_of_ne (Nat.succ_pos _) (by simp [hfirst, hsecond, hthird]) (by simp)

theorem isSeparator_slash : slash value = chr '/' ↔ isSeparator value = true := by
  rw [isSeparator_iff, slash]
  by_cases hvalue : value = chr '\\'
  · rw [if_pos hvalue]
    exact iff_of_true rfl (.inr hvalue)
  · rw [if_neg hvalue, or_iff_left hvalue]

/-- An input that starts with another unit than a separator has a piece that is not empty. -/
theorem filter_piecesOf_ne_nil (h : startsRelative input = true) : (piecesOf input).filter (· ≠ []) ≠ [] := by
  cases input with
  | nil =>
      cases h
  | cons first more =>
      obtain ⟨hfirst, -⟩ := startsRelative_cons_iff.1 h
      have hmem : slash first ∈ joinOn (chr '/') (piecesOf (first :: more)) := by
        rw [joinOn_piecesOf]
        exact List.mem_cons_self
      rcases mem_joinOn hmem with hsep | ⟨piece, hpiece, hin⟩
      · rw [isSeparator_slash.1 hsep] at hfirst
        cases hfirst
      · exact List.ne_nil_of_mem (List.mem_filter.2 ⟨hpiece, decide_eq_true (List.ne_nil_of_mem hin)⟩)

theorem forall_dropLast_and_getLast_iff {β : Type} {P : β → Prop} {list : List β} (hne : list ≠ []) :
    (∀ x ∈ list.dropLast, P x) ∧ P (list.getLast hne) ↔ ∀ x ∈ list, P x := by
  have hlist := List.dropLast_append_getLast hne
  constructor
  · intro h x hx
    rw [← hlist] at hx
    rcases List.mem_append.1 hx with hx | hx
    · exact h.1 x hx
    · rw [List.mem_singleton.1 hx]
      exact h.2
  · intro h
    exact ⟨fun x hx => h x (List.dropLast_subset _ hx), h _ (List.getLast_mem hne)⟩

/-- Another unit than a dot before exactly three dots at the end. -/
def EndsInThreeDots (piece : List UInt16) : Prop :=
  ∃ front value, value ≠ chr '.' ∧ piece = front ++ value :: lit "..."

theorem dotCount_concat (piece : List UInt16) (value : UInt16) :
    dotCount (piece ++ [value]) = nextDots (dotCount piece) value := by
  rw [dotCount, List.foldl_append]
  rfl

/-- The counter never falls below minus one, where it is behind another unit than a dot. -/
theorem dotCount_cases (piece : List UInt16) :
    piece = List.replicate piece.length (chr '.') ∧ dotCount piece = piece.length ∨
      ∃ front value dots, value ≠ chr '.' ∧ piece = front ++ value :: List.replicate dots (chr '.') ∧
        dotCount piece = (dots : Int) - 1 := by
  induction piece using List.reverseRecOn with
  | nil =>
      exact .inl ⟨rfl, rfl⟩
  | append_singleton piece value ih =>
      rw [dotCount_concat, nextDots]
      -- a dot adds one, whatever stands in front of it; any other unit resets the counter
      by_cases hdot : value = chr '.'
      · rw [if_pos hdot]
        rcases ih with ⟨hpiece, hcount⟩ | ⟨front, other, dots, hother, hpiece, hcount⟩
        · left
          refine ⟨?_, ?_⟩
          · rw [List.length_append, List.length_singleton, List.replicate_succ', ← hpiece, hdot]
          · rw [hcount, List.length_append, List.length_singleton]
            omega
        · right
          refine ⟨front, other, dots + 1, hother, ?_, ?_⟩
          · rw [hpiece, List.append_assoc, List.cons_append, List.replicate_succ', hdot]
          · rw [hcount]
            omega
      · rw [if_neg hdot]
        exact .inr ⟨piece, value, 0, hdot, rfl, rfl⟩

/-- The pieces at which the pass stops. -/
theorem dotCount_eq_two_iff : dotCount piece = 2 ↔ piece = lit ".." ∨ EndsInThreeDots piece := by
  constructor
  · intro htwo
    rcases dotCount_cases piece with ⟨hpiece, hcount⟩ | ⟨front, value, dots, hvalue, hpiece, hcount⟩
    · left
      have hlength : piece.length = 2 := by omega
      rw [hpiece, hlength]
      rfl
    · right
      have hdots : dots = 3 := by omega
      rw [hdots] at hpiece
      exact ⟨front, value, hvalue, hpiece⟩
  · rintro (hpiece | ⟨front, value, hvalue, hpiece⟩)
    · rw [hpiece]
      exact of_decide_eq_true rfl
    · have hfront : dotCount (front ++ [value]) = -1 := by
        rw [dotCount_concat, nextDots, if_neg hvalue]
      have hsplit : piece = front ++ [value] ++ [chr '.'] ++ [chr '.'] ++ [chr '.'] := by
        rw [hpiece]
        simp [lit]
      rw [hsplit, dotCount_concat, dotCount_concat, dotCount_concat, hfront]
      exact of_decide_eq_true rfl

/-- The inputs that the helper accepts. -/
structure Accepted (input : List UInt16) (capacity : Int) : Prop where
  starts : startsRelative input = true
  nul_free : 0 ∉ input
  dots : ∀ piece ∈ piecesOf input, ¬(piece = lit ".." ∨ EndsInThreeDots piece)
  fits : ((squeezed (piecesOf input)).length : Int) ≤ capacity

/-- The loop over an input. -/
theorem copyUnits_ok_iff (output : Nat → UInt16) {middle : Buffer} :
    copyUnits capacity input { output := output } = (.ok (), middle) ↔
      0 ∉ input ∧ (∀ piece ∈ (piecesOf input).dropLast, dotCount piece ≠ 2) ∧
        (squeezed (piecesOf input) = [] ∨ ((squeezed (piecesOf input)).length : Int) ≤ capacity) ∧
          middle = Buffer.walk { output := output } (piecesOf input) := by
  have hskips : Buffer.Skips { output := output } := .inr rfl
  have hseparators : ∀ piece ∈ piecesOf input, ∀ value ∈ piece, isSeparator value = false :=
    fun piece hpiece value hvalue => isSeparator_of_mem_piecesOf hpiece hvalue
  rw [← copyUnits_slash, ← joinOn_piecesOf,
    copyUnits_pieces_ok_iff hseparators (piecesOf_ne_nil input) hskips rfl, forall_not_mem_piecesOf_iff]
  change _ ∧ _ ∧ (_ ∨ ((0 + (squeezed (piecesOf input)).length : Nat) : Int) ≤ capacity) ∧ _ ↔ _
  rw [Nat.zero_add]

/-- The text that the pass leaves is what is left of its pieces. -/
theorem text_trimmed_walk (input : List UInt16) (output : Nat → UInt16) :
    (Buffer.walk { output := output } (piecesOf input)).trimmed.text =
      joinOn (chr '/') ((piecesOf input).filter (· ≠ [])) := by
  have hslash : ∀ piece ∈ piecesOf input, chr '/' ∉ piece := fun piece hpiece => not_mem_of_mem_splitOn hpiece
  have hskips : Buffer.Skips { output := output } := .inr rfl
  rw [text_trimmed, (walk_spec (piecesOf_ne_nil input) hskips rfl).1, ← trimSlash_squeezed hslash]
  rfl

/-- The loop and what follows it. -/
theorem copyUnits_finishCopy_ok_iff (output : Nat → UInt16) (hstart : startsRelative input = true) :
    (copyUnits capacity input >>= fun _ => finishCopy) { output := output } = (.ok (), s') ↔
      Accepted input capacity ∧ s' = (Buffer.walk { output := output } (piecesOf input)).trimmed := by
  have hnonempty := filter_piecesOf_ne_nil hstart
  have hskips : Buffer.Skips { output := output } := .inr rfl
  have hsqueezed : squeezed (piecesOf input) ≠ [] := fun h => hnonempty (squeezed_eq_nil_iff.1 h)
  have hdots := (walk_spec (piecesOf_ne_nil input) hskips rfl).2
  have htrimmed : (Buffer.walk { output := output } (piecesOf input)).trimmed.text ≠ [] := by
    rw [text_trimmed_walk, Ne, joinOn_eq_nil_iff fun piece hpiece => of_decide_eq_true (List.mem_filter.1 hpiece).2]
    exact hnonempty
  -- every piece but the last is checked at its separator, the last one behind the loop
  have hcounts := forall_dropLast_and_getLast_iff (P := fun piece => dotCount piece ≠ 2) (piecesOf_ne_nil input)
  rw [Effect.bind_eq_ok_iff]
  constructor
  · rintro ⟨_, middle, hcopy, hfinish⟩
    obtain ⟨hnul, hinit, hfits, rfl⟩ := (copyUnits_ok_iff output).1 hcopy
    obtain ⟨hlast, -, hend⟩ := finishCopy_ok_iff.1 hfinish
    rw [hdots] at hlast
    have hdots' : ∀ piece ∈ piecesOf input, ¬(piece = lit ".." ∨ EndsInThreeDots piece) := by
      intro piece hpiece hbad
      exact hcounts.1 ⟨hinit, hlast⟩ piece hpiece (dotCount_eq_two_iff.2 hbad)
    exact ⟨⟨hstart, hnul, hdots', hfits.resolve_left hsqueezed⟩, hend⟩
  · rintro ⟨haccepted, hend⟩
    obtain ⟨hinit, hlast⟩ := hcounts.2 fun piece hpiece htwo =>
      haccepted.dots piece hpiece (dotCount_eq_two_iff.1 htwo)
    refine ⟨(), _, (copyUnits_ok_iff output).2 ⟨haccepted.nul_free, hinit, .inr haccepted.fits, rfl⟩, ?_⟩
    refine finishCopy_ok_iff.2 ⟨?_, htrimmed, hend⟩
    rw [hdots]
    exact hlast

theorem copy_ok_iff (input : List UInt16) (output : Nat → UInt16) (capacity : Int) :
    copyRelativeCanonical (some input) (some output) capacity = (.ok (), s') ↔
      Accepted input capacity ∧ s' = (Buffer.walk { output := output } (piecesOf input)).trimmed := by
  rw [copyRelativeCanonical]
  by_cases hcapacity : capacity < 0
  · rw [if_pos hcapacity]
    refine ⟨fun h => (nomatch h), fun h => ?_⟩
    have hfits := h.1.fits
    omega
  rw [if_neg hcapacity]
  by_cases hempty : input.length ≤ 0
  · rw [if_pos hempty]
    refine ⟨fun h => (nomatch h), fun h => ?_⟩
    have hstart := h.1.starts
    rw [List.eq_nil_of_length_eq_zero (Nat.le_zero.1 hempty)] at hstart
    cases hstart
  rw [if_neg hempty]
  by_cases hnul : 0 ∈ input
  · -- a NUL is found in front or by the loop
    refine iff_of_false ?_ fun h => h.1.nul_free hnul
    dsimp only
    split
    · intro h
      cases h
    · intro h
      obtain ⟨_, middle, hcopy, -⟩ := Effect.bind_eq_ok_iff.1 h
      exact ((copyUnits_ok_iff output).1 hcopy).1 hnul
  · have hfront := validateRelativePrefix_eq_none_iff hnul
    dsimp only
    by_cases hstart : startsRelative input = true
    · rw [hfront.2 hstart]
      exact copyUnits_finishCopy_ok_iff output hstart
    · obtain ⟨status, hstatus⟩ := Option.ne_none_iff_exists'.1 fun h => hstart (hfront.1 h)
      rw [hstatus]
      exact ⟨fun h => (nomatch h), fun h => absurd h.1.starts hstart⟩

/-! ## Canonical relative paths -/

/-- A canonical relative path without a drive. -/
structure IsCanonicalRelative (path : List UInt16) : Prop where
  parts : ∀ part ∈ path.splitOn (chr '/'), IsName part
  nul_free : 0 ∉ path
  backslash_free : chr '\\' ∉ path
  driveless : hasDrive path = false

theorem piecesOf_of_backslash_free (h : chr '\\' ∉ input) : piecesOf input = input.splitOn (chr '/') := by
  have hsame : ∀ value ∈ input, slash value = value := by
    intro value hvalue
    have hne : value ≠ chr '\\' := by
      intro hbackslash
      rw [hbackslash] at hvalue
      exact h hvalue
    rw [slash, if_neg hne]
  rw [piecesOf, List.map_congr_left hsame, List.map_id']

theorem IsCanonicalRelative.startsRelative (h : IsCanonicalRelative input) : startsRelative input = true := by
  cases input with
  | nil =>
      exact absurd rfl (h.parts [] (by simp)).ne_nil
  | cons first more =>
      refine startsRelative_cons_iff.2 ⟨?_, h.driveless⟩
      rw [Bool.eq_false_iff, Ne, isSeparator_iff]
      rintro (hslash | hbackslash)
      · have hparts := h.parts
        rw [hslash] at hparts
        have hempty : [] ∈ (chr '/' :: more).splitOn (chr '/') := by
          rw [← List.nil_append (chr '/' :: more), List.splitOn_append_cons_self_of_not_mem List.not_mem_nil]
          exact List.mem_cons_self
        exact (hparts [] hempty).ne_nil rfl
      · apply h.backslash_free
        rw [← hbackslash]
        exact List.mem_cons_self

/-- Nothing is squeezed where every piece is kept. -/
theorem squeezed_of_ne_nil (h : ∀ piece ∈ pieces, piece ≠ []) : squeezed pieces = joinOn (chr '/') pieces := by
  induction pieces with
  | nil =>
      rfl
  | cons piece pieces ih =>
      obtain ⟨hpiece, hmore⟩ := List.forall_mem_cons.1 h
      cases pieces with
      | nil =>
          simp [squeezed, joinOn]
      | cons next more =>
          rw [squeezed, if_neg hpiece, ih hmore, joinOn_cons_of_ne_nil (List.cons_ne_nil _ _)]

/-- A canonical path that fits is accepted unless a component has three dots at its end, and it is not changed. -/
theorem IsCanonicalRelative.accepted_iff (h : IsCanonicalRelative input) (hfits : (input.length : Int) ≤ capacity) :
    Accepted input capacity ↔ ¬∃ piece ∈ piecesOf input, EndsInThreeDots piece := by
  have hpieces := piecesOf_of_backslash_free h.backslash_free
  have hsqueezed : squeezed (piecesOf input) = input := by
    rw [hpieces, squeezed_of_ne_nil fun piece hpiece => (h.parts piece hpiece).ne_nil]
    simp [joinOn]
  constructor
  · rintro haccepted ⟨piece, hpiece, hdots⟩
    exact haccepted.dots piece hpiece (.inr hdots)
  · intro hnone
    refine ⟨h.startsRelative, h.nul_free, ?_, ?_⟩
    · rintro piece hpiece (hdotdot | hdots)
      · rw [hpieces] at hpiece
        exact (h.parts piece hpiece).ne_dotdot hdotdot
      · exact hnone ⟨piece, hpiece, hdots⟩
    · rw [hsqueezed]
      exact hfits

theorem IsCanonicalRelative.joinOn_filter (h : IsCanonicalRelative input) :
    joinOn (chr '/') ((piecesOf input).filter (· ≠ [])) = input := by
  have hpieces := piecesOf_of_backslash_free h.backslash_free
  have hkept : (piecesOf input).filter (· ≠ []) = piecesOf input := by
    rw [List.filter_eq_self, hpieces]
    intro piece hpiece
    exact decide_eq_true (h.parts piece hpiece).ne_nil
  rw [hkept, hpieces]
  simp [joinOn]

/-- A drive is in the first piece or not there. -/
theorem hasDrive_append {front tail : List UInt16} (hfront : front ≠ []) (htail : tail.head? ≠ some (chr ':')) :
    hasDrive (front ++ tail) = hasDrive front := by
  rcases front with _ | ⟨first, _ | ⟨second, more⟩⟩
  · exact absurd rfl hfront
  · cases tail with
    | nil =>
        rfl
    | cons second tail =>
        have hsecond : (second == chr ':') = false := beq_eq_false_iff_ne.2 fun h => htail (congrArg some h)
        change (isLetter first && second == chr ':') = false
        rw [hsecond, Bool.and_false]
  · rfl

theorem hasDrive_slash (input : List UInt16) : hasDrive (input.map slash) = hasDrive input := by
  have hletter : ∀ value : UInt16, isLetter (slash value) = isLetter value := by
    intro value
    rw [slash]
    by_cases hvalue : value = chr '\\'
    · rw [if_pos hvalue, hvalue]
      rfl
    · rw [if_neg hvalue]
  have hcolon : ∀ value : UInt16, (slash value == chr ':') = (value == chr ':') := by
    intro value
    rw [slash]
    by_cases hvalue : value = chr '\\'
    · rw [if_pos hvalue, hvalue]
      rfl
    · rw [if_neg hvalue]
  rcases input with _ | ⟨first, _ | ⟨second, more⟩⟩
  · rfl
  · rfl
  · change (isLetter (slash first) && slash second == chr ':') = (isLetter first && second == chr ':')
    rw [hletter, hcolon]

theorem hasDrive_joinOn (hpiece : piece ≠ []) : hasDrive (joinOn (chr '/') (piece :: pieces)) = hasDrive piece := by
  cases pieces with
  | nil =>
      simp [joinOn]
  | cons next more =>
      rw [joinOn_cons_of_ne_nil (List.cons_ne_nil _ _), hasDrive_append hpiece]
      rw [List.head?_cons]
      decide

/-- No drive appears in front where pieces are left out. -/
theorem hasDrive_joinOn_filter (h : startsRelative input = true) :
    hasDrive (joinOn (chr '/') ((piecesOf input).filter (· ≠ []))) = false := by
  cases input with
  | nil =>
      cases h
  | cons first more =>
      obtain ⟨hfirst, hdrive⟩ := startsRelative_cons_iff.1 h
      rw [← hasDrive_slash, ← joinOn_piecesOf] at hdrive
      cases hpieces : piecesOf (first :: more) with
      | nil =>
          exact absurd hpieces (piecesOf_ne_nil _)
      | cons piece pieces =>
          have hpiece : piece ≠ [] := by
            -- an empty first piece would be in front of a separator, or of nothing
            intro hempty
            have hjoin := joinOn_piecesOf (first :: more)
            rw [hpieces, hempty, List.map_cons] at hjoin
            cases pieces with
            | nil =>
                simp [joinOn] at hjoin
            | cons next more' =>
                rw [joinOn_cons_of_ne_nil (List.cons_ne_nil _ _), List.nil_append] at hjoin
                have hslash := isSeparator_slash.1 (List.cons.inj hjoin).1.symm
                rw [hslash] at hfirst
                cases hfirst
          rw [hpieces, hasDrive_joinOn hpiece] at hdrive
          rw [List.filter_cons_of_pos (by simp [hpiece]), hasDrive_joinOn hpiece]
          exact hdrive

/-- What is accepted is written as a canonical path if no piece is a dot. -/
theorem Accepted.isCanonicalRelative_iff (h : Accepted input capacity) :
    IsCanonicalRelative (joinOn (chr '/') ((piecesOf input).filter (· ≠ []))) ↔ lit "." ∉ piecesOf input := by
  have hkept : ∀ piece ∈ (piecesOf input).filter (· ≠ []), piece ∈ piecesOf input ∧ piece ≠ [] := by
    intro piece hpiece
    obtain ⟨hmem, hne⟩ := List.mem_filter.1 hpiece
    exact ⟨hmem, of_decide_eq_true hne⟩
  have hslash : ∀ piece ∈ (piecesOf input).filter (· ≠ []), chr '/' ∉ piece :=
    fun piece hpiece => not_mem_of_mem_splitOn (hkept piece hpiece).1
  have hsplit := splitOn_joinOn hslash (filter_piecesOf_ne_nil h.starts)
  -- a unit of the text is a separator or a unit of a piece
  have hunit : ∀ {value : UInt16}, value ∈ joinOn (chr '/') ((piecesOf input).filter (· ≠ [])) →
      value = chr '/' ∨ ∃ piece ∈ piecesOf input, value ∈ piece := by
    intro value hvalue
    rcases mem_joinOn hvalue with hsep | ⟨piece, hpiece, hin⟩
    · exact .inl hsep
    · exact .inr ⟨piece, (hkept piece hpiece).1, hin⟩
  constructor
  · intro hcanonical hdot
    have hmem : lit "." ∈ (piecesOf input).filter (· ≠ []) := List.mem_filter.2 ⟨hdot, rfl⟩
    rw [← hsplit] at hmem
    exact (hcanonical.parts _ hmem).ne_dot rfl
  · intro hdot
    refine ⟨?_, ?_, ?_, hasDrive_joinOn_filter h.starts⟩
    · rw [hsplit]
      intro piece hpiece
      obtain ⟨hmem, hne⟩ := hkept piece hpiece
      refine ⟨hne, ?_, fun hdotdot => h.dots piece hmem (.inl hdotdot), hslash piece hpiece⟩
      intro hsame
      rw [hsame] at hmem
      exact hdot hmem
    · intro hnul
      rcases hunit hnul with hsep | ⟨piece, hpiece, hin⟩
      · exact absurd hsep (by decide)
      · exact forall_not_mem_piecesOf_iff.2 h.nul_free piece hpiece hin
    · intro hbackslash
      rcases hunit hbackslash with hsep | ⟨piece, hpiece, hin⟩
      · exact absurd hsep (by decide)
      · have hseparator := isSeparator_of_mem_piecesOf hpiece hin
        cases hseparator

/-- What the helper is for: it stays within the capacity, writes canonical relative paths, and keeps those that fit. -/
structure Canonicalizes (input : List UInt16) (output : Nat → UInt16) (capacity : Int) : Prop where
  within : Within capacity (copyRelativeCanonical (some input) (some output) capacity).2
  canonical : (copyRelativeCanonical (some input) (some output) capacity).1 = .ok () →
    IsCanonicalRelative (copyRelativeCanonical (some input) (some output) capacity).2.text
  unchanged : IsCanonicalRelative input → (input.length : Int) ≤ capacity →
    (copyRelativeCanonical (some input) (some output) capacity).1 = .ok () ∧
      (copyRelativeCanonical (some input) (some output) capacity).2.text = input

theorem status_ok_iff (output : Nat → UInt16) :
    (copyRelativeCanonical (some input) (some output) capacity).1 = .ok () ↔ Accepted input capacity := by
  constructor
  · intro hok
    have hrun : copyRelativeCanonical (some input) (some output) capacity = (.ok (), _) := Prod.ext hok rfl
    exact ((copy_ok_iff input output capacity).1 hrun).1
  · intro haccepted
    rw [(copy_ok_iff input output capacity).2 ⟨haccepted, rfl⟩]

theorem text_of_accepted (h : Accepted input capacity) (output : Nat → UInt16) :
    (copyRelativeCanonical (some input) (some output) capacity).2.text =
      joinOn (chr '/') ((piecesOf input).filter (· ≠ [])) := by
  rw [(copy_ok_iff input output capacity).2 ⟨h, rfl⟩, text_trimmed_walk]

/-- The helper serves its purpose but for two kinds of inputs: those it accepts with a dot among their pieces, which it
keeps, and the canonical ones that fit and have a component with three dots at its end, which it refuses. -/
theorem copyRelativeCanonical_canonical_iff (input : List UInt16) (output : Nat → UInt16) (capacity : Int) :
    Canonicalizes input output capacity ↔
      ¬(Accepted input capacity ∧ lit "." ∈ piecesOf input) ∧
        ¬(IsCanonicalRelative input ∧ (input.length : Int) ≤ capacity ∧ ∃ piece ∈ piecesOf input, EndsInThreeDots piece) := by
  constructor
  · intro h
    constructor
    · rintro ⟨haccepted, hdot⟩
      have hcanonical := h.canonical ((status_ok_iff output).2 haccepted)
      rw [text_of_accepted haccepted] at hcanonical
      exact haccepted.isCanonicalRelative_iff.1 hcanonical hdot
    · rintro ⟨hcanonical, hfits, hthree⟩
      have haccepted := (status_ok_iff output).1 (h.unchanged hcanonical hfits).1
      exact (hcanonical.accepted_iff hfits).1 haccepted hthree
  · rintro ⟨hdots, hthree⟩
    refine ⟨copyRelativeCanonical_within _ _ _, ?_, ?_⟩
    · intro hok
      have haccepted := (status_ok_iff output).1 hok
      rw [text_of_accepted haccepted]
      exact haccepted.isCanonicalRelative_iff.2 fun hdot => hdots ⟨haccepted, hdot⟩
    · intro hcanonical hfits
      have haccepted := (hcanonical.accepted_iff hfits).2 fun h => hthree ⟨hcanonical, hfits, h⟩
      exact ⟨(status_ok_iff output).2 haccepted, (text_of_accepted haccepted output).trans hcanonical.joinOn_filter⟩

/-- A dot is kept as a component, and a name with three dots at its end is refused. -/
theorem copyRelativeCanonical_dots :
    ((copyRelativeCanonical (some (lit "a/./b")) (some fun _ => 0) 5).1 = .ok () ∧
      (copyRelativeCanonical (some (lit "a/./b")) (some fun _ => 0) 5).2.text = lit "a/./b") ∧
        (copyRelativeCanonical (some (lit "a...")) (some fun _ => 0) 4).1 = .error .invalidPath ∧
          ¬∀ (input : List UInt16) (output : Nat → UInt16) (capacity : Int), Canonicalizes input output capacity := by
  have hkept : (copyRelativeCanonical (some (lit "a/./b")) (some fun _ => 0) 5).1 = .ok () := by decide
  refine ⟨⟨hkept, by decide⟩, by decide, ?_⟩
  intro h
  have hcanonical := (h (lit "a/./b") (fun _ => 0) 5).canonical hkept
  exact (hcanonical.parts (lit ".") (by decide)).ne_dot rfl

end Burst

end Unity

end CanonicalPath
