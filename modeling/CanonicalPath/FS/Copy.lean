import CanonicalPath.FS.Disk

/-!
# Copy — one stream, copied below a limit

The copy of `extractZipFile` in `archive.go`: `io.Copy` from a limited reader that asks the context before each read,
and one read more behind the limit.  Both trees that an archive is unpacked into share it.

* `Reader.Follows` : a reader of a stream
* `Copier.copyBounded` : the copy and the probe
* `Copier.copyBounded_spec` : all of the stream, or a part of it within the limit
-/

namespace CanonicalPath

namespace FS

open Go

open Effect (Triple)

namespace Disk

/-! ## Streams -/

/-- The bytes of the answers so far. -/
def Reader.delivered (reader : Reader) : List Nat → Bytes
  | [] => []
  | size :: earlier => reader.delivered earlier ++ (reader.read (size :: earlier)).1

/-- No answer so far has ended the stream, and no buffer was empty. -/
def Reader.Live (reader : Reader) : List Nat → Prop
  | [] => True
  | size :: earlier => 0 < size ∧ (reader.read (size :: earlier)).2 = none ∧ reader.Live earlier

/-- A reader of a stream: it ends in EOF behind all of it only, and until then does not answer with nothing. -/
structure Reader.Follows (reader : Reader) (stream : Bytes) : Prop where
  complete : ∀ size earlier, 0 < size → reader.Live earlier → (reader.read (size :: earlier)).2 = some .eof →
    reader.delivered (size :: earlier) = stream
  progresses : ∀ size earlier, 0 < size → reader.Live earlier → (reader.read (size :: earlier)).2 = none →
    (reader.read (size :: earlier)).1 ≠ []

/-- What is left of a stream behind the buffers so far, and EOF once nothing is. -/
def readBytes (stream : Bytes) : List Nat → Bytes × Option ReadEnd
  | [] => ([], none)
  | size :: earlier =>
      if earlier.sum < stream.length then
        ((stream.drop earlier.sum).take size, none)
      else
        ([], some .eof)

/-- The reader of a stream that is known: every buffer is filled. -/
def Reader.ofBytes (stream : Bytes) : Reader where
  read := readBytes stream
  length_le := by
    intro size earlier
    rw [readBytes]
    split_ifs
    · exact List.length_take_le _ _
    · exact Nat.zero_le size

theorem delivered_ofBytes {stream : Bytes} {history : List Nat} (h : (Reader.ofBytes stream).Live history) :
    (Reader.ofBytes stream).delivered history = stream.take history.sum := by
  induction history with
  | nil =>
      rfl
  | cons size earlier ih =>
      obtain ⟨-, hnone, hlive⟩ := h
      change (readBytes stream (size :: earlier)).2 = none at hnone
      have hleft : earlier.sum < stream.length := by
        by_contra hend
        rw [readBytes, if_neg hend] at hnone
        cases hnone
      have hread : (readBytes stream (size :: earlier)).1 = (stream.drop earlier.sum).take size := by
        rw [readBytes, if_pos hleft]
      change (Reader.ofBytes stream).delivered earlier ++ (readBytes stream (size :: earlier)).1 = _
      rw [ih hlive, hread, List.sum_cons, Nat.add_comm size, List.take_add]

/-- Every stream has a reader. -/
theorem follows_ofBytes (stream : Bytes) : (Reader.ofBytes stream).Follows stream where
  complete := by
    intro size earlier _ hlive heof
    change (readBytes stream (size :: earlier)).2 = some .eof at heof
    have hend : ¬earlier.sum < stream.length := by
      intro hleft
      rw [readBytes, if_pos hleft] at heof
      cases heof
    have hread : (readBytes stream (size :: earlier)).1 = [] := by
      rw [readBytes, if_neg hend]
    change (Reader.ofBytes stream).delivered earlier ++ (readBytes stream (size :: earlier)).1 = stream
    rw [delivered_ofBytes hlive, hread, List.append_nil]
    exact List.take_of_length_le (Nat.not_lt.1 hend)
  progresses := by
    intro size earlier hsize _ hnone
    change (readBytes stream (size :: earlier)).2 = none at hnone
    change (readBytes stream (size :: earlier)).1 ≠ []
    have hleft : earlier.sum < stream.length := by
      by_contra hend
      rw [readBytes, if_neg hend] at hnone
      cases hnone
    rw [readBytes, if_pos hleft]
    apply List.ne_nil_of_length_pos
    rw [List.length_take, List.length_drop]
    exact Nat.lt_min.2 ⟨hsize, Nat.sub_pos_of_lt hleft⟩

end Disk

open Disk (HostError ReadEnd Reader)

/-! ## The copy -/

/-- The tree that is copied to, and how its errors are told. -/
structure Copier (σ ε : Type) where
  contextErr : Effect σ ε Unit
  /-- How often the context answers before it is done. -/
  patience : σ → Nat
  write : Bytes → Effect σ ε Unit
  checked : Error → ε
  host : HostError → ε

/-- The buffer of `io.Copy`, which a small limit makes smaller. -/
def copyBufferSize (limit : Nat) : Nat :=
  if 32768 > limit then max limit 1 else 32768

namespace Copier

variable {σ ε : Type}

def writeChunk (c : Copier σ ε) (chunk : Bytes) : Effect σ ε Unit :=
  if chunk = [] then pure () else c.write chunk

/-- The loop of `io.Copy` from a limited reader: the buffers that were filled, and what is left of the limit.
Each turn asks the context, so the fuel outlasts its patience. -/
def copyLoop (c : Copier σ ε) (reader : Reader) (size : Nat) : Nat → List Nat → Nat → Effect σ ε (List Nat × Nat)
  | 0, _, _ => Effect.fail (c.host .done)
  | fuel + 1, history, remaining =>
      if remaining = 0 then
        pure (history, remaining)
      else do
        c.contextErr
        let history := min size remaining :: history
        let answer := reader.read history
        c.writeChunk answer.1
        match answer.2 with
        | none => copyLoop c reader size fuel history (remaining - answer.1.length)
        | some .eof => pure (history, remaining - answer.1.length)
        | some (.failed e) => Effect.fail (c.host e)

def copy (c : Copier σ ε) (reader : Reader) (limit : Nat) : Effect σ ε (List Nat × Nat) := do
  let patience ← Effect.observe c.patience
  c.copyLoop reader (copyBufferSize limit) (patience + 1) [] limit

/-- One byte more than the limit is asked for, and never written. -/
def probe (c : Copier σ ε) (reader : Reader) (history : List Nat) : Effect σ ε Unit := do
  c.contextErr
  let answer := reader.read (1 :: history)
  if answer.1 ≠ [] then
    Effect.finish ((newError .readLimitExceeded "ZIP actual expanded output exceeds limit").mapError c.checked)
  else
    match answer.2 with
    | some (.failed e) => Effect.fail (c.host e)
    | _ => pure ()

/-- The copy and the probe: the number of bytes that were copied. -/
def copyBounded (c : Copier σ ε) (reader : Reader) (limit : Nat) : Effect σ ε Nat := do
  let copied ← c.copy reader limit
  c.probe reader copied.1
  pure (limit - copied.2)

/-! ## What has been copied -/

/-- The context keeps what is known, a write makes the content longer, and one that fails by a part of the chunk. -/
structure Writes (c : Copier σ ε) (C : Bytes → σ → Prop) : Prop where
  contextErr : ∀ content, Triple (C content) c.contextErr (fun _ => C content) fun _ => C content
  write : ∀ content chunk, Triple (C content) (c.write chunk) (fun _ => C (content ++ chunk)) fun _ s =>
    ∃ part, part <+: chunk ∧ C (content ++ part) s

/-- Where a copy stands: all of the stream has arrived, or the stream has not ended so far. -/
def Arrived (reader : Reader) (history : List Nat) (content : Bytes) : Prop :=
  (∀ stream, reader.Follows stream → content = stream) ∨ (reader.Live history ∧ reader.delivered history = content)

variable {c : Copier σ ε} {C : Bytes → σ → Prop} {reader : Reader}

theorem writeChunk_spec (h : c.Writes C) (content chunk : Bytes) :
    Triple (C content) (c.writeChunk chunk) (fun _ => C (content ++ chunk)) fun _ s =>
      ∃ part, part <+: chunk ∧ C (content ++ part) s := by
  apply Triple.ite
  · intro hempty
    apply Triple.pure
    intro s hs
    rw [hempty, List.append_nil]
    exact hs
  · intro _
    exact h.write content chunk

/-- The loop keeps the content and what is left below the limit. -/
theorem copyLoop_spec (h : c.Writes C) {size limit : Nat} (hsize : 0 < size) (fuel : Nat) {history : List Nat}
    {remaining : Nat} {content : Bytes} (hlive : reader.Live history) (hdelivered : reader.delivered history = content)
    (hlimit : content.length + remaining = limit) :
    Triple (C content) (c.copyLoop reader size fuel history remaining)
      (fun copied s => ∃ content, (content.length + copied.2 = limit ∧ Arrived reader copied.1 content) ∧ C content s)
      (fun _ s => ∃ content, content.length ≤ limit ∧ C content s) := by
  induction fuel generalizing history remaining content with
  | zero =>
      apply Triple.fail
      intro s hs
      exact ⟨content, hlimit ▸ Nat.le_add_right _ _, hs⟩
  | succ fuel ih =>
      rw [copyLoop]
      apply Triple.ite
      · intro hzero
        apply Triple.pure
        intro s hs
        exact ⟨content, ⟨hlimit, .inr ⟨hlive, hdelivered⟩⟩, hs⟩
      · intro hremaining
        have hrequest : 0 < min size remaining := Nat.lt_min.2 ⟨hsize, Nat.pos_of_ne_zero hremaining⟩
        have hanswer : (reader.read (min size remaining :: history)).1.length ≤ remaining :=
          Nat.le_trans (reader.length_le _ _) (Nat.min_le_right _ _)
        have hnext : reader.delivered (min size remaining :: history) =
            content ++ (reader.read (min size remaining :: history)).1 := by
          rw [Reader.delivered, hdelivered]
        have hleft : (content ++ (reader.read (min size remaining :: history)).1).length +
            (remaining - (reader.read (min size remaining :: history)).1.length) = limit := by
          rw [List.length_append]
          omega
        apply ((h.contextErr content).conseq (fun _ hs => hs) (fun _ _ hs => hs) ?_).bind
        · intro _
          have hwrite : Triple (C content) (c.writeChunk (reader.read (min size remaining :: history)).1)
              (fun _ => C (content ++ (reader.read (min size remaining :: history)).1))
              fun _ s => ∃ content, content.length ≤ limit ∧ C content s := by
            apply (writeChunk_spec h content _).conseq (fun _ hs => hs) fun _ _ hs => hs
            rintro _ s ⟨part, hpart, hs⟩
            refine ⟨_, ?_, hs⟩
            have hlength := hpart.length_le
            rw [List.length_append]
            omega
          apply hwrite.bind
          intro _
          cases hend : (reader.read (min size remaining :: history)).2 with
          | none =>
              -- more may come
              exact ih ⟨hrequest, hend, hlive⟩ hnext hleft
          | some ending =>
              cases ending with
              | eof =>
                  apply Triple.pure
                  intro s hs
                  refine ⟨_, ⟨hleft, .inl ?_⟩, hs⟩
                  intro stream hfollows
                  rw [← hnext]
                  exact hfollows.complete _ _ hrequest hlive hend
              | failed e =>
                  apply Triple.fail
                  intro s hs
                  exact ⟨_, hleft ▸ Nat.le_add_right _ _, hs⟩
        · intro _ s hs
          exact ⟨content, hlimit ▸ Nat.le_add_right _ _, hs⟩

/-- Nothing more has come, so all of a stream has arrived. -/
theorem arrived_complete {history : List Nat} {content : Bytes} (h : Arrived reader history content)
    (hnothing : (reader.read (1 :: history)).1 = [])
    (hanswer : ∀ e, (reader.read (1 :: history)).2 ≠ some (.failed e)) {stream : Bytes}
    (hfollows : reader.Follows stream) : content = stream := by
  cases h with
  | inl hall =>
      exact hall stream hfollows
  | inr hlive =>
      cases hend : (reader.read (1 :: history)).2 with
      | none =>
          -- such an answer tells nothing, and a reader of a stream does not give it
          exact absurd hnothing (hfollows.progresses 1 history Nat.one_pos hlive.1 hend)
      | some ending =>
          cases ending with
          | eof =>
              have hcomplete := hfollows.complete 1 history Nat.one_pos hlive.1 hend
              rw [Reader.delivered, hnothing, List.append_nil, hlive.2] at hcomplete
              exact hcomplete
          | failed e =>
              exact absurd hend (hanswer e)

/-- Behind the probe all of the stream has arrived. -/
theorem probe_spec (h : c.Writes C) {history : List Nat} {content : Bytes} (harrived : Arrived reader history content) :
    Triple (C content) (c.probe reader history)
      (fun _ s => (∀ stream, reader.Follows stream → content = stream) ∧ C content s) fun _ => C content := by
  apply (h.contextErr content).bind
  intro _
  apply Triple.ite
  · intro _
    apply Triple.finish
    · intro b hb
      cases hb
    · exact fun _ _ _ hs => hs
  · intro hempty
    have hcomplete := arrived_complete harrived (not_not.1 hempty)
    cases hend : (reader.read (1 :: history)).2 with
    | none =>
        rw [hend] at hcomplete
        exact Triple.pure fun s hs => ⟨fun _ => hcomplete nofun, hs⟩
    | some ending =>
        cases ending with
        | eof =>
            rw [hend] at hcomplete
            exact Triple.pure fun s hs => ⟨fun _ => hcomplete nofun, hs⟩
        | failed e =>
            exact Triple.fail fun _ hs => hs

theorem copyBufferSize_pos (limit : Nat) : 0 < copyBufferSize limit := by
  rw [copyBufferSize]
  split_ifs with hsmall
  · exact Nat.lt_of_lt_of_le Nat.zero_lt_one (Nat.le_max_right _ _)
  · exact Nat.zero_lt_succ _

theorem copy_spec (h : c.Writes C) (limit : Nat) :
    Triple (C []) (c.copy reader limit)
      (fun copied s => ∃ content, (content.length + copied.2 = limit ∧ Arrived reader copied.1 content) ∧ C content s)
      (fun _ s => ∃ content, content.length ≤ limit ∧ C content s) := by
  apply Triple.bind (Q := fun _ => C [])
  · exact Triple.observe fun _ hs => hs
  intro patience
  exact copyLoop_spec h (copyBufferSize_pos limit) _ trivial rfl (Nat.zero_add limit)

/-- The copy of a whole stream, or a part of it within the limit. -/
theorem copyBounded_spec (h : c.Writes C) (limit : Nat) :
    Triple (C []) (c.copyBounded reader limit)
      (fun n s => ∃ content, (content.length = n ∧ n ≤ limit ∧ ∀ stream, reader.Follows stream → content = stream) ∧
        C content s)
      (fun _ s => ∃ content, content.length ≤ limit ∧ C content s) := by
  apply (copy_spec h limit).bind
  intro copied
  apply Triple.exists_pre
  intro content
  apply Triple.lift
  rintro ⟨hlimit, harrived⟩
  have hle : content.length ≤ limit := hlimit ▸ Nat.le_add_right _ _
  apply ((probe_spec h harrived).conseq (fun _ hs => hs) (fun _ _ hs => hs) fun _ _ hs => ⟨content, hle, hs⟩).bind
  intro _
  apply Triple.lift
  intro hall
  apply Triple.pure
  intro s hs
  exact ⟨content, ⟨by omega, Nat.sub_le _ _, hall⟩, hs⟩

end Copier

end FS

end CanonicalPath
