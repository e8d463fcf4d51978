import CanonicalPath.Library.Trim
import CanonicalPath.Ports.RustNormalize
import CanonicalPath.Rust.Component

/-!
# Ports rust component — no panic on names

The slug of a ref is ASCII, so it can be cut anywhere; the digest reads whole chunks and stays inside its arrays.

* `mem_replaceRuns` : what a slug is made of
* `sha256Hex_defined` : the digest has a value
* `no_panic` : every public function of the port
-/

namespace CanonicalPath

namespace Ports

namespace Rust

namespace Checked

open CodeUnit Str Panicking CString

/-! ## Components -/

/-- A reserved base is cut at a dot that was found. -/
theorem escapeReservedWin32Component_defined (value : List Char) :
    Yields (Rust.Checked.escapeReservedWin32Component value) fun _ => True := by
  rw [Rust.Checked.escapeReservedWin32Component]
  cases hfind : find (· == chr '.') value with
  | none =>
      refine Yields.bind (isReservedDeviceBase_defined value) fun reserved _ => ?_
      split_ifs
      · exact ⟨_, rfl, trivial⟩
      · exact ⟨_, rfl, trivial⟩
  | some dot =>
      obtain ⟨t, c, u, rfl, rfl, -⟩ := exists_of_find hfind
      simp only [sliceTo_append, sliceFrom_append, some_bind]
      refine Yields.bind (isReservedDeviceBase_defined t) fun reserved _ => ?_
      split_ifs
      · exact ⟨_, rfl, trivial⟩
      · exact ⟨_, rfl, trivial⟩

theorem sanitizeComponent_safe (name profile : List Char) :
    Safe (Rust.Checked.sanitizeComponent name profile) fun _ => True := by
  rw [Rust.Checked.sanitizeComponent]
  refine Safe.ite (fun _ => Safe.throw _) fun _ => ?_
  refine Safe.ite (fun _ => Safe.throw _) fun _ => ?_
  exact Safe.ite (fun _ => Safe.of_lift (escapeReservedWin32Component_defined _)) fun _ => Safe.pure trivial

theorem encodeComponent_safe (name profile : List Char) :
    Safe (Rust.Checked.encodeComponent name profile) fun _ => True :=
  sanitizeComponent_safe name profile

theorem mem_replaceRuns {replaced : Char → Bool} {inReplacement : Bool} {s : List Char} {c : Char}
    (h : c ∈ Rust.Checked.replaceRuns replaced inReplacement s) : c = chr '-' ∨ replaced c = false := by
  induction s generalizing inReplacement with
  | nil =>
      cases h
  | cons ch more ih =>
      rw [Rust.Checked.replaceRuns] at h
      split_ifs at h with hch hrun
      · rcases List.mem_cons.1 h with rfl | hmore
        · exact .inl rfl
        · exact ih hmore
      · exact ih h
      · rcases List.mem_cons.1 h with rfl | hmore
        · exact .inr (Bool.eq_false_iff.2 hch)
        · exact ih hmore

/-! ## SHA-256 -/

/-- The zeros end before a block is over. -/
theorem zerosLoop_defined (fuel : Nat) {data : List UInt8} (hfuel : (120 - data.length % 64) % 64 < fuel) :
    Yields (Rust.Checked.zerosLoop fuel data) fun padded => padded.length % 64 = 56 := by
  induction fuel generalizing data with
  | zero =>
      exact absurd hfuel (Nat.not_lt_zero _)
  | succ fuel ih =>
      rw [Rust.Checked.zerosLoop]
      split_ifs with hmore
      · apply ih
        -- a zero more, and a turn fewer to the next residue 56
        rw [List.length_append, List.length_singleton]
        omega
      · exact ⟨data, rfl, not_not.1 hmore⟩

theorem paddedData_defined (input : List UInt8) :
    Yields (Rust.Checked.paddedData input) fun data => data.length % 64 = 0 := by
  rw [Rust.Checked.paddedData]
  refine Yields.bind (zerosLoop_defined 64 (Nat.mod_lt _ (by decide))) fun data hdata => ?_
  have hlength (n : BitVec 64) : (data ++ Rust.Checked.lengthBytes n).length = data.length + 8 := List.length_append
  refine ⟨_, rfl, ?_⟩
  simp only [hlength]
  omega

theorem length_of_mem_chunks {data chunk : List UInt8} {size : Nat} (hsize : 0 < size) (hdata : data.length % size = 0)
    (h : chunk ∈ Rust.Checked.chunks data size) : chunk.length = size := by
  obtain ⟨i, hi, rfl⟩ := List.mem_map.1 h
  obtain ⟨q, hq⟩ := Nat.dvd_of_mod_eq_zero hdata
  rw [List.mem_range, ← Nat.succ_le_iff, Nat.le_div_iff_mul_le hsize] at hi
  -- the last chunk is full too
  have hlt : i < q := by
    have hmul : i.succ * size < (q + 1) * size := by
      rw [Nat.add_mul, Nat.one_mul, Nat.mul_comm q, ← hq]
      omega
    exact Nat.lt_of_succ_lt_succ (Nat.lt_of_mul_lt_mul_right hmul)
  have hend : i.succ * size ≤ data.length := by
    rw [hq, Nat.mul_comm size]
    exact Nat.mul_le_mul_right size hlt
  rw [Nat.succ_mul] at hend
  rw [List.length_take, List.length_drop]
  omega

theorem loadWord_defined {chunk : List UInt8} {offset : Nat} (h : offset + 3 < chunk.length) :
    Yields (Rust.Checked.loadWord chunk offset) fun _ => True := by
  rw [Rust.Checked.loadWord, index_eq (by omega), index_eq (by omega), index_eq (by omega), index_eq h]
  exact ⟨_, rfl, trivial⟩

theorem loadWords_defined {chunk : List UInt8} {places : List Nat} (h : ∀ place ∈ places, place * 4 + 3 < chunk.length) :
    Yields (Rust.Checked.loadWords chunk places) fun words => words.length = places.length := by
  induction places with
  | nil =>
      exact ⟨[], rfl, rfl⟩
  | cons place more ih =>
      obtain ⟨hplace, hmore⟩ := List.forall_mem_cons.1 h
      rw [Rust.Checked.loadWords]
      refine Yields.bind (loadWord_defined hplace) fun word _ => ?_
      refine Yields.bind (ih hmore) fun words hwords => ?_
      exact ⟨_, rfl, congrArg Nat.succ hwords⟩

/-- The look back and the slot are inside the array, whose size stays. -/
theorem extendLoop_defined {places : List Nat} {w : List Rust.Checked.Word} {n : Nat} (hw : w.length = n)
    (h : ∀ place ∈ places, place < n) : Yields (Rust.Checked.extendLoop places w) fun w => w.length = n := by
  induction places generalizing w with
  | nil =>
      exact ⟨w, rfl, hw⟩
  | cons place more ih =>
      obtain ⟨hplace, hmore⟩ := List.forall_mem_cons.1 h
      rw [Rust.Checked.extendLoop, index_eq (by omega), some_bind, index_eq (by omega), some_bind, index_eq (by omega),
        some_bind, index_eq (by omega), some_bind, setIndex_eq (by omega), some_bind]
      apply ih _ hmore
      rw [List.length_set, hw]

theorem roundLoop_defined {places : List Nat} {w : List Rust.Checked.Word} (hw : w.length = 64)
    (h : ∀ place ∈ places, place < 64) (v : Sha256.State) :
    Yields (Rust.Checked.roundLoop w places v) fun _ => True := by
  induction places generalizing v with
  | nil =>
      exact ⟨v, rfl, trivial⟩
  | cons place more ih =>
      obtain ⟨hplace, hmore⟩ := List.forall_mem_cons.1 h
      rw [Rust.Checked.roundLoop, index_eq (l := Rust.Checked.sha256K) hplace, some_bind, index_eq (by omega), some_bind]
      exact ih hmore _

theorem sha256Chunk_defined {chunk : List UInt8} (hchunk : chunk.length = 64) (h : Sha256.State) :
    Yields (Rust.Checked.sha256Chunk h chunk) fun _ => True := by
  rw [Rust.Checked.sha256Chunk]
  -- 16 words of four bytes are the 64 bytes of the chunk
  refine Yields.bind (loadWords_defined ?_) fun words hwords => ?_
  · intro place hplace
    rw [List.mem_range] at hplace
    omega
  -- 16 words and 48 empty slots
  refine Yields.bind (extendLoop_defined (n := 64) ?_ ?_) fun w hw => ?_
  · rw [List.length_append, hwords, List.length_range, List.length_replicate]
  · intro place hplace
    rw [List.mem_range'_1] at hplace
    exact hplace.2
  refine Yields.bind (roundLoop_defined hw (fun place hplace => List.mem_range.1 hplace) h) fun v _ => ?_
  exact ⟨_, rfl, trivial⟩

theorem chunkLoop_defined {cs : List (List UInt8)} (hcs : ∀ chunk ∈ cs, chunk.length = 64) (h : Sha256.State) :
    Yields (Rust.Checked.chunkLoop h cs) fun _ => True := by
  induction cs generalizing h with
  | nil =>
      exact ⟨h, rfl, trivial⟩
  | cons chunk more ih =>
      obtain ⟨hchunk, hmore⟩ := List.forall_mem_cons.1 hcs
      rw [Rust.Checked.chunkLoop]
      exact Yields.bind (sha256Chunk_defined hchunk h) fun h' _ => ih hmore h'

theorem sha256Hex_defined (input : List Char) : Yields (Rust.Checked.sha256Hex input) fun _ => True := by
  rw [Rust.Checked.sha256Hex]
  refine Yields.bind (paddedData_defined (bytes input)) fun data hdata => ?_
  refine Yields.bind (chunkLoop_defined (fun chunk => length_of_mem_chunks (by decide) hdata) _) fun h _ => ?_
  exact ⟨_, rfl, trivial⟩

/-! ## Git refs -/

theorem code_lt_of_isAllowed {c : Char} (h : Rust.Checked.isAllowed c = true) : code c < 128 := by
  rw [Rust.Checked.isAllowed, Bool.or_eq_true, Bool.or_eq_true, Bool.and_eq_true] at h
  rcases h with (hletter | ⟨-, hdigit⟩) | hmark
  · exact code_lt_of_isLetter hletter
  · have hle : c ≤ chr '9' := of_decide_eq_true hdigit
    exact Nat.lt_of_le_of_lt hle (by decide)
  · have hmem : c ∈ (lit "._-" : List Char) := List.contains_iff_mem.1 hmark
    exact code_lt_of_mem_lit (by decide) c hmem

/-- The slug can be cut anywhere. -/
theorem encodeGitRef_safe (raw : List Char) : Safe (Rust.Checked.encodeGitRef raw) fun _ => True := by
  rw [Rust.Checked.encodeGitRef]
  refine Safe.ite (fun _ => Safe.throw _) fun _ => ?_
  refine Safe.ite (fun _ => Safe.throw _) fun _ => ?_
  have hascii : ∀ c ∈ Rust.Checked.trimComponentEdges (Rust.Checked.replaceRuns (fun ch => !Rust.Checked.isAllowed ch)
      false raw), code c < 128 := by
    intro c hc
    -- a hyphen or a character that the slug keeps
    rcases mem_replaceRuns (Trim.mem_of_mem_rdropWhile_dropWhile hc) with rfl | hkept
    · decide
    · rw [Bool.not_eq_false'] at hkept
      exact code_lt_of_isAllowed hkept
  dsimp only
  rw [truncate_ascii hascii, some_lift_bind]
  refine Safe.lift (sha256Hex_defined raw) fun digest _ => Safe.pure trivial

/-! ## The port -/

/-- Whatever the texts and the options are, no public function of the port panics. -/
theorem no_panic (raw root target name profile : List Char) (parts : List (List Char))
    (options : Rust.Checked.NormalizeOptions) (wsl : Rust.Checked.WslOptions) :
    (Rust.Checked.normalizeWithOptions raw options).run ≠ none ∧
      (Rust.Checked.relative root target).run ≠ none ∧
      (Rust.Checked.join root target).run ≠ none ∧
      (Rust.Checked.joinParts parts).run ≠ none ∧
      (Rust.Checked.toWin32 root).run ≠ none ∧
      (Rust.Checked.toWsl root wsl).run ≠ none ∧
      (Rust.Checked.toPosix root).run ≠ none ∧
      (Rust.Checked.sanitizeComponent name profile).run ≠ none ∧
      (Rust.Checked.encodeGitRef raw).run ≠ none := by
  have hreturned {β : Type} (result : Except PathError β) : (returned result).run ≠ none := Option.some_ne_none result
  refine ⟨(normalizeWithOptions_safe raw options).ne_none, ?_, ?_, ?_, (toWin32_safe root).ne_none,
    (toWsl_safe root wsl).ne_none, (toPosix_safe root).ne_none, (sanitizeComponent_safe name profile).ne_none,
    (encodeGitRef_safe raw).ne_none⟩
  · rw [relative_eq]
    exact hreturned _
  · rw [join_eq]
    exact hreturned _
  · rw [joinParts_eq]
    exact hreturned _

end Checked

end Rust

end Ports

end CanonicalPath
