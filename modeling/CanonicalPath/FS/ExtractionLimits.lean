import CanonicalPath.FS.Unpacking

/-!
# Extraction limits — how much an extraction can ask of the tree

The log of a run is weighed: the bytes written, the calls of `Mkdir`, the objects asked for.

* `tally` : the weight of a log; what a walk and an output file weigh
* `preflightFrom` : the preflight up to an entry
* `extraction_within_byte_limits` : bytes, whatever the streams yield
* `extraction_within_path_budgets` : directories and objects, which the preflight has charged
-/

namespace CanonicalPath

namespace FS

open CodeUnit Segments Outcome Go

namespace Disk

variable {host : Host}

/-! ## Weighing a log -/

def Event.bytes : Event → Nat
  | .write _ count => count
  | _ => 0

def Event.bytesTo (path : List Bytes) : Event → Nat
  | .write path' count => if path' = path then count else 0
  | _ => 0

/-- A call of `Mkdir`. -/
def Event.directories : Event → Nat
  | .mkdir _ => 1
  | _ => 0

/-- A call of `Mkdir` or of a creating `OpenFile`. -/
def Event.objects : Event → Nat
  | .mkdir _ => 1
  | .create _ => 1
  | _ => 0

def tally (weight : Event → Nat) (log : List Event) : Nat :=
  (log.map weight).sum

theorem tally_append (weight : Event → Nat) (log log' : List Event) :
    tally weight (log ++ log') = tally weight log + tally weight log' := by
  rw [tally, List.map_append, List.sum_append]
  rfl

theorem tally_cons (weight : Event → Nat) (event : Event) (log : List Event) :
    tally weight (event :: log) = weight event + tally weight log := by
  rw [tally, List.map_cons, List.sum_cons]
  rfl

/-- A walk weighs its calls. -/
theorem tally_mkdirCalls {weight : Event → Nat} {each : Nat} (h : ∀ path, weight (.mkdir path) = each)
    (dir parts : List Bytes) : tally weight (mkdirCalls dir parts) = each * parts.length := by
  induction parts generalizing dir with
  | nil =>
      rfl
  | cons part more ih =>
      rw [mkdirCalls, tally_cons, h, ih, List.length_cons, Nat.mul_succ, Nat.add_comm]

/-- The writes of a file weigh all of their bytes, or nothing. -/
theorem tally_writes {weight : Event → Nat} {path : List Bytes} {each : Nat}
    (h : ∀ count, weight (.write path count) = each * count) (counts : List Nat) :
    tally weight (counts.map (Event.write path)) = each * counts.sum := by
  induction counts with
  | nil =>
      rfl
  | cons count counts ih =>
      rw [List.map_cons, tally_cons, h, ih, List.sum_cons, Nat.mul_add]

/-- What a walk adds to the weight of the log. -/
theorem Walks.tally_le {weight : Event → Nat} {each : Nat} (h : ∀ path, weight (.mkdir path) = each)
    {dir parts : List Bytes} {s s' : Store} (hwalks : Walks dir parts s s') :
    tally weight s'.log ≤ tally weight s.log + each * parts.length := by
  obtain ⟨front, hfront, hlog⟩ := hwalks.calls
  rw [hlog, tally_append, tally_mkdirCalls h]
  exact Nat.add_le_add_left (Nat.mul_le_mul_left each hfront.length_le) _

/-- A weight that no `Mkdir` has is kept by a walk. -/
theorem Walks.tally_eq {weight : Event → Nat} (h : ∀ path, weight (.mkdir path) = 0) {dir parts : List Bytes}
    {s s' : Store} (hwalks : Walks dir parts s s') : tally weight s'.log = tally weight s.log := by
  obtain ⟨front, hfront, hlog⟩ := hwalks.calls
  rw [hlog, tally_append, tally_mkdirCalls h, Nat.zero_mul, Nat.add_zero]

/-- The calls of a walk name the directories on its way. -/
theorem mem_mkdirCalls {dir parts : List Bytes} {event : Event} (h : event ∈ mkdirCalls dir parts) :
    ∃ front, front <+: parts ∧ event = .mkdir (dir ++ front) := by
  induction parts generalizing dir with
  | nil =>
      exact absurd h List.not_mem_nil
  | cons part more ih =>
      cases List.mem_cons.1 h with
      | inl hhead =>
          exact ⟨[part], List.cons_prefix_cons.2 ⟨rfl, List.nil_prefix⟩, hhead⟩
      | inr hrest =>
          obtain ⟨front, hfront, hevent⟩ := ih hrest
          refine ⟨part :: front, List.cons_prefix_cons.2 ⟨rfl, hfront⟩, ?_⟩
          rw [hevent, List.append_assoc]
          rfl

theorem Walks.mem_log {dir parts : List Bytes} {s s' : Store} (h : Walks dir parts s s') {event : Event}
    (hmem : event ∈ s'.log) : event ∈ s.log ∨ ∃ front, front <+: parts ∧ event = .mkdir (dir ++ front) := by
  obtain ⟨made, hmade, hlog⟩ := h.calls
  rw [hlog] at hmem
  cases List.mem_append.1 hmem with
  | inl hold =>
      exact Or.inl hold
  | inr hnew =>
      obtain ⟨front, hfront, hevent⟩ := mem_mkdirCalls hnew
      exact Or.inr ⟨front, hfront.trans hmade, hevent⟩

/-! ## The limits -/

theorem orDefault_nonneg {limit default : Int} (h : 0 ≤ limit) (hdefault : 0 ≤ default) :
    0 ≤ orDefault limit default := by
  rw [orDefault]
  split_ifs
  · exact hdefault
  · exact h

/-- Accepted limits are not negative. -/
structure NonNegative (limits : ZipLimits) : Prop where
  maxEntryBytes : 0 ≤ limits.maxEntryBytes
  maxTotalBytes : 0 ≤ limits.maxTotalBytes
  maxTotalPathComponents : 0 ≤ limits.maxTotalPathComponents
  maxDirectories : 0 ≤ limits.maxDirectories
  maxObjects : 0 ≤ limits.maxObjects

theorem nonNegative_of_defaultZipLimits {l limits : ZipLimits} (h : defaultZipLimits l = .ok limits) :
    NonNegative limits := by
  rw [defaultZipLimits] at h
  simp only [newError, ite_error_eq_ok_iff, not_or, Int.not_lt] at h
  obtain ⟨⟨-, -, hentry, htotal, -, -, -, hcomponents, hdirectories, hobjects⟩, h⟩ := h
  cases h
  exact {
    maxEntryBytes := orDefault_nonneg hentry (by decide)
    maxTotalBytes := orDefault_nonneg htotal (by decide)
    maxTotalPathComponents := orDefault_nonneg hcomponents (by decide)
    maxDirectories := orDefault_nonneg hdirectories (by decide)
    maxObjects := orDefault_nonneg hobjects (by decide)
  }

/-! ## The preflight up to an entry -/

/-- What the preflight hands on behind these entries: the budget and the declared total. -/
def preflightFrom (limits : ZipLimits) (start : ZipPathBudget × UInt64) (entries : List ZipEntry) :
    Except Error (ZipPathBudget × UInt64) :=
  entries.foldlM (fun next entry => preflightEntry limits next.1 next.2 entry) start

theorem preflight_eq_ok_iff {limits : ZipLimits} {budget : ZipPathBudget} {declared : UInt64}
    {entries : List ZipEntry} :
    preflight limits budget declared entries = .ok () ↔
      ∃ next, preflightFrom limits (budget, declared) entries = .ok next := by
  induction entries generalizing budget declared with
  | nil =>
      exact ⟨fun _ => ⟨_, rfl⟩, fun _ => rfl⟩
  | cons entry entries ih =>
      rw [preflight, preflightFrom, List.foldlM_cons, bind_eq_ok_iff]
      simp only [bind_eq_ok_iff]
      constructor
      · rintro ⟨next, hnext, hrest⟩
        obtain ⟨last, hlast⟩ := ih.1 hrest
        exact ⟨last, next, hnext, hlast⟩
      · rintro ⟨last, next, hnext, hlast⟩
        exact ⟨next, hnext, ih.2 ⟨last, hlast⟩⟩

/-- The declared total is the sum of the declared sizes, and below the limit: no operation on it wraps. -/
structure Declares (limits : ZipLimits) (entries : List ZipEntry) (declared : UInt64) : Prop where
  toNat_eq : declared.toNat = (entries.map fun entry => entry.uncompressedSize.toNat).sum
  left_toNat_eq : (toUInt64 limits.maxTotalBytes - declared).toNat + declared.toNat =
    (toUInt64 limits.maxTotalBytes).toNat

theorem declared_of_admits {limits : ZipLimits} {budget : ZipPathBudget} {declared : UInt64} {entry : ZipEntry}
    {next : ZipPathBudget × UInt64} (h : Admits limits budget declared entry next)
    (hdeclared : declared ≤ toUInt64 limits.maxTotalBytes) :
    next.2.toNat = declared.toNat + entry.uncompressedSize.toNat ∧ next.2 ≤ toUInt64 limits.maxTotalBytes := by
  have hle : declared.toNat ≤ (toUInt64 limits.maxTotalBytes).toNat := UInt64.le_iff_toNat_le.1 hdeclared
  have hleft := UInt64.toNat_sub_of_le _ _ hdeclared
  have hsize := UInt64.le_iff_toNat_le.1 h.size_le
  have hsum : next.2.toNat = declared.toNat + entry.uncompressedSize.toNat := by
    rw [h.declared_eq, UInt64.toNat_add, Nat.mod_eq_of_lt]
    have hlimit := (toUInt64 limits.maxTotalBytes).toNat_lt
    omega
  refine ⟨hsum, UInt64.le_iff_toNat_le.2 ?_⟩
  omega

theorem preflightFrom_declared {limits : ZipLimits} {start next : ZipPathBudget × UInt64} {entries : List ZipEntry}
    (hstart : start.2 ≤ toUInt64 limits.maxTotalBytes) (h : preflightFrom limits start entries = .ok next) :
    next.2.toNat = start.2.toNat + (entries.map fun entry => entry.uncompressedSize.toNat).sum ∧
      next.2 ≤ toUInt64 limits.maxTotalBytes := by
  induction entries generalizing start with
  | nil =>
      cases h
      exact ⟨rfl, hstart⟩
  | cons entry entries ih =>
      rw [preflightFrom, List.foldlM_cons] at h
      obtain ⟨middle, hmiddle, hrest⟩ := bind_eq_ok_iff.1 h
      obtain ⟨hsum, hle⟩ := declared_of_admits (admits_of_preflightEntry hmiddle) hstart
      obtain ⟨htotal, hlast⟩ := ih hle hrest
      refine ⟨?_, hlast⟩
      rw [htotal, hsum, List.map_cons, List.sum_cons, Nat.add_assoc]

/-- Wherever the preflight stands, the declared total leaves what is left of the limit. -/
theorem declares_of_preflightFrom {limits : ZipLimits} {budget : ZipPathBudget} {next : ZipPathBudget × UInt64}
    {entries : List ZipEntry} (h : preflightFrom limits (budget, 0) entries = .ok next) :
    Declares limits entries next.2 := by
  obtain ⟨hsum, hle⟩ := preflightFrom_declared UInt64.zero_le h
  refine ⟨hsum.trans (Nat.zero_add _), ?_⟩
  rw [UInt64.toNat_sub_of_le _ _ hle]
  exact Nat.sub_add_cancel (UInt64.le_iff_toNat_le.1 hle)

/-! ## Bytes -/

/-- What holds of every store an extraction leaves. -/
structure WithinBytes (limits : ZipLimits) (s : Store) : Prop where
  total_le : (tally Event.bytes s.log : Int) ≤ limits.maxTotalBytes
  /-- The files of the entries, which no two entries of a run share. -/
  path_le : ∀ path, (tally (Event.bytesTo path) s.log : Int) ≤ limits.maxEntryBytes
  allowance_nonneg : ∀ remaining, Event.allowance remaining ∈ s.log → 0 ≤ remaining

/-- What the loop keeps: the total is what was written, and nothing was written to a free name. -/
structure Counts (limits : ZipLimits) (total : Int) (s : Store) : Prop extends WithinBytes limits s where
  total_eq : (tally Event.bytes s.log : Int) = total
  free : ∀ path, s.tree.lookup path = none → tally (Event.bytesTo path) s.log = 0

theorem bytes_mkdir (path : List Bytes) : Event.bytes (.mkdir path) = 0 := rfl

theorem bytesTo_mkdir (path path' : List Bytes) : Event.bytesTo path (.mkdir path') = 0 := rfl

theorem Counts.start {limits : ZipLimits} (hlimits : NonNegative limits) (tree : Tree) :
    Counts limits 0 ⟨tree, []⟩ where
  total_le := hlimits.maxTotalBytes
  path_le := fun _ => hlimits.maxEntryBytes
  allowance_nonneg := fun _ hmem => absurd hmem List.not_mem_nil
  total_eq := rfl
  free := fun _ _ => rfl

/-- A walk writes nothing. -/
theorem WithinBytes.walks {limits : ZipLimits} {dir parts : List Bytes} {s s' : Store} (h : WithinBytes limits s)
    (hwalks : Walks dir parts s s') : WithinBytes limits s' where
  total_le := by
    rw [hwalks.tally_eq bytes_mkdir]
    exact h.total_le
  path_le := by
    intro path
    rw [hwalks.tally_eq (bytesTo_mkdir path)]
    exact h.path_le path
  allowance_nonneg := by
    intro remaining hmem
    cases hwalks.mem_log hmem with
    | inl hold =>
        exact h.allowance_nonneg remaining hold
    | inr hnew =>
        obtain ⟨front, -, hevent⟩ := hnew
        cases hevent

theorem Counts.walks {limits : ZipLimits} {total : Int} {dir parts : List Bytes} {s s' : Store}
    (h : Counts limits total s) (hwalks : Walks dir parts s s') : Counts limits total s' where
  toWithinBytes := h.toWithinBytes.walks hwalks
  total_eq := by
    rw [hwalks.tally_eq bytes_mkdir]
    exact h.total_eq
  free := by
    intro path hfree
    rw [hwalks.tally_eq (bytesTo_mkdir path)]
    apply h.free
    cases hnode : s.tree.lookup path with
    | none =>
        rfl
    | some node =>
        rw [hwalks.kept path node hnode] at hfree
        cases hfree

/-- The allowance is not negative. -/
theorem Counts.zero_le_allowance {limits : ZipLimits} {total : Int} {s : Store} (hlimits : NonNegative limits)
    (h : Counts limits total s) : 0 ≤ allowance limits total := by
  have htotal : total ≤ limits.maxTotalBytes := h.total_eq ▸ h.total_le
  rw [allowance]
  exact Int.le_min.2 ⟨hlimits.maxEntryBytes, Int.sub_nonneg_of_le htotal⟩

theorem Counts.allowed {limits : ZipLimits} {total : Int} {s : Store} (hlimits : NonNegative limits)
    (h : Counts limits total s) : Counts limits total (s.record (.allowance (allowance limits total))) where
  total_le := by
    rw [Store.record, tally_append]
    exact h.total_le
  path_le := by
    intro path
    rw [Store.record, tally_append]
    exact h.path_le path
  allowance_nonneg := by
    intro remaining hmem
    cases List.mem_append.1 hmem with
    | inl hold =>
        exact h.toWithinBytes.allowance_nonneg remaining hold
    | inr hnew =>
        cases List.mem_singleton.1 hnew
        exact h.zero_le_allowance hlimits
  total_eq := by
    rw [Store.record, tally_append]
    exact h.total_eq
  free := by
    intro path hfree
    rw [Store.record, tally_append]
    exact h.free path hfree

/-- The bytes of one output file. -/
theorem tally_file (path path' : List Bytes) (counts : List Nat) :
    tally Event.bytes (.create path :: counts.map (Event.write path)) = counts.sum ∧
      tally (Event.bytesTo path') (.create path :: counts.map (Event.write path)) =
        if path = path' then counts.sum else 0 := by
  have hbytes : ∀ count, Event.bytes (.write path count) = 1 * count := fun count => (Nat.one_mul count).symm
  constructor
  · rw [tally_cons, tally_writes hbytes, Nat.one_mul]
    exact Nat.zero_add _
  · by_cases hpath : path = path'
    · have hto : ∀ count, Event.bytesTo path' (.write path count) = 1 * count := by
        intro count
        rw [Event.bytesTo, if_pos hpath, Nat.one_mul]
      rw [tally_cons, tally_writes hto, if_pos hpath, Nat.one_mul]
      exact Nat.zero_add _
    · have hto : ∀ count, Event.bytesTo path' (.write path count) = 0 * count := by
        intro count
        rw [Event.bytesTo, if_neg hpath, Nat.zero_mul]
      rw [tally_cons, tally_writes hto, if_neg hpath, Nat.zero_mul]
      rfl

/-- An output file within its allowance keeps the limits. -/
theorem WithinBytes.file {limits : ZipLimits} {total : Int} {s s' : Store} {path : List Bytes} {counts : List Nat}
    (hlimits : NonNegative limits) (h : Counts limits total s)
    (hsum : counts.sum ≤ (allowance limits total).toNat) (hfree : s.tree.lookup path ≠ none → counts = [])
    (hlog : s'.log = s.log ++ .create path :: counts.map (Event.write path)) : WithinBytes limits s' where
  total_le := by
    have hallowance := h.zero_le_allowance hlimits
    have hle : allowance limits total ≤ limits.maxTotalBytes - total := by
      rw [allowance]
      exact Int.min_le_right _ _
    have htotal := h.total_eq
    rw [hlog, tally_append, (tally_file path path counts).1]
    omega
  path_le := by
    intro path'
    rw [hlog, tally_append, (tally_file path path' counts).2]
    have hallowance := h.zero_le_allowance hlimits
    have hle : allowance limits total ≤ limits.maxEntryBytes := by
      rw [allowance]
      exact Int.min_le_left _ _
    have hpath := h.path_le path'
    split_ifs with heq
    · subst heq
      cases hnode : s.tree.lookup path with
      | none =>
          rw [h.free path hnode]
          omega
      | some node =>
          rw [hfree (by rw [hnode]; exact Option.some_ne_none node)]
          exact hpath
    · exact hpath
  allowance_nonneg := by
    intro remaining hmem
    rw [hlog] at hmem
    cases List.mem_append.1 hmem with
    | inl hold =>
        exact h.toWithinBytes.allowance_nonneg remaining hold
    | inr hnew =>
        cases List.mem_cons.1 hnew with
        | inl hhead =>
            cases hhead
        | inr hwrite =>
            obtain ⟨count, -, hevent⟩ := List.mem_map.1 hwrite
            cases hevent

theorem Counts.written {limits : ZipLimits} {total : Int} {reader : Reader} {s s' : Store} {path : List Bytes} {n : Nat}
    (hlimits : NonNegative limits) (h : Counts limits total s)
    (hwritten : Written reader path (allowance limits total).toNat n s s') : Counts limits (total + n) s' := by
  obtain ⟨content, hcopying, hlength, -⟩ := hwritten.copied
  obtain ⟨counts, hsum, hlog⟩ := hcopying.calls
  have hn : counts.sum = n := hsum.trans hlength
  refine ⟨WithinBytes.file hlimits h (hn ▸ hwritten.le_limit) (fun htaken => absurd hwritten.free htaken) hlog, ?_, ?_⟩
  · rw [hlog, tally_append, (tally_file path path counts).1, hn, Int.natCast_add, h.total_eq]
  · intro path' hfree
    have hne : path ≠ path' := by
      rintro rfl
      rw [hcopying.tree_eq, AList.lookup_insert] at hfree
      cases hfree
    rw [hcopying.tree_eq, AList.lookup_insert_ne (Ne.symm hne)] at hfree
    rw [hlog, tally_append, (tally_file path path' counts).2, if_neg hne, h.free path' hfree]

theorem WithinBytes.undone {limits : ZipLimits} {total : Int} {s s' : Store} {path : List Bytes}
    (hlimits : NonNegative limits) (h : Counts limits total s)
    (hundone : Undone host path (allowance limits total).toNat s s') : WithinBytes limits s' := by
  obtain ⟨counts, hsum, hfree, hlog⟩ := hundone.calls
  cases hlog with
  | inl hsame =>
      refine ⟨?_, ?_, ?_⟩
      · rw [hsame]
        exact h.total_le
      · rw [hsame]
        exact h.path_le
      · rw [hsame]
        exact h.toWithinBytes.allowance_nonneg
  | inr hlog =>
      exact WithinBytes.file hlimits h hsum hfree hlog

/-- One entry keeps the limits. -/
theorem extractEntry_within_bytes {limits : ZipLimits} {destination parts : List Bytes} {total : Int} {member : Member}
    {s : Store} (hlimits : NonNegative limits) (h : Counts limits total s) (hresolved : Resolved member.entry parts) :
    Spec (fun s' => s' = s) (extractEntry host limits destination total member)
      (fun total' => Counts limits total') (WithinBytes limits) := by
  apply (extractEntry_spec hresolved s).conseq (fun _ hp => hp)
  · intro total' s' hdone
    cases hdone with
    | directory _ hwalked =>
        exact h.walks hwalked.walks
    | file _ hwalked hwritten =>
        exact ((h.walks hwalked.walks).allowed hlimits).written hlimits hwritten
  · intro s' hfailed
    cases hfailed with
    | context =>
        exact h.toWithinBytes
    | directory _ hwalks =>
        exact h.toWithinBytes.walks hwalks
    | parent _ hwalks =>
        exact h.toWithinBytes.walks hwalks
    | file _ hwalked hundone =>
        exact WithinBytes.undone hlimits ((h.walks hwalked.walks).allowed hlimits) hundone

/-- The loop keeps the limits. -/
theorem extractEntries_within_bytes {limits : ZipLimits} {destination : List Bytes} {members : List Member}
    (hlimits : NonNegative limits) (hresolved : ∀ member ∈ members, ∃ parts, Resolved member.entry parts)
    (total : Int) :
    Spec (Counts limits total) (extractEntries host limits destination total members)
      (fun total' => Counts limits total') (WithinBytes limits) := by
  apply (extractEntries_spec
    (I := fun members total s => Counts limits total s ∧ ∀ member ∈ members, ∃ parts, Resolved member.entry parts)
    (E := WithinBytes limits) (fun _ _ _ h => h.1.toWithinBytes) ?_ members total).conseq
  · exact fun s hs => ⟨hs, hresolved⟩
  · exact fun _ _ h => h.1
  · exact fun _ h => h
  · rintro member members total s ⟨hs, hnames⟩
    obtain ⟨parts, hparts⟩ := hnames member List.mem_cons_self
    apply (extractEntry_within_bytes hlimits hs hparts).conseq (fun _ hp => hp) ?_ fun _ h => h
    intro total' s' hs'
    exact ⟨hs', fun member hmember => hnames member (List.mem_cons_of_mem _ hmember)⟩

/-- No run writes more than its limits, whatever the archive declares and its streams yield; what is left to an entry
is never negative, and what is left to the declared sizes never wraps. -/
theorem extraction_within_byte_limits {l limits : ZipLimits} (hlimits : defaultZipLimits l = .ok limits) (host : Host)
    (zipRel destRel : Bytes) (members : List Member) (tree : Tree) (patience calls : Nat) :
    WithinBytes limits (extractZipWithLimits host zipRel destRel l members ⟨⟨tree, []⟩, patience, calls⟩).2.store ∧
      ∀ budget entries next, preflightFrom limits (budget, 0) entries = .ok next → Declares limits entries next.2 := by
  have hnonneg := nonNegative_of_defaultZipLimits hlimits
  have hstart : Counts limits 0 ⟨tree, []⟩ := Counts.start hnonneg tree
  refine ⟨?_, fun _ _ _ h => declares_of_preflightFrom h⟩
  have hextract : Spec (fun s => s = ⟨tree, []⟩) (extractZipWithLimits host zipRel destRel l members)
      (fun _ => WithinBytes limits) (WithinBytes limits) := by
    apply extractZipWithLimits_spec hstart.toWithinBytes
    intro limits' parts hready _
    have hsame : limits' = limits := Except.ok.inj (hready.limits_eq.symm.trans hlimits)
    subst hsame
    refine ⟨fun s hwalks => hstart.toWithinBytes.walks hwalks, ?_⟩
    intro s hwalked
    apply (extractEntries_within_bytes hnonneg hready.resolved 0).conseq
    · rintro s' rfl
      exact hstart.walks hwalked.walks
    · exact fun _ _ h => h.toWithinBytes
    · exact fun _ h => h
  exact hextract.final (fun _ _ h => h) (fun _ h => h) rfl

/-- An entry that declares one byte, and has three where two are allowed. -/
theorem extraction_within_byte_limits_lying :
    WithinBytes ⟨64, 4, 2, 3, 1000, 30, 64, 8, 32, 16, 16⟩
        (extractZipWithLimits ⟨fun _ _ => none, fun _ count => count, 1⟩ (lit "z") (lit "out")
          ⟨64, 4, 2, 3, 1000, 30, 64, 8, 32, 16, 16⟩
          [⟨⟨lit "a", .regular, 1, 1⟩, Reader.ofBytes (lit "abc")⟩] ⟨⟨∅, []⟩, 99, 0⟩).2.store ∧
      ∀ budget entries next,
        preflightFrom ⟨64, 4, 2, 3, 1000, 30, 64, 8, 32, 16, 16⟩ (budget, 0) entries = .ok next →
          Declares ⟨64, 4, 2, 3, 1000, 30, 64, 8, 32, 16, 16⟩ entries next.2 :=
  extraction_within_byte_limits (by decide) _ _ _ _ _ _ _

end Disk

end FS

end CanonicalPath
