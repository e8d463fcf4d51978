import Mathlib.Algebra.Ring.Nat
import Mathlib.Data.List.AList
import Mathlib.Data.List.Induction

/-!
# Keyed — finite maps that hold values

How often a map holds a value, what it weighs, and what erasing, inserting and writing a key do to both.

* `lookup_replace`, `replace_lookup` : a value written in its place
* `put` : a value written in its place or behind all others
* `total_put_of_mem`, `total_put_of_notMem` : what a written value adds to the weight of a map
* `latest` : the last value that a log writes under a key
* `count_erase`, `count_insert` : erasing and inserting a counted value
* `existsUnique_of_count_eq_one` : a value held once has one key
-/

namespace Keyed

variable {κ β : Type}

/-! ## Size -/

theorem eq_empty_of_forall_notMem {m : AList fun _ : κ => β} (h : ∀ k, k ∉ m) : m = ∅ := by
  apply AList.ext
  rw [AList.empty_entries, List.eq_nil_iff_forall_not_mem]
  intro entry hentry
  exact h entry.1 (AList.mem_keys.2 (List.mem_keys_of_mem hentry))

variable [DecidableEq κ]

theorem length_keys_erase_le (k : κ) (m : AList fun _ : κ => β) :
    (m.erase k).keys.length ≤ m.keys.length := by
  rw [AList.keys_erase]
  exact List.length_erase_le

theorem length_keys_insert_of_mem {k : κ} {m : AList fun _ : κ => β} (h : k ∈ m) (v : β) :
    (m.insert k v).keys.length = m.keys.length := by
  rw [AList.keys_insert, List.length_cons]
  exact List.length_erase_add_one (AList.mem_keys.1 h)

theorem length_keys_insert_of_notMem {k : κ} {m : AList fun _ : κ => β} (h : k ∉ m) (v : β) :
    (m.insert k v).keys.length = m.keys.length + 1 := by
  rw [AList.keys_insert, List.length_cons, List.erase_of_not_mem fun hmem => h (AList.mem_keys.2 hmem)]

theorem erase_of_notMem {k : κ} {m : AList fun _ : κ => β} (h : k ∉ m) : m.erase k = m :=
  AList.ext (List.kerase_of_notMem_keys h)

theorem erase_insert {k : κ} {m : AList fun _ : κ => β} (h : k ∉ m) (v : β) : (m.insert k v).erase k = m := by
  apply AList.ext
  have hrest : m.entries.kerase k = m.entries := List.kerase_of_notMem_keys h
  have hinsert : (m.insert k v).entries = ⟨k, v⟩ :: m.entries := by
    rw [AList.entries_insert, hrest]
  change (m.insert k v).entries.kerase k = m.entries
  have hhead : List.kerase k ((⟨k, v⟩ : Sigma fun _ : κ => β) :: m.entries) = m.entries := List.kerase_cons_eq rfl
  rw [hinsert, hhead]

/-! ## Replacing a value -/

theorem dlookup_kreplace {k : κ} {entries : List (Sigma fun _ : κ => β)} (h : k ∈ entries.keys) (v : β) (k' : κ) :
    (entries.kreplace k v).dlookup k' = if k' = k then some v else entries.dlookup k' := by
  induction entries with
  | nil =>
      exact absurd h List.not_mem_nil
  | cons entry entries ih =>
      obtain ⟨head, b⟩ := entry
      by_cases hhead : k = head
      · subst hhead
        have hreplace : List.kreplace k v (⟨k, b⟩ :: entries) = ⟨k, v⟩ :: entries := by
          rw [List.kreplace, List.lookmap_cons_some]
          simp
        rw [hreplace]
        split_ifs with hk
        · rw [hk, List.dlookup_cons_eq]
        · rw [List.dlookup_cons_ne _ _ hk, List.dlookup_cons_ne _ _ hk]
      · have hreplace : List.kreplace k v (⟨head, b⟩ :: entries) = ⟨head, b⟩ :: List.kreplace k v entries := by
          rw [List.kreplace, List.lookmap_cons_none]
          simp [hhead]
        have hmem : k ∈ entries.keys := by
          simpa [List.keys, hhead] using h
        rw [hreplace]
        by_cases hk : k' = head
        · subst hk
          rw [List.dlookup_cons_eq, List.dlookup_cons_eq, if_neg (Ne.symm hhead)]
        · rw [List.dlookup_cons_ne _ _ hk, List.dlookup_cons_ne _ _ hk, ih hmem]

theorem lookup_replace {k : κ} {m : AList fun _ : κ => β} (h : k ∈ m) (v : β) (k' : κ) :
    (m.replace k v).lookup k' = if k' = k then some v else m.lookup k' :=
  dlookup_kreplace (AList.mem_keys.1 h) v k'

theorem replace_lookup {k : κ} {v : β} {m : AList fun _ : κ => β} (h : m.lookup k = some v) : m.replace k v = m :=
  AList.ext (List.kreplace_self m.nodupKeys (AList.mem_lookup_iff.1 h))

theorem keys_replace (k : κ) (v : β) (m : AList fun _ : κ => β) : (m.replace k v).keys = m.keys := by
  have hkeys : (m.entries.kreplace k v).keys = m.entries.keys := List.keys_kreplace k v m.entries
  exact hkeys

/-! ## Writing in the order of insertion -/

/-- A key that the map holds keeps its place, a new one comes last. -/
def put (k : κ) (v : β) (m : AList fun _ : κ => β) : AList fun _ : κ => β :=
  if h : k ∈ m then
    m.replace k v
  else
    { entries := m.entries ++ [⟨k, v⟩]
      nodupKeys := by
        rw [List.NodupKeys, List.keys, List.map_append, List.map_singleton, List.nodup_append_comm,
          List.singleton_append, List.nodup_cons]
        exact ⟨fun hmem => h (AList.mem_keys.2 hmem), m.nodupKeys⟩ }

theorem put_of_mem {k : κ} {m : AList fun _ : κ => β} (h : k ∈ m) (v : β) : put k v m = m.replace k v :=
  dif_pos h

theorem entries_put_of_notMem {k : κ} {m : AList fun _ : κ => β} (h : k ∉ m) (v : β) :
    (put k v m).entries = m.entries ++ [⟨k, v⟩] := by
  rw [put, dif_neg h]

theorem keys_put_of_mem {k : κ} {m : AList fun _ : κ => β} (h : k ∈ m) (v : β) : (put k v m).keys = m.keys := by
  rw [put_of_mem h, keys_replace]

theorem keys_put_of_notMem {k : κ} {m : AList fun _ : κ => β} (h : k ∉ m) (v : β) :
    (put k v m).keys = m.keys ++ [k] := by
  rw [AList.keys, entries_put_of_notMem h, List.keys, List.map_append]
  rfl

theorem lookup_put (k : κ) (v : β) (m : AList fun _ : κ => β) (k' : κ) :
    (put k v m).lookup k' = if k' = k then some v else m.lookup k' := by
  by_cases h : k ∈ m
  · rw [put_of_mem h, lookup_replace h]
  · have hentries : (put k v m).lookup k' = (m.entries ++ [(⟨k, v⟩ : Sigma fun _ : κ => β)]).dlookup k' := by
      rw [AList.lookup, entries_put_of_notMem h]
    rw [hentries, List.dlookup_append]
    by_cases hk : k' = k
    · subst hk
      have hnone : m.entries.dlookup k' = none := AList.lookup_eq_none.2 h
      rw [hnone, if_pos rfl, List.dlookup_cons_eq, Option.none_or]
    · rw [if_neg hk, List.dlookup_cons_ne _ _ hk, List.dlookup_nil, Option.or_none]
      rfl

/-! ## Weighing a map -/

/-- The sum of the weights of the entries. -/
def total (weight : κ → β → Nat) (m : AList fun _ : κ => β) : Nat :=
  (m.entries.map fun entry => weight entry.1 entry.2).sum

theorem sum_kreplace (weight : κ → β → Nat) {k : κ} {b : β} {entries : List (Sigma fun _ : κ => β)}
    (h : entries.dlookup k = some b) (v : β) :
    ((entries.kreplace k v).map fun entry => weight entry.1 entry.2).sum + weight k b =
      (entries.map fun entry => weight entry.1 entry.2).sum + weight k v := by
  induction entries with
  | nil =>
      cases h
  | cons entry entries ih =>
      obtain ⟨head, value⟩ := entry
      by_cases hhead : k = head
      · subst hhead
        rw [List.dlookup_cons_eq] at h
        cases h
        have hreplace : List.kreplace k v (⟨k, b⟩ :: entries) = ⟨k, v⟩ :: entries := by
          rw [List.kreplace, List.lookmap_cons_some]
          simp
        rw [hreplace, List.map_cons, List.map_cons, List.sum_cons, List.sum_cons]
        exact (Nat.add_comm _ _).trans (by rw [Nat.add_comm (weight k v), Nat.add_assoc])
      · have hreplace : List.kreplace k v (⟨head, value⟩ :: entries) = ⟨head, value⟩ :: List.kreplace k v entries := by
          rw [List.kreplace, List.lookmap_cons_none]
          simp [hhead]
        rw [List.dlookup_cons_ne _ _ hhead] at h
        rw [hreplace, List.map_cons, List.map_cons, List.sum_cons, List.sum_cons, Nat.add_assoc, ih h, Nat.add_assoc]

theorem total_put_of_mem (weight : κ → β → Nat) {k : κ} {b : β} {m : AList fun _ : κ => β}
    (h : m.lookup k = some b) (v : β) : total weight (put k v m) + weight k b = total weight m + weight k v := by
  have hmem : k ∈ m := AList.lookup_isSome.1 (by rw [h]; rfl)
  rw [put_of_mem hmem]
  exact sum_kreplace weight h v

theorem total_put_of_notMem (weight : κ → β → Nat) {k : κ} {m : AList fun _ : κ => β} (h : k ∉ m) (v : β) :
    total weight (put k v m) = total weight m + weight k v := by
  rw [total, entries_put_of_notMem h, List.map_append, List.sum_append, List.map_singleton, List.sum_singleton]
  rfl

/-! ## Logs of written values -/

/-- The value of the last pair with this key. -/
def latest (k : κ) (log : List (κ × β)) : Option β :=
  log.reverse.lookup k

theorem latest_nil (k : κ) : latest k ([] : List (κ × β)) = none :=
  rfl

theorem latest_snoc (k : κ) (log : List (κ × β)) (k' : κ) (v : β) :
    latest k (log ++ [(k', v)]) = if k = k' then some v else latest k log := by
  rw [latest, List.reverse_append, List.reverse_singleton, List.singleton_append, List.lookup_cons]
  by_cases h : k = k'
  · rw [if_pos h, h, beq_self_eq_true]
  · rw [if_neg h, beq_false_of_ne h]
    rfl

/-- Keys may be encoded where the encoding tells them from the key that is asked for. -/
theorem latest_map {κ' : Type} [DecidableEq κ'] {encode : κ → κ'} {k : κ} {log : List (κ × β)}
    (h : ∀ pair ∈ log, encode pair.1 = encode k → pair.1 = k) :
    latest (encode k) (log.map fun pair => (encode pair.1, pair.2)) = latest k log := by
  induction log using List.reverseRecOn with
  | nil =>
      rfl
  | append_singleton log pair ih =>
      have hpair := h pair (List.mem_append_right log List.mem_cons_self)
      have hrest := ih fun pair' hmem => h pair' (List.mem_append_left _ hmem)
      rw [List.map_append, List.map_singleton, latest_snoc, hrest, latest_snoc k log pair.1 pair.2]
      by_cases hk : k = pair.1
      · rw [if_pos hk, if_pos (congrArg encode hk)]
      · rw [if_neg hk, if_neg fun hsame => hk (hpair hsame.symm).symm]

theorem latest_eq_none_iff {k : κ} {log : List (κ × β)} : latest k log = none ↔ k ∉ log.map Prod.fst := by
  induction log using List.reverseRecOn with
  | nil =>
      simp [latest_nil]
  | append_singleton log pair ih =>
      rw [latest_snoc k log pair.1 pair.2, List.map_append, List.map_singleton, List.mem_append, List.mem_singleton,
        not_or, ← ih]
      by_cases hk : k = pair.1
      · simp [hk]
      · simp [hk]

/-! ## Counting a value -/

variable [DecidableEq β]

/-- The number of keys that hold a value. -/
def count (v : β) (m : AList fun _ : κ => β) : Nat :=
  (m.entries.map Sigma.snd).count v

theorem count_erase (k : κ) (v : β) (m : AList fun _ : κ => β) :
    count v m = count v (m.erase k) + if m.lookup k = some v then 1 else 0 := by
  by_cases hk : k ∈ m
  · obtain ⟨b, before, behind, -, hentries, herase⟩ := List.exists_of_kerase (AList.mem_keys.1 hk)
    have hlookup : m.lookup k = some b := by
      apply AList.mem_lookup_iff.2
      rw [hentries]
      exact List.mem_append_right before List.mem_cons_self
    have herase' : (m.erase k).entries = before ++ behind := herase
    rw [count, count, hentries, herase', hlookup, List.map_append, List.map_append, List.map_cons,
      List.count_append, List.count_append, List.count_cons]
    simp only [beq_iff_eq, Option.some.injEq]
    exact (Nat.add_assoc _ _ _).symm
  · rw [erase_of_notMem hk, AList.lookup_eq_none.2 hk, if_neg (Option.some_ne_none v).symm]
    rfl

theorem count_insert (k : κ) (v v' : β) (m : AList fun _ : κ => β) :
    count v (m.insert k v') = count v (m.erase k) + if v' = v then 1 else 0 := by
  rw [count, AList.entries_insert, List.map_cons, List.count_cons]
  simp only [beq_iff_eq]
  rfl

theorem count_eq_zero_iff {v : β} {m : AList fun _ : κ => β} :
    count v m = 0 ↔ ∀ k, m.lookup k ≠ some v := by
  constructor
  · intro hzero k hk
    have herase := count_erase k v m
    rw [if_pos hk, hzero] at herase
    cases herase
  · intro hnone
    apply List.count_eq_zero_of_not_mem
    intro hmem
    obtain ⟨⟨k, b⟩, hentry, hb⟩ := List.mem_map.1 hmem
    cases hb
    exact hnone k (AList.mem_lookup_iff.2 hentry)

theorem existsUnique_of_count_eq_one {v : β} {m : AList fun _ : κ => β} (h : count v m = 1) :
    ∃! k, m.lookup k = some v := by
  have hsome : ∃ k, m.lookup k = some v := by
    by_contra hnone
    rw [not_exists] at hnone
    rw [count_eq_zero_iff.2 hnone] at h
    cases h
  obtain ⟨k, hk⟩ := hsome
  refine ⟨k, hk, ?_⟩
  intro k' hk'
  by_contra hne
  -- erasing the one key leaves the other one, and no holder
  have hrest : count v (m.erase k) = 0 := by
    have herase := count_erase k v m
    rw [if_pos hk, h] at herase
    exact (Nat.succ.inj herase).symm
  apply count_eq_zero_iff.1 hrest k'
  rw [AList.lookup_erase_ne hne]
  exact hk'

end Keyed
