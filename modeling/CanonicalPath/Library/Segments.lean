import Mathlib.Data.List.Basic

/-!
# Segments — splitting and joining on one separator

Core's `List.splitOn` and `List.intercalate` split a list on a separator and join it back.
This module adds what programs over separated text need besides that round trip:

* `cut` and `splitN` : the bounded splits (`cut` once, `splitN` into at most `n` pieces)
* `before` : what stands before the first occurrence of a needle
* the elements, the emptiness and the concatenation of a join
* `joinOn_eq_append_cons_iff` : a join can only be cut at a segment boundary

Everything is over an arbitrary element type and an arbitrary separator.
-/

namespace Segments

open List

variable {α : Type*} {sep x : α} {s t u : List α} {ls ms : List (List α)}

/-! ## Joins -/

/-- The list of segments joined by one separator. -/
abbrev joinOn (sep : α) (ls : List (List α)) : List α :=
  [sep].intercalate ls

theorem joinOn_cons_of_ne_nil (h : ls ≠ []) (s : List α) :
    joinOn sep (s :: ls) = s ++ sep :: joinOn sep ls := by
  simp [joinOn, intercalate_cons_of_ne_nil h]

theorem joinOn_append (hls : ls ≠ []) (hms : ms ≠ []) :
    joinOn sep (ls ++ ms) = joinOn sep ls ++ sep :: joinOn sep ms := by
  induction ls with
  | nil =>
      exact absurd rfl hls
  | cons l ls ih =>
      by_cases hnil : ls = []
      · subst hnil
        simp [joinOn, intercalate_cons_of_ne_nil hms]
      · have hne : ls ++ ms ≠ [] := by
          simp [hnil]
        rw [List.cons_append, joinOn_cons_of_ne_nil hne, ih hnil, joinOn_cons_of_ne_nil hnil]
        simp

/-- A join of nonempty segments is empty only when there is no segment. -/
theorem joinOn_eq_nil_iff (h : ∀ l ∈ ls, l ≠ []) : joinOn sep ls = [] ↔ ls = [] := by
  cases ls with
  | nil =>
      simp [joinOn]
  | cons l ls =>
      have hl : l ≠ [] := h l (by simp)
      by_cases hnil : ls = []
      · simp [joinOn, hnil, hl]
      · simp [joinOn_cons_of_ne_nil hnil]

theorem mem_joinOn (hx : x ∈ joinOn sep ls) : x = sep ∨ ∃ l ∈ ls, x ∈ l := by
  induction ls with
  | nil =>
      simp [joinOn] at hx
  | cons l ls ih =>
      by_cases hnil : ls = []
      · subst hnil
        exact Or.inr ⟨l, by simp, by simpa [joinOn] using hx⟩
      · rw [joinOn_cons_of_ne_nil hnil] at hx
        rcases List.mem_append.1 hx with hl | hrest
        · exact Or.inr ⟨l, by simp, hl⟩
        · rcases List.mem_cons.1 hrest with rfl | hrest
          · exact Or.inl rfl
          · rcases ih hrest with hsep | ⟨l', hl', hx'⟩
            · exact Or.inl hsep
            · exact Or.inr ⟨l', by simp [hl'], hx'⟩

theorem mem_joinOn_of_mem (hl : s ∈ ls) (hx : x ∈ s) : x ∈ joinOn sep ls := by
  induction ls with
  | nil =>
      simp at hl
  | cons l ls ih =>
      by_cases hnil : ls = []
      · subst hnil
        have hs : s = l := by simpa using hl
        simpa [joinOn, hs] using hx
      · rw [joinOn_cons_of_ne_nil hnil]
        rcases List.mem_cons.1 hl with rfl | hl
        · simp [hx]
        · simp [ih hl]

/-- The first element of a join is the first element of the first segment. -/
theorem head?_joinOn_cons (hs : s ≠ []) : (joinOn sep (s :: ls)).head? = s.head? := by
  by_cases hnil : ls = []
  · simp [joinOn, hnil]
  · cases s with
    | nil =>
        exact absurd rfl hs
    | cons a s =>
        simp [joinOn_cons_of_ne_nil hnil]

/-- The last element of a join is the last element of the last segment. -/
theorem getLast?_joinOn_concat (hs : s ≠ []) : (joinOn sep (ls ++ [s])).getLast? = s.getLast? := by
  by_cases hnil : ls = []
  · simp [joinOn, hnil]
  · have hsingle : joinOn sep [s] = s := by
      simp [joinOn]
    rw [joinOn_append hnil (by simp), hsingle, List.getLast?_append_of_ne_nil _ (by simp),
      List.getLast?_cons_of_ne_nil hs]

/-- One separator stands between two segments. -/
theorem count_joinOn [DecidableEq α] (h : ∀ l ∈ ls, sep ∉ l) (hls : ls ≠ []) :
    (joinOn sep ls).count sep + 1 = ls.length := by
  induction ls with
  | nil =>
      exact absurd rfl hls
  | cons l ls ih =>
      have hl : l.count sep = 0 := List.count_eq_zero_of_not_mem (h l List.mem_cons_self)
      by_cases hnil : ls = []
      · simp [joinOn, hnil, hl]
      · have hrest := ih (fun l hl => h l (List.mem_cons_of_mem _ hl)) hnil
        rw [joinOn_cons_of_ne_nil hnil, List.count_append, List.count_cons_self, hl, Nat.zero_add, hrest,
          List.length_cons]

/-- Segments that are not empty are no more than their join is long. -/
theorem length_le_length_joinOn (h : ∀ l ∈ ls, l ≠ []) : ls.length ≤ (joinOn sep ls).length := by
  induction ls with
  | nil =>
      exact Nat.zero_le _
  | cons l ls ih =>
      have hl : 0 < l.length := List.length_pos_of_ne_nil (h l List.mem_cons_self)
      have hrest := ih fun l hl => h l (List.mem_cons_of_mem _ hl)
      by_cases hnil : ls = []
      · simp only [hnil, joinOn, List.intercalate_singleton, List.length_singleton]
        exact hl
      · rw [joinOn_cons_of_ne_nil hnil, List.length_cons, List.length_append, List.length_cons]
        omega

/-- Dropping segments does not make a join longer. -/
theorem length_joinOn_le_of_sublist (h : ls.Sublist ms) :
    (joinOn sep ls).length ≤ (joinOn sep ms).length := by
  -- a separator is paid for only between two segments
  have hcons (m : List α) (ms : List (List α)) :
      (joinOn sep (m :: ms)).length =
        m.length + if ms = [] then 0 else (joinOn sep ms).length + 1 := by
    by_cases hnil : ms = []
    · simp [joinOn, hnil]
    · simp [joinOn_cons_of_ne_nil hnil, hnil]
  -- induction on the sublist: a segment is dropped or kept
  induction h with
  | slnil =>
      exact Nat.le_refl _
  | cons m hsub ih =>
      rename_i ls ms
      rw [hcons]
      by_cases hnil : ms = []
      · have hls : ls = [] := List.sublist_nil.1 (hnil ▸ hsub)
        simp [hls, joinOn]
      · rw [if_neg hnil]
        omega
  | cons_cons m hsub ih =>
      rename_i ls ms
      rw [hcons, hcons]
      by_cases hnil : ms = []
      · have hls : ls = [] := List.sublist_nil.1 (hnil ▸ hsub)
        simp [hls]
      · rw [if_neg hnil]
        split_ifs <;> omega

/-! ## Splits -/

section Split

variable [DecidableEq α]

theorem not_mem_of_mem_splitOn (h : t ∈ s.splitOn sep) : sep ∉ t := by
  induction s generalizing t with
  | nil =>
      have ht : t = [] := by simpa using h
      simp [ht]
  | cons a s ih =>
      rw [splitOn_cons_eq_if_modifyHead] at h
      -- a separator opens a new segment; any other element joins the first one
      by_cases ha : a = sep
      · simp only [ha, BEq.rfl, if_true, List.mem_cons] at h
        rcases h with rfl | h
        · simp
        · exact ih h
      · simp only [beq_iff_eq, ha, if_false] at h
        cases hs : s.splitOn sep with
        | nil =>
            exact absurd hs (splitOn_ne_nil sep s)
        | cons u us =>
            rw [hs] at h ih
            rcases List.mem_cons.1 (by simpa using h) with rfl | h
            · have hu : sep ∉ u := ih (by simp)
              simp [hu, Ne.symm ha]
            · exact ih (by simp [h])

theorem mem_of_mem_splitOn (h : t ∈ s.splitOn sep) (hx : x ∈ t) : x ∈ s := by
  have hmem : x ∈ joinOn sep (s.splitOn sep) := mem_joinOn_of_mem h hx
  simpa [joinOn] using hmem

theorem splitOn_joinOn (h : ∀ l ∈ ls, sep ∉ l) (hls : ls ≠ []) :
    (joinOn sep ls).splitOn sep = ls :=
  splitOn_intercalate sep h hls

/-- Joining is injective on lists of separator-free nonempty segments. -/
theorem joinOn_inj (hls : ∀ l ∈ ls, l ≠ [] ∧ sep ∉ l) (hms : ∀ m ∈ ms, m ≠ [] ∧ sep ∉ m)
    (h : joinOn sep ls = joinOn sep ms) : ls = ms := by
  by_cases hl : ls = []
  · have hnil : joinOn sep ms = [] := by
      simpa [hl, joinOn] using h.symm
    rw [hl, (joinOn_eq_nil_iff fun m hm => (hms m hm).1).1 hnil]
  · by_cases hm : ms = []
    · have hnil : joinOn sep ls = [] := by
        simpa [hm, joinOn] using h
      exact absurd ((joinOn_eq_nil_iff fun l hl => (hls l hl).1).1 hnil) hl
    · -- splitting takes both joins apart again
      calc
        ls = (joinOn sep ls).splitOn sep := (splitOn_joinOn (fun l hl => (hls l hl).2) hl).symm
        _ = (joinOn sep ms).splitOn sep := by rw [h]
        _ = ms := splitOn_joinOn (fun m hm => (hms m hm).2) hm

/-- A join of separator-free segments can only be cut at a segment boundary. -/
theorem joinOn_eq_append_cons_iff (hls : ∀ l ∈ ls, sep ∉ l) (hms : ∀ m ∈ ms, sep ∉ m)
    (hne : ms ≠ []) :
    joinOn sep ls = joinOn sep ms ++ sep :: t ↔
      ∃ rest, rest ≠ [] ∧ ls = ms ++ rest ∧ t = joinOn sep rest := by
  constructor
  · intro h
    have hls' : ls ≠ [] := by
      rintro rfl
      simp [joinOn] at h
    refine ⟨t.splitOn sep, splitOn_ne_nil sep t, ?_, by simp [joinOn]⟩
    -- split both sides: the cut falls on a separator, so it falls between two segments
    calc
      ls = (joinOn sep ls).splitOn sep := (splitOn_joinOn hls hls').symm
      _ = (joinOn sep ms ++ sep :: t).splitOn sep := by rw [h]
      _ = ms ++ t.splitOn sep := by
          rw [splitOn_append_cons_self, splitOn_joinOn hms hne]
  · rintro ⟨rest, hrest, rfl, rfl⟩
    exact joinOn_append hne hrest

/-! ## Bounded splits -/

/-- Cut at the first separator, which belongs to neither side. -/
def cut (sep : α) : List α → Option (List α × List α)
  | [] => none
  | a :: s =>
      if a = sep then
        some ([], s)
      else
        (cut sep s).map fun halves => (a :: halves.1, halves.2)

theorem cut_eq_none_iff : cut sep s = none ↔ sep ∉ s := by
  induction s with
  | nil =>
      simp [cut]
  | cons a s ih =>
      by_cases ha : a = sep
      · simp [cut, ha]
      · simp [cut, ha, ih, Ne.symm ha]

theorem cut_eq_some_iff : cut sep s = some (t, u) ↔ s = t ++ sep :: u ∧ sep ∉ t := by
  induction s generalizing t with
  | nil =>
      simp [cut]
  | cons a s ih =>
      by_cases ha : a = sep
      · -- cut here: the left half is empty
        subst ha
        cases t with
        | nil =>
            simp [cut, eq_comm]
        | cons b t =>
            simp only [cut, if_true, Option.some.injEq, Prod.mk.injEq, reduceCtorEq, false_and,
              List.cons_append, List.cons.injEq, List.mem_cons, not_or, false_iff]
            rintro ⟨⟨rfl, _⟩, hb, _⟩
            exact hb rfl
      · -- no cut at this element, which then heads the left half
        cases t with
        | nil =>
            simp [cut, ha]
        | cons b t =>
            have hiff := ih (t := t)
            simp only [cut, ha, if_false, Option.map_eq_some_iff, Prod.exists, Prod.mk.injEq,
              List.cons.injEq, List.cons_append, List.mem_cons, not_or]
            constructor
            · rintro ⟨t', u', hcut, ⟨rfl, rfl⟩, rfl⟩
              rcases hiff.1 hcut with ⟨rfl, hmem⟩
              exact ⟨⟨rfl, rfl⟩, Ne.symm ha, hmem⟩
            · rintro ⟨⟨rfl, rfl⟩, _, hmem⟩
              exact ⟨t, u, hiff.2 ⟨rfl, hmem⟩, ⟨rfl, rfl⟩, rfl⟩

/-- What stands before the first occurrence of a needle. -/
def before (needle : List α) : List α → Option (List α)
  | [] => if needle.isPrefixOf [] then some [] else none
  | a :: s =>
      if needle.isPrefixOf (a :: s) then
        some []
      else
        (before needle s).map (a :: ·)

theorem exists_of_before {needle : List α} (h : before needle s = some t) : ∃ u, s = t ++ needle ++ u := by
  induction s generalizing t with
  | nil =>
      rw [before] at h
      split_ifs at h with hleads
      rcases List.isPrefixOf_iff_prefix.1 hleads with ⟨u, hu⟩
      exact ⟨u, by rw [← Option.some.inj h, List.nil_append, hu]⟩
  | cons a s ih =>
      rw [before] at h
      split_ifs at h with hleads
      · rcases List.isPrefixOf_iff_prefix.1 hleads with ⟨u, hu⟩
        exact ⟨u, by rw [← Option.some.inj h, List.nil_append, hu]⟩
      · rcases Option.map_eq_some_iff.1 h with ⟨t', ht', rfl⟩
        rcases ih ht' with ⟨u, rfl⟩
        exact ⟨u, rfl⟩

theorem before_eq_none {needle : List α} (h : ¬needle <:+: s) : before needle s = none := by
  rw [Option.eq_none_iff_forall_not_mem]
  intro t ht
  obtain ⟨u, rfl⟩ := exists_of_before ht
  exact h ⟨t, u, rfl⟩

/-- A needle is found exactly where it stands somewhere in the list. -/
theorem isSome_before_iff {needle : List α} : (before needle s).isSome ↔ needle <:+: s := by
  induction s with
  | nil =>
      rw [before, List.infix_nil]
      split_ifs with hleads
      · simpa [List.isPrefixOf_iff_prefix] using hleads
      · simpa [List.isPrefixOf_iff_prefix] using hleads
  | cons a s ih =>
      rw [before, List.infix_cons_iff]
      split_ifs with hleads
      · simp [List.isPrefixOf_iff_prefix.1 hleads]
      · rw [Option.isSome_map, ih]
        simp [List.isPrefixOf_iff_prefix.not.1 hleads]

/-- The needle is found where its first element first occurs. -/
theorem before_append (needle : List α) (h : x ∉ s) :
    before (x :: needle) (s ++ x :: needle ++ u) = some s := by
  induction s with
  | nil =>
      have hleads : (x :: needle).isPrefixOf (x :: (needle ++ u)) = true :=
        List.isPrefixOf_iff_prefix.2 ⟨u, rfl⟩
      exact if_pos hleads
  | cons a s ih =>
      rw [List.mem_cons, not_or] at h
      -- the needle cannot start before its own first element occurs
      have hhead : (x == a) = false := by
        rw [beq_eq_false_iff_ne]
        exact h.1
      rw [List.cons_append, List.cons_append, before, List.isPrefixOf, hhead, ih h.2]
      rfl

/-- Split into at most `n` pieces; the last piece keeps its separators. -/
def splitN (sep : α) : Nat → List α → List (List α)
  | 0, _ => []
  | 1, s => [s]
  | n + 2, s =>
      match cut sep s with
      | none => [s]
      | some (t, u) => t :: splitN sep (n + 1) u

theorem splitN_of_not_mem (n : Nat) (h : sep ∉ s) : splitN sep (n + 1) s = [s] := by
  cases n with
  | zero =>
      rfl
  | succ n =>
      simp [splitN, cut_eq_none_iff.2 h]

theorem splitN_append_cons (n : Nat) (h : sep ∉ s) :
    splitN sep (n + 2) (s ++ sep :: t) = s :: splitN sep (n + 1) t := by
  have hcut : cut sep (s ++ sep :: t) = some (s, t) := cut_eq_some_iff.2 ⟨rfl, h⟩
  simp [splitN, hcut]

end Split

end Segments
