import CanonicalPath.Library.Segments

/-!
# CString — terminated strings in bounds-checked memory

The memory behind a pointer is the list of the cells from the pointer to the end of its object.  A cell
that was allocated and never written has no value.  The functions of `string.h` return options: `none`
is an access outside the object or a test of a cell without a value.  They follow the contents of
memory, not its release.

* `Yields` : what a computation that may be undefined returns
* `Holds`, `Spells` : the elements at a pointer, and the terminated string at a pointer
* `strlen_of_spells`, `strchr_of_spells`, … : each function on a terminated string
* `filled` : a new object that is written from the front
-/

namespace CString

open Segments

variable {α β γ : Type}

/-- The cells from a pointer to the end of its object. -/
abbrev Memory (α : Type) := List (Option α)

/-! ## Access -/

def load (p : Memory α) (i : Nat) : Option α :=
  p[i]?.join

def store (p : Memory α) (i : Nat) (c : α) : Option (Memory α) :=
  if i < p.length then some (p.set i (some c)) else none

/-- `p + n`; one past the end is still a pointer. -/
def advance (p : Memory α) (n : Nat) : Option (Memory α) :=
  if n ≤ p.length then some (p.drop n) else none

def malloc (n : Nat) : Memory α :=
  List.replicate n none

/-- `memcpy(p + i, q, n)`; cells without a value are copied as such. -/
def memcpy (p : Memory α) (i : Nat) (q : Memory α) (n : Nat) : Option (Memory α) :=
  if i + n ≤ p.length ∧ n ≤ q.length then
    some (p.take i ++ q.take n ++ p.drop (i + n))
  else
    none

/-- `memmove(p, p + i, n)`, inside one object. -/
def memmove (p : Memory α) (i n : Nat) : Option (Memory α) := do
  let q ← advance p i
  memcpy p 0 q n

section Strings

variable [DecidableEq α] [Zero α]

/-! ## Strings -/

/-- A string literal. -/
def literal (s : List α) : Memory α :=
  s.map some ++ [some 0]

def strlen : Memory α → Option Nat
  | [] => none
  | none :: _ => none
  | some a :: p => if a = 0 then some 0 else (strlen p).map (· + 1)

/-- `strchr`, as an offset. -/
def strchr (c : α) : Memory α → Option (Option Nat)
  | [] => none
  | none :: _ => none
  | some a :: p =>
      if a = c then
        some (some 0)
      else if a = 0 then
        some none
      else
        (strchr c p).map (Option.map (· + 1))

/-- `memchr`, as an offset. -/
def memchr (c : α) : Nat → Memory α → Option (Option Nat)
  | 0, _ => some none
  | _ + 1, [] => none
  | _ + 1, none :: _ => none
  | n + 1, some a :: p => if a = c then some (some 0) else (memchr c n p).map (Option.map (· + 1))

/-- `strncmp(p, q, n) == 0`. -/
def strncmpEq : Nat → Memory α → Memory α → Option Bool
  | 0, _, _ => some true
  | n + 1, some a :: p, some b :: q =>
      if a ≠ b then some false else if a = 0 then some true else strncmpEq n p q
  | _ + 1, _, _ => none

/-- `strcmp(p, q) == 0`. -/
def strcmpEq : Memory α → Memory α → Option Bool
  | some a :: p, some b :: q =>
      if a ≠ b then some false else if a = 0 then some true else strcmpEq p q
  | _, _ => none

/-- The search of `strstr` for the first `n` elements of `needle`. -/
def strstrLoop (n : Nat) (needle : Memory α) : Memory α → Option (Option Nat)
  | [] => none
  | none :: _ => none
  | some a :: p => do
      if ← strncmpEq n (some a :: p) needle then
        some (some 0)
      else if a = 0 then
        some none
      else
        (strstrLoop n needle p).map (Option.map (· + 1))

/-- `strstr`, as an offset. -/
def strstr (p needle : Memory α) : Option (Option Nat) := do
  let n ← strlen needle
  strstrLoop n needle p

end Strings

/-! ## Computations that may be undefined -/

/-- The computation is defined, and its value satisfies `P`. -/
def Yields (x : Option β) (P : β → Prop) : Prop :=
  ∃ b, x = some b ∧ P b

theorem Yields.bind {x : Option β} {f : β → Option γ} {P : β → Prop} {Q : γ → Prop} (h : Yields x P)
    (hf : ∀ b, P b → Yields (f b) Q) : Yields (x >>= f) Q := by
  obtain ⟨b, rfl, hb⟩ := h
  exact hf b hb

@[simp] theorem some_bind (b : β) (f : β → Option γ) : (some b >>= f) = f b := rfl

/-- `&&` does not look at its right side where the left one is false. -/
@[simp] theorem some_and (a : Bool) (x : Option Bool) : (some a <&&> x) = if a then x else some false := by
  cases a <;> rfl

@[simp] theorem some_or (a : Bool) (x : Option Bool) : (some a <||> x) = if a then some true else x := by
  cases a <;> rfl

/-- A test in front of a test that is defined. -/
theorem Yields.and (a : Bool) {x : Option Bool} (h : Yields x fun _ => True) : Yields (some a <&&> x) fun _ => True := by
  rw [some_and]
  split_ifs
  · exact h
  · exact ⟨false, rfl, trivial⟩

theorem Yields.or (a : Bool) {x : Option Bool} (h : Yields x fun _ => True) : Yields (some a <||> x) fun _ => True := by
  rw [some_or]
  split_ifs
  · exact ⟨true, rfl, trivial⟩
  · exact h

theorem some_or_some (a b : Bool) : (some a <||> some b) = some (a || b) := by
  cases a <;> rfl

theorem some_and_some (a b : Bool) : (some a <&&> some b) = some (a && b) := by
  cases a <;> rfl

/-! ## Elements -/

/-- The memory starts with the elements of `s`. -/
def Holds (p : Memory α) (s : List α) : Prop :=
  ∃ junk, p = s.map some ++ junk

theorem Holds.nil (p : Memory α) : Holds p [] :=
  ⟨p, rfl⟩

theorem Holds.length_le {p : Memory α} {s : List α} (h : Holds p s) : s.length ≤ p.length := by
  obtain ⟨junk, rfl⟩ := h
  simp

theorem Holds.take {p : Memory α} {s : List α} (h : Holds p s) : p.take s.length = s.map some := by
  obtain ⟨junk, rfl⟩ := h
  rw [List.take_left' (by simp)]

theorem Holds.of_append {p : Memory α} {s t : List α} (h : Holds p (s ++ t)) : Holds p s := by
  obtain ⟨junk, rfl⟩ := h
  exact ⟨t.map some ++ junk, by simp⟩

theorem Holds.drop {p : Memory α} {s t : List α} (h : Holds p (s ++ t)) : Holds (p.drop s.length) t := by
  obtain ⟨junk, rfl⟩ := h
  refine ⟨junk, ?_⟩
  rw [List.map_append, List.append_assoc, List.drop_left' (by simp)]

theorem Holds.load {p : Memory α} {s : List α} (h : Holds p s) {i : Nat} {c : α} (hi : s[i]? = some c) :
    load p i = some c := by
  obtain ⟨junk, rfl⟩ := h
  obtain ⟨hlt, hget⟩ := List.getElem?_eq_some_iff.1 hi
  have hcell : (s.map some ++ junk)[i]? = some (some c) := by
    rw [List.getElem?_append_left (by simpa using hlt), List.getElem?_map, hi]
    rfl
  rw [CString.load, hcell]
  rfl

/-- Elements behind those that were read. -/
theorem Holds.load_behind {p : Memory α} {front s : List α} (h : Holds p (front ++ s)) {i : Nat} {c : α}
    (hi : s[i]? = some c) : CString.load p (front.length + i) = some c := by
  apply h.load
  rw [List.getElem?_append_right (Nat.le_add_right _ _), Nat.add_sub_cancel_left]
  exact hi

/-- One element more was read. -/
theorem Holds.next {p : Memory α} {front s : List α} {a : α} (h : Holds p (front ++ a :: s)) :
    Holds p ((front ++ [a]) ++ s) := by
  rw [List.append_assoc]
  exact h

/-- Writing what is there already changes nothing. -/
theorem Holds.store_same {p : Memory α} {s : List α} (h : Holds p s) {i : Nat} {c : α} (hi : s[i]? = some c) :
    store p i c = some p := by
  obtain ⟨junk, rfl⟩ := h
  obtain ⟨hlt, hget⟩ := List.getElem?_eq_some_iff.1 hi
  have hmapped : i < (s.map some).length := by
    rw [List.length_map]
    exact hlt
  have hset : (s.map some).set i (some c) = s.map some := by
    rw [← hget, ← List.map_set, List.set_getElem_self]
  rw [store, if_pos (by rw [List.length_append]; omega), List.set_append_left _ _ hmapped, hset]

theorem memchr_of_holds [DecidableEq α] {p : Memory α} {s : List α} (c : α) (h : Holds p s) :
    memchr c s.length p = some (if c ∈ s then some (s.idxOf c) else none) := by
  obtain ⟨junk, rfl⟩ := h
  induction s with
  | nil =>
      rfl
  | cons a s ih =>
      by_cases ha : a = c
      · subst ha
        simp [memchr]
      · have hc : ¬c = a := fun hca => ha hca.symm
        rw [List.length_cons, List.map_cons, List.cons_append, memchr, if_neg ha, ih, List.idxOf_cons_ne _ ha]
        by_cases hmem : c ∈ s
        · simp [hmem]
        · simp [hmem, hc]

/-! ## Terminated strings -/

section Strings

variable [DecidableEq α] [Zero α]

/-- The memory is the string `s` with its terminator, and whatever is behind it. -/
structure Spells (p : Memory α) (s : List α) : Prop where
  holds : Holds p (s ++ [0])
  zero_not_mem : 0 ∉ s

variable {p q : Memory α} {s t : List α}

omit [DecidableEq α] in
theorem literal_spells (h : 0 ∉ s) : Spells (literal s) s where
  holds := ⟨[], by simp [literal]⟩
  zero_not_mem := h

omit [DecidableEq α] in
theorem Spells.exists_eq (h : Spells p s) : ∃ junk, p = s.map some ++ some 0 :: junk := by
  obtain ⟨junk, rfl⟩ := h.holds
  exact ⟨junk, by simp⟩

omit [DecidableEq α] in
theorem spells_at_cons_iff {a : α} : Spells p (a :: s) ↔ ∃ q, p = some a :: q ∧ a ≠ 0 ∧ Spells q s := by
  constructor
  · rintro ⟨⟨junk, rfl⟩, hzero⟩
    rw [List.mem_cons, not_or] at hzero
    exact ⟨(s ++ [0]).map some ++ junk, rfl, Ne.symm hzero.1, ⟨junk, rfl⟩, hzero.2⟩
  · rintro ⟨q, rfl, ha, ⟨junk, rfl⟩, hzero⟩
    refine ⟨⟨junk, rfl⟩, ?_⟩
    rw [List.mem_cons, not_or]
    exact ⟨Ne.symm ha, hzero⟩

omit [DecidableEq α] in
theorem spells_at_nil_iff : Spells p [] ↔ ∃ junk, p = some 0 :: junk := by
  constructor
  · intro h
    exact h.exists_eq
  · rintro ⟨junk, rfl⟩
    exact ⟨⟨junk, rfl⟩, by simp⟩

omit [DecidableEq α] in
theorem Spells.drop (h : Spells p (s ++ t)) : Spells (p.drop s.length) t where
  holds := by
    have hholds := h.holds
    rw [List.append_assoc] at hholds
    exact hholds.drop
  zero_not_mem := fun hmem => h.zero_not_mem (List.mem_append_right _ hmem)

omit [DecidableEq α] in
theorem Spells.load (h : Spells p s) {i : Nat} {c : α} (hi : s[i]? = some c) : load p i = some c := by
  apply h.holds.load
  rw [List.getElem?_append_left (List.getElem?_eq_some_iff.1 hi).1, hi]

omit [DecidableEq α] in
/-- The terminator can be read. -/
theorem Spells.load_end (h : Spells p s) : CString.load p s.length = some 0 :=
  h.holds.load_behind (i := 0) rfl

omit [DecidableEq α] in
theorem Spells.load_head (h : Spells p s) : CString.load p 0 = some (s.headD 0) := by
  cases s with
  | nil =>
      exact h.load_end
  | cons a s =>
      exact h.load rfl

omit [DecidableEq α] in
theorem Spells.set (h : Spells p s) {i : Nat} {c : α} (hi : i < s.length) (hc : c ≠ 0) :
    Spells (p.set i (some c)) (s.set i c) where
  holds := by
    obtain ⟨junk, rfl⟩ := h.holds
    refine ⟨junk, ?_⟩
    rw [List.set_append_left _ _ (by simp; omega), ← List.map_set, List.set_append_left _ _ hi]
  zero_not_mem := by
    intro hmem
    rcases List.mem_or_eq_of_mem_set hmem with hzero | hzero
    · exact h.zero_not_mem hzero
    · exact hc hzero.symm

omit [DecidableEq α] in
theorem Spells.length_lt (h : Spells p s) : s.length < p.length := by
  have hlength := h.holds.length_le
  rw [List.length_append] at hlength
  exact hlength

omit [DecidableEq α] in
/-- The string with its terminator. -/
theorem Spells.take (h : Spells p s) : p.take (s.length + 1) = s.map some ++ [some 0] := by
  have htake := h.holds.take
  rw [List.length_append, List.map_append] at htake
  exact htake

omit [DecidableEq α] in
theorem Spells.advance (h : Spells p (s ++ t)) : advance p s.length = some (p.drop s.length) := by
  have hlength : s.length ≤ p.length := h.holds.of_append.of_append.length_le
  rw [CString.advance, if_pos hlength]

theorem strlen_of_spells (h : Spells p s) : strlen p = some s.length := by
  induction s generalizing p with
  | nil =>
      obtain ⟨junk, rfl⟩ := spells_at_nil_iff.1 h
      exact if_pos rfl
  | cons a s ih =>
      obtain ⟨q, rfl, ha, hq⟩ := spells_at_cons_iff.1 h
      rw [strlen, if_neg ha, ih hq]
      rfl

theorem strchr_of_spells {c : α} (hc : c ≠ 0) (h : Spells p s) :
    strchr c p = some (if c ∈ s then some (s.idxOf c) else none) := by
  induction s generalizing p with
  | nil =>
      obtain ⟨junk, rfl⟩ := spells_at_nil_iff.1 h
      rw [strchr, if_neg (Ne.symm hc), if_pos rfl, if_neg List.not_mem_nil]
  | cons a s ih =>
      obtain ⟨q, rfl, ha, hq⟩ := spells_at_cons_iff.1 h
      by_cases hac : a = c
      · subst hac
        simp [strchr]
      · have hca : ¬c = a := fun hca => hac hca.symm
        rw [strchr, if_neg hac, if_neg ha, ih hq, List.idxOf_cons_ne _ hac]
        by_cases hmem : c ∈ s
        · simp [hmem]
        · simp [hmem, hca]

theorem strncmpEq_of_spells (h : Spells p s) (h' : Spells q t) :
    strncmpEq t.length p q = some (t.isPrefixOf s) := by
  induction t generalizing p q s with
  | nil =>
      simp [strncmpEq]
  | cons b t ih =>
      obtain ⟨q', rfl, hb, hq⟩ := spells_at_cons_iff.1 h'
      cases s with
      | nil =>
          obtain ⟨junk, rfl⟩ := spells_at_nil_iff.1 h
          rw [List.length_cons, strncmpEq, if_pos (Ne.symm hb)]
          rfl
      | cons a s =>
          obtain ⟨p', rfl, ha, hp⟩ := spells_at_cons_iff.1 h
          by_cases hab : a = b
          · subst hab
            rw [List.length_cons, strncmpEq, if_neg (not_not_intro rfl), if_neg ha, ih hp hq]
            simp [List.isPrefixOf]
          · have hba : (b == a) = false := by
              rw [beq_eq_false_iff_ne]
              exact fun hba => hab hba.symm
            rw [List.length_cons, strncmpEq, if_pos hab]
            simp [List.isPrefixOf, hba]

theorem strcmpEq_of_spells (h : Spells p s) (h' : Spells q t) : strcmpEq p q = some (decide (s = t)) := by
  induction s generalizing p q t with
  | nil =>
      obtain ⟨junk, rfl⟩ := spells_at_nil_iff.1 h
      cases t with
      | nil =>
          obtain ⟨junk', rfl⟩ := spells_at_nil_iff.1 h'
          simp [strcmpEq]
      | cons b t =>
          obtain ⟨q', rfl, hb, -⟩ := spells_at_cons_iff.1 h'
          rw [strcmpEq, if_pos (Ne.symm hb)]
          simp
  | cons a s ih =>
      obtain ⟨p', rfl, ha, hp⟩ := spells_at_cons_iff.1 h
      cases t with
      | nil =>
          obtain ⟨junk', rfl⟩ := spells_at_nil_iff.1 h'
          rw [strcmpEq, if_pos ha]
          simp
      | cons b t =>
          obtain ⟨q', rfl, hb, hq⟩ := spells_at_cons_iff.1 h'
          by_cases hab : a = b
          · subst hab
            rw [strcmpEq, if_neg (not_not_intro rfl), if_neg ha, ih hp hq]
            simp
          · rw [strcmpEq, if_pos hab]
            simp [hab]

theorem strstrLoop_of_spells (h : Spells p s) (h' : Spells q t) :
    strstrLoop t.length q p = some ((before t s).map List.length) := by
  induction s generalizing p with
  | nil =>
      have hstarts := strncmpEq_of_spells h h'
      obtain ⟨junk, rfl⟩ := spells_at_nil_iff.1 h
      rw [strstrLoop, hstarts, some_bind, before, if_pos rfl]
      cases t.isPrefixOf [] <;> rfl
  | cons a s ih =>
      have hstarts := strncmpEq_of_spells h h'
      obtain ⟨p', rfl, ha, hp⟩ := spells_at_cons_iff.1 h
      rw [strstrLoop, hstarts, some_bind, if_neg ha, ih hp, before]
      cases t.isPrefixOf (a :: s) with
      | true =>
          rfl
      | false =>
          cases before t s <;> rfl

theorem strstr_of_spells (h : Spells p s) (h' : Spells q t) :
    strstr p q = some ((before t s).map List.length) := by
  rw [strstr, strlen_of_spells h']
  exact strstrLoop_of_spells h h'

end Strings

/-! ## New objects -/

/-- A new object of `n` cells, of which the first ones are written. -/
def filled (cells : Memory α) (n : Nat) : Memory α :=
  cells ++ List.replicate (n - cells.length) none

theorem filled_length {cells : Memory α} {n : Nat} (h : cells.length ≤ n) : (filled cells n).length = n := by
  rw [filled, List.length_append, List.length_replicate]
  omega

theorem filled_full {cells : Memory α} {n : Nat} (h : cells.length = n) : filled cells n = cells := by
  rw [filled, h, Nat.sub_self, List.replicate_zero, List.append_nil]

theorem memcpy_filled {cells q : Memory α} {n i k : Nat} (hi : i = cells.length) (hn : cells.length + k ≤ n)
    (hk : k ≤ q.length) : memcpy (filled cells n) i q k = some (filled (cells ++ q.take k) n) := by
  subst hi
  have hlength : (filled cells n).length = n := filled_length (by omega)
  have htake : (filled cells n).take cells.length = cells := by
    rw [filled, List.take_left]
  have hdrop : (filled cells n).drop (cells.length + k) =
      List.replicate (n - (cells ++ q.take k).length) none := by
    rw [filled, List.drop_append, List.drop_replicate, List.drop_eq_nil_of_le (by omega), List.nil_append,
      List.length_append, List.length_take]
    congr 1
    omega
  rw [memcpy, if_pos ⟨by omega, hk⟩, htake, hdrop, filled]

theorem store_filled {cells : Memory α} {n i : Nat} {c : α} (hi : i = cells.length) (hn : cells.length < n) :
    store (filled cells n) i c = some (filled (cells ++ [some c]) n) := by
  subst hi
  obtain ⟨k, hk⟩ : ∃ k, n - cells.length = k + 1 := ⟨n - cells.length - 1, by omega⟩
  have hrest : n - (cells ++ [some c]).length = k := by
    rw [List.length_append, List.length_singleton]
    omega
  rw [store, if_pos (by rw [filled_length (by omega)]; exact hn), filled, filled, hrest, hk, List.replicate_succ,
    List.set_append_right _ _ (Nat.le_refl _), Nat.sub_self, List.set_cons_zero, List.append_assoc]
  rfl

theorem memcpy_front {p : Memory α} {s : List α} {n : Nat} (h : Holds p s) (hn : s.length ≤ n) :
    memcpy (malloc n) 0 p s.length = some (filled (s.map some) n) := by
  refine (memcpy_filled List.length_nil.symm ?_ h.length_le).trans ?_
  · rw [List.length_nil]
    omega
  · rw [h.take, List.nil_append]

theorem store_front {n : Nat} (hn : 0 < n) (c : α) : store (malloc n) 0 c = some (filled [some c] n) :=
  store_filled List.length_nil.symm hn

/-- Elements are copied behind elements. -/
theorem memcpy_more {q : Memory α} {s t : List α} {n i : Nat} (h : Holds q t) (hi : i = s.length)
    (hn : s.length + t.length ≤ n) :
    memcpy (filled (s.map some) n) i q t.length = some (filled ((s ++ t).map some) n) := by
  rw [memcpy_filled (by simpa using hi) (by simpa using hn) h.length_le, h.take, List.map_append]

theorem store_more {s : List α} {n i : Nat} {c : α} (hi : i = s.length) (hn : s.length < n) :
    store (filled (s.map some) n) i c = some (filled ((s ++ [c]).map some) n) := by
  rw [store_filled (by simpa using hi) (by simpa using hn), List.map_append]
  rfl

section Strings

variable [Zero α] {q : Memory α} {s t : List α} {n i : Nat}

theorem literal_eq (s : List α) : literal s = (s ++ [0]).map some := by
  rw [literal, List.map_append]
  rfl

/-- A string with its terminator is copied behind elements. -/
theorem memcpy_behind (h : Spells q t) (hi : i = s.length) (hn : s.length + t.length + 1 ≤ n) :
    memcpy (filled (s.map some) n) i q (t.length + 1) = some (filled (literal (s ++ t)) n) := by
  have hlength : (t ++ [0]).length = t.length + 1 := by
    rw [List.length_append, List.length_singleton]
  have hcopy := memcpy_more h.holds hi (n := n) (by omega)
  rw [hlength] at hcopy
  rw [hcopy, literal_eq, List.append_assoc]

/-- An object of the right size is the string, and nothing more. -/
theorem memcpy_last (h : Spells q t) (hi : i = s.length) (hn : n = s.length + t.length + 1) :
    memcpy (filled (s.map some) n) i q (t.length + 1) = some (literal (s ++ t)) := by
  rw [memcpy_behind h hi (Nat.le_of_eq hn.symm), filled_full]
  simp [literal, hn]
  omega

theorem store_last (hi : i = s.length) (hn : n = s.length + 1) :
    store (filled (s.map some) n) i 0 = some (literal s) := by
  rw [store_more hi (by omega), filled_full (by simp [hn]), literal_eq]

theorem filled_literal_spells (h : 0 ∉ s) (n : Nat) : Spells (filled (literal s) n) s where
  holds := ⟨List.replicate (n - (literal s).length) none, by rw [filled, literal_eq]⟩
  zero_not_mem := h

/-- The end of a string is moved to the front of its object. -/
theorem memmove_of_spells {p : Memory α} (h : Spells p (s ++ t)) :
    Yields (memmove p s.length (t.length + 1)) fun q => Spells q t := by
  have htail := h.drop
  have hlt := htail.length_lt
  have hroom : 0 + (t.length + 1) ≤ p.length := by
    rw [List.length_drop] at hlt
    omega
  rw [memmove, h.advance, some_bind, memcpy, if_pos ⟨hroom, hlt⟩, htail.take, List.take_zero, List.nil_append]
  exact ⟨_, rfl, ⟨_, by rw [List.map_append]; rfl⟩, htail.zero_not_mem⟩

end Strings

end CString
