import Mathlib.Data.List.DropRight

/-!
# Trim — the two ends of a list

What is left of a list when the elements with a property go from its ends: everything between two elements that stay.
-/

namespace Trim

variable {α : Type*} {p : α → Bool} {a : α} {s t : List α}

/-! ## The front -/

theorem dropWhile_append_cons (hs : ∀ x ∈ s, p x = true) (ha : p a = false) (t : List α) :
    (s ++ a :: t).dropWhile p = a :: t := by
  rw [List.dropWhile_append_of_pos hs]
  apply List.dropWhile_cons_of_neg
  rw [ha]
  exact Bool.false_ne_true

theorem takeWhile_append_cons (hs : ∀ x ∈ s, p x = true) (ha : p a = false) (t : List α) :
    (s ++ a :: t).takeWhile p = s := by
  have hstop : (a :: t).takeWhile p = [] := by
    apply List.takeWhile_cons_of_neg
    rw [ha]
    exact Bool.false_ne_true
  rw [List.takeWhile_append_of_pos hs, hstop, List.append_nil]

/-- Either everything goes, or there is a first element that stays. -/
theorem all_or_exists_first (p : α → Bool) (s : List α) :
    (∀ x ∈ s, p x = true) ∨ ∃ front a tail, s = front ++ a :: tail ∧ (∀ x ∈ front, p x = true) ∧ p a = false := by
  induction s with
  | nil =>
      exact .inl fun x hx => absurd hx List.not_mem_nil
  | cons b s ih =>
      cases hb : p b with
      | false =>
          exact .inr ⟨[], b, s, rfl, fun x hx => absurd hx List.not_mem_nil, hb⟩
      | true =>
          rcases ih with hall | ⟨front, a, tail, rfl, hfront, ha⟩
          · exact .inl (List.forall_mem_cons.2 ⟨hb, hall⟩)
          · exact .inr ⟨b :: front, a, tail, rfl, List.forall_mem_cons.2 ⟨hb, hfront⟩, ha⟩

/-! ## The end -/

/-- An element that stays keeps everything in front of it. -/
theorem exists_rdropWhile_append_cons (s : List α) (ha : p a = false) (t : List α) :
    ∃ u, (s ++ a :: t).rdropWhile p = s ++ a :: u ∧ u <+: t := by
  induction t using List.reverseRecOn with
  | nil =>
      refine ⟨[], ?_, List.prefix_refl []⟩
      apply List.rdropWhile_concat_neg
      rw [ha]
      exact Bool.false_ne_true
  | append_singleton t x ih =>
      have hlist : s ++ a :: (t ++ [x]) = (s ++ a :: t) ++ [x] := by
        rw [List.append_assoc, List.cons_append]
      rw [hlist]
      cases hx : p x with
      | true =>
          obtain ⟨u, hu, hle⟩ := ih
          refine ⟨u, ?_, hle.trans (List.prefix_append t [x])⟩
          rw [List.rdropWhile_concat_pos p (s ++ a :: t) x hx, hu]
      | false =>
          refine ⟨t ++ [x], ?_, List.prefix_refl _⟩
          rw [List.rdropWhile_concat_neg p (s ++ a :: t) x (by rw [hx]; exact Bool.false_ne_true), hlist]

theorem rdropWhile_append_of_all (s : List α) (ht : ∀ x ∈ t, p x = true) : (s ++ t).rdropWhile p = s.rdropWhile p := by
  induction t using List.reverseRecOn with
  | nil =>
      rw [List.append_nil]
  | append_singleton t x ih =>
      have hx : p x = true := ht x (List.mem_append_right t (List.mem_singleton_self x))
      rw [← List.append_assoc, List.rdropWhile_concat_pos p (s ++ t) x hx]
      exact ih fun y hy => ht y (List.mem_append_left _ hy)

theorem rdropWhile_of_none (hs : ∀ x ∈ s, p x = false) : s.rdropWhile p = s := by
  rw [List.rdropWhile_eq_self_iff]
  intro hne
  rw [hs _ (List.getLast_mem hne)]
  exact Bool.false_ne_true

/-- What goes from the end all has the property. -/
theorem exists_eq_rdropWhile_append (p : α → Bool) (s : List α) : ∃ t, s = s.rdropWhile p ++ t ∧ ∀ x ∈ t, p x = true :=
  ⟨s.rtakeWhile p, List.rdropWhile_append_rtakeWhile.symm, fun _ hx => List.mem_rtakeWhile_imp hx⟩

theorem getLast?_rdropWhile (h : (s.rdropWhile p).getLast? = some a) : p a = false := by
  have hne : s.rdropWhile p ≠ [] := by
    intro hnil
    rw [hnil] at h
    cases h
  have hlast := List.rdropWhile_last_not p s hne
  rw [List.getLast?_eq_some_getLast hne] at h
  rw [← Option.some.inj h]
  exact Bool.eq_false_iff.2 hlast

/-! ## Both ends -/

/-- Neither end of a list goes. -/
structure Trimmed (p : α → Bool) (s : List α) : Prop where
  head : ∀ a ∈ s.head?, p a = false
  last : ∀ a ∈ s.getLast?, p a = false

theorem rdropWhile_dropWhile_of_trimmed (h : Trimmed p s) : (s.dropWhile p).rdropWhile p = s := by
  have hfront : s.dropWhile p = s := by
    cases s with
    | nil =>
        rfl
    | cons a s =>
        exact List.dropWhile_cons_of_neg (Bool.eq_false_iff.1 (h.head a rfl))
  rw [hfront, List.rdropWhile_eq_self_iff]
  intro hne
  exact Bool.eq_false_iff.1 (h.last _ (List.getLast?_eq_some_getLast hne))

theorem trimmed_rdropWhile_dropWhile (p : α → Bool) (s : List α) : Trimmed p ((s.dropWhile p).rdropWhile p) where
  head := fun b hb => by
    rcases all_or_exists_first p s with hall | ⟨front, a, tail, rfl, hfront, ha⟩
    · rw [List.dropWhile_eq_nil_iff.2 hall, List.rdropWhile_nil] at hb
      cases hb
    · -- the first element that stays is still the first
      obtain ⟨u, hcore, -⟩ := exists_rdropWhile_append_cons [] ha tail
      rw [dropWhile_append_cons hfront ha, ← List.nil_append (a :: tail), hcore] at hb
      rw [← Option.some.inj hb, ha]
  last := fun _ hb => getLast?_rdropWhile hb

/-- An element that goes, behind one that stays. -/
theorem rdropWhile_dropWhile_concat (h : Trimmed p s) (hne : s ≠ []) (ha : p a = true) :
    ((s ++ [a]).dropWhile p).rdropWhile p = s := by
  cases s with
  | nil =>
      exact absurd rfl hne
  | cons b s =>
      have hb : ¬p b = true := Bool.eq_false_iff.1 (h.head b rfl)
      have hsame := rdropWhile_dropWhile_of_trimmed h
      rw [List.dropWhile_cons_of_neg hb] at hsame
      rw [List.cons_append, List.dropWhile_cons_of_neg hb, ← List.cons_append, List.rdropWhile_concat_pos p _ a ha, hsame]

/-- The ends are not in the middle. -/
theorem Trimmed.insert (h : Trimmed p (s ++ t)) (hs : s ≠ []) (ht : t ≠ []) (u : List α) : Trimmed p (s ++ u ++ t) where
  head := fun a ha => by
    cases s with
    | nil =>
        exact absurd rfl hs
    | cons b s =>
        exact h.head a ha
  last := fun a ha => by
    rw [List.getLast?_append_of_ne_nil _ ht] at ha
    exact h.last a (by rwa [List.getLast?_append_of_ne_nil _ ht])

theorem mem_of_mem_rdropWhile_dropWhile (h : a ∈ (s.dropWhile p).rdropWhile p) : a ∈ s :=
  (List.dropWhile_sublist p).subset ((List.rdropWhile_prefix p _).subset h)

theorem length_rdropWhile_dropWhile_le (p : α → Bool) (s : List α) :
    ((s.dropWhile p).rdropWhile p).length ≤ s.length :=
  (List.rdropWhile_prefix p _).length_le.trans (List.dropWhile_sublist p).length_le

/-! ## The first place of an element -/

theorem forall_bne_iff [DecidableEq α] : (∀ x ∈ s, (x != a) = true) ↔ a ∉ s := by
  simp only [bne_iff_ne]
  constructor
  · intro h hmem
    exact h a hmem rfl
  · rintro h x hx rfl
    exact h hx

theorem take_idxOf [DecidableEq α] (a : α) (s : List α) : s.take (s.idxOf a) = s.takeWhile (· != a) := by
  induction s with
  | nil =>
      rfl
  | cons b s ih =>
      by_cases hba : b = a
      · rw [hba, List.idxOf_cons_self, List.takeWhile_cons_of_neg (by simp), List.take_zero]
      · rw [List.idxOf_cons_ne s hba, List.take_succ_cons, ih, List.takeWhile_cons_of_pos (by simpa using hba)]

theorem drop_idxOf [DecidableEq α] (a : α) (s : List α) : s.drop (s.idxOf a) = s.dropWhile (· != a) := by
  have hparts := List.takeWhile_append_dropWhile (p := fun b => b != a) (l := s)
  rw [← take_idxOf] at hparts
  exact List.append_cancel_left ((List.take_append_drop _ _).trans hparts.symm)

end Trim
