import CanonicalPath.C.Sanitize
import CanonicalPath.Identity.Component
import CanonicalPath.Ports.CNormalize
import CanonicalPath.Ports.Payload
import CanonicalPath.TS.Sanitize

/-!
# Sanitize — where the ports make one component of a name

The Go port replaces every unsafe unit by a dash of its own, the TypeScript and the C port write one dash for a run.
Everything after the replacement is the same, so the ports differ exactly where a run is left between the edges.

* `Replacement` : what the two replacements have in common
* `finishComponent_eq_iff` : one replacement against the other, over one code unit
* `C.sanitizeComponentN_eq` : the C port computes the TypeScript function on bytes
* `sanitizeComponent_agrees_iff` : the three ports
-/

namespace CanonicalPath

namespace Ports

open CodeUnit Segments Outcome CString

section Units

variable {α : Type} [DecidableEq α] [CodeUnit α]

/-! ## The shared steps -/

theorem isUnsafeUnit_eq (a : α) : TS.isUnsafeUnit a = Go.isReplaced a := by
  rw [TS.isUnsafeUnit, Go.isReplaced, Bool.or_comm (a == chr '\\')]

theorem trim_eq (value : List α) (cutset : String) :
    TS.trimBoundaryCharacters value cutset true = Go.trim value cutset := by
  have htest : (fun a : α => decide (a ∈ lit cutset)) = fun a => (lit cutset).contains a := by
    funext a
    rw [Bool.eq_iff_iff, decide_eq_true_eq, List.contains_iff_mem]
  rw [TS.trimBoundaryCharacters, if_pos rfl, Go.trim, htest]

theorem mem_escape {a : α} {value : List α} (h : a ∈ Go.escapeReservedWin32Component value) :
    a ∈ value ∨ a = chr '-' := by
  rw [← escape_eq_go, TS.escapeReservedWin32Component] at h
  split_ifs at h
  · rw [List.mem_append, List.mem_append] at h
    rcases h with (hbase | hdash) | hsuffix
    · exact .inl ((List.takeWhile_sublist _).subset hbase)
    · exact .inr (by simpa [lit] using hdash)
    · exact .inl ((List.dropWhile_sublist _).subset hsuffix)
  · exact .inl h

/-- The common end of both functions: edges, the default and the escape. -/
def finishComponent (win32 : Prop) [Decidable win32] (replaced : List α) : List α :=
  let trimmed := Go.trim replaced " ._-"
  let value := if trimmed = [] then lit "component" else trimmed
  if win32 then Go.escapeReservedWin32Component value else value

omit [DecidableEq α] in
theorem win32_iff {profile : TS.ComponentProfile} :
    (lit profile.text : List α) = lit "win32" ↔ profile = .win32 := by
  cases profile <;> simp [TS.ComponentProfile.text, lit]

/-- A component has units of the text that it is made of, and units of the default and of the escape. -/
theorem mem_finishComponent {win32 : Prop} [Decidable win32] {replaced : List α} {a : α}
    (h : a ∈ finishComponent win32 replaced) : a ∈ replaced ∨ a ∈ lit "component-" := by
  have hvalue {value : List α} (hmem : a ∈ value)
      (hvalue : value = lit "component" ∨ value = Go.trim replaced " ._-") :
      a ∈ replaced ∨ a ∈ lit "component-" := by
    -- the default is a literal, what is trimmed is part of what was replaced
    rcases hvalue with rfl | rfl
    · exact .inr (List.mem_append_left (lit "-") hmem)
    · exact .inl (Trim.mem_of_mem_rdropWhile_dropWhile hmem)
  have hescape {value : List α} (hmem : a ∈ if win32 then Go.escapeReservedWin32Component value else value) :
      a ∈ value ∨ a = chr '-' := by
    split_ifs at hmem
    · exact mem_escape hmem
    · exact .inl hmem
  rcases hescape h with hmem | rfl
  · refine hvalue hmem ?_
    split_ifs
    · exact .inl rfl
    · exact .inr rfl
  · exact .inr (by simp [lit])

theorem nul_not_mem_finishComponent {win32 : Prop} [Decidable win32] {replaced : List α} (h : nul ∉ replaced) :
    nul ∉ finishComponent win32 replaced := by
  intro hmem
  rcases mem_finishComponent hmem with hmem | hmem
  · exact h hmem
  · simp [lit, nul] at hmem

theorem sanitizeComponent_go {name : List α} (hne : name ≠ []) (hnul : nul ∉ name) (profile : TS.ComponentProfile) :
    Go.sanitizeComponent name (lit profile.text) = .ok (finishComponent (profile = .win32) (Go.replaceEach name)) := by
  rw [Go.sanitizeComponent, if_neg hne, if_neg hnul, finishComponent]
  simp only [win32_iff]

theorem sanitizeComponent_ts {name : List α} (hne : name ≠ []) (hnul : nul ∉ name) (profile : TS.ComponentProfile) :
    TS.sanitizeComponent name profile = .ok (finishComponent (profile = .win32) (TS.replaceUnsafeRuns name)) := by
  rw [TS.sanitizeComponent, if_neg hne, if_neg hnul, finishComponent]
  simp only [trim_eq, escape_eq_go]

/-! ## Replacements -/

/-- A unit that no component keeps at its edges. -/
def isLoose (a : α) : Bool :=
  Go.isReplaced a || (lit " ._-").contains a

/-- A function that writes dashes for the replaced units: units that stay end a run, and no run disappears. -/
structure Replacement (f : List α → List α) : Prop where
  append_cons : ∀ (s : List α) {a : α} (t : List α), Go.isReplaced a = false → f (s ++ a :: t) = f s ++ a :: f t
  mem : ∀ {s : List α} {b : α}, b ∈ f s →
    b = chr '-' ∧ (∃ a ∈ s, Go.isReplaced a = true) ∨ b ∈ s ∧ Go.isReplaced b = false
  dash : ∀ {s : List α} {a : α}, a ∈ s → Go.isReplaced a = true → chr '-' ∈ f s

theorem isReplaced_dot : Go.isReplaced (chr '.' : α) = false := by
  simp [Go.isReplaced]

theorem replacement_each : Replacement (Go.replaceEach : List α → List α) where
  append_cons := fun s a t ha => by
    rw [Go.replaceEach, Go.replaceEach, Go.replaceEach, List.map_append, List.map_cons,
      if_neg (by rw [ha]; exact Bool.false_ne_true)]
  mem := fun {s b} hb => by
    obtain ⟨a, ha, rfl⟩ := List.mem_map.1 hb
    split_ifs with hreplaced
    · exact .inl ⟨rfl, a, ha, hreplaced⟩
    · exact .inr ⟨ha, Bool.eq_false_iff.2 hreplaced⟩
  dash := fun {s a} ha hreplaced => List.mem_map.2 ⟨a, ha, if_pos hreplaced⟩

theorem runs_of_replaced {a : α} (ha : Go.isReplaced a = true) (s : List α) :
    TS.replaceUnsafeRuns (a :: s) = chr '-' :: TS.replaceUnsafeRuns (s.dropWhile Go.isReplaced) := by
  have htest : (TS.isUnsafeUnit : α → Bool) = Go.isReplaced := funext isUnsafeUnit_eq
  rw [TS.replaceUnsafeRuns, htest, if_pos ha]

theorem runs_of_kept {a : α} (ha : Go.isReplaced a = false) (s : List α) :
    TS.replaceUnsafeRuns (a :: s) = a :: TS.replaceUnsafeRuns s := by
  rw [TS.replaceUnsafeRuns, if_neg (by rw [isUnsafeUnit_eq, ha]; exact Bool.false_ne_true)]

/-- The cases of the longest runs, in the words of the Go port. -/
theorem runs_induct {motive : List α → Prop} (nil : motive [])
    (replaced : ∀ a s, Go.isReplaced a = true → motive (s.dropWhile Go.isReplaced) → motive (a :: s))
    (kept : ∀ a s, Go.isReplaced a = false → motive s → motive (a :: s)) (s : List α) : motive s := by
  have htest : (TS.isUnsafeUnit : α → Bool) = Go.isReplaced := funext isUnsafeUnit_eq
  induction s using TS.replaceUnsafeRuns.induct with
  | case1 =>
      exact nil
  | case2 a s hunsafe ih =>
      rw [htest] at hunsafe ih
      exact replaced a s hunsafe ih
  | case3 a s hsafe ih =>
      rw [htest] at hsafe
      exact kept a s (Bool.eq_false_iff.2 hsafe) ih

theorem replacement_runs : Replacement (TS.replaceUnsafeRuns : List α → List α) where
  append_cons := fun s a t ha => by
    induction s using runs_induct with
    | nil =>
        rw [List.nil_append, runs_of_kept ha]
        simp [TS.replaceUnsafeRuns]
    | replaced b s hb ih =>
        -- what is dropped behind a replaced unit ends at `a` at the latest
        have hdrop : (s ++ a :: t).dropWhile Go.isReplaced = s.dropWhile Go.isReplaced ++ a :: t := by
          rcases Trim.all_or_exists_first Go.isReplaced s with hall | ⟨front, c, tail, rfl, hfront, hc⟩
          · rw [Trim.dropWhile_append_cons hall ha, List.dropWhile_eq_nil_iff.2 hall, List.nil_append]
          · rw [List.append_assoc, List.cons_append, Trim.dropWhile_append_cons hfront hc,
              Trim.dropWhile_append_cons hfront hc, List.cons_append]
        rw [List.cons_append, runs_of_replaced hb, runs_of_replaced hb, hdrop, ih, List.cons_append]
    | kept b s hb ih =>
        rw [List.cons_append, runs_of_kept hb, runs_of_kept hb, ih, List.cons_append]
  mem := fun {s b} hb => by
    induction s using runs_induct with
    | nil =>
        simp [TS.replaceUnsafeRuns] at hb
    | replaced a s ha ih =>
        rw [runs_of_replaced ha, List.mem_cons] at hb
        rcases hb with hdash | hb
        · exact .inl ⟨hdash, a, List.mem_cons_self, ha⟩
        · have hsub : ∀ c ∈ s.dropWhile Go.isReplaced, c ∈ a :: s := fun c hc =>
            List.mem_cons_of_mem _ ((List.dropWhile_sublist _).subset hc)
          rcases ih hb with ⟨hdash, c, hc, hreplaced⟩ | ⟨hmem, hkept⟩
          · exact .inl ⟨hdash, c, hsub c hc, hreplaced⟩
          · exact .inr ⟨hsub b hmem, hkept⟩
    | kept a s ha ih =>
        rw [runs_of_kept ha, List.mem_cons] at hb
        rcases hb with rfl | hb
        · exact .inr ⟨List.mem_cons_self, ha⟩
        · rcases ih hb with ⟨hdash, c, hc, hreplaced⟩ | ⟨hmem, hkept⟩
          · exact .inl ⟨hdash, c, List.mem_cons_of_mem _ hc, hreplaced⟩
          · exact .inr ⟨List.mem_cons_of_mem _ hmem, hkept⟩
  dash := fun {s a} hmem hreplaced => by
    induction s using runs_induct with
    | nil =>
        cases hmem
    | replaced b s hb ih =>
        rw [runs_of_replaced hb]
        exact List.mem_cons_self
    | kept b s hb ih =>
        have hne : a ≠ b := by
          rintro rfl
          rw [hreplaced] at hb
          cases hb
        rw [runs_of_kept hb]
        exact List.mem_cons_of_mem _ (ih ((List.mem_cons.1 hmem).resolve_left hne))

theorem nul_not_mem_runs {s : List α} (h : nul ∉ s) : nul ∉ TS.replaceUnsafeRuns s := by
  intro hmem
  rcases replacement_runs.mem hmem with ⟨hdash, -⟩ | ⟨hmem, -⟩
  · simp [nul] at hdash
  · exact h hmem

/-- What is between the edges. -/
def between (s : List α) : List α :=
  (s.dropWhile isLoose).rdropWhile isLoose

theorem hard_of_not_isLoose {a : α} (h : isLoose a = false) :
    Go.isReplaced a = false ∧ (lit " ._-" : List α).contains a = false :=
  Bool.or_eq_false_iff.1 h

namespace Replacement

variable {f g : List α → List α} {s : List α}

theorem nil (hf : Replacement f) : f [] = [] := by
  rw [List.eq_nil_iff_forall_not_mem]
  intro b hb
  rcases hf.mem hb with ⟨-, a, ha, -⟩ | ⟨hmem, -⟩
  · cases ha
  · cases hmem

theorem cons (hf : Replacement f) {a : α} (ha : Go.isReplaced a = false) (t : List α) : f (a :: t) = a :: f t := by
  have happend := hf.append_cons [] t ha
  rw [hf.nil, List.nil_append, List.nil_append] at happend
  exact happend

theorem concat (hf : Replacement f) {a : α} (ha : Go.isReplaced a = false) (s : List α) :
    f (s ++ [a]) = f s ++ [a] := by
  rw [hf.append_cons s [] ha, hf.nil]

theorem append_of_kept (hf : Replacement f) (hs : ∀ a ∈ s, Go.isReplaced a = false) (t : List α) :
    f (s ++ t) = s ++ f t := by
  induction s with
  | nil =>
      rfl
  | cons a s ih =>
      obtain ⟨ha, hs⟩ := List.forall_mem_cons.1 hs
      rw [List.cons_append, hf.cons ha, ih hs, List.cons_append]

/-- Where nothing is replaced, nothing changes. -/
theorem of_kept (hf : Replacement f) (hs : ∀ a ∈ s, Go.isReplaced a = false) : f s = s := by
  have happend := hf.append_of_kept hs []
  rw [hf.nil, List.append_nil] at happend
  exact happend

theorem eq_nil_iff (hf : Replacement f) : f s = [] ↔ s = [] := by
  constructor
  · intro hnil
    cases s with
    | nil =>
        rfl
    | cons a s =>
        cases ha : Go.isReplaced a with
        | true =>
            have hdash := hf.dash (List.mem_cons_self (a := a) (l := s)) ha
            rw [hnil] at hdash
            cases hdash
        | false =>
            rw [hf.cons ha] at hnil
            cases hnil
  · rintro rfl
    exact hf.nil

/-- Loose units become units that are trimmed. -/
theorem trimmed (hf : Replacement f) (hs : ∀ a ∈ s, isLoose a = true) :
    ∀ b ∈ f s, (lit " ._-" : List α).contains b = true := by
  intro b hb
  rcases hf.mem hb with ⟨rfl, -⟩ | ⟨hmem, hkept⟩
  · simp [lit]
  · have hloose := hs b hmem
    rw [isLoose, hkept, Bool.false_or] at hloose
    exact hloose

/-- Trimming what was replaced is replacing what is between the edges. -/
theorem trim (hf : Replacement f) (s : List α) : Go.trim (f s) " ._-" = f (between s) := by
  rw [Go.trim, between]
  rcases Trim.all_or_exists_first isLoose s with hall | ⟨front, a, tail, rfl, hfront, ha⟩
  · rw [List.dropWhile_eq_nil_iff.2 (hf.trimmed hall), List.dropWhile_eq_nil_iff.2 hall, List.rdropWhile_nil,
      List.rdropWhile_nil, hf.nil]
  · have hhard := hard_of_not_isLoose ha
    rw [hf.append_cons front tail hhard.1, Trim.dropWhile_append_cons (hf.trimmed hfront) hhard.2,
      Trim.dropWhile_append_cons hfront ha, ← hf.cons hhard.1]
    -- the same at the end: the last unit that stays is written as it is
    obtain ⟨u, hcore, -⟩ := Trim.exists_rdropWhile_append_cons [] ha tail
    obtain ⟨back, hback, hloose⟩ := Trim.exists_eq_rdropWhile_append isLoose (a :: tail)
    have hne : (a :: tail).rdropWhile isLoose ≠ [] := by
      rw [List.nil_append] at hcore
      rw [hcore]
      exact List.cons_ne_nil _ _
    obtain ⟨init, b, hinit⟩ := (List.eq_nil_or_concat' _).resolve_left hne
    have hb := hard_of_not_isLoose (Trim.getLast?_rdropWhile (by rw [hinit, List.getLast?_concat]))
    have hsplit : a :: tail = init ++ b :: back := by
      rw [hinit, List.append_assoc] at hback
      exact hback
    have hwritten : f (a :: tail) = (f init ++ [b]) ++ f back := by
      rw [hsplit, hf.append_cons init back hb.1, List.append_assoc]
      rfl
    rw [hinit, hwritten, Trim.rdropWhile_append_of_all _ (hf.trimmed hloose),
      List.rdropWhile_concat_neg _ _ _ (by rw [hb.2]; exact Bool.false_ne_true), hf.concat hb.1]

/-- Dots are neither replaced nor written, so the base of what was replaced is the replaced base. -/
theorem base (hf : Replacement f) (s : List α) :
    (f s).takeWhile (· != chr '.') = f (s.takeWhile (· != chr '.')) := by
  have hdotless {t : List α} (ht : ∀ a ∈ t, (a != chr '.') = true) : ∀ b ∈ f t, (b != chr '.') = true := by
    intro b hb
    rcases hf.mem hb with ⟨rfl, -⟩ | ⟨hmem, -⟩
    · simp
    · exact ht b hmem
  rcases Trim.all_or_exists_first (fun a : α => a != chr '.') s with hall | ⟨front, a, tail, rfl, hfront, ha⟩
  · rw [List.takeWhile_eq_self_iff.2 hall, List.takeWhile_eq_self_iff.2 (hdotless hall)]
  · have hdot : a = chr '.' := by
      simpa using ha
    subst hdot
    rw [hf.append_cons front tail isReplaced_dot, Trim.takeWhile_append_cons (hdotless hfront) ha,
      Trim.takeWhile_append_cons hfront ha]

/-- A dash is in no device name, so two replacements show the same device. -/
theorem reserved_eq (hf : Replacement f) (hg : Replacement g) (s : List α) :
    Go.isReservedDeviceBase (((f s).takeWhile (· != chr '.')).map upper) =
      Go.isReservedDeviceBase (((g s).takeWhile (· != chr '.')).map upper) := by
  rw [hf.base, hg.base]
  by_cases hkept : ∀ a ∈ s.takeWhile (· != chr '.'), Go.isReplaced a = false
  · rw [hf.of_kept hkept, hg.of_kept hkept]
  · simp only [not_forall, Bool.not_eq_false] at hkept
    obtain ⟨a, ha, hreplaced⟩ := hkept
    rw [not_reserved_of_dash (hf.dash ha hreplaced), not_reserved_of_dash (hg.dash ha hreplaced)]

end Replacement

/-! ## Runs -/

/-- Two replaced units next to each other. -/
def HasRun (s : List α) : Prop :=
  ∃ front x y back, s = front ++ x :: y :: back ∧ Go.isReplaced x = true ∧ Go.isReplaced y = true

theorem not_hasRun_nil : ¬HasRun ([] : List α) := by
  rintro ⟨front, x, y, back, heq, -⟩
  exact absurd heq.symm (List.append_ne_nil_of_right_ne_nil _ (List.cons_ne_nil _ _))

theorem hasRun_cons_iff {a : α} {s : List α} :
    HasRun (a :: s) ↔ (Go.isReplaced a = true ∧ ∃ y t, s = y :: t ∧ Go.isReplaced y = true) ∨ HasRun s := by
  constructor
  · rintro ⟨front, x, y, back, heq, hx, hy⟩
    cases front with
    | nil =>
        obtain ⟨rfl, rfl⟩ := List.cons.inj heq
        exact .inl ⟨hx, y, back, rfl, hy⟩
    | cons b front =>
        obtain ⟨rfl, rfl⟩ := List.cons.inj heq
        exact .inr ⟨front, x, y, back, rfl, hx, hy⟩
  · rintro (⟨ha, y, t, rfl, hy⟩ | ⟨front, x, y, back, rfl, hx, hy⟩)
    · exact ⟨[], a, y, t, rfl, ha, hy⟩
    · exact ⟨a :: front, x, y, back, rfl, hx, hy⟩

theorem length_runs_le (s : List α) : (TS.replaceUnsafeRuns s).length ≤ s.length := by
  induction s using runs_induct with
  | nil =>
      simp [TS.replaceUnsafeRuns]
  | replaced a s ha ih =>
      have hdrop := (List.dropWhile_sublist Go.isReplaced (l := s)).length_le
      rw [runs_of_replaced ha, List.length_cons, List.length_cons]
      omega
  | kept a s ha ih =>
      rw [runs_of_kept ha, List.length_cons, List.length_cons]
      omega

theorem length_runs_lt {s : List α} (h : HasRun s) : (TS.replaceUnsafeRuns s).length < s.length := by
  induction s using runs_induct with
  | nil =>
      exact absurd h not_hasRun_nil
  | replaced a s ha ih =>
      rw [runs_of_replaced ha, List.length_cons, List.length_cons]
      have hle := length_runs_le (s.dropWhile Go.isReplaced)
      cases s with
      | nil =>
          rcases hasRun_cons_iff.1 h with ⟨-, y, t, hnil, -⟩ | hrest
          · cases hnil
          · exact absurd hrest not_hasRun_nil
      | cons b s =>
          cases hb : Go.isReplaced b with
          | true =>
              -- the second unit of a run is dropped
              have hdrop := (List.dropWhile_sublist Go.isReplaced (l := s)).length_le
              rw [List.dropWhile_cons_of_pos hb] at hle ⊢
              rw [List.length_cons]
              omega
          | false =>
              have hnext : HasRun (b :: s) := by
                refine (hasRun_cons_iff.1 h).resolve_left ?_
                rintro ⟨-, y, t, heq, hy⟩
                obtain ⟨rfl, -⟩ := List.cons.inj heq
                rw [hb] at hy
                cases hy
              rw [List.dropWhile_cons_of_neg (by rw [hb]; exact Bool.false_ne_true)] at ih ⊢
              have hlt := ih hnext
              omega
  | kept a s ha ih =>
      have hrest : HasRun s := by
        refine (hasRun_cons_iff.1 h).resolve_left fun hfirst => ?_
        rw [ha] at hfirst
        cases hfirst.1
      rw [runs_of_kept ha, List.length_cons, List.length_cons]
      exact Nat.succ_lt_succ (ih hrest)

theorem runs_of_not_hasRun {s : List α} (h : ¬HasRun s) : TS.replaceUnsafeRuns s = Go.replaceEach s := by
  induction s using runs_induct with
  | nil =>
      simp [TS.replaceUnsafeRuns, Go.replaceEach]
  | replaced a s ha ih =>
      rw [hasRun_cons_iff, not_or] at h
      have hsame : s.dropWhile Go.isReplaced = s := by
        cases s with
        | nil =>
            rfl
        | cons b s =>
            exact List.dropWhile_cons_of_neg fun hb => h.1 ⟨ha, b, s, rfl, hb⟩
      rw [hsame] at ih
      rw [runs_of_replaced ha, hsame, ih h.2, Go.replaceEach, Go.replaceEach, List.map_cons, if_pos ha]
  | kept a s ha ih =>
      rw [hasRun_cons_iff, not_or] at h
      rw [runs_of_kept ha, replacement_each.cons ha, ih h.2]

theorem length_escape (value : List α) : (Go.escapeReservedWin32Component value).length =
    value.length + if Go.isReservedDeviceBase ((value.takeWhile (· != chr '.')).map upper) then 1 else 0 := by
  rw [← escape_eq_go, TS.escapeReservedWin32Component, isReservedDeviceBase_eq]
  split_ifs with hreserved
  · -- base, dash and suffix are one unit more than the value
    have hparts := congrArg List.length (List.takeWhile_append_dropWhile (p := fun a : α => a != chr '.') (l := value))
    rw [List.length_append] at hparts
    rw [List.length_append, List.length_append, lit, List.length_map]
    simp only [String.reduceToList, List.length_cons, List.length_nil]
    omega
  · rfl

/-- The two replacements end in one component exactly where no run is left between the edges. -/
theorem finishComponent_eq_iff (win32 : Prop) [Decidable win32] (s : List α) :
    finishComponent win32 (Go.replaceEach s) = finishComponent win32 (TS.replaceUnsafeRuns s) ↔
      ¬HasRun (between s) := by
  have hsame := replacement_each.reserved_eq replacement_runs (between s)
  rw [finishComponent, finishComponent, replacement_each.trim, replacement_runs.trim]
  simp only [replacement_each.eq_nil_iff, replacement_runs.eq_nil_iff]
  by_cases hnil : between s = []
  · rw [if_pos hnil, hnil]
    exact iff_of_true rfl not_hasRun_nil
  · rw [if_neg hnil, if_neg hnil]
    constructor
    · intro heq hrun
      -- a run makes one text longer, and the escape lengthens both or none
      have hlt := length_runs_lt hrun
      have hlength : (Go.replaceEach (between s)).length = (between s).length := List.length_map _
      have hlengths := congrArg List.length heq
      split_ifs at hlengths
      · rw [length_escape, length_escape, hsame] at hlengths
        omega
      · omega
    · intro hrun
      rw [runs_of_not_hasRun hrun]

end Units

/-! ## Encoded names -/

section Encoded

variable {α β : Type} [DecidableEq α] [CodeUnit α] [DecidableEq β] [CodeUnit β] (e : Encoding α β) {s : List α}

/-- The numbers of the units of a literal. -/
def literalCode (p : String) (n : Nat) : Bool :=
  p.toList.any fun c => n == c.toNat

theorem literalCode_of_nonAscii {p : String} (hp : IsAscii p) {n : Nat} (hn : 128 ≤ n) : literalCode p n = false := by
  rw [literalCode, List.any_eq_false]
  intro c hc
  have hascii := hp c hc
  rw [beq_iff_eq]
  omega

theorem contains_lit {p : String} (hp : IsAscii p) (a : α) : (lit p).contains a = literalCode p (code a) := by
  rw [Bool.eq_iff_iff, List.contains_iff_mem, literalCode, List.any_eq_true, lit, List.mem_map]
  refine exists_congr fun c => and_congr_right fun hc => ?_
  rw [beq_iff_eq, eq_comm, eq_chr_iff (hp c hc)]

theorem isReplaced_eq (a : α) : Go.isReplaced a = literalCode "/\\:\t\n\r" (code a) := by
  rw [← contains_lit (by decide), Bool.eq_iff_iff, List.contains_iff_mem, Go.isReplaced]
  simp [lit, or_assoc]

theorem encode_trim {cutset : String} (h : IsAscii cutset) :
    Go.trim (e.encode s) cutset = e.encode (Go.trim s cutset) := by
  have htest : ∀ n, 128 ≤ n → literalCode cutset n = false := fun n hn => literalCode_of_nonAscii h hn
  rw [Go.trim, Go.trim]
  simp only [contains_lit h]
  rw [e.encode_dropWhile htest, e.encode_rdropWhile htest]

theorem encode_replaceEach : Go.replaceEach (e.encode s) = e.encode (Go.replaceEach s) := by
  have hcode {γ : Type} [DecidableEq γ] [CodeUnit γ] (a : γ) : code (if Go.isReplaced a then chr '-' else a) =
      if literalCode "/\\:\t\n\r" (code a) then '-'.toNat else code a := by
    rw [isReplaced_eq]
    split_ifs
    · exact code_chr (by decide)
    · rfl
  refine (e.encode_map fun a => e.enc_map (h := fun n => if literalCode "/\\:\t\n\r" n then '-'.toNat else n)
    hcode hcode ?_ ?_ a).symm
  · intro n hn
    split_ifs
    · decide
    · exact hn
  · intro n hn
    rw [literalCode_of_nonAscii (by decide) hn, if_neg Bool.false_ne_true]

theorem encode_runs : TS.replaceUnsafeRuns (e.encode s) = e.encode (TS.replaceUnsafeRuns s) := by
  have htest : (Go.isReplaced : β → Bool) = fun b => literalCode "/\\:\t\n\r" (code b) := funext isReplaced_eq
  have htest' : (Go.isReplaced : α → Bool) = fun a => literalCode "/\\:\t\n\r" (code a) := funext isReplaced_eq
  induction s using runs_induct with
  | nil =>
      simp [TS.replaceUnsafeRuns]
  | replaced a s ha ih =>
      -- a replaced unit is ASCII, so it is one unit in both encodings
      have hascii : code a < 128 := by
        by_contra hlarge
        rw [isReplaced_eq, literalCode_of_nonAscii (by decide) (Nat.le_of_not_lt hlarge)] at ha
        cases ha
      have hunit : Go.isReplaced (ofCode (code a) : β) = true := by
        rw [isReplaced_eq, code_ofCode _ hascii, ← isReplaced_eq, ha]
      have hdrop : (e.encode s).dropWhile Go.isReplaced = e.encode (s.dropWhile Go.isReplaced) := by
        rw [htest, htest']
        exact e.encode_dropWhile fun n hn => literalCode_of_nonAscii (by decide) hn
      rw [Encoding.encode_cons, e.enc_ascii a hascii, List.singleton_append, runs_of_replaced hunit, hdrop, ih,
        runs_of_replaced ha, e.encode_chr_cons (by decide)]
  | kept a s ha ih =>
      -- the units of a block are kept as the unit is
      have hblock : ∀ b ∈ e.enc a, Go.isReplaced b = false := by
        intro b hb
        by_cases hascii : code a < 128
        · rw [e.enc_ascii a hascii, List.mem_singleton] at hb
          rw [hb, isReplaced_eq, code_ofCode _ hascii, ← isReplaced_eq, ha]
        · rw [isReplaced_eq, literalCode_of_nonAscii (by decide) (e.enc_nonAscii a (Nat.le_of_not_lt hascii) b hb)]
      rw [Encoding.encode_cons, replacement_runs.append_of_kept hblock, ih, runs_of_kept ha, Encoding.encode_cons]

theorem encode_escape : Go.escapeReservedWin32Component (e.encode s) = e.encode (Go.escapeReservedWin32Component s) := by
  have hcolon {γ : Type} [DecidableEq γ] [CodeUnit γ] :
      (fun a : γ => a != chr '.') = fun a => !Pattern.char '.' (code a) := by
    funext a
    rw [bne, Bool.eq_iff_iff, Bool.not_eq_true', Bool.not_eq_true', ← Bool.not_eq_true, ← Bool.not_eq_true,
      char_code_iff (by decide), beq_iff_eq]
  have htake : (e.encode s).takeWhile (· != chr '.') = e.encode (s.takeWhile (· != chr '.')) := by
    rw [hcolon, hcolon]
    exact e.encode_takeWhile (Go.char_nonAscii (by decide))
  have hdrop : (e.encode s).dropWhile (· != chr '.') = e.encode (s.dropWhile (· != chr '.')) := by
    -- the suffix is what is left when the base is cut off
    have hparts : e.encode (s.takeWhile (· != chr '.')) ++ e.encode (s.dropWhile (· != chr '.')) =
        (e.encode s).takeWhile (· != chr '.') ++ (e.encode s).dropWhile (· != chr '.') := by
      rw [← Encoding.encode_append, List.takeWhile_append_dropWhile, List.takeWhile_append_dropWhile]
    rw [htake] at hparts
    exact (List.append_cancel_left hparts).symm
  rw [← escape_eq_go, ← escape_eq_go, TS.escapeReservedWin32Component, TS.escapeReservedWin32Component, htake, hdrop,
    ← e.encode_map_upper, isReservedDeviceBase_eq, isReservedDeviceBase_eq, Go.isReservedDeviceBase_encode]
  split_ifs
  · rw [Encoding.encode_append, Encoding.encode_append, e.encode_lit (by decide)]
  · rfl

theorem encode_finishComponent (win32 : Prop) [Decidable win32] :
    finishComponent win32 (e.encode s) = e.encode (finishComponent win32 s) := by
  rw [finishComponent, finishComponent, encode_trim e (by decide)]
  simp only [Encoding.encode_eq_nil_iff]
  split_ifs
  · rw [← encode_escape, e.encode_lit (by decide)]
  · rw [← encode_escape]
  · rw [e.encode_lit (by decide)]
  · rfl

end Encoded

/-! ## The C port -/

namespace C

open CString

variable {p q : C.Chars} {s : Bytes}

theorem isEdge_eq (ch : UInt8) : C.isEdge ch = (lit " ._-" : Bytes).contains ch := by
  rw [Bool.eq_iff_iff, List.contains_iff_mem, C.isEdge]
  simp [lit, or_assoc]

theorem edgeStart_eq {front : Bytes} (h : Holds p (front ++ s)) :
    C.edgeStart p s.length front.length = some (front.length + (s.takeWhile C.isEdge).length) := by
  induction s generalizing front with
  | nil =>
      rfl
  | cons a s ih =>
      have hload : C.charAt p front.length = some a := h.load_behind (i := 0) rfl
      have hnext : Holds p ((front ++ [a]) ++ s) := h.next
      rw [List.length_cons, C.edgeStart, hload, some_bind, List.takeWhile_cons]
      split_ifs
      · have hlast := ih hnext
        rw [List.length_append, List.length_singleton] at hlast
        rw [hlast, List.length_cons]
        congr 1
        omega
      · rfl

theorem edgeEnd_eq {front : Bytes} (h : Holds p (front ++ s)) :
    C.edgeEnd p s.length (front.length + s.length) = some (front.length + (s.rdropWhile C.isEdge).length) := by
  induction s using List.reverseRecOn with
  | nil =>
      rfl
  | append_singleton s a ih =>
      have hload : C.charAt p (front.length + s.length) = some a := by
        apply h.load_behind
        rw [List.getElem?_concat_length]
      -- the end moves over the last byte of `s`
      rw [← List.append_assoc] at h
      have hposition : front.length + (s.length + 1) - 1 = front.length + s.length := by
        omega
      rw [List.length_append, List.length_singleton, C.edgeEnd, hposition, hload, some_bind]
      split_ifs with hedge
      · rw [ih h.of_append, List.rdropWhile_concat_pos _ _ _ hedge]
      · rw [List.rdropWhile_concat_neg _ _ _ hedge, List.length_append, List.length_singleton]

theorem trimComponentEdges_eq (h : Spells p s) : C.trimComponentEdges p = some (literal (Go.trim s " ._-")) := by
  have htest : (fun a : UInt8 => (lit " ._-" : Bytes).contains a) = C.isEdge := funext fun a => (isEdge_eq a).symm
  have hholds : Holds p s := h.holds.of_append
  have hparts : s.takeWhile C.isEdge ++ s.dropWhile C.isEdge = s := List.takeWhile_append_dropWhile
  have hlength := congrArg List.length hparts
  rw [List.length_append] at hlength
  have hfront : Holds p ([] ++ s) := hholds
  have hstart := edgeStart_eq hfront
  rw [← hparts] at hholds h
  have hend := edgeEnd_eq hholds
  -- the copy starts behind the leading edge and leaves out the trailing one
  obtain ⟨back, hback, -⟩ := Trim.exists_eq_rdropWhile_append C.isEdge (s.dropWhile C.isEdge)
  have hinner := hholds.drop
  rw [hback] at hinner
  have hadvance := h.advance
  rw [hparts] at h
  rw [List.length_nil, Nat.zero_add] at hstart
  have hleft : s.length - (s.takeWhile C.isEdge).length = (s.dropWhile C.isEdge).length := by
    omega
  rw [C.trimComponentEdges, strlen_of_spells h, some_bind, hstart, some_bind, hleft]
  rw [hlength] at hend
  rw [hend, some_bind, hadvance, some_bind, Nat.add_sub_cancel_left, strndup_eq hinner.of_append, Go.trim, htest]

theorem escapeReservedWin32Component_eq (h : Spells p s) :
    C.escapeReservedWin32Component p = some (literal (Go.escapeReservedWin32Component s)) := by
  rw [← escape_eq_go, TS.escapeReservedWin32Component, Ports.isReservedDeviceBase_eq, C.escapeReservedWin32Component,
    strchr_of_spells (by decide) h, some_bind]
  rcases Trim.all_or_exists_first (fun a : UInt8 => a != chr '.') s with hall | ⟨base, a, more, rfl, hbase, ha⟩
  · -- without a dot the base is the whole name and the suffix is empty
    have hnone : chr '.' ∉ s := Trim.forall_bne_iff.1 hall
    have hlen : C.componentLen p none = some s.length := strlen_of_spells h
    rw [if_neg hnone, hlen, some_bind, isReservedDeviceBase_eq h.holds.of_append h.zero_not_mem, some_bind,
      List.takeWhile_eq_self_iff.2 hall, List.dropWhile_eq_nil_iff.2 hall]
    cases Go.isReservedDeviceBase (s.map upper) with
    | false =>
        exact strdup_eq h
    | true =>
        simp only [Bool.not_true, Bool.false_eq_true, if_false, if_true]
        rw [memcpy_front h.holds.of_append (by omega), some_bind, store_more rfl (by omega), some_bind,
          store_last (by simp) (by simp)]
        simp [lit]
  · have hdot : a = chr '.' := by
      simpa using ha
    subst hdot
    have hmem : chr '.' ∈ base ++ chr '.' :: more := by
      simp
    have hnot : chr '.' ∉ base := Trim.forall_bne_iff.1 hbase
    have hidx : (base ++ chr '.' :: more).idxOf (chr '.') = base.length := by
      rw [List.idxOf_append_of_notMem hnot, List.idxOf_cons_self, Nat.add_zero]
    have hfront : Holds p base := h.holds.of_append.of_append
    have hzero : 0 ∉ base := fun hmem => h.zero_not_mem (List.mem_append_left _ hmem)
    have hlen : C.componentLen p (some base.length) = some base.length := rfl
    rw [if_pos hmem, hidx, hlen, some_bind, isReservedDeviceBase_eq hfront hzero, some_bind,
      Trim.takeWhile_append_cons hbase ha, Trim.dropWhile_append_cons hbase ha]
    cases Go.isReservedDeviceBase (base.map upper) with
    | false =>
        exact strdup_eq h
    | true =>
        have htail := h.drop
        have hsuffix : (chr '.' :: more : Bytes).length > 0 := Nat.succ_pos _
        simp only [Bool.not_true, Bool.false_eq_true, if_false, if_true]
        rw [h.advance, some_bind, strlen_of_spells htail, some_bind, memcpy_front hfront (by omega), some_bind,
          store_more rfl (by omega), some_bind, if_pos hsuffix,
          memcpy_more htail.holds.of_append (by simp) (by simp), some_bind, store_last (by simp; omega) (by simp; omega)]
        simp [lit]

/-- The loop writes what a flag for the unit before would write. -/
theorem sanitizeLoop_eq {front out : Bytes} {n : Nat} (h : Holds p (front ++ s)) (hn : out.length + s.length < n)
    (inReplacement : Bool) :
    C.sanitizeLoop p s.length front.length inReplacement (filled (out.map some) n) out.length =
      some (filled ((out ++ Unity.replaceUnsafeFileNameChars inReplacement s).map some) n,
        (out ++ Unity.replaceUnsafeFileNameChars inReplacement s).length) := by
  induction s generalizing front out inReplacement with
  | nil =>
      rw [Unity.replaceUnsafeFileNameChars, List.append_nil]
      rfl
  | cons a s ih =>
      have hload : C.charAt p front.length = some a := h.load_behind (i := 0) rfl
      have hnext : Holds p ((front ++ [a]) ++ s) := h.next
      have hread : front.length + 1 = (front ++ [a]).length := by
        simp
      have hwrite (b : UInt8) : out.length + 1 = (out ++ [b]).length := by
        simp
      have htest : Unity.isUnsafeFileNameChar a = C.isReplaced a := rfl
      rw [List.length_cons] at hn
      have hstore (b : UInt8) : store (filled (out.map some) n) out.length b = some (filled ((out ++ [b]).map some) n) :=
        store_more rfl (by omega)
      rw [List.length_cons, C.sanitizeLoop, hload, some_bind, Unity.replaceUnsafeFileNameChars, htest, hread]
      split_ifs
      · exact ih hnext (by omega) true
      · rw [hstore, some_bind, hwrite (chr '-'), ih hnext (by simp; omega) true, List.append_assoc]
        rfl
      · rw [hstore, some_bind, hwrite a, ih hnext (by simp; omega) false, List.append_assoc]
        rfl

theorem sanitized_eq (h : Holds p s) (hzero : 0 ∉ s) (profile : TS.ComponentProfile) :
    C.sanitized p s.length (some (literal (lit profile.text))) =
      some (literal (finishComponent (profile = .win32) (TS.replaceUnsafeRuns s))) := by
  have hholds : Holds p ([] ++ s) := h
  have hroom : ([] : Bytes).length + s.length < s.length + 1 := by
    simp
  have hloop := sanitizeLoop_eq hholds hroom false
  rw [List.nil_append, replaceUnsafe_eq] at hloop
  -- a replaced name is not longer, so the zero has its place
  have hle := length_runs_le s
  have hkept : 0 ∉ TS.replaceUnsafeRuns s := nul_not_mem_runs hzero
  have hstore : store (filled ((TS.replaceUnsafeRuns s).map some) (s.length + 1)) (TS.replaceUnsafeRuns s).length 0 =
      some (filled (literal (TS.replaceUnsafeRuns s)) (s.length + 1)) := by
    rw [store_more rfl (by omega), literal_eq]
  have hvalue : Spells (filled (literal (TS.replaceUnsafeRuns s)) (s.length + 1)) (TS.replaceUnsafeRuns s) :=
    filled_literal_spells hkept _
  generalize TS.replaceUnsafeRuns s = replaced at *
  have hedges : 0 ∉ Go.trim replaced " ._-" := fun hmem => hkept (Trim.mem_of_mem_rdropWhile_dropWhile hmem)
  have htrimmed : Spells (literal (Go.trim replaced " ._-") : C.Chars) (Go.trim replaced " ._-") :=
    literal_spells hedges
  obtain ⟨a, ha, hiff⟩ := charAt_zero_iff htrimmed
  have hcomponent : Spells (literal (lit "component") : C.Chars) (lit "component") :=
    literal_spells (by decide)
  have hprofile : SpelledOrNull (some (literal (lit profile.text))) (lit profile.text) :=
    literal_spells (by cases profile <;> decide)
  rw [C.sanitized, show (malloc (s.length + 1) : C.Chars) = filled (([] : Bytes).map some) (s.length + 1) from rfl]
  refine (congrArg (· >>= _) hloop).trans ?_
  simp only [some_bind]
  rw [hstore, some_bind, trimComponentEdges_eq hvalue, some_bind, ha, some_bind, finishComponent]
  have hequals : C.equals (some (literal (lit profile.text))) (literal (lit "win32")) = _ := equals_eq hprofile (by decide)
  simp only [hiff, hequals, win32_iff, some_bind, decide_eq_true_eq]
  -- the escape reads what is left between the edges, or the default
  have hescape {value : Bytes} (hspells : Spells (literal value : C.Chars) value) :
      (if profile = .win32 then C.escapeReservedWin32Component (literal value) else pure (literal value)) =
        some (literal (if profile = .win32 then Go.escapeReservedWin32Component value else value)) := by
    split_ifs
    · exact escapeReservedWin32Component_eq hspells
    · rfl
  by_cases hnil : Go.trim replaced " ._-" = []
  · rw [if_pos hnil, if_pos hnil, strdup_eq hcomponent, some_bind]
    exact hescape hcomponent
  · rw [if_neg hnil, if_neg hnil]
    exact hescape htrimmed

/-- The C port on the bytes of an object that holds nothing more. -/
theorem sanitizeComponentN_eq {name : Bytes} (hne : name ≠ []) (hzero : 0 ∉ name) (profile : TS.ComponentProfile) :
    (C.sanitizeComponentN (some (name.map some)) name.length (some (literal (lit profile.text)))).run =
      some (.ok (literal (finishComponent (profile = .win32) (TS.replaceUnsafeRuns name)))) := by
  have hholds : Holds (name.map some) name := ⟨[], (List.append_nil _).symm⟩
  have hlength : name.length ≠ 0 := fun hnil => hne (List.length_eq_zero_iff.1 hnil)
  rw [C.sanitizeComponentN, if_neg hlength, hasNul_eq hholds, decide_eq_false hzero]
  simp only [lift_bind, Bool.false_eq_true, if_false]
  rw [sanitized_eq hholds hzero]
  rfl

end C

/-! ## The three ports -/

/-- The ports end with one text, each in its own encoding, or with errors of one code. -/
def SameComponent (go : Except PathError Bytes) (ts : Except PathError Units) (c : C.Run C.Chars) : Prop :=
  (∃ text : List Char, go = .ok (utf8.encode text) ∧ ts = .ok (utf16.encode text) ∧
    ∃ p, c.run = some (.ok p) ∧ Spells p (utf8.encode text)) ∨
  ∃ goErr tsErr : PathError, go = .error goErr ∧ ts = .error tsErr ∧ c.run = some (.error goErr.code) ∧
    tsErr.code = goErr.code

/-- The ports sanitize a name alike exactly where it has a NUL or shows no run of replaced characters between its
edges. -/
theorem sanitizeComponent_agrees_iff (name : List Char) (profile : TS.ComponentProfile) :
    SameComponent (Go.sanitizeComponent (utf8.encode name) (lit profile.text))
        (TS.sanitizeComponent (utf16.encode name) profile)
        (C.sanitizeComponentN (some ((utf8.encode name).map some)) (utf8.encode name).length
          (some (literal (lit profile.text)))) ↔
      nul ∈ name ∨ ¬HasRun (between name) := by
  by_cases hnil : name = []
  · subst hnil
    exact iff_of_true (.inr ⟨_, _, rfl, rfl, rfl, rfl⟩) (.inr not_hasRun_nil)
  have hbytes : utf8.encode name ≠ [] := fun hempty => hnil (utf8.encode_eq_nil_iff.1 hempty)
  have hunits : utf16.encode name ≠ [] := fun hempty => hnil (utf16.encode_eq_nil_iff.1 hempty)
  by_cases hnul : nul ∈ name
  · have hmem : nul ∈ utf8.encode name := (utf8.chr_mem_encode_iff (by decide)).2 hnul
    have hmem' : nul ∈ utf16.encode name := (utf16.chr_mem_encode_iff (by decide)).2 hnul
    -- all three report the NUL
    refine iff_of_true (.inr ?_) (.inl hnul)
    have hholds : Holds ((utf8.encode name).map some) (utf8.encode name) := ⟨[], (List.append_nil _).symm⟩
    have hlength : (utf8.encode name).length ≠ 0 := fun hempty => hbytes (List.length_eq_zero_iff.1 hempty)
    rw [Go.sanitizeComponent, TS.sanitizeComponent, if_neg hbytes, if_neg hunits, if_pos hmem, if_pos hmem',
      C.sanitizeComponentN, if_neg hlength, C.hasNul_eq hholds, decide_eq_true (p := 0 ∈ utf8.encode name) hmem]
    exact ⟨_, _, rfl, rfl, rfl, rfl⟩
  · have hmem : nul ∉ utf8.encode name := fun hmem => hnul ((utf8.chr_mem_encode_iff (by decide)).1 hmem)
    have hmem' : nul ∉ utf16.encode name := fun hmem => hnul ((utf16.chr_mem_encode_iff (by decide)).1 hmem)
    rw [sanitizeComponent_go hbytes hmem, sanitizeComponent_ts hunits hmem', SameComponent,
      C.sanitizeComponentN_eq hbytes hmem, encode_replaceEach, encode_runs, encode_runs, encode_finishComponent,
      encode_finishComponent, encode_finishComponent, or_iff_right hnul, ← finishComponent_eq_iff (profile = .win32)]
    -- the TypeScript text and the C text are the same, so only the Go text can differ
    constructor
    · rintro (⟨text, hgo, hts, -⟩ | ⟨goErr, tsErr, hgo, -⟩)
      · rw [utf8.encode_injective (Except.ok.inj hgo), utf16.encode_injective (Except.ok.inj hts)]
      · cases hgo
    · intro hsame
      refine .inl ⟨_, rfl, ?_, _, rfl, ?_⟩
      · rw [hsame]
      · rw [hsame]
        rw [← encode_finishComponent, ← encode_runs]
        exact literal_spells (nul_not_mem_finishComponent (nul_not_mem_runs hmem))

/-- A run in the middle of a name: the Go port keeps a dash for each slash. -/
theorem sanitizeComponent_not_agrees :
    ¬SameComponent (Go.sanitizeComponent (utf8.encode "a//b".toList) (lit "portable"))
        (TS.sanitizeComponent (utf16.encode "a//b".toList) .portable)
        (C.sanitizeComponentN (some ((utf8.encode "a//b".toList).map some)) (utf8.encode "a//b".toList).length
          (some (literal (lit "portable")))) := by
  have hgo : Go.sanitizeComponent (utf8.encode "a//b".toList) (lit "portable") =
      .ok (utf8.encode "a--b".toList) := by
    decide
  have hc : (C.sanitizeComponentN (some ((utf8.encode "a//b".toList).map some)) (utf8.encode "a//b".toList).length
      (some (literal (lit "portable")))).run = some (.ok (literal (utf8.encode "a-b".toList))) := by
    decide
  rintro (⟨text, htext, -, p, hp, hspells⟩ | ⟨goErr, tsErr, herr, -⟩)
  · rw [hgo, Except.ok.injEq] at htext
    rw [hc, Option.some.injEq, Except.ok.injEq] at hp
    rw [← hp, ← htext] at hspells
    exact absurd hspells.load_end (by decide)
  · rw [hgo] at herr
    cases herr

end Ports

end CanonicalPath
