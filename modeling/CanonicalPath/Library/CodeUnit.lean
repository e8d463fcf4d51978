import Mathlib.Data.Char
import Mathlib.Logic.Function.Basic
import Mathlib.Tactic.Common

/-!
# CodeUnit — text as lists of code units

Languages spell text in different units: bytes (UTF-8), 16-bit units (UTF-16), scalar values.
All of them embed ASCII.  A program that only tests for ASCII units can therefore be written once
over any `CodeUnit` type and instantiated at the unit of each language.

* `chr`, `lit` : ASCII characters and literals in any unit
* `isLetter`, `lower`, `upper` : the ASCII letters and their case
* `Pattern`, `matches?` : a test of the first units of a text by ASCII-only predicates
-/

/-- A type of text units that embeds ASCII. -/
class CodeUnit (α : Type) where
  code : α → Nat
  ofCode : Nat → α
  code_injective : Function.Injective code
  code_ofCode : ∀ n, n < 128 → code (ofCode n) = n

namespace CodeUnit

/-! ## Instances -/

instance : CodeUnit UInt8 where
  code := UInt8.toNat
  ofCode := UInt8.ofNat
  code_injective := fun _ _ h => UInt8.toNat_inj.1 h
  code_ofCode := fun n h => UInt8.toNat_ofNat_of_lt (by simp [UInt8.size]; omega)

instance : CodeUnit UInt16 where
  code := UInt16.toNat
  ofCode := UInt16.ofNat
  code_injective := fun _ _ h => UInt16.toNat_inj.1 h
  code_ofCode := fun n h => UInt16.toNat_ofNat_of_lt (by simp [UInt16.size]; omega)

instance : CodeUnit Char where
  code := Char.toNat
  ofCode := Char.ofNat
  code_injective := fun _ _ h => Char.toNat_inj.1 h
  code_ofCode := fun n h => by
    have hvalid : n.isValidChar := Or.inl (by omega)
    rw [Char.ofNat, dif_pos hvalid]
    rfl

variable {α : Type} [CodeUnit α] {a b : α} {c d : Char} {s t : List α}

/-! ## ASCII characters and literals -/

/-- The unit of an ASCII character. -/
def chr (c : Char) : α :=
  ofCode c.toNat

/-- The units of an ASCII literal. -/
def lit (s : String) : List α :=
  s.toList.map chr

@[simp] theorem code_chr (hc : c.toNat < 128) : code (chr c : α) = c.toNat :=
  code_ofCode _ hc

theorem eq_chr_iff (hc : c.toNat < 128) : a = chr c ↔ code a = c.toNat := by
  constructor
  · rintro rfl
    exact code_chr hc
  · intro h
    exact code_injective (by rw [h, code_chr hc])

@[simp] theorem chr_eq_chr_iff (hc : c.toNat < 128) (hd : d.toNat < 128) :
    (chr c : α) = chr d ↔ c = d := by
  rw [eq_chr_iff hd, code_chr hc, Char.toNat_inj]

/-- Every character of the literal is ASCII. -/
def IsAscii (p : String) : Prop :=
  ∀ c ∈ p.toList, c.toNat < 128

instance (p : String) : Decidable (IsAscii p) :=
  List.decidableBAll (fun c : Char => c.toNat < 128) p.toList

theorem code_lt_of_mem_lit {p : String} (hp : IsAscii p) : ∀ a ∈ (lit p : List α), code a < 128 := by
  intro a ha
  obtain ⟨c, hc, rfl⟩ := List.mem_map.1 ha
  rw [code_chr (hp c hc)]
  exact hp c hc

theorem chr_char (c : Char) : (chr c : Char) = c :=
  Char.ofNat_toNat c

theorem lit_char (p : String) : (lit p : List Char) = p.toList := by
  have hchr : ∀ c ∈ p.toList, (chr c : Char) = c := fun c _ => chr_char c
  rw [lit, List.map_congr_left hchr, List.map_id']

/-- The NUL unit. -/
abbrev nul : α :=
  chr '\x00'

/-! ## Letters -/

/-- The numbers of the ASCII letters. -/
def isLetterCode (n : Nat) : Bool :=
  (97 ≤ n && n ≤ 122) || (65 ≤ n && n ≤ 90)

theorem lt_of_isLetterCode {n : Nat} (h : isLetterCode n = true) : n < 128 := by
  simp only [isLetterCode, Bool.or_eq_true, Bool.and_eq_true, decide_eq_true_eq] at h
  omega

/-- ASCII letters. -/
def isLetter (a : α) : Bool :=
  isLetterCode (code a)

/-- ASCII lower case; every other unit is unchanged. -/
def lower (a : α) : α :=
  if 65 ≤ code a ∧ code a ≤ 90 then ofCode (code a + 32) else a

/-- ASCII upper case; every other unit is unchanged. -/
def upper (a : α) : α :=
  if 97 ≤ code a ∧ code a ≤ 122 then ofCode (code a - 32) else a

@[simp] theorem isLetter_chr (hc : c.toNat < 128) :
    isLetter (chr c : α) = isLetterCode c.toNat := by
  rw [isLetter, code_chr hc]

theorem isLetter_iff : isLetter a = true ↔
    (97 ≤ code a ∧ code a ≤ 122) ∨ (65 ≤ code a ∧ code a ≤ 90) := by
  simp [isLetter, isLetterCode]

theorem code_lt_of_isLetter (h : isLetter a = true) : code a < 128 :=
  lt_of_isLetterCode h

/-- A letter is not a punctuation unit. -/
theorem ne_chr_of_isLetter (h : isLetter a = true) (hc : c.toNat < 128)
    (hl : isLetterCode c.toNat = false) : a ≠ chr c := by
  rintro rfl
  rw [isLetter_chr hc, hl] at h
  exact absurd h (by simp)

theorem code_lower : code (lower a) = if 65 ≤ code a ∧ code a ≤ 90 then code a + 32 else code a := by
  by_cases h : 65 ≤ code a ∧ code a ≤ 90
  · rw [lower, if_pos h, if_pos h, code_ofCode _ (by omega)]
  · rw [lower, if_neg h, if_neg h]

theorem code_upper :
    code (upper a) = if 97 ≤ code a ∧ code a ≤ 122 then code a - 32 else code a := by
  by_cases h : 97 ≤ code a ∧ code a ≤ 122
  · rw [upper, if_pos h, if_pos h, code_ofCode _ (by omega)]
  · rw [upper, if_neg h, if_neg h]

@[simp] theorem isLetter_lower : isLetter (lower a) = isLetter a := by
  rw [Bool.eq_iff_iff, isLetter_iff, isLetter_iff, code_lower]
  split <;> omega

@[simp] theorem isLetter_upper : isLetter (upper a) = isLetter a := by
  rw [Bool.eq_iff_iff, isLetter_iff, isLetter_iff, code_upper]
  split <;> omega

@[simp] theorem lower_lower : lower (lower a) = lower a := by
  apply code_injective
  rw [code_lower, code_lower]
  split_ifs <;> omega

theorem lower_upper (h : isLetter a = true) : lower (upper a) = lower a := by
  have hl := isLetter_iff.1 h
  apply code_injective
  rw [code_lower, code_lower, code_upper]
  split_ifs <;> omega

theorem upper_lower (h : isLetter a = true) : upper (lower a) = upper a := by
  have hl := isLetter_iff.1 h
  apply code_injective
  rw [code_upper, code_lower, code_upper]
  split_ifs <;> omega

/-- Replace every occurrence of one ASCII character by another. -/
def replaceAll [DecidableEq α] (c d : Char) (s : List α) : List α :=
  s.map fun a => if a = chr c then chr d else a

theorem replaceAll_of_not_mem [DecidableEq α] (h : chr c ∉ s) : replaceAll c d s = s := by
  have hunit : ∀ a ∈ s, (if a = chr c then chr d else a) = a := by
    intro a ha
    apply if_neg
    rintro rfl
    exact h ha
  rw [replaceAll, List.map_congr_left hunit, List.map_id']

theorem chr_not_mem_replaceAll [DecidableEq α] (hc : c.toNat < 128) (hd : d.toNat < 128) (hne : c ≠ d) (s : List α) :
    chr c ∉ replaceAll c d s := by
  intro hmem
  obtain ⟨a, -, heq⟩ := List.mem_map.1 hmem
  split_ifs at heq with ha
  · exact hne ((chr_eq_chr_iff hd hc).1 heq).symm
  · exact ha heq

/-- Any other character stays where it was. -/
theorem chr_mem_replaceAll_iff [DecidableEq α] {x : Char} (hx : (chr x : α) ≠ chr c) (hxd : (chr x : α) ≠ chr d) :
    chr x ∈ replaceAll c d s ↔ chr x ∈ s := by
  constructor
  · intro hmem
    obtain ⟨a, ha, heq⟩ := List.mem_map.1 hmem
    split_ifs at heq
    · exact absurd heq.symm hxd
    · exact heq ▸ ha
  · intro hmem
    exact List.mem_map.2 ⟨chr x, hmem, if_neg hx⟩

/-! ## Patterns over the first units -/

/-- A list of tests for the first units of a text. -/
abbrev Pattern := List (Nat → Bool)

/-- The pattern of an ASCII character. -/
def Pattern.char (c : Char) : Nat → Bool :=
  fun n => n == c.toNat

/-- The pattern of an ASCII literal. -/
def Pattern.literal (s : String) : Pattern :=
  s.toList.map Pattern.char

/-- A pattern whose tests reject everything beyond ASCII. -/
def Pattern.Ascii (p : Pattern) : Prop :=
  ∀ test ∈ p, ∀ n, 128 ≤ n → test n = false

/-- The text is long enough and its first units pass the tests, in order. -/
def matches? : Pattern → List α → Bool
  | [], _ => true
  | _ :: _, [] => false
  | test :: p, a :: s => test (code a) && matches? p s

@[simp] theorem matches?_nil : matches? [] s = true := by
  cases s <;> rfl

@[simp] theorem matches?_cons_nil (test : Nat → Bool) (p : Pattern) :
    matches? (test :: p) ([] : List α) = false := rfl

@[simp] theorem matches?_cons_cons (test : Nat → Bool) (p : Pattern) :
    matches? (test :: p) (a :: s) = (test (code a) && matches? p s) := rfl

/-- The pattern of an ASCII literal in either case; the literal is written without capitals. -/
def Pattern.anyCase (s : String) : Pattern :=
  s.toList.map fun c n => (if 65 ≤ n ∧ n ≤ 90 then n + 32 else n) == c.toNat

theorem Pattern.anyCase_ascii {p : String} (hp : IsAscii p) : (Pattern.anyCase p).Ascii := by
  intro test htest n hn
  obtain ⟨c, hc, rfl⟩ := List.mem_map.1 htest
  have hascii := hp c hc
  rw [beq_eq_false_iff_ne, if_neg (by omega)]
  omega

/-- The pattern matches somewhere. -/
def occurs? (p : Pattern) : List α → Bool
  | [] => matches? p ([] : List α)
  | a :: s => matches? p (a :: s) || occurs? p s

theorem char_code_iff (hc : c.toNat < 128) : Pattern.char c (code a) = true ↔ a = chr c := by
  rw [eq_chr_iff hc, Pattern.char, beq_iff_eq]

theorem isPrefixOf_lit [DecidableEq α] {p : String} (hp : IsAscii p) :
    (lit p : List α).isPrefixOf s = matches? (Pattern.literal p) s := by
  rw [lit, Pattern.literal]
  rw [IsAscii] at hp
  -- only the characters of the literal matter from here on
  generalize p.toList = cs at hp
  induction cs generalizing s with
  | nil =>
      simp
  | cons c cs ih =>
      have hc : c.toNat < 128 := hp c (by simp)
      have hcs : ∀ c ∈ cs, c.toNat < 128 := fun d hd => hp d (by simp [hd])
      cases s with
      | nil =>
          rfl
      | cons a s =>
          have hhead : (chr c == a) = Pattern.char c (code a) := by
            rw [Bool.eq_iff_iff, beq_iff_eq, char_code_iff hc, eq_comm]
          simp [List.isPrefixOf, hhead, ih hcs]

end CodeUnit
