import CanonicalPath.Library.CodeUnit

/-!
# Base64 — three bytes in four digits

The standard alphabet with padding.  A decoder skips line breaks and accepts any bits behind the last byte.

* `decode_encode` : what was encoded is decoded
-/

namespace Base64

open CodeUnit

/-! ## Digits -/

def alphabet : List UInt8 :=
  lit "ABCDEFGHIJKLMNOPQRSTUVWXYZabcdefghijklmnopqrstuvwxyz0123456789+/"

def pad : UInt8 :=
  chr '='

/-- The digit of the low six bits. -/
def digit (n : Nat) : UInt8 :=
  alphabet.getD (n % 64) pad

def value (c : UInt8) : Option Nat :=
  if chr 'A' ≤ c ∧ c ≤ chr 'Z' then some (c.toNat - 65)
  else if chr 'a' ≤ c ∧ c ≤ chr 'z' then some (c.toNat - 71)
  else if chr '0' ≤ c ∧ c ≤ chr '9' then some (c.toNat + 4)
  else if c = chr '+' then some 62
  else if c = chr '/' then some 63
  else none

theorem digit_lt (n : Fin 64) :
    value (digit n.val) = some n.val ∧ digit n.val ≠ pad ∧ digit n.val ≠ 10 ∧ digit n.val ≠ 13 := by
  revert n
  decide +kernel

theorem digit_mod (n : Nat) : digit n = digit (n % 64) := by
  rw [digit, digit, Nat.mod_mod]

@[simp] theorem value_digit (n : Nat) : value (digit n) = some (n % 64) := by
  rw [digit_mod]
  exact (digit_lt ⟨n % 64, Nat.mod_lt n (by decide)⟩).1

@[simp] theorem digit_ne_pad (n : Nat) : digit n ≠ pad := by
  rw [digit_mod]
  exact (digit_lt ⟨n % 64, Nat.mod_lt n (by decide)⟩).2.1

/-! ## The two directions -/

def encode : List UInt8 → List UInt8
  | a :: b :: c :: rest =>
    let n := a.toNat * 65536 + b.toNat * 256 + c.toNat
    digit (n / 262144) :: digit (n / 4096) :: digit (n / 64) :: digit n :: encode rest
  | [a, b] =>
    let n := a.toNat * 65536 + b.toNat * 256
    [digit (n / 262144), digit (n / 4096), digit (n / 64), pad]
  | [a] =>
    let n := a.toNat * 65536
    [digit (n / 262144), digit (n / 4096), pad, pad]
  | [] => []

/-- Four digits at a time; padding ends the text. -/
def decodeQuanta : List UInt8 → Option (List UInt8)
  | [] => some []
  | a :: b :: c :: d :: rest => do
    let a ← value a
    let b ← value b
    if c = pad then
      if d = pad ∧ rest = [] then
        some [UInt8.ofNat ((a * 262144 + b * 4096) / 65536)]
      else
        none
    else
      let c ← value c
      if d = pad then
        if rest = [] then
          let n := a * 262144 + b * 4096 + c * 64
          some [UInt8.ofNat (n / 65536), UInt8.ofNat (n / 256)]
        else
          none
      else
        let d ← value d
        let rest ← decodeQuanta rest
        let n := a * 262144 + b * 4096 + c * 64 + d
        some (UInt8.ofNat (n / 65536) :: UInt8.ofNat (n / 256) :: UInt8.ofNat n :: rest)
  | _ => none

def decode (text : List UInt8) : Option (List UInt8) :=
  decodeQuanta (text.filter fun c => c ≠ 10 ∧ c ≠ 13)

/-! ## The round trip -/

theorem encode_no_break (bytes : List UInt8) : ∀ c ∈ encode bytes, c ≠ 10 ∧ c ≠ 13 := by
  have hdigit (n : Nat) : digit n ≠ 10 ∧ digit n ≠ 13 := by
    rw [digit_mod]
    exact (digit_lt ⟨n % 64, Nat.mod_lt n (by decide)⟩).2.2
  have hpad : pad ≠ 10 ∧ pad ≠ 13 := by decide
  fun_induction encode bytes with
  | case1 a b c rest n ih =>
      intro c hc
      simp only [List.mem_cons] at hc
      rcases hc with rfl | rfl | rfl | rfl | hc
      · exact hdigit _
      · exact hdigit _
      · exact hdigit _
      · exact hdigit _
      · exact ih c hc
  | case2 a b n =>
      simp [hdigit, hpad]
  | case3 a n =>
      simp [hdigit, hpad]
  | case4 =>
      simp

/-- A byte that is put together from its bits again. -/
theorem ofNat_eq {n : Nat} {a : UInt8} (h : n % 256 = a.toNat) : UInt8.ofNat n = a := by
  rw [← UInt8.toNat_inj, UInt8.toNat_ofNat']
  exact h

theorem decodeQuanta_encode (bytes : List UInt8) : decodeQuanta (encode bytes) = some bytes := by
  fun_induction encode bytes with
  | case1 a b c rest n ih =>
      have ha := a.toNat_lt
      have hb := b.toNat_lt
      have hc := c.toNat_lt
      have hn : n / 262144 % 64 * 262144 + n / 4096 % 64 * 4096 + n / 64 % 64 * 64 + n % 64 = n := by
        simp only [n]
        omega
      rw [decodeQuanta]
      simp only [value_digit, digit_ne_pad, if_false, Option.bind_eq_bind, Option.bind_some, ih, hn]
      have h1 : n / 65536 % 256 = a.toNat := by simp only [n]; omega
      have h2 : n / 256 % 256 = b.toNat := by simp only [n]; omega
      have h3 : n % 256 = c.toNat := by simp only [n]; omega
      rw [ofNat_eq h1, ofNat_eq h2, ofNat_eq h3]
  | case2 a b n =>
      have ha := a.toNat_lt
      have hb := b.toNat_lt
      have hn : n / 262144 % 64 * 262144 + n / 4096 % 64 * 4096 + n / 64 % 64 * 64 = n := by
        simp only [n]
        omega
      rw [decodeQuanta]
      simp only [value_digit, digit_ne_pad, if_false, Option.bind_eq_bind, Option.bind_some, if_true, hn]
      have h1 : n / 65536 % 256 = a.toNat := by simp only [n]; omega
      have h2 : n / 256 % 256 = b.toNat := by simp only [n]; omega
      rw [ofNat_eq h1, ofNat_eq h2]
  | case3 a n =>
      have ha := a.toNat_lt
      have hn : n / 262144 % 64 * 262144 + n / 4096 % 64 * 4096 = n := by
        simp only [n]
        omega
      rw [decodeQuanta]
      simp only [value_digit, Option.bind_eq_bind, Option.bind_some, if_true, and_self, hn]
      have h1 : n / 65536 % 256 = a.toNat := by simp only [n]; omega
      rw [ofNat_eq h1]
  | case4 =>
      rfl

theorem decode_encode (bytes : List UInt8) : decode (encode bytes) = some bytes := by
  have hkeep : (encode bytes).filter (fun c => c ≠ 10 ∧ c ≠ 13) = encode bytes :=
    List.filter_eq_self.2 fun c hc => decide_eq_true (encode_no_break bytes c hc)
  rw [decode, hkeep]
  exact decodeQuanta_encode bytes

end Base64
