import CanonicalPath.Library.Encoding

/-!
# Percent — percent escapes over any code unit

A percent sign introduces two hexadecimal digits and stands for an octet; every other unit stands for
itself.  `pieces` reads a text as such pieces.  Digits and percent sign are ASCII, so reading the
pieces commutes with an `Encoding` of the text: a unit becomes its block, an octet stays.
-/

namespace CodeUnit

/-- The value of a hexadecimal digit, by its code. -/
def hexValue (n : Nat) : Option Nat :=
  if 48 ≤ n ∧ n ≤ 57 then
    some (n - 48)
  else if 97 ≤ n ∧ n ≤ 102 then
    some (n - 97 + 10)
  else if 65 ≤ n ∧ n ≤ 70 then
    some (n - 65 + 10)
  else
    none

theorem hexValue_lt {n v : Nat} (h : hexValue n = some v) : v < 16 := by
  unfold hexValue at h
  split_ifs at h <;> simp only [Option.some.injEq] at h <;> omega

theorem hexValue_of_nonAscii {n : Nat} (h : 128 ≤ n) : hexValue n = none := by
  unfold hexValue
  rw [if_neg (by omega), if_neg (by omega), if_neg (by omega)]

/-- A unit that stands for itself, or an escaped octet. -/
inductive Piece (α : Type) where
  | unit (a : α)
  | octet (n : Nat)
  deriving DecidableEq, Repr

variable {α β : Type} [CodeUnit α] [CodeUnit β]

/-- The octet spelled by the first two units, and what follows them. -/
def takeOctet : List α → Option (Nat × List α)
  | hi :: lo :: s =>
      match hexValue (code hi), hexValue (code lo) with
      | some hi, some lo => some (16 * hi + lo, s)
      | _, _ => none
  | _ => none

theorem takeOctet_eq_some_iff {s t : List α} {n : Nat} : takeOctet s = some (n, t) ↔
    ∃ hi lo v w, s = hi :: lo :: t ∧ hexValue (code hi) = some v ∧ hexValue (code lo) = some w ∧
      n = 16 * v + w := by
  match s with
  | [] => simp [takeOctet]
  | [a] => simp [takeOctet]
  | hi :: lo :: s =>
      rw [takeOctet]
      cases hhi : hexValue (code hi) with
      | none =>
          simp only [reduceCtorEq, false_iff, not_exists]
          rintro hi' lo' v w ⟨heq, hhi', -⟩
          rw [← (List.cons.inj heq).1, hhi] at hhi'
          exact absurd hhi' (by simp)
      | some v =>
          cases hlo : hexValue (code lo) with
          | none =>
              simp only [reduceCtorEq, false_iff, not_exists]
              rintro hi' lo' v w ⟨heq, -, hlo', -⟩
              rw [← (List.cons.inj (List.cons.inj heq).2).1, hlo] at hlo'
              exact absurd hlo' (by simp)
          | some w =>
              simp only [Option.some.injEq, Prod.mk.injEq]
              constructor
              · rintro ⟨rfl, rfl⟩
                exact ⟨hi, lo, v, w, rfl, hhi, hlo, rfl⟩
              · rintro ⟨hi', lo', v', w', heq, hhi', hlo', hn⟩
                obtain ⟨hhead, htail⟩ := List.cons.inj heq
                obtain ⟨hhead', hrest⟩ := List.cons.inj htail
                rw [← hhead, hhi, Option.some.injEq] at hhi'
                rw [← hhead', hlo, Option.some.injEq] at hlo'
                exact ⟨by rw [hn, hhi', hlo'], hrest⟩

theorem lt_of_takeOctet {s t : List α} {n : Nat} (h : takeOctet s = some (n, t)) : n < 256 := by
  rcases takeOctet_eq_some_iff.1 h with ⟨_, _, v, w, _, hv, hw, rfl⟩
  have := hexValue_lt hv
  have := hexValue_lt hw
  omega

theorem length_lt_of_takeOctet {s t : List α} {n : Nat} (h : takeOctet s = some (n, t)) :
    t.length < s.length := by
  rcases takeOctet_eq_some_iff.1 h with ⟨hi, lo, _, _, rfl, _⟩
  simp only [List.length_cons]
  omega

section Pieces

variable [DecidableEq α] [DecidableEq β]

/-- Read a text as pieces; it fails where a percent sign introduces no octet. -/
def pieces : List α → Option (List (Piece α))
  | [] => some []
  | [a] => if a = chr '%' then none else some [.unit a]
  | [a, b] => if a = chr '%' ∨ b = chr '%' then none else some [.unit a, .unit b]
  | a :: hi :: lo :: s =>
      if a = chr '%' then
        match hexValue (code hi), hexValue (code lo) with
        | some hi, some lo => (pieces s).map (.octet (16 * hi + lo) :: ·)
        | _, _ => none
      else
        (pieces (hi :: lo :: s)).map (.unit a :: ·)

@[simp] theorem pieces_nil : pieces ([] : List α) = some [] := rfl

theorem pieces_cons_of_ne {a : α} (h : a ≠ chr '%') (s : List α) :
    pieces (a :: s) = (pieces s).map (.unit a :: ·) := by
  match s with
  | [] => simp [pieces, h]
  | [b] =>
      by_cases hb : b = chr '%'
      · simp [pieces, hb]
      · simp [pieces, h, hb]
  | b :: c :: s => rw [pieces, if_neg h]

theorem pieces_percent (s : List α) :
    pieces (chr '%' :: s) = (takeOctet s).bind fun octet =>
      (pieces octet.2).map (.octet octet.1 :: ·) := by
  match s with
  | [] => simp [pieces, takeOctet]
  | [b] => simp [pieces, takeOctet]
  | hi :: lo :: s =>
      rw [pieces, if_pos rfl, takeOctet]
      cases hexValue (code hi) with
      | none =>
          rfl
      | some v =>
          cases hexValue (code lo) with
          | none =>
              rfl
          | some w =>
              rfl

theorem octet_lt_of_pieces {s : List α} {ps : List (Piece α)} {n : Nat} (h : pieces s = some ps)
    (hmem : .octet n ∈ ps) : n < 256 := by
  induction hlength : s.length using Nat.strong_induction_on generalizing s ps with
  | _ length ih =>
      cases s with
      | nil =>
          rw [pieces_nil, Option.some.injEq] at h
          rw [← h] at hmem
          exact absurd hmem List.not_mem_nil
      | cons a s =>
          by_cases ha : a = chr '%'
          · subst ha
            rw [pieces_percent] at h
            rcases Option.bind_eq_some_iff.1 h with ⟨⟨m, t⟩, htake, h⟩
            rcases Option.map_eq_some_iff.1 h with ⟨ps', hps', rfl⟩
            rcases List.mem_cons.1 hmem with heq | hmem
            · rw [Piece.octet.injEq] at heq
              rw [heq]
              exact lt_of_takeOctet htake
            · refine ih t.length ?_ hps' hmem rfl
              rw [← hlength, List.length_cons]
              exact Nat.lt_succ_of_lt (length_lt_of_takeOctet htake)
          · rw [pieces_cons_of_ne ha] at h
            rcases Option.map_eq_some_iff.1 h with ⟨ps', hps', rfl⟩
            have hmem' : Piece.octet n ∈ ps' := (List.mem_cons.1 hmem).resolve_left (by simp)
            exact ih s.length (by rw [← hlength, List.length_cons]; omega) hps' hmem' rfl

/-! ## Pieces of an encoded text -/

namespace Encoding

variable (e : Encoding α β)

/-- A unit becomes its block, an octet stays. -/
def encPiece : Piece α → List (Piece β)
  | .unit a => (e.enc a).map .unit
  | .octet n => [.octet n]

omit [DecidableEq α] [DecidableEq β] in
/-- The first unit of a block is a digit exactly when the unit is, and then it is the whole block. -/
theorem hexValue_enc {a : α} {b : β} {bs : List β} (h : e.enc a = b :: bs) :
    hexValue (code b) = hexValue (code a) ∧ ((hexValue (code a)).isSome → bs = []) := by
  by_cases ha : code a < 128
  · rw [e.enc_ascii a ha, List.cons.injEq] at h
    rw [← h.1, code_ofCode _ ha]
    exact ⟨rfl, fun _ => h.2.symm⟩
  · have hb : 128 ≤ code b := e.enc_nonAscii a (by omega) b (by simp [h])
    rw [hexValue_of_nonAscii hb, hexValue_of_nonAscii (by omega : 128 ≤ code a)]
    simp

omit [DecidableEq α] [DecidableEq β] in
theorem takeOctet_encode (s : List α) :
    takeOctet (e.encode s) = (takeOctet s).map fun octet => (octet.1, e.encode octet.2) := by
  -- a block that is no digit ends the test, whatever follows
  have hnone {γ : Type} [CodeUnit γ] {x : γ} (h : hexValue (code x) = none) (xs : List γ) :
      takeOctet (x :: xs) = none := by
    cases xs with
    | nil =>
        rfl
    | cons y xs =>
        simp [takeOctet, h]
  match s with
  | [] => rfl
  | a :: s =>
      cases henc : e.enc a with
      | nil =>
          exact absurd henc (e.enc_ne_nil a)
      | cons b bs =>
          rcases e.hexValue_enc henc with ⟨hcode, hsingle⟩
          rw [encode_cons, henc, List.cons_append]
          cases hhi : hexValue (code a) with
          | none =>
              rw [hnone (hcode.trans hhi), hnone hhi]
              rfl
          | some v =>
              rw [hsingle (by simp [hhi]), List.nil_append]
              cases s with
              | nil =>
                  rfl
              | cons a' s =>
                  cases henc' : e.enc a' with
                  | nil =>
                      exact absurd henc' (e.enc_ne_nil a')
                  | cons b' bs' =>
                      rcases e.hexValue_enc henc' with ⟨hcode', hsingle'⟩
                      rw [encode_cons, henc', List.cons_append, takeOctet, takeOctet, hcode, hcode', hhi]
                      cases hlo : hexValue (code a') with
                      | none =>
                          rfl
                      | some w =>
                          rw [hsingle' (by simp [hlo])]
                          rfl

omit [DecidableEq α] in
theorem pieces_append_of_not_mem {bs : List α} [DecidableEq α] (h : chr '%' ∉ bs) (s : List α) :
    pieces (bs ++ s) = (pieces s).map (bs.map Piece.unit ++ ·) := by
  induction bs with
  | nil =>
      simp
  | cons b bs ih =>
      rw [List.mem_cons, not_or] at h
      rw [List.cons_append, pieces_cons_of_ne (Ne.symm h.1), ih h.2, Option.map_map]
      rfl

/-- Reading the pieces commutes with the encoding. -/
theorem pieces_encode (s : List α) :
    pieces (e.encode s) = (pieces s).map fun ps => ps.flatMap e.encPiece := by
  induction hlength : s.length using Nat.strong_induction_on generalizing s with
  | _ length ih =>
      cases s with
      | nil =>
          rfl
      | cons a s =>
          by_cases ha : a = chr '%'
          · subst ha
            rw [e.encode_chr_cons (by decide), pieces_percent, pieces_percent, takeOctet_encode]
            cases htake : takeOctet s with
            | none =>
                rfl
            | some octet =>
                have hlt : octet.2.length < length := by
                  rw [← hlength, List.length_cons]
                  exact Nat.lt_succ_of_lt (length_lt_of_takeOctet htake)
                rw [Option.map_some, Option.bind_some, Option.bind_some, ih _ hlt _ rfl, Option.map_map,
                  Option.map_map]
                rfl
          · have hblock : chr '%' ∉ e.enc a := fun hmem => ha ((e.chr_mem_enc_iff (by decide)).1 hmem)
            have hlt : s.length < length := by
              rw [← hlength, List.length_cons]
              omega
            rw [encode_cons, pieces_append_of_not_mem hblock, pieces_cons_of_ne ha, ih _ hlt _ rfl,
              Option.map_map, Option.map_map]
            rfl

end Encoding

end Pieces

end CodeUnit
