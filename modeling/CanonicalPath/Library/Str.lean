import CanonicalPath.Library.Encoding

/-!
# Str — texts that are cut at byte offsets

A text is a list of scalar values, and a place in it is an offset into its UTF-8 bytes.  Where an offset is beyond the
end or inside a character, a cut has no value: the program that asks for it panics.

* `splitAt` : the two sides of an offset
* `isSome_splitAt_iff` : the offsets that have two sides are the character boundaries
* `slice`, `sliceFrom`, `sliceTo`, `replaceRange`, `truncate` : the operations that cut
-/

namespace Str

open CodeUnit Segments

/-- The bytes of a text. -/
def bytes (s : List Char) : List UInt8 :=
  utf8.encode s

/-- The number of the bytes. -/
def len (s : List Char) : Nat :=
  (bytes s).length

/-- The two sides of an offset. -/
def splitAt : List Char → Nat → Option (List Char × List Char)
  | s, 0 => some ([], s)
  | [], _ + 1 => none
  | c :: s, i + 1 =>
      if i + 1 < (utf8.enc c).length then
        none
      else
        (splitAt s (i + 1 - (utf8.enc c).length)).map fun sides => (c :: sides.1, sides.2)

/-! ## Operations -/

def sliceFrom (s : List Char) (i : Nat) : Option (List Char) := do
  let (_, tail) ← splitAt s i
  return tail

def sliceTo (s : List Char) (i : Nat) : Option (List Char) := do
  let (front, _) ← splitAt s i
  return front

def slice (s : List Char) (i j : Nat) : Option (List Char) := do
  sliceFrom (← sliceTo s j) i

def replaceRange (s : List Char) (i j : Nat) (text : List Char) : Option (List Char) := do
  let (front, tail) ← splitAt s j
  return (← sliceTo front i) ++ text ++ tail

/-- A text that is short enough already is left alone. -/
def truncate (s : List Char) (n : Nat) : Option (List Char) :=
  if n ≤ len s then sliceTo s n else some s

/-- The offset of the first character with a property. -/
def find (p : Char → Bool) (s : List Char) : Option Nat :=
  if s.any p then some (len (s.takeWhile fun c => !p c)) else none

/-- The offset of the first occurrence of a text. -/
def findStr (needle s : List Char) : Option Nat :=
  (before needle s).map len

/-- The element at a place. -/
def index {α : Type} (l : List α) (i : Nat) : Option α :=
  l[i]?

/-- Writing an element that is there. -/
def setIndex {α : Type} (l : List α) (i : Nat) (a : α) : Option (List α) :=
  if i < l.length then some (l.set i a) else none

/-- The part of a list between two places. -/
def sliceList {α : Type} (l : List α) (i j : Nat) : Option (List α) :=
  if i ≤ j ∧ j ≤ l.length then some ((l.take j).drop i) else none

/-- The text whose UTF-8 the bytes are. -/
def fromUtf8 (bs : List UInt8) : Option (List Char) :=
  (ByteArray.mk bs.toArray).utf8Decode?.map Array.toList

/-! ## Sizes -/

variable {s t u v : List Char} {c : Char} {i j : Nat}

@[simp] theorem len_nil : len [] = 0 := rfl

theorem len_cons (c : Char) (s : List Char) : len (c :: s) = (utf8.enc c).length + len s := by
  rw [len, len, bytes, bytes, Encoding.encode_cons, List.length_append]

theorem len_append (s t : List Char) : len (s ++ t) = len s + len t := by
  rw [len, len, len, bytes, bytes, bytes, Encoding.encode_append, List.length_append]

theorem enc_length_pos (c : Char) : 0 < (utf8.enc c).length :=
  List.length_pos_of_ne_nil (utf8.enc_ne_nil c)

theorem len_of_ascii (h : ∀ c ∈ s, code c < 128) : len s = s.length :=
  utf8.length_encode_of_ascii h

/-! ## Cuts -/

theorem splitAt_eq_some_iff : splitAt s i = some (t, u) ↔ s = t ++ u ∧ i = len t := by
  induction s generalizing t i with
  | nil =>
      cases i with
      | zero =>
          rw [splitAt, Option.some.injEq, Prod.mk.injEq]
          constructor
          · rintro ⟨rfl, rfl⟩
            exact ⟨rfl, rfl⟩
          · rintro ⟨hnil, -⟩
            exact ⟨(List.append_eq_nil_iff.1 hnil.symm).1.symm, (List.append_eq_nil_iff.1 hnil.symm).2.symm⟩
      | succ i =>
          rw [splitAt]
          refine iff_of_false (fun h => by cases h) ?_
          rintro ⟨hnil, hlen⟩
          rw [(List.append_eq_nil_iff.1 hnil.symm).1, len_nil] at hlen
          cases hlen
  | cons c s ih =>
      have hpos := enc_length_pos c
      cases i with
      | zero =>
          rw [splitAt, Option.some.injEq, Prod.mk.injEq]
          constructor
          · rintro ⟨rfl, rfl⟩
            exact ⟨rfl, rfl⟩
          · rintro ⟨hs, hlen⟩
            -- a character in front of the offset has a byte, so there is none
            cases t with
            | nil =>
                exact ⟨rfl, hs⟩
            | cons d t =>
                rw [len_cons] at hlen
                have hd := enc_length_pos d
                omega
      | succ i =>
          rw [splitAt]
          cases t with
          | nil =>
              refine iff_of_false ?_ (fun h => by cases h.2)
              intro h
              split_ifs at h with hinside
              obtain ⟨sides, -, hsides⟩ := Option.map_eq_some_iff.1 h
              cases hsides
          | cons d t =>
              rw [len_cons, List.cons_append, List.cons.injEq]
              split_ifs with hinside
              · -- the offset is inside the first character
                refine iff_of_false (fun h => by cases h) ?_
                rintro ⟨⟨rfl, -⟩, hlen⟩
                omega
              · rw [Option.map_eq_some_iff]
                constructor
                · rintro ⟨sides, hsides, heq⟩
                  obtain ⟨hfront, rfl⟩ := Prod.mk.inj heq
                  obtain ⟨rfl, rfl⟩ := List.cons.inj hfront
                  obtain ⟨hs, hlen⟩ := ih.1 hsides
                  exact ⟨⟨rfl, hs⟩, by omega⟩
                · rintro ⟨⟨rfl, hs⟩, hlen⟩
                  exact ⟨(t, u), ih.2 ⟨hs, by omega⟩, rfl⟩

/-! ## Boundaries -/

/-- A byte inside a character. -/
def IsContinuation (b : UInt8) : Prop :=
  0x80 ≤ b.toNat ∧ b.toNat < 0xC0

/-- The end of a text, or a place where no character goes on. -/
def IsCharBoundary (bs : List UInt8) (i : Nat) : Prop :=
  i = bs.length ∨ ∃ b, bs[i]? = some b ∧ ¬IsContinuation b

/-- The first byte of a character is the one that is no continuation. -/
theorem exists_enc_eq (c : Char) :
    ∃ b rest, utf8.enc c = b :: rest ∧ ¬IsContinuation b ∧ ∀ b' ∈ rest, IsContinuation b' := by
  have hmax := char_toNat_lt c
  have hcontinuation (n : Nat) : IsContinuation (UInt8.ofNat (n % 64 + 128)) := by
    have hcode : (UInt8.ofNat (n % 64 + 128)).toNat = n % 64 + 128 := code_uint8_ofNat (by omega)
    rw [IsContinuation, hcode]
    omega
  have hfirst {n : Nat} (hn : n < 256) (h : n < 128 ∨ 192 ≤ n) : ¬IsContinuation (UInt8.ofNat n) := by
    have hcode : (UInt8.ofNat n).toNat = n := code_uint8_ofNat hn
    rw [IsContinuation, hcode]
    omega
  change ∃ b rest, String.utf8EncodeChar c = b :: rest ∧ _
  have hval : c.val.toNat = c.toNat := rfl
  simp only [String.utf8EncodeChar, hval]
  split_ifs with h1 h2 h3
  · exact ⟨_, _, rfl, hfirst (by omega) (by omega), fun b hb => absurd hb List.not_mem_nil⟩
  · refine ⟨_, _, rfl, hfirst (by omega) (by omega), ?_⟩
    simp only [List.forall_mem_cons, hcontinuation, List.not_mem_nil, false_implies, implies_true, and_true]
  · refine ⟨_, _, rfl, hfirst (by omega) (by omega), ?_⟩
    simp only [List.forall_mem_cons, hcontinuation, List.not_mem_nil, false_implies, implies_true, and_true]
  · refine ⟨_, _, rfl, hfirst (by omega) (by omega), ?_⟩
    simp only [List.forall_mem_cons, hcontinuation, List.not_mem_nil, false_implies, implies_true, and_true]

/-- A text has two sides exactly at its character boundaries. -/
theorem isSome_splitAt_iff : (splitAt s i).isSome ↔ IsCharBoundary (bytes s) i := by
  constructor
  · intro h
    obtain ⟨⟨t, u⟩, hsides⟩ := Option.isSome_iff_exists.1 h
    obtain ⟨rfl, rfl⟩ := splitAt_eq_some_iff.1 hsides
    cases u with
    | nil =>
        rw [List.append_nil]
        exact .inl rfl
    | cons c u =>
        -- behind the offset a character begins
        obtain ⟨b, rest, henc, hb, -⟩ := exists_enc_eq c
        refine .inr ⟨b, ?_, hb⟩
        rw [bytes, Encoding.encode_append, len, bytes, List.getElem?_append_right (Nat.le_refl _), Nat.sub_self,
          Encoding.encode_cons, henc]
        rfl
  · intro h
    induction s generalizing i with
    | nil =>
        rcases h with rfl | ⟨b, hb, -⟩
        · rfl
        · cases hb
    | cons c s ih =>
        obtain ⟨first, rest, henc, -, hrest⟩ := exists_enc_eq c
        cases i with
        | zero =>
            rfl
        | succ i =>
            have hbytes : bytes (c :: s) = first :: (rest ++ bytes s) := by
              rw [bytes, Encoding.encode_cons, henc, List.cons_append]
              rfl
            rw [hbytes] at h
            rw [splitAt, henc, List.length_cons]
            rcases Nat.lt_or_ge i rest.length with hinside | hbehind
            · -- the byte at the offset is a continuation
              exfalso
              rcases h with hend | ⟨b, hb, hboundary⟩
              · rw [List.length_cons, List.length_append] at hend
                omega
              · rw [List.getElem?_cons_succ, List.getElem?_append_left hinside] at hb
                exact hboundary (hrest b (List.mem_of_getElem? hb))
            · -- the whole character is in front of the offset
              rw [if_neg (by omega), Option.isSome_map, Nat.add_sub_add_right]
              apply ih
              rcases h with hend | ⟨b, hb, hboundary⟩
              · rw [List.length_cons, List.length_append] at hend
                exact .inl (by omega)
              · rw [List.getElem?_cons_succ, List.getElem?_append_right hbehind] at hb
                exact .inr ⟨b, hb, hboundary⟩

example : splitAt ['a', 'é'] 2 = none := by
  decide

theorem splitAt_append (s t : List Char) : splitAt (s ++ t) (len s) = some (s, t) :=
  splitAt_eq_some_iff.2 ⟨rfl, rfl⟩

theorem sliceFrom_append (s t : List Char) : sliceFrom (s ++ t) (len s) = some t := by
  rw [sliceFrom, splitAt_append]
  rfl

theorem sliceTo_append (s t : List Char) : sliceTo (s ++ t) (len s) = some s := by
  rw [sliceTo, splitAt_append]
  rfl

theorem slice_append (s t u : List Char) : slice (s ++ t ++ u) (len s) (len (s ++ t)) = some t := by
  rw [slice, sliceTo_append]
  exact sliceFrom_append s t

theorem replaceRange_append (s t u text : List Char) :
    replaceRange (s ++ t ++ u) (len s) (len (s ++ t)) text = some (s ++ text ++ u) := by
  have hcut := splitAt_append (s ++ t) u
  rw [replaceRange, hcut]
  change (sliceTo (s ++ t) (len s) >>= fun front => some (front ++ text ++ u)) = _
  rw [sliceTo_append]
  rfl

/-! ## ASCII -/

theorem sliceFrom_ascii (h : ∀ c ∈ s, code c < 128) (t : List Char) : sliceFrom (s ++ t) s.length = some t := by
  rw [← len_of_ascii h]
  exact sliceFrom_append s t

theorem sliceTo_ascii (h : ∀ c ∈ s, code c < 128) (t : List Char) : sliceTo (s ++ t) s.length = some s := by
  rw [← len_of_ascii h]
  exact sliceTo_append s t

theorem slice_ascii (hs : ∀ c ∈ s, code c < 128) (ht : ∀ c ∈ t, code c < 128) (u : List Char) :
    slice (s ++ t ++ u) s.length (s.length + t.length) = some t := by
  rw [← len_of_ascii hs, ← len_of_ascii ht, ← len_append]
  exact slice_append s t u

theorem replaceRange_ascii (hs : ∀ c ∈ s, code c < 128) (ht : ∀ c ∈ t, code c < 128) (u text : List Char) :
    replaceRange (s ++ t ++ u) s.length (s.length + t.length) text = some (s ++ text ++ u) := by
  rw [← len_of_ascii hs, ← len_of_ascii ht, ← len_append]
  exact replaceRange_append s t u text

theorem truncate_ascii (h : ∀ c ∈ s, code c < 128) (n : Nat) : truncate s n = some (s.take n) := by
  have hlen := len_of_ascii h
  have htake : ∀ c ∈ s.take n, code c < 128 := fun c hc => h c (List.mem_of_mem_take hc)
  rw [truncate]
  split_ifs with hn
  · have hcut := sliceTo_ascii htake (s.drop n)
    rw [List.take_append_drop, List.length_take, Nat.min_eq_left (by omega)] at hcut
    exact hcut
  · rw [List.take_of_length_le (by omega)]

/-! ## Places that were found, and places inside -/

/-- An offset that was found is behind the characters without the property. -/
theorem exists_of_find {p : Char → Bool} (h : find p s = some i) : ∃ t c u, s = t ++ c :: u ∧ i = len t ∧ p c = true := by
  rw [find] at h
  split_ifs at h with hany
  have hparts := List.takeWhile_append_dropWhile (p := fun c => !p c) (l := s)
  cases hrest : s.dropWhile fun c => !p c with
  | nil =>
      -- everything was dropped, though a character has the property
      obtain ⟨c, hc, hpc⟩ := List.any_eq_true.1 hany
      have hnot := List.dropWhile_eq_nil_iff.1 hrest c hc
      rw [hpc] at hnot
      cases hnot
  | cons c u =>
      have hpc := List.head?_dropWhile_not (fun c => !p c) s
      rw [hrest, List.head?_cons] at hpc
      rw [hrest] at hparts
      exact ⟨_, c, u, hparts.symm, (Option.some.inj h).symm, by simpa using hpc⟩

theorem exists_of_findStr {needle : List Char} (h : findStr needle s = some i) :
    ∃ t u, s = t ++ needle ++ u ∧ i = len t := by
  obtain ⟨t, ht, rfl⟩ := Option.map_eq_some_iff.1 h
  obtain ⟨u, rfl⟩ := exists_of_before ht
  exact ⟨t, u, rfl, rfl⟩

theorem index_eq {α : Type} {l : List α} (h : i < l.length) : index l i = some l[i] :=
  List.getElem?_eq_getElem h

theorem setIndex_eq {α : Type} {l : List α} (h : i < l.length) (a : α) : setIndex l i a = some (l.set i a) :=
  if_pos h

theorem sliceList_eq {α : Type} {l : List α} (hij : i ≤ j) (hj : j ≤ l.length) :
    sliceList l i j = some ((l.take j).drop i) :=
  if_pos ⟨hij, hj⟩

end Str
