import CanonicalPath.TS.FakeBridge

/-!
# TS glob — the matcher of a scoped query

`compileScopedGlob` of `fake-bridge.ts`.  A matcher keeps two rows of cells from one call to the next; a call fills
them again, cell by cell, and swaps them behind each unit of the path.

* `tokenize` : the tokens of a glob
* `Matcher.test` : one call
* `compileScopedGlob` : a matcher and its two rows
-/

namespace CanonicalPath

namespace TS

open CodeUnit Outcome

/-! ## Tokens -/

inductive GlobToken
  | unit (ch : UInt16)
  /-- `**` -/
  | globstar
  deriving DecidableEq, Repr

/-- The loop over the units of a glob. -/
def tokenize : List GlobToken → Units → List GlobToken
  | tokens, [] => tokens
  | tokens, [ch] => tokens ++ [.unit ch]
  | tokens, ch :: next :: more =>
      if ch = chr '*' ∧ next = chr '*' then
        -- consecutive globstars have identical languages
        tokenize (if tokens.getLast? = some .globstar then tokens else tokens ++ [.globstar]) more
      else
        tokenize (tokens ++ [.unit ch]) (next :: more)

def isLineTerminator (value : UInt16) : Bool :=
  value = 10 ∨ value = 13 ∨ value = 0x2028 ∨ value = 0x2029

/-- Whether a token is one of the two stars. -/
def GlobToken.isStar (token : GlobToken) : Bool :=
  token = .unit (chr '*') ∨ token = .globstar

/-- What a star consumes. -/
def GlobToken.consumes (token : GlobToken) (ch : UInt16) : Bool :=
  if token = .unit (chr '*') then ch ≠ chr '/' else !isLineTerminator ch

/-- What any other token is compared with. -/
def GlobToken.equals (token : GlobToken) (ch : UInt16) : Bool :=
  if token = .unit (chr '?') then ch ≠ chr '/' else token = .unit ch

/-! ## Rows -/

abbrev Row := List UInt8

def cell (row : Row) (i : Nat) : UInt8 :=
  row.getD i 0

/-- The loop that fills the first row of a call. -/
def resetCells : List GlobToken → Nat → Row → Row
  | [], _, previous => previous
  | token :: more, i, previous =>
      resetCells more (i + 1) (previous.set i (if token.isStar then cell previous (i - 1) else 0))

/-- A cell, from the one to its left, the one above that and the one above itself. -/
def nextCell (token : GlobToken) (ch : UInt16) (left corner above : UInt8) : UInt8 :=
  if token.isStar then
    if left ≠ 0 then left else if token.consumes ch then above else 0
  else if corner ≠ 0 ∧ token.equals ch then
    1
  else
    0

/-- The loop that fills the row of one unit. -/
def advanceCells (ch : UInt16) (previous : Row) : List GlobToken → Nat → Row → Row
  | [], _, current => current
  | token :: more, i, current =>
      advanceCells ch previous more (i + 1)
        (current.set i (nextCell token ch (cell current (i - 1)) (cell previous (i - 1)) (cell previous i)))

/-- The loop over the units of a path, which swaps the rows. -/
def scanPath (tokens : List GlobToken) : Units → Row → Row → Row × Row
  | [], previous, current => (previous, current)
  | ch :: more, previous, current =>
      scanPath tokens more (advanceCells ch previous tokens 1 (current.set 0 0)) previous

/-! ## Matchers -/

structure Matcher where
  tokens : List GlobToken
  previous : Row
  current : Row

namespace Matcher

def width (m : Matcher) : Nat :=
  m.tokens.length + 1

/-- The closure: its answer with what remains of the budget, and the matcher it leaves. -/
def test (m : Matcher) (path : Units) (remaining : Nat) : Except PathError (Bool × Nat) × Matcher :=
  match consume (m.width * (path.length + 1)) remaining with
  | .error e => (.error e, m)
  | .ok remaining =>
      -- both rows outlive the call
      let rows := scanPath m.tokens path (resetCells m.tokens 1 (m.previous.set 0 1)) m.current
      (.ok (cell rows.1 (m.width - 1) ≠ 0, remaining), { m with previous := rows.1, current := rows.2 })

/-- One call after another, each with the budget it is given. -/
def testAll : Matcher → List (Units × Nat) → List (Except PathError (Bool × Nat))
  | _, [] => []
  | m, (path, remaining) :: more => (m.test path remaining).1 :: testAll (m.test path remaining).2 more

end Matcher

def compileScopedGlob (glob : Units) : Matcher :=
  let tokens := tokenize [] glob
  { tokens := tokens
    previous := List.replicate (tokens.length + 1) 0
    current := List.replicate (tokens.length + 1) 0 }

end TS

end CanonicalPath
