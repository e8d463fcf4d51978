import CanonicalPath.Library.CodeUnit
import CanonicalPath.Library.Effect
import CanonicalPath.Library.Segments

/-!
# Burst — the buffer helper of the Unity package

`CanonicalPathBurst.cs`: a relative path is checked and copied from one buffer of UTF-16 units to another in one pass,
without a string.  The output is memory behind a pointer, and every index that is written is kept in a list, so that a
write behind the capacity would show.  The two buffers do not overlap.

* `validateRelativePrefix` : what is refused before anything is copied
* `copyUnit` : the body of the loop, `copyRelativeCanonical` : the helper
-/

namespace CanonicalPath

namespace Unity

namespace Burst

open CodeUnit Segments

/-- The statuses but `Ok`. -/
inductive Status
  | emptyPath
  | nulByte
  | absolutePath
  | driveRelativePath
  | invalidPath
  deriving DecidableEq, Repr

def isSeparator (value : UInt16) : Bool :=
  value == chr '/' || value == chr '\\'

def isWindowsDriveRoot (first second third : UInt16) : Bool :=
  isLetter first && second == chr ':' && isSeparator third

def isWindowsDriveRelative (first second : UInt16) (hasThird : Bool) (third : UInt16) : Bool :=
  isLetter first && second == chr ':' && (!hasThird || !isSeparator third)

/-- `none` is `Ok`. -/
def validateRelativePrefix (length : Nat) (first second : UInt16) (hasThird : Bool) (third : UInt16) : Option Status :=
  if length ≤ 0 then
    some .emptyPath
  else if first = 0 ∨ (length > 1 ∧ second = 0) ∨ (hasThird = true ∧ third = 0) then
    some .nulByte
  else if isSeparator first = true then
    some .absolutePath
  else if length ≥ 3 ∧ isWindowsDriveRoot first second third = true then
    some .absolutePath
  else if isWindowsDriveRelative first second hasThird third = true then
    some .driveRelativePath
  else
    none

/-! ## The loop -/

/-- The output and the counters of the pass. -/
structure Buffer where
  output : Nat → UInt16
  touched : List Nat := []
  written : Nat := 0
  previousSeparator : Bool := false
  componentDots : Int := 0

abbrev Copying (β : Type) := Effect Buffer Status β

/-- `output[written++] = value`. -/
def Buffer.push (s : Buffer) (value : UInt16) : Buffer :=
  { s with
    output := Function.update s.output s.written value
    touched := s.touched ++ [s.written]
    written := s.written + 1 }

def put (capacity : Int) (value : UInt16) : Copying Unit := do
  let written ← Effect.observe Buffer.written
  if (written : Int) ≥ capacity then
    Effect.fail .invalidPath
  else
    Effect.modify fun s => s.push value

/-- The dots of a component: one counter for those at its start and those at its end. -/
def nextDots (dots : Int) (value : UInt16) : Int :=
  if value = chr '.' then dots + 1 else -1

def copySeparator (capacity : Int) : Copying Unit := do
  let s ← Effect.observe fun s => s
  if s.componentDots = 2 then
    Effect.fail .invalidPath
  else do
    Effect.modify fun s => { s with componentDots := 0 }
    if s.previousSeparator = true ∨ s.written = 0 then
      pure ()
    else do
      put capacity (chr '/')
      Effect.modify fun s => { s with previousSeparator := true }

def copyOther (capacity : Int) (value : UInt16) : Copying Unit := do
  Effect.modify fun s => { s with componentDots := nextDots s.componentDots value }
  put capacity value
  Effect.modify fun s => { s with previousSeparator := false }

def copyUnit (capacity : Int) (value : UInt16) : Copying Unit :=
  if value = 0 then
    Effect.fail .nulByte
  else if isSeparator value = true then
    copySeparator capacity
  else
    copyOther capacity value

def copyUnits (capacity : Int) : List UInt16 → Copying Unit
  | [] => pure ()
  | value :: more => do
      copyUnit capacity value
      copyUnits capacity more

/-- What is left to do behind the loop. -/
def finishCopy : Copying Unit := do
  let s ← Effect.observe fun s => s
  if s.componentDots = 2 then
    Effect.fail .invalidPath
  else do
    if s.written > 0 ∧ s.output (s.written - 1) = chr '/' then
      Effect.modify fun s => { s with written := s.written - 1 }
    let written ← Effect.observe Buffer.written
    if written = 0 then Effect.fail .emptyPath else pure ()

/-- `none` is a null pointer; the buffer of the output is what there is in memory. -/
def copyRelativeCanonical (input : Option (List UInt16)) (output : Option (Nat → UInt16)) (capacity : Int) :
    Except Status Unit × Buffer :=
  match input, output with
  | some input, some output =>
      if capacity < 0 then
        (.error .invalidPath, { output := output })
      else if input.length ≤ 0 then
        (.error .emptyPath, { output := output })
      else
        let first := input.getD 0 0
        let second := if input.length > 1 then input.getD 1 0 else 0
        let third := if input.length > 2 then input.getD 2 0 else 0
        match validateRelativePrefix input.length first second (decide (input.length > 2)) third with
        | some status => (.error status, { output := output })
        | none => (copyUnits capacity input >>= fun _ => finishCopy) { output := output }
  | _, output => (.error .invalidPath, { output := output.getD fun _ => 0 })

/-- The units that a buffer holds. -/
def Buffer.text (s : Buffer) : List UInt16 :=
  (List.range s.written).map s.output

end Burst

end Unity

end CanonicalPath
