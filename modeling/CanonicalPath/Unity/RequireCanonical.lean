import CanonicalPath.Unity.Grammar

/-!
# RequireCanonical — the in-place check of canonical data

`RequireCanonical` of the C# port, in the Unity runtime and in the package.  Where `cleanGrammar` rebuilds a string to
be compared, it compares lengths and walks the components of the rest by index.

* `checkComponents` : the loop over the indices of the rest
* `GrammarRoot.text` : what the returned prefix and rest reassemble to
-/

namespace CanonicalPath

namespace Unity

open CodeUnit Segments

variable {α : Type} [DecidableEq α] [CodeUnit α]

/-- The separator that a UNC root needs in front of a rest. -/
def GrammarRoot.separatorLength (parsed : GrammarRoot α) : Nat :=
  if parsed.rootPrefix.length > 0 ∧ parsed.rest.length > 0 ∧ endsWith parsed.rootPrefix (lit "/") = false then
    1
  else
    0

/-- The string that a prefix and a rest reassemble to. -/
def GrammarRoot.text (parsed : GrammarRoot α) : List α :=
  parsed.rootPrefix ++ List.replicate parsed.separatorLength (chr '/') ++ parsed.rest

/-- A drive behind the relative marker. -/
def isMarkedDrive : List α → Bool
  | _ :: _ :: c :: d :: _ => isLetter c && d == chr ':'
  | _ => false

/-- The component between two indices of the rest may not stay. -/
def IsDropped (rest : List α) (start length : Nat) : Prop :=
  length = 0 ∨ rest[start]? = some (chr '.') ∧
    (length = 1 ∨ length = 2 ∧ rest[start + 1]? = some (chr '.'))

instance (rest : List α) (start length : Nat) : Decidable (IsDropped rest start length) :=
  inferInstanceAs (Decidable (_ ∨ _))

/-- The loop of `requireCanonical`. -/
def checkComponents (rest : List α) (start index : Nat) : Except PathError Unit :=
  if index ≤ rest.length then
    if index < rest.length ∧ rest[index]? ≠ some (chr '/') then
      checkComponents rest start (index + 1)
    else if IsDropped rest start (index - start) then
      newError .invalidPath "path must be lexically cleaned canonical data"
    else
      checkComponents rest (index + 1) (index + 1)
  else
    .ok ()
termination_by rest.length + 1 - index

def requireCanonical (value : List α) (allowDriveCase : Bool := false) : Except PathError (GrammarRoot α) := do
  let parsed ← parseGrammar value
  let driveCase := allowDriveCase = true ∧ (parsed.kind = .drive ∨ parsed.kind = .extendedDrive)
  if (¬driveCase ∧ startsWith value parsed.rootPrefix = false) ∨
      value.length ≠ parsed.rootPrefix.length + parsed.separatorLength + parsed.rest.length then
    newError .invalidPath "path must be lexically cleaned canonical data"
  else if parsed.rest.length = 0 ∨ (parsed.kind = .relative ∧ value = lit ".") then
    .ok parsed
  else if parsed.kind = .relative ∧ startsWith value (lit "./") = true then
    if isMarkedDrive value = true then do
      checkComponents parsed.rest 2 2
      .ok parsed
    else
      newError .invalidPath "relative marker must disambiguate a drive-like component"
  else do
    checkComponents parsed.rest 0 0
    .ok parsed

end Unity

end CanonicalPath
