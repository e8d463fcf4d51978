import CanonicalPath.C.Strings

/-!
# C grammar — roots, markers and dot cleanup of the C port

The grammar functions of `canonicalpath.c`.  They allocate every result with a computed length and fill
it by hand, so each of them may go out of bounds in this model; that they never do is proved with what
they return.

* `splitRootParse` : the root parser
* `prepareNativePosix` : native POSIX input
* `StringVec` : the growing vector of components
* `cleanCanonical`, `normalizeMountRoot` : dot cleanup and mount roots
-/

namespace CanonicalPath

namespace C

open CodeUnit CString

/-- The `prefix` and the `rest` of a parsed value. -/
structure SplitRoot where
  rootPrefix : Chars
  rest : Chars
  deriving DecidableEq, Repr

/-! ## Roots -/

def isWindowsRoot (rootPrefix : Chars) : Option Bool :=
  (charAt rootPrefix 0).map (· != 0) <&&> (strcmpEq rootPrefix (literal (lit "/"))).map (!·)

def isDriveRoot (rootPrefix : Chars) : Option Bool :=
  hasDriveRoot rootPrefix <||>
    (startsWith rootPrefix (literal (lit "//?/")) <&&> do hasDriveRoot (← advance rootPrefix 4))

/-- `(len == 1 && cursor[0] == '.')`. -/
def isDot (cursor : Chars) (len : Nat) : Option Bool :=
  some (len == 1) <&&> (charAt cursor 0).map (· == chr '.')

/-- `(len == 2 && cursor[0] == '.' && cursor[1] == '.')`. -/
def isDotDot (cursor : Chars) (len : Nat) : Option Bool :=
  some (len == 2) <&&> (charAt cursor 0).map (· == chr '.') <&&> (charAt cursor 1).map (· == chr '.')

/-- The length of the component at `cursor`, up to the separator that was found. -/
def componentLen (cursor : Chars) (slash : Option Nat) : Option Nat :=
  match slash with
  | none => strlen cursor
  | some len => some len

/-- The names that no server and no share may have. -/
def isBadShare (server share : Chars) (serverLen shareLen : Nat) : Option Bool :=
  some (serverLen == 0) <||> some (shareLen == 0)
    <||> isDot server serverLen <||> isDotDot server serverLen
    <||> isDot share shareLen <||> isDotDot share shareLen

def splitUncRoot (value leader : Chars) : Run SplitRoot := do
  let leaderLen ← strlen leader
  let server ← advance value leaderLen
  match ← strchr (chr '/') server with
  | none => fail .invalidPath
  | some serverLen =>
      let share ← advance server (serverLen + 1)
      let second ← strchr (chr '/') share
      let shareLen ← componentLen share second
      if ← isBadShare server share serverLen shareLen then
        fail .invalidPath
      else
        match second with
        | none =>
            let rootPrefix ← strndup (some value) (← strlen value)
            let rest ← strdup (some (literal []))
            return { rootPrefix, rest }
        | some second =>
            let rootPrefix ← strndup (some value) (leaderLen + serverLen + 1 + second)
            let rest ← strdup (some (← advance share (second + 1)))
            return { rootPrefix, rest }

/-- The first test of `cp_split_root_parse`. -/
def hasRootBackslash (value : Chars) : Option Bool :=
  (hasDriveRoot value <||> startsWith value (literal (lit "//")))
    <&&> (strchr (chr '\\') value).map Option.isSome

def splitRootParse (value : Chars) : Run SplitRoot := do
  -- a Windows root is refused for its backslash before it is read
  if ← hasRootBackslash value then
    fail .invalidPath
  else if ← startsWith value (literal (lit "//?/")) then
    let tail ← advance value 4
    if ← hasDriveRoot tail then
      let rootPrefix ← strndup (some value) 7
      let rest ← strdup (some (← advance value 7))
      return { rootPrefix, rest }
    else if ← startsWith tail (literal (lit "UNC/")) then
      splitUncRoot value (literal (lit "//?/UNC/"))
    else
      fail .invalidPath
  else if ← hasDriveRoot value then
    let rootPrefix ← strndup (some value) 3
    let rest ← strdup (some (← advance value 3))
    return { rootPrefix, rest }
  else if ← startsWith value (literal (lit "//")) then
    splitUncRoot value (literal (lit "//"))
  else if (← charAt value 0) = chr '/' then
    let rootPrefix ← strdup (some (literal (lit "/")))
    let rest ← strdup (some (← advance value 1))
    return { rootPrefix, rest }
  else if ← isDriveRelative value then
    fail .driveRelativePath
  else
    let rootPrefix ← strdup (some (literal []))
    let rest ← strdup (some value)
    return { rootPrefix, rest }

def lowercaseDrive (value : Chars) : Option Chars := do
  if ← hasDriveRoot value then
    store value 0 (lower (← charAt value 0))
  else if ← startsWith value (literal (lit "//?/")) <&&> do hasDriveRoot (← advance value 4) then
    store value 4 (lower (← charAt value 4))
  else
    some value

/-! ## The relative marker -/

def needsRelativeMarker (value : Chars) : Option Bool := do
  let len ← strlen value
  some (decide (2 ≤ len)) <&&> (charAt value 0).map isLetter <&&> (charAt value 1).map (· == chr ':')

def markRelative (value : Chars) : Option Chars := do
  if !(← needsRelativeMarker value) then
    strdup (some value)
  else
    let len ← strlen value
    let result ← memcpy (malloc (len + 3)) 0 (literal (lit "./")) 2
    memcpy result 2 value (len + 1)

/-! ## Native POSIX input -/

/-- The loop that counts the leading slashes. -/
def leadingSlashes : Chars → Option Nat
  | [] => none
  | none :: _ => none
  | some a :: value => if a = chr '/' then (leadingSlashes value).map (· + 1) else some 0

def prepareNativePosix (value : Chars) : Run Chars := do
  let leading ← leadingSlashes value
  if leading = 2 then
    fail .invalidPath
  else if leading > 2 then
    let rest ← advance value leading
    let restLen ← strlen rest
    let out ← store (malloc (restLen + 2)) 0 (chr '/')
    liftM (memcpy out 1 rest (restLen + 1))
  else
    liftM (markRelative value)

/-! ## The component vector -/

/-- The items and the capacity of the array that holds them. -/
structure StringVec where
  items : List Chars := []
  cap : Nat := 0
  deriving DecidableEq, Repr

def StringVec.push (vec : StringVec) (value : Chars) (len : Nat) : Option StringVec := do
  let cap :=
    if vec.items.length = vec.cap then
      if vec.cap = 0 then 8 else vec.cap * 2
    else
      vec.cap
  let item ← strndup (some value) len
  -- the item is written behind the last one
  if vec.items.length < cap then
    some { items := vec.items ++ [item], cap := cap }
  else
    none

def StringVec.pop (vec : StringVec) : StringVec :=
  { vec with items := vec.items.dropLast }

/-- The loop that adds up the lengths; `more` is `i > start`. -/
def joinTotal (total : Nat) (more : Bool) : List Chars → Option Nat
  | [] => some total
  | item :: items => do
      let len ← strlen item
      joinTotal (total + len + if more then 1 else 0) true items

/-- The loop that writes the items and the separators between them. -/
def joinLoop (result : Chars) (offset : Nat) (more : Bool) : List Chars → Option (Chars × Nat)
  | [] => some (result, offset)
  | item :: items => do
      let result ← if more then store result offset (chr '/') else some result
      let offset := if more then offset + 1 else offset
      let len ← strlen item
      let result ← memcpy result offset item len
      joinLoop result (offset + len) true items

def joinPartsRange (vec : StringVec) (start : Nat) : Option Chars := do
  let total ← joinTotal 0 false (vec.items.drop start)
  let (result, offset) ← joinLoop (malloc (total + 1)) 0 false (vec.items.drop start)
  store result offset 0

/-! ## Dot cleanup -/

/-- What a turn of the component loop does with a component. -/
inductive Turn
  | skip
  | up
  | push

/-- The tests of a turn, on the component of length `len` at `cursor`. -/
def cleanTurn (cursor : Chars) (len : Nat) : Option Turn := do
  if ← some (len == 0) <||> isDot cursor len then
    return .skip
  else if ← isDotDot cursor len then
    return .up
  else
    return .push

/-- One turn of the component loop. -/
def cleanComponent (rootPrefix cursor : Chars) (len : Nat) (parts : StringVec) : Run StringVec := do
  match ← cleanTurn cursor len with
  | .skip => return parts
  | .up =>
      if parts.items.length > 0 then
        return parts.pop
      else if (← charAt rootPrefix 0) = 0 then
        fail .invalidPath
      else
        return parts
  | .push => parts.push cursor len

/-- The component loop; each turn moves the cursor behind one separator, so the cells of the rest are
fuel enough. -/
def cleanLoop (rootPrefix : Chars) : Nat → Chars → StringVec → Run StringVec
  | 0, _, _ => liftM (none : Option StringVec)
  | fuel + 1, cursor, parts => do
      let slash ← strchr (chr '/') cursor
      let len ← componentLen cursor slash
      let parts ← cleanComponent rootPrefix cursor len parts
      match slash with
      | none => return parts
      | some slash =>
          let cursor ← advance cursor (slash + 1)
          cleanLoop rootPrefix fuel cursor parts

/-- The value that `cp_clean_canonical` writes for a root and the joined components. -/
def writeCleaned (rootPrefix joined : Chars) : Option Chars := do
  let prefixLen ← strlen rootPrefix
  let joinedLen ← strlen joined
  if prefixLen = 0 then
    if joinedLen = 0 then strdup (some (literal (lit "."))) else markRelative joined
  else if ← strcmpEq rootPrefix (literal (lit "/")) then
    if joinedLen = 0 then
      strdup (some (literal (lit "/")))
    else
      let out ← store (malloc (joinedLen + 2)) 0 (chr '/')
      memcpy out 1 joined (joinedLen + 1)
  else if (← charAt rootPrefix (prefixLen - 1)) = chr '/' then
    if joinedLen = 0 then
      strdup (some rootPrefix)
    else
      let out ← memcpy (malloc (prefixLen + joinedLen + 1)) 0 rootPrefix prefixLen
      memcpy out prefixLen joined (joinedLen + 1)
  else
    if joinedLen = 0 then
      strdup (some rootPrefix)
    else
      let out ← memcpy (malloc (prefixLen + 1 + joinedLen + 1)) 0 rootPrefix prefixLen
      let out ← store out prefixLen (chr '/')
      memcpy out (prefixLen + 1) joined (joinedLen + 1)

def cleanCanonical (value : Chars) : Run Chars := do
  if (← charAt value 0) = 0 then
    fail .emptyPath
  else
    let root ← splitRootParse value
    let rootPrefix ← lowercaseDrive root.rootPrefix
    let parts ← cleanLoop rootPrefix root.rest.length root.rest {}
    let joined ← joinPartsRange parts 0
    writeCleaned rootPrefix joined

def cleanNativePosix (value : Chars) : Run Chars := do
  let prepared ← prepareNativePosix value
  cleanCanonical prepared

/-! ## Mount roots -/

/-- The `wsl` options; a length of zero stands for a terminated string. -/
structure WSLOptions where
  enabled : Int := 0
  mountRoot : Option Chars := none
  mountRootLen : Nat := 0
  deriving DecidableEq, Repr

def normalizeMountRoot (options : WSLOptions) : Run Chars := do
  let raw ←
    match options.mountRoot with
    | none => if options.mountRootLen ≠ 0 then fail .invalidPath else pure (literal [])
    | some raw => pure raw
  let len ← if options.mountRootLen = 0 then liftM (strlen raw) else pure options.mountRootLen
  if ← hasNul raw len then
    fail .nulByte
  else
    let copy ← strndup (some raw) len
    let value := if len = 0 then literal (lit "/mnt") else copy
    if (← charAt value 0) = chr '/' then
      cleanNativePosix value
    else
      fail .invalidPath

end C

end CanonicalPath
