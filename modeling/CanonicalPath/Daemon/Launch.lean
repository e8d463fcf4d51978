import CanonicalPath.Daemon.BootstrapSafety
import CanonicalPath.Daemon.CredentialsSafety

/-!
# Launch — the daemon takes over the token of a launch

`readToken` of `canonicalfs-daemon`, with the checks of the Unix build, on the file that `canonicalfs-bootstrap` wrote.

* `readToken` : the token of a private file, or of the environment
* `readToken_eq_ok_iff` : what it returns, and when
* `Accepted` : a server that is started with the token accepts it
* `launch_authorizes` : the token in `connection.json` is the one that the daemon reads and accepts
-/

namespace CanonicalPath

namespace Daemon

namespace Launch

open CodeUnit

open Bootstrap (Fits Started StartError validateCapabilityToken)

open Credentials (Connection FileInfo Generated Libraries Stands bootstrapEndpoint complete connectionOf credentialFiles
  generatedToken hexEncode launchHost launchLibraries planOf planOf_files planOf_parts published run_spec validateAccess)

/-! ## The token file -/

/-- What the daemon sees of the host. -/
structure Source where
  /-- `CANONICALFS_DAEMON_TOKEN`, empty where it is not set. -/
  environment : Bytes
  geteuid : Int
  openFile : Bytes → Option Nat
  /-- With the size of the file. -/
  stat : Nat → Option (FileInfo × Nat)
  /-- What the file holds when it is read. -/
  content : Nat → Option Bytes

def validateTokenFileOwner (geteuid : Int) (info : FileInfo) : Except StartError Unit :=
  match info.uid with
  | none => .error (.refused "cannot determine token file owner")
  | some uid =>
    if geteuid < 0 then
      .error (.refused "cannot determine token file owner")
    else if (uid : Int) ≠ geteuid then
      .error (.refused "token file must be owned by the daemon effective user")
    else
      .ok ()

def validateTokenFileAccess (geteuid : Int) (info : FileInfo) : Except StartError Unit :=
  if info.perm &&& 0o077 ≠ 0 then
    .error (.refused "token file must only be accessible to its owner")
  else
    validateTokenFileOwner geteuid info

section

variable (source : Source)

/-- `ReadAt` of a buffer of this size from the front of the file; fewer bytes are an error. -/
def readAt (handle size : Nat) : Option Bytes :=
  -- nothing is read into an empty buffer
  if size = 0 then
    some []
  else
    match source.content handle with
    | none => none
    | some content => if content.length < size then none else some (content.take size)

/-- The branch of `readToken` for a token file. -/
def readTokenFile (file : Bytes) : Except StartError Bytes :=
  match source.openFile file with
  | none => .error (.refused "cannot open token file")
  | some handle =>
    match source.stat handle with
    | none => .error (.refused "token file must be a small regular file")
    | some (info, size) =>
      if info.isRegular = false ∨ 4096 < size then
        .error (.refused "token file must be a small regular file")
      else
        match validateTokenFileAccess source.geteuid info with
        | .error e => .error e
        | .ok () =>
          match readAt source handle size with
          | none => .error (.refused "cannot read token file")
          | some data => .ok data

def readToken (file : Bytes) : Except StartError Bytes := do
  let token ← if file = [] then .ok source.environment else readTokenFile source file
  let token := Go.trimSpace token
  validateCapabilityToken token
  .ok token

end

/-- A private file with this content. -/
structure Kept (source : Source) (file data : Bytes) (handle : Nat) (info : FileInfo) : Prop where
  named : file ≠ []
  opened : source.openFile file = some handle
  told : source.stat handle = some (info, data.length)
  regular : info.isRegular = true
  access : validateAccess source.geteuid info true = .ok ()
  content : source.content handle = some data

/-- The daemon accepts the files that the bootstrap command accepts. -/
theorem validateTokenFileAccess_iff (geteuid : Int) (info : FileInfo) :
    validateTokenFileAccess geteuid info = .ok () ↔ validateAccess geteuid info true = .ok () := by
  rw [validateTokenFileAccess, validateAccess]
  cases huid : info.uid with
  | none =>
      rw [validateTokenFileOwner, huid]
      split <;> simp
  | some uid =>
      rw [validateTokenFileOwner, huid]
      by_cases hperm : info.perm &&& 0o077 = 0
      · by_cases heuid : geteuid < 0
        · simp [hperm, heuid]
        · by_cases howned : (uid : Int) = geteuid
          · simp [hperm, heuid, howned]
          · simp [hperm, heuid, howned]
      · by_cases heuid : geteuid < 0
        · simp [hperm, heuid]
        · simp [hperm, heuid]

section

variable {source : Source} {file data token : Bytes} {handle : Nat} {info : FileInfo}

theorem readTokenFile_eq_ok_iff : readTokenFile source file = .ok data ↔ ∃ handle info size,
    source.openFile file = some handle ∧ source.stat handle = some (info, size) ∧ info.isRegular = true ∧ size ≤ 4096 ∧
      validateAccess source.geteuid info true = .ok () ∧ readAt source handle size = some data := by
  constructor
  · intro h
    rw [readTokenFile] at h
    -- the checks in the order in which the function makes them
    split at h
    · cases h
    rename_i handle hopened
    split at h
    · cases h
    rename_i info size htold
    split_ifs at h with hchecks
    rw [not_or, Bool.not_eq_false, Nat.not_lt] at hchecks
    split at h
    · cases h
    rename_i haccess
    split at h
    · cases h
    rename_i hread
    cases h
    exact ⟨handle, info, size, hopened, htold, hchecks.1, hchecks.2, (validateTokenFileAccess_iff _ _).1 haccess, hread⟩
  · rintro ⟨handle, info, size, hopened, htold, hregular, hsmall, haccess, hread⟩
    have hchecks : ¬(info.isRegular = false ∨ 4096 < size) :=
      not_or.2 ⟨ne_false_of_eq_true hregular, Nat.not_lt.2 hsmall⟩
    simp only [readTokenFile, hopened, htold, if_neg hchecks, (validateTokenFileAccess_iff _ _).2 haccess, hread]

/-- The end of `readToken`, which both branches share. -/
theorem checkToken_eq_ok_iff {read : Except StartError Bytes} :
    (read >>= fun data => validateCapabilityToken (Go.trimSpace data) >>= fun _ => .ok (Go.trimSpace data)) = .ok token ↔
      ∃ data, read = .ok data ∧ Go.trimSpace data = token ∧ validateCapabilityToken token = .ok () := by
  constructor
  · intro h
    cases hread : read with
    | error e =>
        rw [hread] at h
        cases h
    | ok data =>
        rw [hread] at h
        cases hvalid : validateCapabilityToken (Go.trimSpace data) with
        | error e =>
            change (validateCapabilityToken (Go.trimSpace data) >>= _) = _ at h
            rw [hvalid] at h
            cases h
        | ok _ =>
            change (validateCapabilityToken (Go.trimSpace data) >>= _) = _ at h
            rw [hvalid] at h
            cases h
            exact ⟨data, rfl, rfl, hvalid⟩
  · rintro ⟨data, hread, htoken, hvalid⟩
    rw [hread]
    change (validateCapabilityToken (Go.trimSpace data) >>= fun _ => .ok (Go.trimSpace data)) = .ok token
    rw [htoken, hvalid]
    rfl

theorem readToken_eq_ok_iff : readToken source file = .ok token ↔ ∃ data,
    (if file = [] then source.environment = data else readTokenFile source file = .ok data) ∧
      Go.trimSpace data = token ∧ validateCapabilityToken token = .ok () := by
  by_cases hfile : file = []
  · rw [readToken, if_pos hfile]
    have hsame (data : Bytes) :
        source.environment = data ↔ (.ok source.environment : Except StartError Bytes) = .ok data :=
      (Except.ok.injEq ..).symm.to_iff
    simp only [if_pos hfile, hsame]
    exact checkToken_eq_ok_iff
  · rw [readToken, if_neg hfile]
    simp only [if_neg hfile]
    exact checkToken_eq_ok_iff

theorem Kept.readTokenFile (h : Kept source file data handle info) (hsmall : data.length ≤ 4096) :
    readTokenFile source file = .ok data := by
  refine readTokenFile_eq_ok_iff.2 ⟨handle, info, _, h.opened, h.told, h.regular, hsmall, h.access, ?_⟩
  rw [readAt]
  split_ifs with hempty
  · rw [List.length_eq_zero_iff.1 hempty]
  · rw [h.content]
    change (if data.length < data.length then none else some (data.take data.length)) = some data
    rw [if_neg (Nat.lt_irrefl _), List.take_length]

end

/-! ## Outer whitespace -/

/-- A byte of ASCII that is printed, and no space. -/
def Visible (a : UInt8) : Prop :=
  32 < a.toNat ∧ a.toNat < 127

/-- A block begins with a byte that is not visible. -/
def Blank (block : Bytes) : Prop :=
  ∃ b ∈ block.head?, b.toNat ≤ 32 ∨ 126 < b.toNat

theorem Blank.not_hasPrefix {block value : Bytes} (h : Blank block) (hvalue : ∀ a ∈ value.head?, Visible a) :
    Go.hasPrefix value block = false := by
  obtain ⟨b, hb, hblank⟩ := h
  obtain ⟨more, rfl⟩ := List.head?_eq_some_iff.1 hb
  rw [Bool.eq_false_iff]
  intro hprefix
  obtain ⟨tail, rfl⟩ := Go.hasPrefix_iff.1 hprefix
  obtain ⟨hlow, hhigh⟩ := hvalue b rfl
  omega

/-- Nothing is dropped in front of a visible byte. -/
theorem dropBlocks_of_visible {blocks : List Bytes} (hblocks : ∀ block ∈ blocks, Blank block) {value : Bytes}
    (hvalue : ∀ a ∈ value.head?, Visible a) (fuel : Nat) : Go.dropBlocks blocks fuel value = value := by
  cases fuel with
  | zero =>
      rfl
  | succ fuel =>
      have hnone : blocks.find? (Go.hasPrefix value) = none := by
        rw [List.find?_eq_none]
        intro block hblock
        rw [(hblocks block hblock).not_hasPrefix hvalue]
        exact Bool.false_ne_true
      rw [Go.dropBlocks, hnone]

theorem blank_left : ∀ block ∈ Go.spaces.map utf8.enc, Blank block := by
  unfold Blank
  decide

theorem blank_right : ∀ block ∈ Go.spaces.map fun c => (utf8.enc c).reverse, Blank block := by
  unfold Blank
  decide

section

variable {value : Bytes} (h : ∀ a ∈ value, Visible a)

include h

theorem visible_head : ∀ a ∈ value.head?, Visible a :=
  fun a ha => h a (List.mem_of_mem_head? ha)

theorem visible_last : ∀ a ∈ value.reverse.head?, Visible a :=
  fun a ha => h a (List.mem_reverse.1 (List.mem_of_mem_head? ha))

theorem trimSpace_of_visible : Go.trimSpace value = value := by
  simp only [Go.trimSpace, dropBlocks_of_visible blank_left (visible_head h),
    dropBlocks_of_visible blank_right (visible_last h), List.reverse_reverse]

/-- A line is trimmed to what stands on it. -/
theorem trimSpace_line (hne : value ≠ []) : Go.trimSpace (value ++ lit "\n") = value := by
  have hfront : ∀ a ∈ (value ++ lit "\n").head?, Visible a := by
    rw [List.head?_append_of_ne_nil _ hne]
    exact visible_head h
  have hreverse : (value ++ lit "\n").reverse = chr '\n' :: value.reverse := by
    rw [List.reverse_append]
    rfl
  have hbreak : (Go.spaces.map fun c => (utf8.enc c).reverse).find? (Go.hasPrefix (chr '\n' :: value.reverse)) =
      some (lit "\n") := by
    rfl
  rw [Go.trimSpace, dropBlocks_of_visible blank_left hfront]
  simp only [hreverse, List.length_append]
  -- the first turn from the right drops the line break, and there is no second one
  change (Go.dropBlocks _ (value.length + 1) (chr '\n' :: value.reverse)).reverse = value
  rw [Go.dropBlocks, hbreak]
  change (Go.dropBlocks _ value.length value.reverse).reverse = value
  rw [dropBlocks_of_visible blank_right (visible_last h), List.reverse_reverse]

theorem validateCapabilityToken_of_visible (hlong : 32 ≤ value.length) : validateCapabilityToken value = .ok () := by
  have habsent (c : UInt8) (hc : c.toNat ≤ 32) : c ∉ value := fun hmem => Nat.not_lt.2 hc (h c hmem).1
  rw [validateCapabilityToken, if_neg]
  rintro (hshort | hreturn | hbreak | htrim)
  · exact Nat.not_lt.2 hlong hshort
  · exact habsent _ (by decide) hreturn
  · exact habsent _ (by decide) hbreak
  · exact htrim (trimSpace_of_visible h)

end

/-! ## The token -/

theorem visible_hexByte (b : UInt8) : ∀ a ∈ (hexByte b : Bytes), Visible a :=
  forall_mem_hexByte (P := fun n => 32 < n ∧ n < 127) (by decide) b

theorem visible_generatedToken (generated : Generated) : ∀ a ∈ generatedToken generated, Visible a := by
  intro a ha
  obtain ⟨b, -, hb⟩ := List.mem_flatMap.1 ha
  exact visible_hexByte b a hb

theorem length_generatedToken (generated : Generated) : (generatedToken generated).length = 64 := by
  rw [generatedToken, hexEncode, length_flatMap_hexByte, Vector.length_toList]

theorem generatedToken_ne_nil (generated : Generated) : generatedToken generated ≠ [] := by
  rw [← List.length_pos_iff, length_generatedToken]
  decide

theorem validateCapabilityToken_generatedToken (generated : Generated) :
    validateCapabilityToken (generatedToken generated) = .ok () := by
  apply validateCapabilityToken_of_visible (visible_generatedToken generated)
  rw [length_generatedToken]
  decide

/-- A server keeps its token without the whitespace around it. -/
theorem newServer_capabilityToken {host : Bootstrap.Host} {options : Bootstrap.Options} {s s' : Bootstrap.State}
    {started : Started} (h : Bootstrap.newServer host options s = (.ok started, s')) :
    started.capabilityToken = Go.trimSpace options.capabilityToken := by
  obtain ⟨_, _, -, h⟩ := Effect.bind_eq_ok_iff.1 h
  obtain ⟨_, _, -, h⟩ := Effect.bind_eq_ok_iff.1 h
  obtain ⟨_, _, -, h⟩ := Effect.bind_eq_ok_iff.1 h
  obtain ⟨_, _, -, h⟩ := Effect.bind_eq_ok_iff.1 h
  cases h
  rfl

theorem isAuthorized_iff (config : Service.Config) (r : Service.HttpRequest) :
    Service.isAuthorized config r = true ↔ r.authorization = Service.bearer ++ config.capabilityToken := by
  rw [Service.isAuthorized, Bool.and_eq_true, beq_iff_eq, Go.hasPrefix_iff]
  constructor
  · rintro ⟨⟨tail, htail⟩, hrest⟩
    rw [htail, List.drop_left] at hrest
    rw [htail, hrest]
  · intro h
    rw [h]
    exact ⟨⟨_, rfl⟩, List.drop_left ..⟩

/-- Every server that is started with this token accepts the one header that carries it. -/
def Accepted (token : Bytes) : Prop :=
  ∀ (host : Bootstrap.Host) (options : Bootstrap.Options) (started : Started) (s s' : Bootstrap.State),
    options.capabilityToken = token → Bootstrap.newServer host options s = (.ok started, s') →
      ∀ config, Fits config started → ∀ r, Service.isAuthorized config r = true ↔
        r.authorization = Service.bearer ++ token

theorem trimSpace_of_valid {token : Bytes} (h : validateCapabilityToken token = .ok ()) : Go.trimSpace token = token := by
  rw [validateCapabilityToken] at h
  split_ifs at h with hrefused
  rw [not_or, not_or, not_or, not_not] at hrefused
  exact hrefused.2.2.2

theorem accepted_of_valid {token : Bytes} (h : validateCapabilityToken token = .ok ()) : Accepted token := by
  intro host options started s s' htoken hstart config hfits r
  rw [isAuthorized_iff, hfits.capabilityToken, newServer_capabilityToken hstart, htoken, trimSpace_of_valid h]

/-! ## The two commands -/

section

variable {host : Credentials.Host} {libraries : Libraries} {hostName listen outDir : Bytes} {s s' : Credentials.State}

/-- A run that succeeds has generated its files. -/
theorem run_generates (h : Credentials.run host libraries hostName listen outDir s = (.ok (), s')) :
    ∃ endpoint files, bootstrapEndpoint libraries hostName listen = .ok endpoint ∧
      credentialFiles libraries hostName endpoint = some files := by
  obtain ⟨endpoint, s₁, hendpoint, h⟩ := Effect.bind_eq_ok_iff.1 h
  split_ifs at h with hdir
  · cases h
  obtain ⟨directory, s₂, -, h⟩ := Effect.bind_eq_ok_iff.1 h
  obtain ⟨outcome, s₃, hbody, h⟩ := Effect.bind_eq_ok_iff.1 h
  obtain ⟨_, s₄, -, h⟩ := Effect.bind_eq_ok_iff.1 h
  have houtcome : outcome = .ok () := congrArg Prod.fst h
  refine ⟨endpoint, ?_⟩
  cases hgenerated : credentialFiles libraries hostName endpoint with
  | none =>
      rw [hgenerated, houtcome] at hbody
      cases hbody
  | some files =>
      exact ⟨files, congrArg Prod.fst hendpoint, rfl⟩

theorem credentialFiles_token {endpoint : Bytes} {files : Bytes → Bytes}
    (h : credentialFiles libraries hostName endpoint = some files) : ∃ generated config,
      libraries.marshal (connectionOf libraries endpoint generated) = some config ∧
        files (lit "connection.json") = config ++ lit "\n" ∧ files (lit "token") = generatedToken generated ++ lit "\n" := by
  obtain ⟨generated, -, h⟩ := Option.bind_eq_some_iff.1 h
  obtain ⟨config, hconfig, h⟩ := Option.bind_eq_some_iff.1 h
  cases h
  exact ⟨generated, config, hconfig, rfl, rfl⟩

/-- All files of a run that succeeds are complete, in one directory. -/
theorem run_completes {handles : List FS.Shared.Handle} {calls : Nat}
    (h : Credentials.run host libraries hostName listen outDir ⟨handles, [], calls⟩ = (.ok (), s')) {endpoint : Bytes}
    {files : Bytes → Bytes} (hendpoint : bootstrapEndpoint libraries hostName listen = .ok endpoint)
    (hfiles : credentialFiles libraries hostName endpoint = some files) :
    ∃ directory, ∀ name ∈ published, (complete directory name (files name)).Holds s'.log := by
  have hbefore : Stands (planOf host libraries hostName listen outDir) (FS.Shared.openHandles handles)
      (.every (fun _ : Unit => False) fun _ => .mem .printed) ⟨handles, [], calls⟩ :=
    ⟨.nil, rfl, fun _ => False.elim, nofun, nofun⟩
  have hstands := (run_spec rfl (fun _ => planOf_parts) (fun _ _ => planOf_files) _ _ _ hbefore).1
  rw [h] at hstands
  have hend := hstands () rfl
  obtain ⟨front, back, hlog⟩ := List.append_of_mem hend.holds.2
  obtain ⟨⟨directory, -, hcomplete⟩, -⟩ := hend.lawful front _ back hlog
  rw [planOf_files hendpoint hfiles] at hcomplete
  refine ⟨directory, ?_⟩
  intro name hname
  rw [hlog]
  exact (complete directory name (files name)).append (hcomplete name hname) _

/-- A launch leaves its token in two complete files, and a daemon that is given the private one accepts that token. -/
theorem launch_authorizes {handles : List FS.Shared.Handle} {calls : Nat}
    (hrun : Credentials.run host libraries hostName listen outDir ⟨handles, [], calls⟩ = (.ok (), s')) :
    ∃ directory connection config, libraries.marshal connection = some config ∧
      (complete directory (lit "connection.json") (config ++ lit "\n")).Holds s'.log ∧
      (complete directory (lit "token") (connection.token ++ lit "\n")).Holds s'.log ∧ Accepted connection.token ∧
        ∀ source file handle info, Kept source file (connection.token ++ lit "\n") handle info →
          readToken source file = .ok connection.token := by
  obtain ⟨endpoint, files, hendpoint, hfiles⟩ := run_generates hrun
  obtain ⟨directory, hcomplete⟩ := run_completes hrun hendpoint hfiles
  obtain ⟨generated, config, hconfig, hjson, htoken⟩ := credentialFiles_token hfiles
  have hvalid := validateCapabilityToken_generatedToken generated
  refine ⟨directory, connectionOf libraries endpoint generated, config, hconfig, ?_, ?_, accepted_of_valid hvalid, ?_⟩
  · rw [← hjson]
    exact hcomplete _ (by decide)
  · have hwritten := hcomplete (lit "token") (by decide)
    rw [htoken] at hwritten
    exact hwritten
  · intro source file handle info hkept
    have hsmall : (generatedToken generated ++ lit "\n").length ≤ 4096 := by
      rw [List.length_append, length_generatedToken]
      decide
    refine readToken_eq_ok_iff.2 ⟨generatedToken generated ++ lit "\n", ?_, ?_, hvalid⟩
    · rw [if_neg hkept.named]
      exact hkept.readTokenFile hsmall
    · exact trimSpace_line (visible_generatedToken generated) (generatedToken_ne_nil generated)

end

/-- Every name leads to a private file with this content. -/
def keptSource (data : Bytes) : Source where
  environment := []
  geteuid := 1000
  openFile := fun _ => some 0
  stat := fun _ => some ({ directory := false, perm := 0o600, uid := some 1000 }, data.length)
  content := fun _ => some data

theorem launch_authorizes_home : ∃ s directory, ∃ connection : Connection,
    Credentials.run launchHost launchLibraries (lit "127.0.0.1") (lit "127.0.0.1:8765") (lit "/home/new") ⟨[], [], 0⟩ =
      (.ok (), s) ∧ (complete directory (lit "token") (connection.token ++ lit "\n")).Holds s.log ∧
        readToken (keptSource (connection.token ++ lit "\n")) (lit "/home/new/token") = .ok connection.token := by
  have hok : (Credentials.run launchHost launchLibraries (lit "127.0.0.1") (lit "127.0.0.1:8765") (lit "/home/new")
      ⟨[], [], 0⟩).1 = .ok () := by
    decide +kernel
  cases hrun : Credentials.run launchHost launchLibraries (lit "127.0.0.1") (lit "127.0.0.1:8765") (lit "/home/new")
      ⟨[], [], 0⟩ with
  | mk outcome s =>
      rw [hrun] at hok
      cases hok
      obtain ⟨directory, connection, config, -, -, htoken, -, hread⟩ := launch_authorizes hrun
      refine ⟨s, directory, connection, rfl, htoken, ?_⟩
      have haccess : validateAccess 1000 { directory := false, perm := 0o600, uid := some 1000 } true = .ok () := by
        decide
      exact hread _ _ 0 _ ⟨List.cons_ne_nil _ _, rfl, rfl, rfl, haccess, rfl⟩

end Launch

end Daemon

end CanonicalPath
