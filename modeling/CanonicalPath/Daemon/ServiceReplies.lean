import CanonicalPath.Daemon.ServiceSafety

/-!
# Service replies — what a reply says about the calls behind it

A request that changes a project makes one operation, and its reply is the reply to that.  Two of the scoped endpoints
make the missing directories of their anchor first, and these stay where the operation is refused.  What a read returns
is what the filesystem layer returned to this very request.

* `changes` : the calls of a request that can change something
* `Honest` : the relation between the calls of a request and its reply
* `service_replies` : it holds of every request of every run
-/

namespace CanonicalPath

namespace Daemon

namespace Service

open Threads

abbrev Answered : Type :=
  (call : Call) × call.Answer

/-! ## Calls that change a project -/

/-- The four operations, and the scoped open that makes the missing directories of its anchor.  Each can leave a part
of its work behind where it fails. -/
def changing : Call → Bool
  | .writeFile _ _ _ | .mkdirAll _ _ _ | .remove _ _ | .rename _ _ _ | .openScopedRoot _ _ true => true
  | _ => false

/-- The calls that can change something, in their order, whatever they were answered. -/
def changes (asked : List Answered) : List Answered :=
  asked.filter fun one => changing one.1

theorem changes_append (asked : List Answered) (one : Answered) :
    changes (asked ++ [one]) = changes asked ++ if changing one.1 then [one] else [] := by
  rw [changes, List.filter_append, List.filter_singleton, changes]
  cases changing one.1 <;> rfl

theorem changes_append_calm (asked : List Answered) {more : List Answered} (h : ∀ one ∈ more, changing one.1 = false) :
    changes (asked ++ more) = changes asked := by
  have hnone : more.filter (fun one => changing one.1) = [] := by
    rw [List.filter_eq_nil_iff]
    intro one hone
    rw [h one hone]
    exact Bool.false_ne_true
  rw [changes, List.filter_append, hnone, List.append_nil, changes]

/-! ## Programs that change nothing -/

/-- A program without changing calls. -/
abbrev Calm {α : Type} (program : Program α) : Prop :=
  program.Only fun call => changing call = false

/-- From no change to no change. -/
def Unchanged {α : Type} (asked : List Answered) (_ : α) : Prop :=
  changes asked = []

theorem Calm.yields {α : Type} {program : Program α} (h : Calm program) {asked : List Answered}
    (hasked : changes asked = []) : program.Yields Unchanged asked := by
  refine (Program.Only.yields h ⟨[], (List.append_nil asked).symm, by simp⟩).mono ?_
  rintro a asked' ⟨more, rfl, hmore⟩
  rw [Unchanged, changes_append_calm asked hmore, hasked]

theorem calm_ask {α : Type} {call : Call} {f : call.Answer → Program α} (h : changing call = false) (hf : ∀ answer, Calm (f answer)) :
    Calm (ask call >>= f) :=
  ⟨h, hf⟩

theorem calm_lock {α : Type} {f : Server → Program α} (hf : ∀ s, Calm (f s)) : Calm (lock >>= f) :=
  hf

theorem calm_closeAll (events : List RegistryEvent) : Calm (closeAll events) := by
  induction events with
  | nil =>
      trivial
  | cons event events ih =>
      cases event with
      | opened root =>
          exact ih
      | returned projectID root =>
          exact ih
      | replied reply =>
          exact ih
      | allowedClosed root =>
          exact calm_ask rfl fun _ => ih
      | closed root =>
          cases root with
          | none =>
              exact ih
          | some root =>
              exact calm_ask rfl fun _ => ih

theorem calm_expireRootsLocked (s : Server) : Calm (expireRootsLocked s) := by
  refine calm_ask rfl fun now => calm_ask rfl fun order => ?_
  exact Program.Only.bind (calm_closeAll _) fun _ => trivial

theorem calm_root (projectID : Bytes) : Calm (root projectID) := by
  rw [root]
  split_ifs with hempty
  · trivial
  refine calm_lock fun s => ?_
  refine Program.Only.bind (calm_expireRootsLocked s) fun s => ?_
  cases mapGet s.roots projectID with
  | none =>
      trivial
  | some root =>
      exact calm_ask rfl fun _ => trivial

theorem calm_takeRoot (projectID : Bytes) : Calm (takeRoot projectID) := by
  rw [takeRoot]
  split_ifs with hempty
  · trivial
  refine calm_lock fun s => ?_
  refine Program.Only.bind (calm_expireRootsLocked s) fun s => ?_
  cases mapGet s.roots projectID with
  | none =>
      trivial
  | some root =>
      trivial

theorem calm_openBelow (host : Bytes) (todo : List (Nat × Bytes)) : Calm (openBelow host todo) := by
  induction todo with
  | nil =>
      trivial
  | cons pair todo ih =>
      obtain ⟨allowed, anchor⟩ := pair
      rw [openBelow]
      split_ifs with hinside
      · cases FS.HostPath.rel anchor host with
        | none =>
            exact ih
        | some rel =>
            refine calm_ask rfl fun opened => ?_
            cases opened with
            | none =>
                exact ih
            | some root =>
                trivial
      · exact ih

theorem calm_openAuthorizedRoot (config : Config) (s : Server) (hostRoot : Bytes) :
    Calm (openAuthorizedRoot config s hostRoot) := by
  rw [openAuthorizedRoot]
  split_ifs with hnul
  · trivial
  refine calm_ask rfl fun host => ?_
  cases host with
  | none =>
      trivial
  | some host =>
      exact calm_openBelow host _

theorem calm_handleOpenProject (config : Config) (r : HttpRequest) : Calm (handleOpenProject config r) := by
  rw [handleOpenProject]
  cases decodeRequest r with
  | error reply =>
      trivial
  | ok req =>
      simp only
      split_ifs with hempty hlong
      · trivial
      · trivial
      refine calm_lock fun s => ?_
      refine Program.Only.bind (calm_expireRootsLocked s) fun s => ?_
      rw [register]
      split_ifs with hfull
      · trivial
      refine Program.Only.bind (calm_openAuthorizedRoot config s req.hostRoot) fun opened => ?_
      cases opened with
      | none =>
          trivial
      | some root =>
          refine calm_ask rfl fun now => ?_
          exact Program.Only.bind (calm_closeAll _) fun _ => trivial

theorem calm_handleCloseProject (config : Config) (r : HttpRequest) : Calm (handleCloseProject config r) := by
  rw [handleCloseProject]
  cases decodeRequest r with
  | error reply =>
      trivial
  | ok req =>
      refine Program.Only.bind (calm_takeRoot req.projectID) fun found => ?_
      cases found with
      | error error =>
          trivial
      | ok project =>
          exact calm_ask rfl fun _ => trivial

/-! ## Replies -/

/-- One of the four operations, and how it ended. -/
inductive Performs : Answered → Except FsError Unit → Prop
  | writeFile (root : Handle) (rel data : Bytes) (outcome : Except FsError Unit) :
      Performs ⟨.writeFile root rel data, outcome⟩ outcome
  | mkdirAll (root : Handle) (rel : Bytes) (mode : Nat) (outcome : Except FsError Unit) :
      Performs ⟨.mkdirAll root rel mode, outcome⟩ outcome
  | remove (root : Handle) (rel : Bytes) (outcome : Except FsError Unit) :
      Performs ⟨.remove root rel, outcome⟩ outcome
  | rename (root : Handle) (oldRel newRel : Bytes) (outcome : Except FsError Unit) :
      Performs ⟨.rename root oldRel newRel, outcome⟩ outcome

/-- What was changed before the operation: where directories are made, the scoped open that gave the handle. -/
def Opened : Bool → List Answered → Prop
  | false, before => before = []
  | true, before => ∃ project anchor scope, before = [⟨.openScopedRoot project anchor true, .ok scope⟩]

/-- What was changed without an operation: at most a scoped open that makes directories, and that may have failed. -/
def Refused (making : Bool) (calls : List Answered) : Prop :=
  calls = [] ∨ making = true ∧ ∃ project anchor opened, calls = [⟨.openScopedRoot project anchor true, opened⟩]

/-- A changing request: its one operation was called last and its reply is the reply to that, or the operation was not
called and the reply is an error. -/
def Acts (config : Config) (making : Bool) (asked : List Answered) (reply : HttpReply) : Prop :=
  (Refused making (changes asked) ∧ reply.status ≠ 200) ∨
    ∃ before one outcome, changes asked = before ++ [one] ∧ Opened making before ∧ Performs one outcome ∧
      reply = finish config outcome

/-- A reading request: what a successful reply carries is what the call returned. -/
def Carries (asked : List Answered) (reply : HttpReply) : Prop :=
  changes asked = [] ∧ (reply.status = 200 → ∃ root rel maxBytes data encoded,
    ⟨.readFile root rel maxBytes, .ok data⟩ ∈ asked ∧ reply.value = .response { dataBase64 := encoded } ∧
      Base64.decode encoded = some data)

theorem writeHTTPError_status {status : Nat} (h : status ≠ 200) (code message : String) :
    (writeHTTPError status code message).status ≠ 200 :=
  h

theorem writeCanonicalError_status (error : FsError) : (writeCanonicalError error).status ≠ 200 :=
  writeHTTPError_status (by decide) _ _

theorem refuse_status (refusal : ScopedRefusal) : (refuse refusal).status ≠ 200 := by
  cases refusal with
  | lexical error =>
      exact writeHTTPError_status (by decide) _ _
  | filesystem error =>
      exact writeCanonicalError_status _
  | unsupported message =>
      exact writeHTTPError_status (by decide) _ _

theorem decodeRequest_status {r : HttpRequest} {reply : HttpReply} (h : decodeRequest r = .error reply) :
    reply.status ≠ 200 := by
  rw [decodeRequest] at h
  split_ifs at h with hmethod
  · cases h
    exact writeHTTPError_status (by decide) _ _
  · cases hbody : r.body <;> rw [hbody] at h <;> cases h <;> exact writeHTTPError_status (by decide) _ _

/-- A successful reply is the one that was meant to be written. -/
theorem writeJSON_value {config : Config} {value : Value} (h : (writeJSON config 200 value).status = 200) :
    (writeJSON config 200 value).value = value := by
  rw [writeJSON] at h ⊢
  cases hdata : config.marshal value with
  | none =>
      rw [hdata] at h
      exact absurd h (writeHTTPError_status (by decide) _ _)
  | some data =>
      rw [hdata] at h
      simp only at h ⊢
      split_ifs at h ⊢ with hlong
      · exact absurd h (writeHTTPError_status (by decide) _ _)
      · rfl

/-- What a request for a root establishes. -/
def Looks {β : Type} (making : Bool) (asked : List Answered) : Except HttpReply β → Prop
  | .error reply => Refused making (changes asked) ∧ reply.status ≠ 200
  | .ok _ => Opened making (changes asked)

theorem Opened.refused {making : Bool} {before : List Answered} (h : Opened making before) : Refused making before := by
  cases making with
  | false =>
      exact .inl h
  | true =>
      obtain ⟨project, anchor, scope, hbefore⟩ := h
      exact .inr ⟨rfl, project, anchor, .ok scope, hbefore⟩

theorem Performs.changing {one : Answered} {outcome : Except FsError Unit} (h : Performs one outcome) :
    changing one.1 = true := by
  cases h <;> rfl

theorem yields_decodeRootRequest (r : HttpRequest) {asked : List Answered} (hasked : changes asked = []) :
    (decodeRootRequest r).Yields (Looks false) asked := by
  rw [decodeRootRequest]
  cases hdecode : decodeRequest r with
  | error reply =>
      exact ⟨.inl hasked, decodeRequest_status hdecode⟩
  | ok req =>
      refine (calm_root req.projectID).yields hasked |>.bind ?_
      intro found asked hasked
      cases found with
      | error error =>
          exact ⟨.inl hasked, writeCanonicalError_status error⟩
      | ok project =>
          exact hasked

theorem yields_decodeScopedRootRequest (r : HttpRequest) (operation : String) {asked : List Answered}
    (hasked : changes asked = []) :
    (decodeScopedRootRequest r operation).Yields (Looks (operation == "write")) asked := by
  refine (yields_decodeRootRequest r hasked).bind ?_
  rintro (reply | ⟨req, project⟩) asked hlooks
  · obtain ⟨hnone | ⟨hfalse, -⟩, hstatus⟩ := hlooks
    · exact ⟨.inl hnone, hstatus⟩
    · cases hfalse
  have hnone : changes asked = [] := hlooks
  cases hplace : Daemon.decodeScopedRootRequest (scopedRequest r req) operation with
  | error refusal =>
      simp only [hplace]
      exact ⟨.inl hnone, refuse_status refusal⟩
  | ok place =>
      simp only [hplace]
      generalize (operation == "write") = making
      intro opened
      have hchanges : changes (asked ++ [⟨.openScopedRoot project place.anchor making, opened⟩]) =
          if making then [⟨.openScopedRoot project place.anchor making, opened⟩] else [] := by
        rw [changes_append, hnone]
        cases making <;> rfl
      cases making with
      | false =>
          cases opened with
          | error error =>
              exact ⟨.inl hchanges, writeCanonicalError_status error⟩
          | ok scope =>
              exact hchanges
      | true =>
          cases opened with
          | error error =>
              exact ⟨.inr ⟨rfl, project, place.anchor, .error error, hchanges⟩, writeCanonicalError_status error⟩
          | ok scope =>
              exact ⟨project, place.anchor, scope, hchanges⟩

section Operations

variable {P : List Answered → HttpReply → Prop} {making : Bool} {asked : List Answered}

/-- A property that every error reply before an operation has, and that an operation establishes. -/
theorem yields_onRoot
    (herror : ∀ asked reply, Refused false (changes asked) → reply.status ≠ 200 → P asked reply) (r : HttpRequest)
    {operate : Request → Handle → Program HttpReply}
    (hoperate : ∀ req root asked, Opened false (changes asked) → (operate req root).Yields P asked)
    (hasked : changes asked = []) : (onRoot r operate).Yields P asked := by
  refine (yields_decodeRootRequest r hasked).bind ?_
  rintro (reply | found) asked hlooks
  · exact herror asked reply hlooks.1 hlooks.2
  · exact hoperate found.1 (.project found.2) asked hlooks

/-- The same where a handle is closed behind the operation. -/
theorem yields_onScoped
    (herror : ∀ asked reply, Refused making (changes asked) → reply.status ≠ 200 → P asked reply)
    (hclose : ∀ asked reply (one : Answered), P asked reply → changing one.1 = false → P (asked ++ [one]) reply)
    (r : HttpRequest) (operation : String) (hmaking : (operation == "write") = making)
    {operate : Request → Handle → ScopedRoot → Program HttpReply}
    (hoperate : ∀ req root place asked, Opened making (changes asked) → (operate req root place).Yields P asked)
    (hasked : changes asked = []) : (onScoped r operation operate).Yields P asked := by
  have hdecode := yields_decodeScopedRootRequest r operation hasked
  rw [hmaking] at hdecode
  refine hdecode.bind ?_
  rintro (reply | ⟨req, scope, place⟩) asked hlooks
  · exact herror asked reply hlooks.1 hlooks.2
  · refine (hoperate req (.scopedRoot scope) place asked hlooks).bind ?_
    intro reply asked hreply outcome
    exact hclose asked reply _ hreply rfl

theorem acts_error (config : Config) (making : Bool) (asked : List Answered) (reply : HttpReply)
    (hasked : Refused making (changes asked)) (hreply : reply.status ≠ 200) : Acts config making asked reply :=
  .inl ⟨hasked, hreply⟩

theorem acts_close (config : Config) (making : Bool) (asked : List Answered) (reply : HttpReply) (one : Answered)
    (h : Acts config making asked reply) (hone : changing one.1 = false) : Acts config making (asked ++ [one]) reply := by
  rw [Acts, changes_append_calm asked (by simpa using hone)]
  exact h

/-- An operation at the end, and the reply to it. -/
theorem acts_finish (config : Config) {one : Answered} {outcome : Except FsError Unit}
    (hasked : Opened making (changes asked)) (hone : Performs one outcome) :
    Acts config making (asked ++ [one]) (finish config outcome) := by
  refine .inr ⟨changes asked, one, outcome, ?_, hasked, hone, rfl⟩
  rw [changes_append, if_pos hone.changing]

theorem yields_writeThrough (config : Config) (root : Handle) (rel : Bytes) (req : Request)
    (hasked : Opened making (changes asked)) : (writeThrough config root rel req).Yields (Acts config making) asked := by
  rw [writeThrough]
  cases Base64.decode req.dataBase64 with
  | none =>
      exact acts_error config making asked _ hasked.refused (writeHTTPError_status (by decide) _ _)
  | some data =>
      exact fun outcome => acts_finish config hasked (.writeFile root rel data outcome)

theorem yields_mkdirThrough (config : Config) (root : Handle) (rel : Bytes) (hasked : Opened making (changes asked)) :
    (mkdirThrough config root rel).Yields (Acts config making) asked :=
  fun outcome => acts_finish config hasked (.mkdirAll root rel 0o755 outcome)

theorem yields_removeThrough (config : Config) (root : Handle) (rel : Bytes) (hasked : Opened making (changes asked)) :
    (removeThrough config root rel).Yields (Acts config making) asked :=
  fun outcome => acts_finish config hasked (.remove root rel outcome)

theorem yields_renameThrough (config : Config) (root : Handle) (oldRel newRel : Bytes)
    (hasked : Opened making (changes asked)) : (renameThrough config root oldRel newRel).Yields (Acts config making) asked :=
  fun outcome => acts_finish config hasked (.rename root oldRel newRel outcome)

theorem Refused.none {calls : List Answered} (h : Refused false calls) : calls = [] := by
  obtain hnone | ⟨hfalse, -⟩ := h
  · exact hnone
  · cases hfalse

theorem carries_error (asked : List Answered) (reply : HttpReply) (hasked : Refused false (changes asked))
    (hreply : reply.status ≠ 200) : Carries asked reply :=
  ⟨hasked.none, fun h => absurd h hreply⟩

theorem carries_close (asked : List Answered) (reply : HttpReply) (one : Answered) (h : Carries asked reply)
    (hone : changing one.1 = false) : Carries (asked ++ [one]) reply := by
  refine ⟨?_, fun hreply => ?_⟩
  · rw [changes_append_calm asked (by simpa using hone)]
    exact h.1
  · obtain ⟨root, rel, maxBytes, data, encoded, hmem, hvalue, hdecode⟩ := h.2 hreply
    exact ⟨root, rel, maxBytes, data, encoded, List.mem_append_left _ hmem, hvalue, hdecode⟩

theorem yields_readThrough (config : Config) (root : Handle) (rel : Bytes) (req : Request)
    (hasked : Opened false (changes asked)) : (readThrough config root rel req).Yields Carries asked := by
  rw [readThrough]
  cases Reads.readLimit config.limits req.maxBytes with
  | error message =>
      exact carries_error asked _ hasked.refused (writeHTTPError_status (by decide) _ _)
  | ok maxBytes =>
      intro outcome
      have hnone : changes asked = [] := hasked
      have hcalm : changes (asked ++ [⟨.readFile root rel maxBytes, outcome⟩]) = [] := by
        rw [changes_append, hnone]
        rfl
      cases outcome with
      | error error =>
          exact carries_error _ _ (.inl hcalm) (writeCanonicalError_status error)
      | ok data =>
          refine ⟨hcalm, fun hreply => ?_⟩
          refine ⟨root, rel, maxBytes, data, Base64.encode data, ?_, writeJSON_value hreply, Base64.decode_encode data⟩
          exact List.mem_append_right _ (List.mem_singleton_self _)

end Operations

/-! ## Every request -/

def changingEndpoints : List String := [
  "/v1/fs/writeFile", "/v1/fs/mkdirAll", "/v1/fs/remove", "/v1/fs/rename",
  "/v1/scoped/writeFile", "/v1/scoped/mkdirAll", "/v1/scoped/remove"]

/-- The endpoints that make the missing directories of their anchor. -/
def makingEndpoints : List String := [
  "/v1/scoped/writeFile", "/v1/scoped/mkdirAll"]

def readingEndpoints : List String := [
  "/v1/fs/readFile", "/v1/scoped/readFile"]

/-- What the calls of a request and its reply say about each other. -/
structure Honest (config : Config) (r : HttpRequest) (asked : List Answered) (reply : HttpReply) : Prop where
  changing : r.urlPath ∈ changingEndpoints → Acts config (decide (r.urlPath ∈ makingEndpoints)) asked reply
  calm : r.urlPath ∉ changingEndpoints → changes asked = []
  reading : r.urlPath ∈ readingEndpoints → Carries asked reply

theorem honest_error (config : Config) (r : HttpRequest) {asked : List Answered} {reply : HttpReply}
    (hasked : changes asked = []) (hreply : reply.status ≠ 200) : Honest config r asked reply :=
  ⟨fun _ => acts_error config _ asked reply (.inl hasked) hreply, fun _ => hasked,
    fun _ => carries_error asked reply (.inl hasked) hreply⟩

/-- A changing endpoint. -/
theorem honest_acts {config : Config} {r : HttpRequest} {program : Program HttpReply} {asked : List Answered}
    {making : Bool} (path : String) (hpath : r.urlPath = path) (hchanging : path ∈ changingEndpoints)
    (hmaking : decide (path ∈ makingEndpoints) = making) (hreading : path ∉ readingEndpoints)
    (h : program.Yields (Acts config making) asked) : program.Yields (Honest config r) asked := by
  subst hpath hmaking
  exact h.mono fun reply asked hacts => ⟨fun _ => hacts, fun h => absurd hchanging h, fun h => absurd h hreading⟩

theorem honest_carries {config : Config} {r : HttpRequest} {program : Program HttpReply} {asked : List Answered} (path : String)
    (hpath : r.urlPath = path) (hchanging : path ∉ changingEndpoints) (h : program.Yields Carries asked) :
    program.Yields (Honest config r) asked := by
  subst hpath
  exact h.mono fun reply asked hcarries => ⟨fun h => absurd h hchanging, fun _ => hcarries.1, fun _ => hcarries⟩

/-- An endpoint that changes and reads nothing. -/
theorem honest_unchanged {config : Config} {r : HttpRequest} {program : Program HttpReply} {asked : List Answered}
    (path : String) (hpath : r.urlPath = path) (hchanging : path ∉ changingEndpoints) (hreading : path ∉ readingEndpoints)
    (h : program.Yields Unchanged asked) : program.Yields (Honest config r) asked := by
  subst hpath
  exact h.mono fun reply asked hasked =>
    ⟨fun h => absurd h hchanging, fun _ => hasked, fun h => absurd h hreading⟩

theorem yields_serveMux (config : Config) (r : HttpRequest) {asked : List Answered} (hasked : changes asked = []) :
    (serveMux config r).Yields (Honest config r) asked := by
  have hacts := acts_error config false
  have hmakes := acts_error config true
  rw [serveMux]
  split
  case h_1 hpath =>
      exact honest_unchanged _ hpath (by decide) (by decide) hasked
  case h_2 hpath =>
      exact honest_unchanged _ hpath (by decide) (by decide) hasked
  case h_3 hpath =>
      exact honest_unchanged _ hpath (by decide) (by decide) ((calm_handleOpenProject config r).yields hasked)
  case h_4 hpath =>
      exact honest_unchanged _ hpath (by decide) (by decide) ((calm_handleCloseProject config r).yields hasked)
  case h_5 hpath =>
      exact honest_carries _ hpath (by decide) (yields_onRoot carries_error r
        (fun req root asked hasked => yields_readThrough config root req.path req hasked) hasked)
  case h_6 hpath =>
      exact honest_acts _ hpath (by decide) rfl (by decide) (yields_onRoot hacts r
        (fun req root asked hasked => yields_writeThrough config root req.path req hasked) hasked)
  case h_7 hpath =>
      refine honest_unchanged _ hpath (by decide) (by decide) (yields_onRoot (fun _ _ hasked _ => hasked.none) r ?_ hasked)
      intro req root asked hasked
      exact Calm.yields (calm_ask rfl fun outcome => by cases outcome <;> trivial) hasked
  case h_8 hpath =>
      exact honest_acts _ hpath (by decide) rfl (by decide) (yields_onRoot hacts r
        (fun req root asked hasked => yields_mkdirThrough config root req.path hasked) hasked)
  case h_9 hpath =>
      exact honest_acts _ hpath (by decide) rfl (by decide) (yields_onRoot hacts r
        (fun req root asked hasked => yields_removeThrough config root req.path hasked) hasked)
  case h_10 hpath =>
      exact honest_acts _ hpath (by decide) rfl (by decide) (yields_onRoot hacts r
        (fun req root asked hasked => yields_renameThrough config root req.path req.target hasked) hasked)
  case h_11 hpath =>
      exact honest_carries _ hpath (by decide) (yields_onScoped carries_error carries_close r "read" rfl
        (fun req root place asked hasked => yields_readThrough config root place.suffix req hasked) hasked)
  case h_12 hpath =>
      exact honest_acts _ hpath (by decide) rfl (by decide) (yields_onScoped hmakes (acts_close config true) r "write" rfl
        (fun req root place asked hasked => yields_writeThrough config root place.suffix req hasked) hasked)
  case h_13 hpath =>
      refine honest_unchanged _ hpath (by decide) (by decide)
        (yields_onScoped (fun _ _ hasked _ => hasked.none) ?_ r "read" rfl ?_ hasked)
      · intro asked reply one hasked hone
        exact (changes_append_calm asked (by simpa using hone)).trans hasked
      · intro req root place asked hasked
        exact Calm.yields (calm_ask rfl fun outcome => by cases outcome <;> trivial) hasked
  case h_14 hpath =>
      exact honest_acts _ hpath (by decide) rfl (by decide) (yields_onScoped hmakes (acts_close config true) r "write" rfl
        (fun req root place asked hasked => yields_mkdirThrough config root place.suffix hasked) hasked)
  case h_15 hpath =>
      exact honest_acts _ hpath (by decide) rfl (by decide) (yields_onScoped hacts (acts_close config false) r "delete" rfl
        (fun req root place asked hasked => yields_removeThrough config root place.suffix hasked) hasked)
  case h_16 =>
      exact honest_error config r hasked (writeHTTPError_status (by decide) _ _)

theorem yields_serveHTTP (config : Config) (r : HttpRequest) : (serveHTTP config r).Yields (Honest config r) [] := by
  rw [serveHTTP]
  split_ifs with hauth hhealth
  · intro authenticated
    cases authenticated with
    | true =>
        exact yields_serveMux config r rfl
    | false =>
        exact honest_error config r rfl (by decide)
  · exact honest_error config r rfl (by decide)
  · rw [not_not] at hhealth
    have hmux : serveMux config r = pure (handleHealth r) := by
      simp only [serveMux, hhealth]
    rw [hmux]
    exact honest_unchanged _ hhealth (by decide) (by decide) rfl

/-- In every run, what a request has changed and what its reply says agree. -/
theorem service_replies {config : Config} {s₀ : Server} {log : Log} {system : System}
    (h : Transition.Run (step config) (init s₀) log system) {thread : Nat} {r : HttpRequest} {reply : Option HttpReply}
    (hdone : system.threads[thread]? = some (.serveHTTP r, .done reply)) :
    ∃ sent, reply = some sent ∧ Honest config r (askedBy thread log) sent := by
  let P : Task → List Answered → Option HttpReply → Prop
    | .serveHTTP r, asked, reply => ∃ sent, reply = some sent ∧ Honest config r asked sent
    | .close, _, _ => True
  have hstart : ∀ task, (start config task).Yields (P task) [] := by
    intro task
    cases task with
    | serveHTTP r =>
        exact (yields_serveHTTP config r).bind fun sent asked hsent => ⟨sent, rfl, hsent⟩
    | close =>
        exact Program.yields_of_forall (fun _ _ => trivial) _ []
  exact yields_run hstart h hdone

/-- A successful reply of a changing request says that the operation was done. -/
theorem Acts.done {config : Config} {making : Bool} {asked : List Answered} {reply : HttpReply}
    (h : Acts config making asked reply) (hstatus : reply.status = 200) :
    ∃ before one, changes asked = before ++ [one] ∧ Opened making before ∧ Performs one (.ok ()) := by
  obtain ⟨-, hreply⟩ | ⟨before, one, outcome, hchanges, hbefore, hone, rfl⟩ := h
  · exact absurd hstatus hreply
  · cases outcome with
    | error error =>
        exact absurd hstatus (writeCanonicalError_status error)
    | ok done =>
        exact ⟨before, one, hchanges, hbefore, hone⟩

/-- The write of the sample was done, and nothing else was changed. -/
theorem service_replies_sample : ∃ log system,
    Transition.Run (step sampleConfig) (init sampleServer) log system ∧ log.map Asked.call = sampleCalls ∧
      ∃ sent, Honest sampleConfig sampleWrite (askedBy 1 log) sent ∧
        ∃ one, changes (askedBy 1 log) = [one] ∧ Performs one (.ok ()) := by
  obtain ⟨log, system, hrun, hcalls, -, -, -, hthread⟩ := sample_run
  obtain ⟨sent, hsent, hhonest⟩ := service_replies hrun hthread
  have hacts : Acts sampleConfig false (askedBy 1 log) sent := hhonest.changing (by decide)
  have hstatus : sent.status = 200 := by
    rw [← Option.some.inj hsent]
  obtain ⟨before, one, hchanges, rfl, hone⟩ := hacts.done hstatus
  exact ⟨log, system, hrun, hcalls, sent, hhonest, one, hchanges, hone⟩

end Service

end Daemon

end CanonicalPath
