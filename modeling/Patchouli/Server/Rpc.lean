import Patchouli.Artifact.Download
import Patchouli.Backend.Admission
import Patchouli.Server.Frames

/-!
# Requests of a connection

What the loop of `serve` makes of one frame: `handle_subscription` and `dispatch`, with the messages
they answer with. The engine and the artifact store are behind `Daemon`, together with the reading of
parameters; a method runs at once, and what others do in between is not its own.

Every frame is answered by one message. It carries the id of the request, or no id where none could
be read; and nothing behind the daemon is touched before a handshake.

## Main definitions

* `rpcError`, `rpcBackendError`, `rpcArtifactError`
* `Daemon`, `Daemon.dispatch`, `Daemon.serveFrame`

## Main results

* `Daemon.serveFrame_answers` — one message for each frame, under its id
* `Daemon.serveFrame_refused` — before the handshake
-/

namespace Patchouli

open Json (Value)

/-! ### Methods -/

namespace Methods

def handshake : String := "patchouli.protocol.handshake@1"
def controlStatus : String := "patchouli.control.status@1"
def controlCheckpoint : String := "patchouli.control.checkpoint@1"
def controlShutdown : String := "patchouli.control.shutdown@1"
def artifactUploadBegin : String := "patchouli.artifact.upload.begin@1"
def artifactUploadChunk : String := "patchouli.artifact.upload.chunk@1"
def artifactUploadCommit : String := "patchouli.artifact.upload.commit@1"
def artifactDownloadChunk : String := "patchouli.artifact.download.chunk@1"
def entityCreate : String := "patchouli.entity.create@1"
def entityRead : String := "patchouli.entity.read@1"
def entityRetrieve : String := "patchouli.entity.retrieve@1"
def entityUpdate : String := "patchouli.entity.update@1"
def entityDelete : String := "patchouli.entity.delete@1"
def changesSubscribe : String := "patchouli.changes.subscribe@1"
def changesUnsubscribe : String := "patchouli.changes.unsubscribe@1"
def changesEvent : String := "patchouli.changes.event@1"

end Methods

def protocolVersion : ℕ := 1

def serverCapabilities : List String := ["artifacts", "subscriptions"]

/-! ### Errors -/

inductive ProtocolErrorReason where
  | cursorExpired
  | deadlineExceeded
  | forbidden
  | idempotencyConflict
  | invalidRequest
  | notFound
  | overloaded
  | unauthenticated
  | unsupportedCapability
  | versionConflict
  | workUnitExpired
  deriving DecidableEq

namespace ProtocolErrorReason

/-- `error_codes`. -/
def code : ProtocolErrorReason → Int64
  | invalidRequest => -32602
  | unauthenticated => -32001
  | forbidden => -32002
  | notFound => -32003
  | versionConflict => -32004
  | idempotencyConflict => -32005
  | unsupportedCapability => -32006
  | deadlineExceeded => -32007
  | overloaded => -32009
  | cursorExpired => -32010
  | workUnitExpired => -32011

def text : ProtocolErrorReason → String
  | cursorExpired => "CURSOR_EXPIRED"
  | deadlineExceeded => "DEADLINE_EXCEEDED"
  | forbidden => "FORBIDDEN"
  | idempotencyConflict => "IDEMPOTENCY_CONFLICT"
  | invalidRequest => "INVALID_REQUEST"
  | notFound => "NOT_FOUND"
  | overloaded => "OVERLOADED"
  | unauthenticated => "UNAUTHENTICATED"
  | unsupportedCapability => "UNSUPPORTED_CAPABILITY"
  | versionConflict => "VERSION_CONFLICT"
  | workUnitExpired => "WORK_UNIT_EXPIRED"

end ProtocolErrorReason

/-- The reason of an error of the backend, in the words of the protocol. -/
def BackendErrorReason.protocol : BackendErrorReason → ProtocolErrorReason
  | cursorExpired => .cursorExpired
  | deadlineExceeded => .deadlineExceeded
  | idempotencyConflict => .idempotencyConflict
  | invalidRequest => .invalidRequest
  | notFound => .notFound
  | overloaded => .overloaded
  | unsupportedCapability => .unsupportedCapability
  | versionConflict => .versionConflict
  | workUnitExpired => .workUnitExpired

def EntityRef.toJson (entityRef : EntityRef) : Value :=
  .object [("id", .string entityRef.id), ("type", .string entityRef.entityType)]

/-- `ProtocolEntityConflict`. -/
def EntityVersionConflict.toJson (conflict : EntityVersionConflict) : Value :=
  .object [("current_versions", .array (conflict.currentVersions.map .string)),
    ("ref", conflict.entityRef.toJson)]

/-- `ProtocolErrorData`, without its empty lists. -/
def protocolErrorData (reason : ProtocolErrorReason) (currentVersions : List String)
    (conflicts : List EntityVersionConflict) : Value :=
  .object (
    (if conflicts = [] then [] else
      [("conflicts", .array (conflicts.map EntityVersionConflict.toJson))]) ++
    (if currentVersions = [] then [] else
      [("current_versions", .array (currentVersions.map .string))]) ++
    [("reason", .string reason.text)])

/-! ### Messages -/

/-- `rpc_success`. -/
def rpcSuccess (id result : Value) : Value :=
  .object [("id", id), ("jsonrpc", .string "2.0"), ("result", result)]

/-- A message with an error. -/
def rpcFailure (id error : Value) : Value :=
  .object [("error", error), ("id", id), ("jsonrpc", .string "2.0")]

/-- `rpc_protocol_error`. -/
def rpcProtocolError (id : Value) (code : Int64) (message : String) (reason : ProtocolErrorReason)
    (currentVersions : List String) (conflicts : List EntityVersionConflict) : Value :=
  rpcFailure id (.object [("code", .number (.negInt code)),
    ("data", protocolErrorData reason currentVersions conflicts), ("message", .string message)])

/-- The reason `rpc_error` gives for a code. -/
def reasonOfCode (code : Int64) : Option ProtocolErrorReason :=
  [.invalidRequest, .unauthenticated, .forbidden, .unsupportedCapability].find? fun reason =>
    ProtocolErrorReason.code reason = code

/-- `rpc_error`. -/
def rpcError (id : Value) (code : Int64) (message : String) : Value :=
  match reasonOfCode code with
  | some reason => rpcProtocolError id code message reason [] []
  | none => rpcFailure id (.object [("code", .number (.negInt code)), ("message", .string message)])

/-- `rpc_backend_error`. -/
def rpcBackendError (id : Value) (error : BackendError) : Value :=
  rpcProtocolError id error.reason.protocol.code error.message error.reason.protocol
    error.currentVersions error.conflicts

/-- `rpc_artifact_error`. -/
def rpcArtifactError (id : Value) : ArtifactStoreError → Value
  | .invalid message => rpcError id (-32602) message
  | .notFound => rpcError id (-32003) "artifact content was not found"
  | .io message => rpcError id (-32603) message

/-- The message of a subscription. -/
def rpcEvent (params : Value) : Value :=
  .object [("jsonrpc", .string "2.0"), ("method", .string Methods.changesEvent), ("params", params)]

/-! ### The daemon -/

structure HandshakeParams where
  protocolVersions : List ℕ
  capabilities : List String

/-- The parameters of an entity method. -/
inductive EntityRequest where
  | mutate (metadata : Meta) (mutation : Mutation)
  | read (metadata : Meta) (entityRef : EntityRef)
  | retrieve (metadata : Meta) (data : Value)

inductive EntityMethod where
  | create
  | read
  | retrieve
  | update
  | delete
  deriving DecidableEq

/-- How a method fails that runs. -/
inductive MethodError where
  | backend (error : BackendError)
  | artifact (error : ArtifactStoreError)
  | internal (message : String)

/-- A method that runs: the readings of the clock, and what is behind the daemon. -/
def MethodRun (σ : Type) : Type := (ℕ → ℕ) → σ → Except MethodError Value × σ

/-- The engine and the artifact store, with the state they share, and how parameters and results
are read and written. What is written is JSON in its normal form. -/
structure Daemon (σ : Type) where
  parse : String → Option Value
  serverIdentity : Value
  serverLimits : Value
  readHandshake : Value → Except String HandshakeParams
  readEmpty : Value → Except String Meta
  readEntity : EntityMethod → Value → Except String EntityRequest
  readUploadBegin : Value → Except String (Meta × ArtifactUploadBeginData)
  readUploadChunk : Value → Except String (Meta × String × ℕ × String)
  readUploadCommit : Value → Except String (Meta × String)
  readDownload : Value → Except String (Meta × ArtifactDownloadChunkData)
  readSubscribe : Value → Except String Value
  readUnsubscribe : Value → Except String (Meta × String)
  serde : ArtifactSerde
  status : σ → Value
  checkpoint : σ → Except String Unit × σ
  entity : EntityRequest → σ → Except BackendError Value × σ
  begin : ArtifactUploadBeginData → σ → Except ArtifactStoreError String × σ
  append : String → ℕ → String → σ → Except ArtifactStoreError ℕ × σ
  commit : String → σ → Except ArtifactStoreError (ArtifactUploadBeginData × StoredArtifact) × σ
  finish : String → σ → σ
  download : Meta → ArtifactDownloadChunkData → σ → Except ArtifactDownloadError Value × σ
  subscribe : Value → σ → Except BackendError String × σ
  identity_normal : serverIdentity.Normal
  limits_normal : serverLimits.Normal
  status_normal : ∀ s, (status s).Normal
  entity_normal : ∀ request s s' result, entity request s = (.ok result, s') → result.Normal
  download_normal : ∀ metadata data s s' result,
    download metadata data s = (.ok result, s') → result.Normal

/-- `RequestDeadline::from_meta` and `check_now`. -/
def checkNow (metadata : Meta) (now : ℕ) : Except MethodError Unit :=
  ((deadlineFromMeta metadata).bind (checkDeadline · now)).mapError .backend

/-- An `RpcResult` with no metadata. -/
def rpcResult (data : List (String × Value)) : Value :=
  .object [("data", .object data), ("meta", .object [])]

def natJson (n : ℕ) : Value := .number (.posInt (UInt64.ofNat n))

namespace Daemon

variable {σ : Type} (d : Daemon σ)

/-- A method that checks its deadline before it runs. -/
def inTime (metadata : Meta) (run : MethodRun σ) : MethodRun σ := fun now s =>
  match checkNow metadata (now 0) with
  | .error error => (.error error, s)
  | .ok () => run (fun i => now (i + 1)) s

def runStatus (metadata : Meta) : MethodRun σ :=
  inTime metadata fun _ s => (.ok (d.status s), s)

def runCheckpoint (metadata : Meta) : MethodRun σ :=
  inTime metadata fun now s =>
    match d.checkpoint s with
    | (.error message, s) => (.error (.internal message), s)
    | (.ok (), s) =>
      ((checkNow metadata (now 0)).map fun _ => rpcResult [("completed", .bool true)], s)

def runShutdown (metadata : Meta) : MethodRun σ :=
  inTime metadata fun _ s => (.ok (rpcResult [("accepted", .bool true)]), s)

def runUploadBegin (metadata : Meta) (data : ArtifactUploadBeginData) : MethodRun σ :=
  inTime metadata fun _ s =>
    let (outcome, s) := d.begin data s
    ((outcome.mapError .artifact).map fun uploadId =>
      rpcResult [("max_chunk_bytes", natJson maxArtifactChunkBytes),
        ("upload_id", .string uploadId)], s)

def runUploadChunk (metadata : Meta) (uploadId : String) (offset : ℕ) (bytesBase64 : String) :
    MethodRun σ :=
  inTime metadata fun _ s =>
    let (outcome, s) := d.append uploadId offset bytesBase64 s
    ((outcome.mapError .artifact).map fun nextOffset =>
      rpcResult [("next_offset", natJson nextOffset)], s)

/-- The upload is committed before its entity is created, and forgotten after that. -/
def runUploadCommit (metadata : Meta) (uploadId : String) : MethodRun σ :=
  inTime metadata fun now s =>
    match d.commit uploadId s with
    | (.error error, s) => (.error (.artifact error), s)
    | (.ok (data, stored), s) =>
      match checkNow metadata (now 0) with
      | .error error => (.error error, s)
      | .ok () =>
        match d.entity (.mutate metadata (uploadedMutation d.serde data stored)) s with
        | (.error error, s) => (.error (.backend error), s)
        | (.ok result, s) => (.ok result, d.finish uploadId s)

def runDownload (metadata : Meta) (data : ArtifactDownloadChunkData) : MethodRun σ := fun _ s =>
  let (outcome, s) := d.download metadata data s
  (outcome.mapError fun
    | .backend error => .backend error
    | .store error => .artifact error
    | .internal message => .internal message, s)

def runEntity (request : EntityRequest) : MethodRun σ := fun _ s =>
  let (outcome, s) := d.entity request s
  (outcome.mapError .backend, s)

/-- The methods of `dispatch` after the handshake, each with the reading of its parameters. -/
def methods (params : Value) : List (String × Except String (MethodRun σ)) :=
  [(Methods.controlStatus, (d.readEmpty params).map d.runStatus),
    (Methods.controlCheckpoint, (d.readEmpty params).map d.runCheckpoint),
    (Methods.controlShutdown, (d.readEmpty params).map runShutdown),
    (Methods.artifactUploadBegin,
      (d.readUploadBegin params).map fun read => d.runUploadBegin read.1 read.2),
    (Methods.artifactUploadChunk, (d.readUploadChunk params).map fun read =>
      d.runUploadChunk read.1 read.2.1 read.2.2.1 read.2.2.2),
    (Methods.artifactUploadCommit,
      (d.readUploadCommit params).map fun read => d.runUploadCommit read.1 read.2),
    (Methods.artifactDownloadChunk,
      (d.readDownload params).map fun read => d.runDownload read.1 read.2),
    (Methods.entityCreate, (d.readEntity .create params).map d.runEntity),
    (Methods.entityRead, (d.readEntity .read params).map d.runEntity),
    (Methods.entityRetrieve, (d.readEntity .retrieve params).map d.runEntity),
    (Methods.entityUpdate, (d.readEntity .update params).map d.runEntity),
    (Methods.entityDelete, (d.readEntity .delete params).map d.runEntity)]

end Daemon

/-! ### A frame -/

/-- What a frame comes to: the message that answers it, the subscription whose task starts after that
message and the one whose task is aborted before it, and whether the daemon shuts down. -/
structure Turn (σ : Type) where
  response : Value
  handshaken : Bool
  opened : Option String
  closed : Option String
  shutdown : Bool
  state : σ

/-- A message that changes nothing. -/
def Turn.say {σ : Type} (handshaken : Bool) (s : σ) (response : Value) : Turn σ :=
  ⟨response, handshaken, none, none, false, s⟩

def requestId (fields : Meta) : Value := (fields.lookup "id").getD .null

/-- The version and the id of a request. -/
def validRequest (fields : Meta) : Bool :=
  fields.lookup "jsonrpc" = some (.string "2.0") &&
    match requestId fields with
    | .number _ | .string _ => true
    | _ => false

def requestMethod (fields : Meta) : Option String :=
  match fields.lookup "method" with
  | some (.string method) => some method
  | _ => none

def requestParams (fields : Meta) : Value := (fields.lookup "params").getD (.object [])

/-- The name of a subscription. -/
def subscriptionName (n : ℕ) : String := "subscription-" ++ toString n

/-- How a method that failed is answered. -/
def rpcMethodError (id : Value) : MethodError → Value
  | .backend error => rpcBackendError id error
  | .artifact error => rpcArtifactError id error
  | .internal message => rpcError id (-32603) message

namespace Daemon

variable {σ : Type} (d : Daemon σ) (now : ℕ → ℕ) (s : σ)

/-- An `unsubscribe`. -/
def unsubscribe (names : List String) (id params : Value) : Turn σ :=
  match d.readUnsubscribe params with
  | .error message => .say true s (rpcError id (-32602) message)
  | .ok (metadata, name) =>
    match checkNow metadata (now 0) with
    | .error error => .say true s (rpcMethodError id error)
    | .ok () =>
      { Turn.say true s (rpcSuccess id (rpcResult [("removed", .bool (name ∈ names))])) with
        closed := if name ∈ names then some name else none }

/-- A `subscribe`. -/
def openSubscription (next : ℕ) (id params : Value) : Turn σ :=
  match d.readSubscribe params with
  | .error message => .say true s (rpcError id (-32602) message)
  | .ok params =>
    match d.subscribe params s with
    | (.error error, s) => .say true s (rpcBackendError id error)
    | (.ok cursor, s) =>
      { Turn.say true s (rpcSuccess id (rpcResult [("cursor", .string cursor),
          ("subscription_id", .string (subscriptionName next))])) with
        opened := some (subscriptionName next) }

/-- `handle_subscription`, where it handles the line. -/
def handleSubscription (names : List String) (next : ℕ) (line : String) : Option (Turn σ) :=
  match d.parse line with
  | some (.object fields) =>
    match requestMethod fields with
    | some method =>
      if method ≠ Methods.changesSubscribe ∧ method ≠ Methods.changesUnsubscribe then none
      else if validRequest fields = false then none
      else if method = Methods.changesUnsubscribe then
        some (d.unsubscribe now s names (requestId fields) (requestParams fields))
      else some (d.openSubscription s next (requestId fields) (requestParams fields))
    | none => none
  | _ => none

/-- The answer to a handshake. -/
def shakeHands (handshaken : Bool) (id params : Value) : Turn σ :=
  match d.readHandshake params with
  | .error message => .say handshaken s (rpcError id (-32602) message)
  | .ok params =>
    if protocolVersion ∉ params.protocolVersions then
      .say handshaken s (rpcError id (-32006) "protocol version 1 is required")
    else
      .say true s (rpcSuccess id (.object [
        ("capabilities", .array
          ((serverCapabilities.filter (· ∈ params.capabilities)).map .string)),
        ("limits", d.serverLimits), ("protocol_version", natJson protocolVersion),
        ("server", d.serverIdentity)]))

/-- The answer to a method that can be called. -/
def run (method : String) (id : Value) (run : MethodRun σ) : Turn σ :=
  match run now s with
  | (.error error, s) => .say true s (rpcMethodError id error)
  | (.ok result, s) =>
    { Turn.say true s (rpcSuccess id result) with
      shutdown := method = Methods.controlShutdown }

/-- `dispatch`. -/
def dispatch (handshaken : Bool) (line : String) : Turn σ :=
  match d.parse line with
  | none => .say handshaken s (rpcError .null (-32700) "parse error")
  | some (.object fields) =>
    let id := requestId fields
    if validRequest fields = false then .say handshaken s (rpcError id (-32600) "invalid request")
    else
      match requestMethod fields with
      | none => .say handshaken s (rpcError id (-32600) "invalid request")
      | some method =>
        if method = Methods.handshake then d.shakeHands s handshaken id (requestParams fields)
        else if handshaken = false then
          .say handshaken s (rpcError id (-32001) "handshake is required")
        else
          match (d.methods (requestParams fields)).lookup method with
          | none => .say handshaken s (rpcError id (-32601) "method not found")
          | some (.error message) => .say handshaken s (rpcError id (-32602) message)
          | some (.ok run) => Daemon.run now s method id run
  | some _ => .say handshaken s (rpcError .null (-32600) "invalid request")

/-- The body of the loop of `serve`. -/
def serveFrame (handshaken : Bool) (names : List String) (next : ℕ) : RequestFrame → Turn σ
  | .invalidUtf8 => .say handshaken s (rpcError .null (-32700) "parse error")
  | .tooLarge => .say handshaken s (rpcError .null (-32600) "request exceeds server limit")
  | .line line =>
    if handshaken then
      (d.handleSubscription now s names next line).getD (d.dispatch now s handshaken line)
    else d.dispatch now s handshaken line

end Daemon

/-! ### What is written -/

theorem normal_object {fields : Meta} (hkeys : (fields.map (·.1)).Pairwise (· < ·))
    (h : ∀ entry ∈ fields, entry.2.Normal) : (Value.object fields).Normal :=
  ⟨⟨trivial, hkeys⟩, Value.AllFields.iff_forall.mpr h⟩

theorem normal_array {values : List Value} (h : ∀ value ∈ values, value.Normal) :
    (Value.array values).Normal :=
  ⟨⟨trivial, trivial⟩, Value.AllValues.iff_forall.mpr h⟩

theorem normal_string (text : String) : (Value.string text).Normal := ⟨trivial, trivial⟩

theorem normal_strings (texts : List String) : (Value.array (texts.map .string)).Normal := by
  refine normal_array fun value hvalue => ?_
  obtain ⟨text, -, rfl⟩ := List.mem_map.mp hvalue
  exact normal_string text

theorem natJson_normal (n : ℕ) : (natJson n).Normal := ⟨trivial, trivial⟩

theorem rpcResult_normal {data : Meta} (hkeys : (data.map (·.1)).Pairwise (· < ·))
    (h : ∀ entry ∈ data, entry.2.Normal) : (rpcResult data).Normal := by
  have hsorted : ["data", "meta"].Pairwise (· < ·) := by decide
  refine normal_object hsorted (List.forall_mem_cons.mpr ⟨normal_object hkeys h,
    List.forall_mem_singleton.mpr (normal_object List.Pairwise.nil ?_)⟩)
  exact List.forall_mem_nil _

theorem rpcResult_single {name : String} {value : Value} (h : value.Normal) :
    (rpcResult [(name, value)]).Normal :=
  rpcResult_normal (List.pairwise_singleton _ _) (by simpa using h)

/-- A method that writes JSON in its normal form. -/
def MethodRun.Writes {σ : Type} (run : MethodRun σ) : Prop :=
  ∀ now s s' result, run now s = (.ok result, s') → result.Normal

namespace Daemon

variable {σ : Type} {d : Daemon σ} {metadata : Meta}

theorem inTime_writes {run : MethodRun σ} (h : run.Writes) : (inTime metadata run).Writes := by
  intro now s s' result hrun
  unfold inTime at hrun
  split at hrun
  · cases hrun
  · exact h _ _ _ _ hrun

theorem runStatus_writes : (d.runStatus metadata).Writes := by
  refine inTime_writes fun now s s' result hrun => ?_
  rw [Prod.mk.injEq, Except.ok.injEq] at hrun
  exact hrun.1 ▸ d.status_normal s

theorem runCheckpoint_writes : (d.runCheckpoint metadata).Writes := by
  refine inTime_writes fun now s s' result hrun => ?_
  split at hrun
  · cases hrun
  · obtain ⟨_, -, rfl⟩ := Except.map_eq_ok.mp (Prod.mk.inj hrun).1
    exact rpcResult_single ⟨trivial, trivial⟩

theorem runShutdown_writes : (runShutdown metadata : MethodRun σ).Writes := by
  refine inTime_writes fun now s s' result hrun => ?_
  rw [Prod.mk.injEq, Except.ok.injEq] at hrun
  exact hrun.1 ▸ rpcResult_single ⟨trivial, trivial⟩

theorem runUploadBegin_writes (data : ArtifactUploadBeginData) :
    (d.runUploadBegin metadata data).Writes := by
  refine inTime_writes fun now s s' result hrun => ?_
  obtain ⟨uploadId, -, rfl⟩ := Except.map_eq_ok.mp (Prod.mk.inj hrun).1
  have hsorted : ["max_chunk_bytes", "upload_id"].Pairwise (· < ·) := by decide
  exact rpcResult_normal hsorted (List.forall_mem_cons.mpr ⟨natJson_normal _,
    List.forall_mem_singleton.mpr (normal_string _)⟩)

theorem runUploadChunk_writes (uploadId : String) (offset : ℕ) (bytesBase64 : String) :
    (d.runUploadChunk metadata uploadId offset bytesBase64).Writes := by
  refine inTime_writes fun now s s' result hrun => ?_
  obtain ⟨nextOffset, -, rfl⟩ := Except.map_eq_ok.mp (Prod.mk.inj hrun).1
  exact rpcResult_single (natJson_normal _)

theorem runUploadCommit_writes (uploadId : String) :
    (d.runUploadCommit metadata uploadId).Writes := by
  refine inTime_writes fun now s s' result hrun => ?_
  split at hrun
  · cases hrun
  · split at hrun
    · cases hrun
    · split at hrun
      · cases hrun
      · rename_i hentity
        rw [Prod.mk.injEq, Except.ok.injEq] at hrun
        exact hrun.1 ▸ d.entity_normal _ _ _ _ hentity

theorem runDownload_writes (data : ArtifactDownloadChunkData) :
    (d.runDownload metadata data).Writes := by
  intro now s s' result hrun
  unfold runDownload at hrun
  rw [Prod.mk.injEq, Except.mapError_eq_ok] at hrun
  exact d.download_normal metadata data s _ result (Prod.ext hrun.1 rfl)

theorem runEntity_writes (request : EntityRequest) : (d.runEntity request).Writes := by
  intro now s s' result hrun
  unfold runEntity at hrun
  rw [Prod.mk.injEq, Except.mapError_eq_ok] at hrun
  exact d.entity_normal request s _ result (Prod.ext hrun.1 rfl)

/-- Whatever the parameters of a method are, it writes JSON in its normal form. -/
theorem writes_of_read {α : Type} {read : Except String α} {make : α → MethodRun σ}
    {run : MethodRun σ} (h : read.map make = .ok run) (hmake : ∀ a, (make a).Writes) :
    run.Writes := by
  cases read with
  | error message => cases h
  | ok a =>
    rw [← Except.ok.inj h]
    exact hmake a

theorem methods_write {method : String} {params : Value} {run : MethodRun σ}
    (h : (d.methods params).lookup method = some (.ok run)) : run.Writes := by
  have hmem := Table.mem_of_lookup h
  simp only [methods, List.mem_cons, Prod.mk.injEq, List.not_mem_nil, or_false] at hmem
  rcases hmem with ⟨-, h⟩ | ⟨-, h⟩ | ⟨-, h⟩ | ⟨-, h⟩ | ⟨-, h⟩ | ⟨-, h⟩ | ⟨-, h⟩ | ⟨-, h⟩ | ⟨-, h⟩ |
    ⟨-, h⟩ | ⟨-, h⟩ | ⟨-, h⟩
  · exact writes_of_read h.symm fun _ => runStatus_writes
  · exact writes_of_read h.symm fun _ => runCheckpoint_writes
  · exact writes_of_read h.symm fun _ => runShutdown_writes
  · exact writes_of_read h.symm fun _ => runUploadBegin_writes _
  · exact writes_of_read h.symm fun _ => runUploadChunk_writes _ _ _
  · exact writes_of_read h.symm fun _ => runUploadCommit_writes _
  · exact writes_of_read h.symm fun _ => runDownload_writes _
  · exact writes_of_read h.symm fun _ => runEntity_writes _
  · exact writes_of_read h.symm fun _ => runEntity_writes _
  · exact writes_of_read h.symm fun _ => runEntity_writes _
  · exact writes_of_read h.symm fun _ => runEntity_writes _
  · exact writes_of_read h.symm fun _ => runEntity_writes _

end Daemon

/-! ### Answers -/

/-- The error of a message: a code without a reason, or the code of its reason. -/
inductive RpcErrorObject : Value → Prop
  | plain (code : Int64) (message : String) (h : code < 0) :
    RpcErrorObject (.object [("code", .number (.negInt code)), ("message", .string message)])
  | reasoned (reason : ProtocolErrorReason) (message : String) (currentVersions : List String)
    (conflicts : List EntityVersionConflict) :
    RpcErrorObject (.object [("code", .number (.negInt reason.code)),
      ("data", protocolErrorData reason currentVersions conflicts), ("message", .string message)])

/-- A message that answers a request. -/
inductive RpcResponse (id : Value) : Value → Prop
  | success (result : Value) (h : result.Normal) : RpcResponse id (rpcSuccess id result)
  | failure (error : Value) (h : RpcErrorObject error) : RpcResponse id (rpcFailure id error)

theorem EntityVersionConflict.toJson_normal (conflict : EntityVersionConflict) :
    conflict.toJson.Normal := by
  have hkeys : ["current_versions", "ref"].Pairwise (· < ·) := by decide
  have href : ["id", "type"].Pairwise (· < ·) := by decide
  exact normal_object hkeys (List.forall_mem_cons.mpr ⟨normal_strings _,
    List.forall_mem_singleton.mpr (normal_object href (List.forall_mem_cons.mpr
      ⟨normal_string _, List.forall_mem_singleton.mpr (normal_string _)⟩))⟩)

theorem protocolErrorData_normal (reason : ProtocolErrorReason) (currentVersions : List String)
    (conflicts : List EntityVersionConflict) :
    (protocolErrorData reason currentVersions conflicts).Normal := by
  have hsorted : ["conflicts", "current_versions", "reason"].Pairwise (· < ·) := by decide
  have hconflicts : (Value.array (conflicts.map EntityVersionConflict.toJson)).Normal := by
    refine normal_array fun value hvalue => ?_
    obtain ⟨conflict, -, rfl⟩ := List.mem_map.mp hvalue
    exact conflict.toJson_normal
  refine normal_object (hsorted.sublist ?_) fun entry hentry => ?_
  · rw [List.map_append, List.map_append]
    refine @List.Sublist.append _ _ ["conflicts", "current_versions"] _ ["reason"]
      (@List.Sublist.append _ _ ["conflicts"] _ ["current_versions"] ?_ ?_) (List.Sublist.refl _)
    · split <;> simp
    · split <;> simp
  · simp only [List.mem_append, List.mem_singleton] at hentry
    rcases hentry with (hentry | hentry) | rfl
    · split_ifs at hentry
      · cases hentry
      · rw [List.mem_singleton.mp hentry]
        exact hconflicts
    · split_ifs at hentry
      · cases hentry
      · rw [List.mem_singleton.mp hentry]
        exact normal_strings _
    · exact normal_string _

theorem RpcErrorObject.normal {error : Value} (h : RpcErrorObject error) : error.Normal := by
  have hnegative : ∀ reason : ProtocolErrorReason, reason.code < 0 := by
    intro reason
    cases reason <;> decide
  have hplain : ["code", "message"].Pairwise (· < ·) := by decide
  have hdata : ["code", "data", "message"].Pairwise (· < ·) := by decide
  cases h with
  | plain code message hcode =>
    exact normal_object hplain (List.forall_mem_cons.mpr ⟨⟨hcode, trivial⟩,
      List.forall_mem_singleton.mpr (normal_string _)⟩)
  | reasoned reason message currentVersions conflicts =>
    exact normal_object hdata (List.forall_mem_cons.mpr ⟨⟨hnegative reason, trivial⟩,
      List.forall_mem_cons.mpr ⟨protocolErrorData_normal _ _ _,
        List.forall_mem_singleton.mpr (normal_string _)⟩⟩)

theorem RpcResponse.normal {id response : Value} (h : RpcResponse id response)
    (hid : id.Normal) : response.Normal := by
  have hsuccess : ["id", "jsonrpc", "result"].Pairwise (· < ·) := by decide
  have hfailure : ["error", "id", "jsonrpc"].Pairwise (· < ·) := by decide
  cases h with
  | success result hresult =>
    exact normal_object hsuccess (List.forall_mem_cons.mpr ⟨hid, List.forall_mem_cons.mpr
      ⟨normal_string _, List.forall_mem_singleton.mpr hresult⟩⟩)
  | failure error herror =>
    exact normal_object hfailure (List.forall_mem_cons.mpr ⟨herror.normal,
      List.forall_mem_cons.mpr ⟨hid, List.forall_mem_singleton.mpr (normal_string _)⟩⟩)

theorem rpcError_failure (id : Value) {code : Int64} (message : String) (hcode : code < 0) :
    ∃ error, RpcErrorObject error ∧ rpcError id code message = rpcFailure id error := by
  unfold rpcError
  split
  · rename_i reason hreason
    have hcode' := List.find?_some hreason
    rw [decide_eq_true_eq] at hcode'
    rw [← hcode']
    exact ⟨_, .reasoned reason message [] [], rfl⟩
  · exact ⟨_, .plain code message hcode, rfl⟩

theorem rpcError_answers (id : Value) {code : Int64} (message : String) (hcode : code < 0) :
    RpcResponse id (rpcError id code message) := by
  obtain ⟨error, herror, heq⟩ := rpcError_failure id message hcode
  exact heq ▸ .failure error herror

theorem rpcBackendError_answers (id : Value) (error : BackendError) :
    RpcResponse id (rpcBackendError id error) :=
  .failure _ (.reasoned _ _ _ _)

theorem rpcMethodError_answers (id : Value) (error : MethodError) :
    RpcResponse id (rpcMethodError id error) := by
  unfold rpcMethodError
  cases error with
  | backend error => exact rpcBackendError_answers id error
  | artifact error =>
    unfold rpcArtifactError
    cases error <;> exact rpcError_answers _ _ (by decide)
  | internal message => exact rpcError_answers _ _ (by decide)

theorem Turn.say_answers {σ : Type} {handshaken : Bool} {s : σ} {id response : Value}
    (h : RpcResponse id response) : RpcResponse id (Turn.say handshaken s response).response := h

/-- The id a frame is answered under. -/
def Daemon.answerId {σ : Type} (d : Daemon σ) : RequestFrame → Value
  | .line line =>
    match d.parse line with
    | some (.object fields) => requestId fields
    | _ => .null
  | _ => .null

namespace Daemon

variable {σ : Type} {d : Daemon σ} {now : ℕ → ℕ} {s : σ} {handshaken : Bool}

theorem unsubscribe_answers (names : List String) (id params : Value) :
    RpcResponse id (d.unsubscribe now s names id params).response := by
  unfold unsubscribe
  split
  · exact Turn.say_answers (rpcError_answers _ _ (by decide))
  · split
    · exact Turn.say_answers (rpcMethodError_answers _ _)
    · exact .success _ (rpcResult_single ⟨trivial, trivial⟩)

theorem openSubscription_answers (next : ℕ) (id params : Value) :
    RpcResponse id (d.openSubscription s next id params).response := by
  unfold openSubscription
  split
  · exact Turn.say_answers (rpcError_answers _ _ (by decide))
  · split
    · exact Turn.say_answers (rpcBackendError_answers _ _)
    · have hsorted : ["cursor", "subscription_id"].Pairwise (· < ·) := by decide
      exact .success _ (rpcResult_normal hsorted (List.forall_mem_cons.mpr ⟨normal_string _,
        List.forall_mem_singleton.mpr (normal_string _)⟩))

theorem shakeHands_answers (id params : Value) :
    RpcResponse id (d.shakeHands s handshaken id params).response := by
  unfold shakeHands
  split
  · exact Turn.say_answers (rpcError_answers _ _ (by decide))
  · split
    · exact Turn.say_answers (rpcError_answers _ _ (by decide))
    · have hsorted : ["capabilities", "limits", "protocol_version", "server"].Pairwise
          (· < ·) := by decide
      refine .success _ (normal_object hsorted ?_)
      simp only [List.forall_mem_cons]
      exact ⟨normal_strings _, d.limits_normal, natJson_normal _, d.identity_normal,
        List.forall_mem_nil _⟩

theorem run_answers (method : String) (id : Value) {run : MethodRun σ} (h : run.Writes) :
    RpcResponse id (Daemon.run now s method id run).response := by
  unfold Daemon.run
  split
  · exact Turn.say_answers (rpcMethodError_answers _ _)
  · rename_i hrun
    exact .success _ (h _ _ _ _ hrun)

theorem dispatch_answers (line : String) :
    RpcResponse (d.answerId (.line line)) (d.dispatch now s handshaken line).response := by
  unfold dispatch answerId
  dsimp only
  cases d.parse line with
  | none => exact Turn.say_answers (rpcError_answers _ _ (by decide))
  | some request =>
    cases request with
    | object fields =>
      dsimp only
      split
      · exact Turn.say_answers (rpcError_answers _ _ (by decide))
      · split
        · exact Turn.say_answers (rpcError_answers _ _ (by decide))
        · split
          · exact shakeHands_answers _ _
          · split
            · exact Turn.say_answers (rpcError_answers _ _ (by decide))
            · split
              · exact Turn.say_answers (rpcError_answers _ _ (by decide))
              · exact Turn.say_answers (rpcError_answers _ _ (by decide))
              · rename_i hmethod
                exact run_answers _ _ (methods_write hmethod)
    | _ => exact Turn.say_answers (rpcError_answers _ _ (by decide))

/-- What `handle_subscription` answers, where it answers. -/
theorem handleSubscription_answers {names : List String} {next : ℕ} {line : String}
    {turn : Turn σ} (h : d.handleSubscription now s names next line = some turn) :
    RpcResponse (d.answerId (.line line)) turn.response := by
  unfold handleSubscription at h
  split at h
  · rename_i fields hparse
    rw [answerId, hparse]
    split at h
    · split_ifs at h
      · rw [← Option.some.inj h]
        exact unsubscribe_answers _ _ _
      · rw [← Option.some.inj h]
        exact openSubscription_answers _ _ _
    · cases h
  · cases h

/-- **Every frame is answered once**, under the id of its request. -/
theorem serveFrame_answers (names : List String) (next : ℕ) (frame : RequestFrame) :
    RpcResponse (d.answerId frame)
      (d.serveFrame now s handshaken names next frame).response := by
  cases frame with
  | invalidUtf8 => exact Turn.say_answers (rpcError_answers _ _ (by decide))
  | tooLarge => exact Turn.say_answers (rpcError_answers _ _ (by decide))
  | line line =>
    simp only [serveFrame]
    split
    · cases hhandled : d.handleSubscription now s names next line with
      | none => exact dispatch_answers line
      | some turn => exact handleSubscription_answers hhandled
    · exact dispatch_answers line

/-- What a frame comes to before a handshake, where it is not one: an error, and nothing else. -/
structure Refused (d : Daemon σ) (s : σ) (frame : RequestFrame) (turn : Turn σ) : Prop where
  state_eq : turn.state = s
  opened : turn.opened = none
  closed : turn.closed = none
  shutdown : turn.shutdown = false
  failure : turn.handshaken = false →
    ∃ error, RpcErrorObject error ∧ turn.response = rpcFailure (d.answerId frame) error

theorem refused_say {frame : RequestFrame} {response : Value}
    (h : ∃ error, RpcErrorObject error ∧ response = rpcFailure (d.answerId frame) error) :
    d.Refused s frame (.say false s response) :=
  ⟨rfl, rfl, rfl, rfl, fun _ => h⟩

/-- **Nothing behind the daemon is touched before a handshake.** -/
theorem serveFrame_refused (names : List String) (next : ℕ) (frame : RequestFrame) :
    d.Refused s frame (d.serveFrame now s false names next frame) := by
  cases frame with
  | invalidUtf8 => exact refused_say (rpcError_failure _ _ (by decide))
  | tooLarge => exact refused_say (rpcError_failure _ _ (by decide))
  | line line =>
    simp only [serveFrame, Bool.false_eq_true, if_false]
    unfold dispatch
    cases hparse : d.parse line with
    | none => exact refused_say (by rw [answerId, hparse]; exact rpcError_failure _ _ (by decide))
    | some request =>
      cases request with
      | object fields =>
        have hid : d.answerId (.line line) = requestId fields := by rw [answerId, hparse]
        dsimp only
        rw [← hid]
        split
        · exact refused_say (rpcError_failure _ _ (by decide))
        · split
          · exact refused_say (rpcError_failure _ _ (by decide))
          · split
            · unfold shakeHands
              split
              · exact refused_say (rpcError_failure _ _ (by decide))
              · split
                · exact refused_say (rpcError_failure _ _ (by decide))
                · exact ⟨rfl, rfl, rfl, rfl, fun h => by cases h⟩
            · rw [if_pos rfl]
              exact refused_say (rpcError_failure _ _ (by decide))
      | _ => exact refused_say (by rw [answerId, hparse]; exact rpcError_failure _ _ (by decide))

end Daemon

end Patchouli
