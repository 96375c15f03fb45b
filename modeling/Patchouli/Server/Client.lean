import Mathlib.Data.List.DropRight
import Patchouli.Lib.Lines
import Patchouli.Server.Rpc

/-!
# The connection of the storage service

`PatchouliStorageService` of `service.ts` over one connection: every call has an id of its own and
waits in a map until a response with this id comes, an event goes to the handler of its subscription,
and when the connection is lost all that waits is rejected. Handlers run inside the loop of `receive`
and may call in turn; so a turn of this loop is a step of its own.

What was settled and what was handled is kept as a history.

## Main definitions

* `ServiceCall` — the calls of the service
* `ServiceClient.issue`, `ServiceClient.turn`, `ServiceClient.connectionFailed`,
  `ServiceClient.close`
-/

namespace Patchouli

open Json (Value)

/-! ### Calls -/

/-- The methods the service calls and waits for, without an effect on its subscriptions. -/
inductive PlainMethod where
  | handshake
  | controlStatus
  | controlCheckpoint
  | artifactUploadBegin
  | artifactUploadChunk
  | artifactUploadCommit
  | artifactDownloadChunk
  | entityCreate
  | entityRead
  | entityRetrieve
  | entityUpdate
  | entityDelete
  deriving DecidableEq

def PlainMethod.text : PlainMethod → String
  | handshake => Methods.handshake
  | controlStatus => Methods.controlStatus
  | controlCheckpoint => Methods.controlCheckpoint
  | artifactUploadBegin => Methods.artifactUploadBegin
  | artifactUploadChunk => Methods.artifactUploadChunk
  | artifactUploadCommit => Methods.artifactUploadCommit
  | artifactDownloadChunk => Methods.artifactDownloadChunk
  | entityCreate => Methods.entityCreate
  | entityRead => Methods.entityRead
  | entityRetrieve => Methods.entityRetrieve
  | entityUpdate => Methods.entityUpdate
  | entityDelete => Methods.entityDelete

/-- A call. The parameters of an `unsubscribe` name its subscription. -/
inductive ServiceCall where
  | plain (method : PlainMethod) (params : Value)
  | subscribe (params : Value)
  | unsubscribe (metadata : Meta) (name : String)

namespace ServiceCall

def method : ServiceCall → String
  | plain method _ => method.text
  | subscribe _ => Methods.changesSubscribe
  | unsubscribe _ _ => Methods.changesUnsubscribe

def params : ServiceCall → Value
  | plain _ params => params
  | subscribe params => params
  | unsubscribe metadata name =>
    .object [("data", .object [("subscription_id", .string name)]), ("meta", .object metadata)]

/-- The request of a call. -/
def request (call : ServiceCall) (id : ℕ) : Value :=
  .object [("id", natJson id), ("jsonrpc", .string "2.0"), ("method", .string call.method),
    ("params", call.params)]

end ServiceCall

/-- What became of a call: `undefined` is a result, too. -/
inductive Settlement where
  | resolved (result : Option Value)
  | rejected (error : Value)
  | failed

/-- `ChangeSubscriptionClose`. -/
inductive SubscriptionClose where
  | unsubscribed
  | connectionLost
  | clientClosed
  deriving DecidableEq

/-! ### The client -/

/-- The service: what it waits for, and what it has done. -/
structure ServiceClient where
  connected : Bool
  buffer : List Char
  nextId : ℕ
  pending : List (ℕ × ServiceCall)
  subscriptions : List String
  settled : List (ℕ × Settlement)
  handled : List (String × Value)
  closed : List (String × SubscriptionClose)
  crashed : Bool

/-- `trimEnd`: white space and line terminators. -/
def trimEnd (line : List Char) : List Char :=
  line.rdropWhile fun c =>
    c.toNat ∈ [9, 10, 11, 12, 13, 32, 160, 5760, 8232, 8233, 8239, 8287, 12288, 65279] ∨
      (8192 ≤ c.toNat ∧ c.toNat ≤ 8202)

/-- `value.data.subscription_id`; nothing where this throws. -/
def subscriptionIdOf : Option Value → Option (Option Value)
  | some (.object fields) =>
    match fields.lookup "data" with
    | some (.object data) => some (data.lookup "subscription_id")
    | none | some .null => none
    | some _ => some none
  | _ => none

namespace ServiceClient

/-- The service as its constructor makes it, connected. -/
def start : ServiceClient := ⟨true, [], 1, [], [], [], [], [], false⟩

variable (c : ServiceClient)

/-- The promise of a call settles. -/
def settle (id : ℕ) (outcome : Settlement) : ServiceClient :=
  { c with settled := c.settled ++ [(id, outcome)] }

/-- `settleSubscription`. -/
def settleSubscription (name : String) (result : SubscriptionClose) : ServiceClient :=
  if name ∈ c.subscriptions then
    { c with
      subscriptions := c.subscriptions.filter (· ≠ name)
      closed := c.closed ++ [(name, result)] }
  else c

/-- A subscription and its handler. -/
def register (name : String) : ServiceClient :=
  if name ∈ c.subscriptions then c else { c with subscriptions := c.subscriptions ++ [name] }

/-- `settleSubscriptions` and `rejectPending`. -/
def abandon (result : SubscriptionClose) : ServiceClient :=
  { c with
    connected := false
    pending := []
    subscriptions := []
    settled := c.settled ++ c.pending.map fun entry => (entry.1, .failed)
    closed := c.closed ++ c.subscriptions.map fun name => (name, result) }

/-- `connectionFailed`. A write that failed comes to the same. -/
def connectionFailed : ServiceClient := c.abandon .connectionLost

/-- `close`. -/
def close : ServiceClient := c.abandon .clientClosed

/-- `call`, where there is a socket. -/
def issue (call : ServiceCall) : ServiceClient :=
  { c with nextId := c.nextId + 1, pending := c.pending ++ [(c.nextId, call)] }

/-- `resolve` of a pending call: what its `onResult` does, where it does not throw. -/
def resolve (id : ℕ) (call : ServiceCall) (result : Option Value) : ServiceClient :=
  match call with
  | .plain _ _ => c.settle id (.resolved result)
  | .unsubscribe _ name => (c.settleSubscription name .unsubscribed).settle id (.resolved result)
  | .subscribe _ =>
    match subscriptionIdOf result with
    | none => c.settle id .failed
    | some (some (.string name)) =>
      (c.register name).settle id (.resolved result)
    | some _ => c.settle id (.resolved result)

/-- `receiveNotification`. -/
def receiveNotification (fields : Meta) : ServiceClient :=
  if fields.lookup "method" ≠ some (.string Methods.changesEvent) then c
  else
    match subscriptionIdOf (fields.lookup "params") with
    | none => { c with crashed := true }
    | some (some (.string name)) =>
      if name ∈ c.subscriptions then
        { c with handled := c.handled ++ [(name, (fields.lookup "params").getD .null)] }
      else c
    | some _ => c

/-- A response. -/
def receiveResponse (fields : Meta) : ServiceClient :=
  match fields.lookup "id" with
  | some (.number (.posInt id)) =>
    match c.pending.lookup id.toNat with
    | none => c
    | some call =>
      let c := { c with pending := c.pending.filter (·.1 ≠ id.toNat) }
      match fields.lookup "error" with
      | some .null => { c with crashed := true }
      | some error => c.settle id.toNat (.rejected error)
      | none => c.resolve id.toNat call (fields.lookup "result")
  | _ => c

/-- A message. -/
def receiveMessage : Value → ServiceClient
  | .object fields =>
    if (fields.lookup "method").isSome then c.receiveNotification fields
    else c.receiveResponse fields
  | .array _ => c
  | _ => { c with crashed := true }

/-- A turn of the loop of `receive`, where a line has come. -/
def turn (parse : String → Option Value) : ServiceClient :=
  match Lines.firstLine (Char.ofNat 10) c.buffer with
  | none => c
  | some (line, rest) =>
    let c := { c with buffer := rest }
    if trimEnd line = [] then c
    else
      match parse (String.ofList (trimEnd line)) with
      | none => c.connectionFailed
      | some message => c.receiveMessage message

end ServiceClient

end Patchouli
