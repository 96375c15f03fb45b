import Patchouli.Backend.Engine
import Patchouli.Sqlite.Read

/-!
# Change subscriptions

`BackendEngine::subscribe` probes the change log once to validate the cursor it starts from. The
stream it returns reads the log in pages, each from the cursor of the event it yielded last; after
an empty page it goes on from the frontier of the scope, once that has moved. Every page is
validated: a cursor that the retention of the log has passed ends the stream.

## Main definitions

* `validateChangeCursor`, `retainedAfter`
* `ChangeStream` — the variables of the stream; `ChangeStream.read`, `yieldNext`, `wake` — its steps
* `subscribe`
-/

namespace Patchouli

/-- A filter of a subscription; what it leaves out, it does not restrict. -/
structure ChangeFilter where
  types : Option (List String)
  ids : Option (List String)

/-- What `subscribe` is called with, after the cursor was parsed, and the configured retention. -/
structure SubscribeRequest where
  scope : String
  filter : ChangeFilter
  afterCursor : Option ℕ
  deadlineUnixMs : Option ℕ
  retentionSeconds : ℕ

/-- `retained_after`. -/
def retainedAfter (retentionSeconds now : ℕ) : Except BackendError ℕ :=
  if retentionSeconds * 1000 < 2 ^ 64 then .ok (now - retentionSeconds * 1000)
  else .error (invalidRequest "change retention overflows")

/-- What a cursor outside the retained log is answered with. -/
def cursorExpired : BackendError :=
  BackendError.new .cursorExpired "change cursor is outside the retained log"

/-- `validate_change_cursor`. -/
def validateChangeCursor (cursor : ℕ) (page : ChangePage) : Except BackendError Unit :=
  if page.currentCursor < cursor ∨ page.oldestCursor.any (cursor + 1 < ·) = true then
    .error cursorExpired
  else .ok ()

/-! ### The stream -/

/-- A stream between two of its steps: the variables of its loop, what is left of the page it is in,
what it has yielded, and the error that ended it. -/
structure ChangeStream where
  scope : String
  filter : ChangeFilter
  retentionSeconds : ℕ
  accepted : ℕ
  cursor : ℕ
  pending : List StoredChange
  yielded : List StoredChange
  waiting : Bool
  ended : Option BackendError

namespace ChangeStream

variable (s : ChangeStream)

/-- The next step of the stream is a read. -/
def Reads : Prop :=
  s.ended = none ∧ s.pending = [] ∧ s.waiting = false

def query (retainedAfter : ℕ) : ChangeQuery :=
  { scopeJson := s.scope
    entityTypes := s.filter.types
    entityIds := s.filter.ids
    afterCursor := s.cursor
    limit := 256
    retainedAfterUnixMs := retainedAfter }

/-- After a read. -/
def receive (outcome : Except ProviderError ChangePage) : ChangeStream :=
  match outcome with
  | .error error => { s with ended := some (providerBackendError error) }
  | .ok page =>
    match validateChangeCursor s.cursor page with
    | .error error => { s with ended := some error }
    | .ok () =>
      if page.changes = [] then { s with cursor := page.currentCursor, waiting := true }
      else { s with pending := page.changes }

/-- The read of a page. -/
def read (now : ℕ) (db : Db) : ChangeStream × Db :=
  match Patchouli.retainedAfter s.retentionSeconds now with
  | .error error => ({ s with ended := some error }, db)
  | .ok retainedAfter =>
    let reply := readChanges db (s.query retainedAfter)
    (s.receive reply.outcome, reply.db)

/-- The next event of the page. -/
def yieldNext : ChangeStream :=
  match s.pending with
  | [] => s
  | change :: rest =>
    { s with cursor := change.cursor, pending := rest, yielded := s.yielded ++ [change] }

/-- `wait_for_changes` looks at the frontier of the scope. -/
def wake (db : Db) : ChangeStream :=
  if s.cursor < db.currentScopeCursor s.scope then { s with waiting := false } else s

end ChangeStream

/-! ### Subscribing -/

def SubscribeRequest.probe (request : SubscribeRequest) (retainedAfter : ℕ) : ChangeQuery :=
  { scopeJson := request.scope
    entityTypes := request.filter.types
    entityIds := request.filter.ids
    afterCursor := 0
    limit := 1
    retainedAfterUnixMs := retainedAfter }

/-- After the probe. -/
def SubscribeRequest.probed (request : SubscribeRequest) (answered : ℕ)
    (outcome : Except ProviderError ChangePage) : Except BackendError ChangeStream := do
  let probe ← outcome.mapError providerBackendError
  checkDeadline request.deadlineUnixMs answered
  let cursor := request.afterCursor.getD probe.currentCursor
  validateChangeCursor cursor probe
  return { scope := request.scope, filter := request.filter
           retentionSeconds := request.retentionSeconds, accepted := cursor, cursor, pending := []
           yielded := [], waiting := false, ended := none }

/-- `subscribe`; the clock is read when the request arrives, for the probe, and after it. -/
def subscribe (request : SubscribeRequest) (arrived now answered : ℕ) (db : Db) :
    Except BackendError ChangeStream × Db :=
  match checkDeadline request.deadlineUnixMs arrived,
      retainedAfter request.retentionSeconds now with
  | .error error, _ => (.error error, db)
  | .ok (), .error error => (.error error, db)
  | .ok (), .ok retainedAfter =>
    let reply := readChanges db (request.probe retainedAfter)
    (request.probed answered reply.outcome, reply.db)

end Patchouli
