import Patchouli.Sqlite.Db

/-!
# Published reads

Reading what is published: snapshots with their CRDT fields, consistency observations, change
pages, idempotency records. The reads run in `IMMEDIATE` transactions and may still write: they
advance the cursors of monotonic sessions, and a change read prunes the change table first.

## Main definitions

* `Db.readEntitySnapshot`, `Db.readCrdtFields`
* `consistencyObservation`
* `readEntity`, `readChanges`, `readIdempotency` — the provider calls
-/

namespace Patchouli

namespace Db

/-! ### Snapshots -/

/-- `ORDER BY recorded_at_unix_ms, version`. -/
def recordedBefore (r s : EntityVersionRow) : Prop :=
  r.recordedAtUnixMs < s.recordedAtUnixMs ∨
    (r.recordedAtUnixMs = s.recordedAtUnixMs ∧ r.version ≤ s.version)

instance : DecidableRel recordedBefore := fun r s =>
  inferInstanceAs (Decidable (r.recordedAtUnixMs < s.recordedAtUnixMs ∨
    (r.recordedAtUnixMs = s.recordedAtUnixMs ∧ r.version ≤ s.version)))

/-- The parents of a stored change. -/
def changeParents (db : Db) (hash : String) : List String :=
  Table.sorted ((db.crdtParents.filter (·.1 = hash)).map (·.2))

/-- The changes reachable from some heads. -/
def changesFrom (db : Db) (heads : List String) : List StoredCrdtChange :=
  let reachable := Closure.reach db.crdtParents heads
  ((db.crdtChanges.filter (·.changeHash ∈ reachable)).insertionSort
      fun r s => r.changeHash ≤ s.changeHash).map fun row =>
    { hash := row.changeHash, parents := db.changeParents row.changeHash, bytes := row.changeBytes }

/-- The CRDT heads of one field of a version. -/
def crdtFieldHeads (db : Db) (key : EntityKey) (version path : String) : List String :=
  Table.sorted ((db.crdtHeads.filter fun row =>
    row.key = key ∧ row.version = version ∧ row.fieldPath = path).map (·.changeHash))

/-- The paths of the CRDT fields of a version. -/
def crdtFieldPaths (db : Db) (key : EntityKey) (version : String) : List String :=
  Table.sorted ((db.crdtHeads.filter fun row =>
    row.key = key ∧ row.version = version).map (·.fieldPath)).dedup

/-- `read_crdt_fields`. -/
def readCrdtFields (db : Db) (key : EntityKey) (version : String) : List StoredCrdtField :=
  (db.crdtFieldPaths key version).map fun path =>
    { path
      heads := db.crdtFieldHeads key version path
      changes := db.changesFrom (db.crdtFieldHeads key version path) }

/-- A row as a snapshot lists it. -/
def storedVersion (db : Db) (row : EntityVersionRow) : StoredEntityVersion :=
  { version := row.version, state := row.state, valueJson := row.valueJson
    crdtFields := db.readCrdtFields row.key row.version }

/-- The versions a condition selects, as a snapshot lists them. -/
def snapshotVersions (db : Db) (visible : EntityVersionRow → Bool) : List StoredEntityVersion :=
  ((db.versions.filter visible).insertionSort recordedBefore).map db.storedVersion

/-- `published_heads`. -/
def publishedHeads (db : Db) (key : EntityKey) : List String :=
  Table.sorted ((db.heads.filter (·.key = key)).map (·.version))

/-- `read_entity_snapshot`. -/
def readEntitySnapshot (db : Db) (key : EntityKey) : Option EntitySnapshot :=
  if db.publishedHeads key = [] then none
  else some
    { headVersions := db.publishedHeads key
      versions := db.snapshotVersions fun row => row.key = key ∧ row.publishedCursor.isSome }

/-! ### Frontiers -/

/-- `current_scope_cursor`. -/
def currentScopeCursor (db : Db) (scope : String) : ℕ :=
  match db.scopeFrontier.find? (·.scopeJson = scope) with
  | some row => row.cursor
  | none => 0

/-- The cursor of a causal token in a scope. -/
def tokenCursor? (db : Db) (scope token : String) : Option ℕ :=
  (db.causalFrontier.find? fun row => row.scopeJson = scope ∧ row.causalToken = token).map (·.cursor)

/-- The frontier a session requires. -/
def sessionRequirement (db : Db) (scope : String) (session : SessionConsistency) : ℕ :=
  match db.sessionFrontier.find? fun row =>
      row.scopeJson = scope ∧ row.sessionKeyJson = session.keyJson with
  | some row =>
    max (if session.monotonicReads then row.readCursor else 0)
      (if session.readYourWrites then row.writeCursor else 0)
  | none => 0

end Db

/-- `consistency_observation`; `none` is an unavailable frontier. The ordering point of a
linearizable read is the surrounding transaction. -/
def consistencyObservation (db : Db) (now : ℕ) (scope : String) (consistency : ReadConsistency)
    (frontier : ℕ) : Except ProviderError (Option ReadObservation) :=
  if consistency.deadlineUnixMs.any (· ≤ now) then .error .deadlineElapsed
  else if .authority ∉ consistency.allowedSources then .ok none
  else if consistency.minimumTokens.any fun token =>
      (db.tokenCursor? scope token).all (frontier < ·) then .ok none
  else if consistency.sessions.any fun session =>
      frontier < db.sessionRequirement scope session then .ok none
  else .ok (some
    { source := .authority
      frontier
      causalToken :=
        if frontier = 0 then none
        else (db.causalFrontier.find? fun row =>
          row.scopeJson = scope ∧ row.cursor = frontier).map (·.causalToken) })

/-! ### Expiry -/

/-- A unit that is neither committed nor expired. -/
def WorkUnitRow.Live (row : WorkUnitRow) : Prop :=
  row.state = .opened ∨ row.state = .closing

instance (row : WorkUnitRow) : Decidable row.Live :=
  inferInstanceAs (Decidable (row.state = .opened ∨ row.state = .closing))

namespace Db

/-- `UPDATE patchouli_work_unit SET state = 'expired' …`. -/
def markExpired (db : Db) (identity : String) (now : ℕ) : Db :=
  { db with
    workUnits := db.workUnits.map fun row =>
      if row.identityJson = identity ∧ row.Live then
        { row with state := .expired, closedAtUnixMs := some now }
      else row }

/-- `DELETE FROM patchouli_work_unit_idempotency WHERE work_unit_json = ?`. -/
def deleteUnitIdempotency (db : Db) (unit : String) : Db :=
  { db with unitIdempotency := db.unitIdempotency.filter (·.workUnitJson ≠ unit) }

/-- `expire_work_unit`. -/
def expireWorkUnit (db : Db) (identity : String) (now : ℕ) : Except ProviderError Db := do
  let now ← sqliteTime now "work-unit timestamp exceeds SQLite integer range"
  let db ← (db.markExpired identity now).deleteStagedVersions identity
  return (db.deleteUnitIdempotency identity).collectChanges

/-- `expire_open_work_units`. -/
def expireOpenWorkUnits (db : Db) (now : ℕ) : Except ProviderError Db := do
  let now ← bindUnsigned now
  let expired := Table.sorted ((db.workUnits.filter fun row =>
    row.Live ∧ row.expiryAction = .discard ∧ row.expiresAtUnixMs ≤ now).map (·.identityJson))
  expired.foldlM (fun db identity => db.expireWorkUnit identity now) db

/-- `sweep_expired_work_units`, a transaction of its own. -/
def sweepExpiredWorkUnits (db : Db) (now : ℕ) : Reply Unit :=
  transaction db (do
    let db ← db.expireOpenWorkUnits now
    commit db ())

end Db

/-- A call that sweeps first: if the sweep fails, so does the call. -/
def sweepThen {α : Type} (db : Db) (clock : Clock) (call : Db → Reply α) : Reply α :=
  match db.sweepExpiredWorkUnits clock.sweep with
  | ⟨.ok (), db⟩ => call db
  | ⟨.error error, db⟩ => ⟨.error error, db⟩

/-! ### The read calls -/

/-- `read_entity`. -/
def readEntity (db : Db) (clock : Clock) (key : EntityKey) (consistency : ReadConsistency) :
    Reply (ConsistentRead (Option EntitySnapshot)) :=
  sweepThen db clock fun db => transaction db (do
    match ← consistencyObservation db clock.observe key.scopeJson consistency
      (db.currentScopeCursor key.scopeJson) with
    | none => rollback .unavailable
    | some observation =>
      commitBeforeDeadline clock.commit consistency.deadlineUnixMs
        (db.advanceReadSessions key.scopeJson consistency observation.frontier)
        (.read (db.readEntitySnapshot key) observation))

/-- The first prune statement: note how far each scope is about to be pruned. -/
def Db.recordRetention (db : Db) (retainedAfter : ℕ) : Db :=
  { db with
    changeRetention := (db.changes.filter (·.recordedAtUnixMs < retainedAfter)).foldl
      (fun rows change => Table.upsert (·.scopeJson) ⟨change.key.scopeJson, change.cursor⟩
        (fun row => { row with
          prunedThroughCursor := max row.prunedThroughCursor change.cursor }) rows)
      db.changeRetention }

/-- The second prune statement. -/
def Db.deleteOverdueChanges (db : Db) (retainedAfter : ℕ) : Db :=
  { db with changes := db.changes.filter (retainedAfter ≤ ·.recordedAtUnixMs) }

/-- The page of a change query. The loop stops at its `limit`-th match, so a limit of zero is
none. -/
def Db.changePage (db : Db) (query : ChangeQuery) : ChangePage :=
  let rows := (db.changes.filter fun row =>
    row.key.scopeJson = query.scopeJson ∧ query.afterCursor < row.cursor).insertionSort
      fun r s => r.cursor ≤ s.cursor
  let matching := rows.filter fun row =>
    query.entityTypes.all (row.key.entityType ∈ ·) ∧ query.entityIds.all (row.key.entityId ∈ ·)
  { oldestCursor := (db.changeRetention.find? (·.scopeJson = query.scopeJson)).map
      (·.prunedThroughCursor + 1)
    currentCursor := db.currentScopeCursor query.scopeJson
    changes := (if query.limit = 0 then matching else matching.take query.limit).map fun row =>
      { cursor := row.cursor, entityType := row.key.entityType, entityId := row.key.entityId
        kind := row.kind, headVersions := row.headVersionsJson
        eventMetaJson := row.eventMetaJson } }

/-- The first statement of `read_changes`; a crash can end it there. -/
def Db.notePrune (db : Db) (query : ChangeQuery) : Db :=
  match bindUnsigned query.retainedAfterUnixMs with
  | .error _ => db
  | .ok retainedAfter => db.recordRetention retainedAfter

/-- `read_changes`: prune, then read the page. -/
def readChanges (db : Db) (query : ChangeQuery) : Reply ChangePage :=
  match bindUnsigned query.retainedAfterUnixMs with
  | .error error => ⟨.error error, db⟩
  | .ok retainedAfter =>
    let db := (db.recordRetention retainedAfter).deleteOverdueChanges retainedAfter
    ⟨.ok (db.changePage query), db⟩

/-! ### Published idempotency records -/

/-- `read_idempotency` inside its transaction. -/
def readIdempotencyRecord (db : Db) (identity : String) (request : Mutation) (now : ℕ) :
    Except ProviderError (IdempotencyReadOutcome × Db) := do
  let db ← db.deleteOverdueIdempotency now
  match db.idempotency? identity with
  | some record =>
    return (if record.requestJson = request then .replayed record.resultJson else .conflict, db)
  | none => return (if (db.unitIdempotency? identity).isSome then .conflict else .missing, db)

/-- `read_idempotency`. -/
def readIdempotency (db : Db) (clock : Clock) (scope : String) (consistency : ReadConsistency)
    (identity : String) (request : Mutation) (now : ℕ) : Reply IdempotencyReadOutcome :=
  transaction db (do
    match ← consistencyObservation db clock.observe scope consistency
      (db.currentScopeCursor scope) with
    | none => rollback .unavailable
    | some observation =>
      let (outcome, db) ← readIdempotencyRecord db identity request now
      commitBeforeDeadline clock.commit consistency.deadlineUnixMs
        (db.advanceReadSessions scope consistency observation.frontier) outcome)

end Patchouli
