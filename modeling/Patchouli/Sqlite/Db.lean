import Patchouli.Provider
import Patchouli.Lib.Closure

/-!
# The SQLite tables

The storage schema of `provider-sqlite` and its single statements: a database is one list of rows
for each table, `INSERT` appends, `UPDATE` maps, `DELETE` filters. The connection runs with
`foreign_keys = ON`, so a statement checks the constraints of its table and fails with the
`ProviderError` of `database_error`; a delete cascades or is restricted as the schema says. The
texts in constraint errors only name the constraint.

Three things the schema has are left out because no statement can observe them: the JSON checks of
typed columns, the full-text index (retrieval takes its answers as a parameter) and the runtime
state row.

Integers are unbounded; the conversions that can fail on a `u64` above the SQLite range are where
the source has them (`sqliteTime`, `bindUnsigned`).

## Main definitions

* `Db` and its row types
* `Db.insertEntityVersions`, `Db.insertChange`, `Db.replacePublishedHeads`, …
-/

namespace Patchouli

open Json (Value)

/-! ### Rows -/

inductive WorkUnitState where
  | opened
  | closing
  | committed
  | expired
  deriving DecidableEq

structure WorkUnitRow where
  identityJson : String
  scopeJson : String
  state : WorkUnitState
  policyJson : WorkUnitPolicy
  expiryAction : WorkUnitExpiryAction
  openedAtUnixMs : ℕ
  expiresAtUnixMs : ℕ
  baselineCursor : ℕ
  closedAtUnixMs : Option ℕ
  deriving DecidableEq

structure EntityVersionRow where
  key : EntityKey
  version : String
  state : StoredVersionState
  valueJson : Option Value
  workUnitJson : Option String
  publishedCursor : Option ℕ
  recordedAtUnixMs : ℕ
  deriving DecidableEq

structure WorkUnitEntityRow where
  workUnitJson : String
  key : EntityKey
  conflictPolicyJson : Option ConflictPlan
  causalToken : Option String
  eventMetaJson : Option Meta
  writeSessionKeysJson : Option (List String)
  closeMarker : Bool
  deriving DecidableEq

structure WorkUnitBaseVersionRow where
  workUnitJson : String
  key : EntityKey
  version : String
  isHead : Bool
  deriving DecidableEq

structure WorkUnitHeadRow where
  workUnitJson : String
  key : EntityKey
  version : String
  deriving DecidableEq

structure EntityHeadRow where
  key : EntityKey
  version : String
  deriving DecidableEq

structure HeadHistoryRow where
  key : EntityKey
  cursor : ℕ
  headVersionsJson : List String
  deriving DecidableEq

structure CrdtChangeRow where
  changeHash : String
  changeBytes : List UInt8
  deriving DecidableEq

structure EntityCrdtHeadRow where
  key : EntityKey
  version : String
  fieldPath : String
  changeHash : String
  deriving DecidableEq

structure ChangeRow where
  cursor : ℕ
  key : EntityKey
  kind : StoredChangeKind
  headVersionsJson : List String
  causalToken : String
  eventMetaJson : Meta
  recordedAtUnixMs : ℕ
  deriving DecidableEq

structure ChangeRetentionRow where
  scopeJson : String
  prunedThroughCursor : ℕ
  deriving DecidableEq

structure SessionFrontierRow where
  scopeJson : String
  sessionKeyJson : String
  readCursor : ℕ
  writeCursor : ℕ
  deriving DecidableEq

structure CausalFrontierRow where
  causalToken : String
  scopeJson : String
  cursor : ℕ
  deriving DecidableEq

structure ScopeFrontierRow where
  scopeJson : String
  cursor : ℕ
  causalToken : String
  deriving DecidableEq

structure WorkUnitIdempotencyRow where
  workUnitJson : String
  record : IdempotencyRecord
  deriving DecidableEq

/-- The database. `lastCursor` is the `AUTOINCREMENT` sequence of the change table. -/
structure Db where
  workUnits : List WorkUnitRow
  versions : List EntityVersionRow
  unitEntities : List WorkUnitEntityRow
  unitBaseVersions : List WorkUnitBaseVersionRow
  unitHeads : List WorkUnitHeadRow
  heads : List EntityHeadRow
  headHistory : List HeadHistoryRow
  crdtChanges : List CrdtChangeRow
  crdtParents : List (String × String)
  crdtHeads : List EntityCrdtHeadRow
  changes : List ChangeRow
  lastCursor : ℕ
  changeRetention : List ChangeRetentionRow
  sessionFrontier : List SessionFrontierRow
  causalFrontier : List CausalFrontierRow
  scopeFrontier : List ScopeFrontierRow
  idempotency : List IdempotencyRecord
  unitIdempotency : List WorkUnitIdempotencyRow

/-- `database_error`. -/
def databaseError (detail : String) : ProviderError :=
  ProviderError.new ("SQLite database error: " ++ detail)

/-- A constraint of a statement. -/
def require (holds : Prop) [Decidable holds] (detail : String) : Except ProviderError Unit :=
  if holds then .ok () else .error (databaseError detail)

@[simp] theorem require_eq_ok {holds : Prop} [Decidable holds] {detail : String} {u : Unit} :
    require holds detail = .ok u ↔ holds := by
  by_cases h : holds <;> simp [require, h]

/-- `sqlite_time`. -/
def sqliteTime (value : ℕ) (message : String) : Except ProviderError ℕ :=
  if value < 2 ^ 63 then .ok value else .error (ProviderError.new message)

theorem sqliteTime_eq_ok {value bound : ℕ} {message : String} :
    sqliteTime value message = .ok bound ↔ value < 2 ^ 63 ∧ bound = value := by
  unfold sqliteTime
  split <;> simp_all [eq_comm]

/-- A `u64` bound to a statement. -/
def bindUnsigned (value : ℕ) : Except ProviderError ℕ :=
  if value < 2 ^ 63 then .ok value else .error (databaseError "integer out of range")

theorem bindUnsigned_eq_ok {value bound : ℕ} :
    bindUnsigned value = .ok bound ↔ value < 2 ^ 63 ∧ bound = value := by
  unfold bindUnsigned
  split <;> simp_all [eq_comm]

namespace Db

/-- The database after `initialize` created the schema. -/
def empty : Db where
  workUnits := []
  versions := []
  unitEntities := []
  unitBaseVersions := []
  unitHeads := []
  heads := []
  headHistory := []
  crdtChanges := []
  crdtParents := []
  crdtHeads := []
  changes := []
  lastCursor := 0
  changeRetention := []
  sessionFrontier := []
  causalFrontier := []
  scopeFrontier := []
  idempotency := []
  unitIdempotency := []

/-! ### Lookups -/

/-- The work unit of an identity. -/
def workUnit? (db : Db) (identity : String) : Option WorkUnitRow :=
  db.workUnits.find? (·.identityJson = identity)

/-- A version of an entity, staged or published. -/
def version? (db : Db) (key : EntityKey) (version : String) : Option EntityVersionRow :=
  db.versions.find? fun row => row.key = key ∧ row.version = version

def HasVersion (db : Db) (key : EntityKey) (version : String) : Prop :=
  ∃ row ∈ db.versions, row.key = key ∧ row.version = version

instance (db : Db) (key : EntityKey) (version : String) : Decidable (db.HasVersion key version) :=
  inferInstanceAs (Decidable (∃ row ∈ db.versions, row.key = key ∧ row.version = version))

def HasChange (db : Db) (hash : String) : Prop := ∃ row ∈ db.crdtChanges, row.changeHash = hash

instance (db : Db) (hash : String) : Decidable (db.HasChange hash) :=
  inferInstanceAs (Decidable (∃ row ∈ db.crdtChanges, row.changeHash = hash))

/-- The captured row of an entity in a work unit. -/
def unitEntity? (db : Db) (unit : String) (key : EntityKey) : Option WorkUnitEntityRow :=
  db.unitEntities.find? fun row => row.workUnitJson = unit ∧ row.key = key

/-! ### Versions and their CRDT changes -/

/-- `INSERT INTO patchouli_entity_version`. -/
def insertVersion (db : Db) (row : EntityVersionRow) : Except ProviderError Db := do
  require (row.key.entityType ≠ "" ∧ row.key.entityId ≠ "" ∧ row.version ≠ "")
    "CHECK constraint failed: length"
  require (row.state = .active ∧ row.valueJson.isSome ∨ row.state = .deleted ∧ row.valueJson = none)
    "CHECK constraint failed: state"
  require (¬ db.HasVersion row.key row.version)
    "UNIQUE constraint failed: patchouli_entity_version"
  require (∀ unit ∈ row.workUnitJson, (db.workUnit? unit).isSome) "FOREIGN KEY constraint failed"
  return { db with versions := db.versions ++ [row] }

/-- `INSERT OR IGNORE INTO patchouli_crdt_change`. -/
def insertCrdtChange (db : Db) (hash : String) (bytes : List UInt8) : Db :=
  if hash = "" ∨ bytes = [] ∨ db.HasChange hash then db
  else { db with crdtChanges := db.crdtChanges ++ [⟨hash, bytes⟩] }

/-- `INSERT OR IGNORE INTO patchouli_crdt_change_parent`. A missing change is not ignored. -/
def insertCrdtParent (db : Db) (hash parent : String) : Except ProviderError Db :=
  if hash = parent ∨ (hash, parent) ∈ db.crdtParents then .ok db
  else do
    require (db.HasChange hash ∧ db.HasChange parent) "FOREIGN KEY constraint failed"
    return { db with crdtParents := db.crdtParents ++ [(hash, parent)] }

/-- `INSERT INTO patchouli_entity_crdt_head`. -/
def insertCrdtHead (db : Db) (row : EntityCrdtHeadRow) : Except ProviderError Db := do
  require (1 < row.fieldPath.length ∧ row.fieldPath.toList.head? = some '/')
    "CHECK constraint failed: field_path"
  require (row ∉ db.crdtHeads) "UNIQUE constraint failed: patchouli_entity_crdt_head"
  require (db.HasVersion row.key row.version ∧ db.HasChange row.changeHash)
    "FOREIGN KEY constraint failed"
  return { db with crdtHeads := db.crdtHeads ++ [row] }

/-- One CRDT field of a new version: its changes, their edges, its heads. -/
def insertCrdtField (key : EntityKey) (version : String) (db : Db) (field : StoredCrdtField) :
    Except ProviderError Db := do
  let db := field.changes.foldl (fun db change => db.insertCrdtChange change.hash change.bytes) db
  let db ← field.changes.foldlM (fun db change =>
    change.parents.foldlM (fun db parent => db.insertCrdtParent change.hash parent) db) db
  field.heads.foldlM (fun db head => db.insertCrdtHead ⟨key, version, field.path, head⟩) db

/-- One turn of `insert_entity_versions`. -/
def insertEntityVersion (key : EntityKey) (workUnit : Option String) (recordedAt : ℕ) (db : Db)
    (version : StoredEntityVersion) : Except ProviderError Db := do
  let db ← db.insertVersion
    { key, version := version.version, state := version.state, valueJson := version.valueJson
      workUnitJson := workUnit, publishedCursor := none, recordedAtUnixMs := recordedAt }
  version.crdtFields.foldlM (insertCrdtField key version.version) db

/-- `insert_entity_versions`. -/
def insertEntityVersions (db : Db) (key : EntityKey) (versions : List StoredEntityVersion)
    (workUnit : Option String) (recordedAt : ℕ) : Except ProviderError Db :=
  versions.foldlM (insertEntityVersion key workUnit recordedAt) db

/-- The changes some stored version still needs. -/
def reachableChanges (db : Db) : List String :=
  Closure.reach db.crdtParents (db.crdtHeads.map (·.changeHash))

/-- The collection of orphan changes in `expire_work_unit`; an edge goes with either end. -/
def collectChanges (db : Db) : Db :=
  let reachable := db.reachableChanges
  { db with
    crdtChanges := db.crdtChanges.filter (·.changeHash ∈ reachable)
    crdtParents := db.crdtParents.filter fun edge => edge.1 ∈ reachable ∧ edge.2 ∈ reachable }

/-- A version staged by a work unit. -/
def StagedBy (db : Db) (unit : String) (key : EntityKey) (version : String) : Prop :=
  ∃ row ∈ db.versions, row.workUnitJson = some unit ∧ row.key = key ∧ row.version = version

instance (db : Db) (unit : String) (key : EntityKey) (version : String) :
    Decidable (db.StagedBy unit key version) :=
  inferInstanceAs (Decidable (∃ row ∈ db.versions, row.workUnitJson = some unit ∧ row.key = key ∧
    row.version = version))

/-- `DELETE FROM patchouli_entity_version WHERE work_unit_json = ?`: restricted by base versions,
cascading to heads. -/
def deleteStagedVersions (db : Db) (unit : String) : Except ProviderError Db := do
  require (∀ base ∈ db.unitBaseVersions, ¬ db.StagedBy unit base.key base.version)
    "FOREIGN KEY constraint failed"
  return { db with
    versions := db.versions.filter (·.workUnitJson ≠ some unit)
    unitHeads := db.unitHeads.filter fun head => ¬ db.StagedBy unit head.key head.version
    heads := db.heads.filter fun head => ¬ db.StagedBy unit head.key head.version
    crdtHeads := db.crdtHeads.filter fun head => ¬ db.StagedBy unit head.key head.version }

/-! ### Heads -/

/-- `unique_heads`. -/
def uniqueHeads (heads : List String) : Except ProviderError (List String) := do
  if ¬ heads.Nodup then .error (ProviderError.new "entity head versions must be unique")
  else if heads = [] then
    .error (ProviderError.new "an entity commit requires at least one head")
  else return Table.sorted heads

/-- `replace_published_heads`. -/
def replacePublishedHeads (db : Db) (key : EntityKey) (heads : List String) :
    Except ProviderError Db := do
  let unique ← uniqueHeads heads
  require (∀ version ∈ unique, db.HasVersion key version) "FOREIGN KEY constraint failed"
  return { db with
    heads := db.heads.filter (·.key ≠ key) ++ unique.map fun version => ⟨key, version⟩ }

/-- `replace_work_unit_heads`. -/
def replaceWorkUnitHeads (db : Db) (unit : String) (key : EntityKey) (heads : List String) :
    Except ProviderError Db := do
  let unique ← uniqueHeads heads
  require ((db.unitEntity? unit key).isSome ∧ ∀ version ∈ unique, db.HasVersion key version)
    "FOREIGN KEY constraint failed"
  return { db with
    unitHeads := (db.unitHeads.filter fun head => ¬ (head.workUnitJson = unit ∧ head.key = key)) ++
      unique.map fun version => ⟨unit, key, version⟩ }

/-! ### Changes and frontiers -/

/-- `INSERT INTO patchouli_scope_frontier … ON CONFLICT DO UPDATE`. -/
def advanceScopeFrontier (scope : String) (cursor : ℕ) (causalToken : String)
    (rows : List ScopeFrontierRow) : List ScopeFrontierRow :=
  Table.upsert (·.scopeJson) ⟨scope, cursor, causalToken⟩
    (fun row => { row with cursor, causalToken }) rows

/-- `insert_change`: the change record, the head history, the two frontiers. -/
def insertChange (db : Db) (key : EntityKey) (kind : StoredChangeKind) (heads : List String)
    (causalToken : String) (eventMeta : Meta) (recordedAt : ℕ) :
    Except ProviderError (ℕ × Db) := do
  require (key.entityType ≠ "" ∧ key.entityId ≠ "" ∧ heads ≠ [] ∧ causalToken ≠ "")
    "CHECK constraint failed: patchouli_change"
  require ((∀ row ∈ db.changes, row.causalToken ≠ causalToken) ∧
      ∀ row ∈ db.causalFrontier, row.causalToken ≠ causalToken)
    "UNIQUE constraint failed: causal_token"
  let cursor := db.lastCursor + 1
  return (cursor, { db with
    changes := db.changes ++ [{ cursor, key, kind, headVersionsJson := heads, causalToken
                                eventMetaJson := eventMeta, recordedAtUnixMs := recordedAt }]
    lastCursor := cursor
    headHistory := db.headHistory ++ [⟨key, cursor, heads⟩]
    causalFrontier := db.causalFrontier ++ [⟨causalToken, key.scopeJson, cursor⟩]
    scopeFrontier := advanceScopeFrontier key.scopeJson cursor causalToken db.scopeFrontier })

/-- `advance_write_sessions`. -/
def advanceWriteSessions (db : Db) (scope : String) (sessionKeys : List String) (cursor : ℕ) :
    Db :=
  { db with
    sessionFrontier := sessionKeys.foldl (fun rows sessionKey =>
      Table.upsert (fun row : SessionFrontierRow => (row.scopeJson, row.sessionKeyJson))
        ⟨scope, sessionKey, 0, cursor⟩
        (fun row => { row with writeCursor := max row.writeCursor cursor }) rows)
      db.sessionFrontier }

/-- `advance_read_sessions`. -/
def advanceReadSessions (db : Db) (scope : String) (consistency : ReadConsistency)
    (frontier : ℕ) : Db :=
  { db with
    sessionFrontier := (consistency.sessions.filter (·.monotonicReads)).foldl (fun rows session =>
      Table.upsert (fun row : SessionFrontierRow => (row.scopeJson, row.sessionKeyJson))
        ⟨scope, session.keyJson, frontier, 0⟩
        (fun row => { row with readCursor := max row.readCursor frontier }) rows)
      db.sessionFrontier }

/-- `publish_work_unit_versions`. -/
def publishWorkUnitVersions (db : Db) (unit : String) (key : EntityKey) (cursor : ℕ) : Db :=
  { db with
    versions := db.versions.map fun row =>
      if row.workUnitJson = some unit ∧ row.key = key then
        { row with workUnitJson := none, publishedCursor := some cursor }
      else row }

/-- `publish_entity_versions`. -/
def publishEntityVersions (db : Db) (key : EntityKey) (versions : List StoredEntityVersion)
    (cursor : ℕ) : Db :=
  { db with
    versions := db.versions.map fun row =>
      if row.key = key ∧ row.version ∈ versions.map (·.version) then
        { row with publishedCursor := some cursor }
      else row }

/-! ### Idempotency records -/

/-- The two deletes of overdue records at the head of every idempotency operation. -/
def deleteOverdueIdempotency (db : Db) (now : ℕ) : Except ProviderError Db := do
  let now ← bindUnsigned now
  return { db with
    idempotency := db.idempotency.filter (now < ·.expiresAtUnixMs)
    unitIdempotency := db.unitIdempotency.filter (now < ·.record.expiresAtUnixMs) }

/-- The published record of an identity. -/
def idempotency? (db : Db) (identity : String) : Option IdempotencyRecord :=
  db.idempotency.find? (·.identityJson = identity)

/-- The staged record of an identity. -/
def unitIdempotency? (db : Db) (identity : String) : Option WorkUnitIdempotencyRow :=
  db.unitIdempotency.find? (·.record.identityJson = identity)

/-- `INSERT INTO patchouli_idempotency`. -/
def insertIdempotency (db : Db) (record : IdempotencyRecord) : Except ProviderError Db := do
  let _ ← bindUnsigned record.expiresAtUnixMs
  require (∀ row ∈ db.idempotency, row.identityJson ≠ record.identityJson)
    "UNIQUE constraint failed: patchouli_idempotency"
  return { db with idempotency := db.idempotency ++ [record] }

/-- `INSERT INTO patchouli_work_unit_idempotency`. -/
def insertWorkUnitIdempotency (db : Db) (unit : String) (record : IdempotencyRecord) :
    Except ProviderError Db := do
  let _ ← bindUnsigned record.expiresAtUnixMs
  require (∀ row ∈ db.unitIdempotency, row.record.identityJson ≠ record.identityJson)
    "UNIQUE constraint failed: patchouli_work_unit_idempotency"
  require (db.workUnit? unit).isSome "FOREIGN KEY constraint failed"
  return { db with unitIdempotency := db.unitIdempotency ++ [⟨unit, record⟩] }

end Db

/-! ### Transactions -/

/-- The clock readings of one provider call: at its sweep, at its consistency check, and just
before its commit. -/
structure Clock where
  sweep : ℕ
  observe : ℕ
  commit : ℕ

/-- What a transaction body leaves: a value, and the database if it committed. -/
structure Finished (α : Type) where
  value : α
  committed : Option Db

/-- `Ok(value)` without a commit: the transaction is dropped and rolls back. -/
def rollback {α : Type} (value : α) : Except ProviderError (Finished α) := .ok ⟨value, none⟩

/-- `transaction.commit()`. -/
def commit {α : Type} (db : Db) (value : α) : Except ProviderError (Finished α) :=
  .ok ⟨value, some db⟩

/-- `commit_before_deadline`. -/
def commitBeforeDeadline {α : Type} (now : ℕ) (deadline : Option ℕ) (db : Db) (value : α) :
    Except ProviderError (Finished α) :=
  match deadline with
  | some d => if d ≤ now then .error .deadlineElapsed else commit db value
  | none => commit db value

/-- The outcome of a provider call and the database after it. -/
structure Reply (α : Type) where
  outcome : Except ProviderError α
  db : Db

/-- A transaction on `db`: an error and a missing commit leave it as it was. -/
def transaction {α : Type} (db : Db) (body : Except ProviderError (Finished α)) : Reply α :=
  match body with
  | .ok ⟨value, some db'⟩ => ⟨.ok value, db'⟩
  | .ok ⟨value, none⟩ => ⟨.ok value, db⟩
  | .error error => ⟨.error error, db⟩

end Patchouli
