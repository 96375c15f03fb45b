import Patchouli.Sqlite.WorkUnit

/-!
# Commits and publications

The writing transactions. An immediate commit replaces the published heads of one entity, if they
are still the ones the caller resolved against. A commit in a work unit does the same to the
unit's own heads; the commit that carries the close marker also closes the unit and, unless a
captured entity was published meanwhile, publishes it. A unit that met such conflicts is left
`closing`, for `publishWorkUnit` to finish with their resolutions.

## Main definitions

* `commitEntity`, `commitEntityIdempotent` — immediate
* `commitEntityInWorkUnit`, `publishWorkUnit` — in a work unit
* `Db.publicationConflicts`, `Db.finishWorkUnitPublication`
-/

namespace Patchouli

/-! ### Immediate commits -/

namespace Db

/-- `commit_entity_in_transaction`. -/
def commitEntityInTransaction (db : Db) (commit : EntityCommit) :
    Except ProviderError (EntityCommitOutcome × Db) := do
  let currentHeads := db.publishedHeads commit.key
  if currentHeads ≠ Table.sorted commit.expectedHeads then return (.conflict currentHeads, db)
  else do
    let recordedAt ← sqliteTime commit.recordedAtUnixMs
      "recorded timestamp exceeds SQLite integer range"
    let db ← db.insertEntityVersions commit.key commit.newVersions none recordedAt
    let db ← db.replacePublishedHeads commit.key commit.headVersions
    let (cursor, db) ← db.insertChange commit.key commit.changeKind commit.headVersions
      commit.causalToken commit.eventMetaJson recordedAt
    let db := db.advanceWriteSessions commit.key.scopeJson commit.writeSessionKeys cursor
    return (.committed, db.publishEntityVersions commit.key commit.newVersions cursor)

end Db

/-- `commit_entity`. -/
def commitEntity (db : Db) (clock : Clock) (entity : EntityCommit) : Reply EntityCommitOutcome :=
  sweepThen db clock fun db => transaction db (
    if entity.headVersions = [] then
      .error (ProviderError.new "an entity commit requires at least one new head")
    else do
      let (outcome, db) ← db.commitEntityInTransaction entity
      match outcome with
      | .committed => commitBeforeDeadline clock.commit entity.deadlineUnixMs db .committed
      | .conflict currentHeads => rollback (.conflict currentHeads))

/-- `commit_entity_idempotent`. -/
def commitEntityIdempotent (db : Db) (clock : Clock) (entity : EntityCommit)
    (idempotency : IdempotencyRecord) (now : ℕ) : Reply IdempotentCommitOutcome :=
  transaction db (do
    let db ← db.deleteOverdueIdempotency now
    match db.idempotency? idempotency.identityJson with
    | some record =>
      rollback (if record.requestJson = idempotency.requestJson then .replayed record.resultJson
        else .idempotencyConflict)
    | none =>
      if (db.unitIdempotency? idempotency.identityJson).isSome then rollback .idempotencyConflict
      else do
        let (outcome, db) ← db.commitEntityInTransaction entity
        match outcome with
        | .conflict currentHeads => rollback (.entityConflict currentHeads)
        | .committed => do
          let db ← db.insertIdempotency idempotency
          commitBeforeDeadline clock.commit entity.deadlineUnixMs db .committed)

/-! ### Publication of a work unit -/

/-- `ORDER BY scope_json, entity_type, entity_id`, after another column. -/
def EntityKey.orderKey (key : EntityKey) : List String :=
  [key.scopeJson, key.entityType, key.entityId]

namespace Db

/-- An entity some heads of the unit are staged for. -/
def HasUnitHeads (db : Db) (unit : String) (key : EntityKey) : Prop :=
  ∃ head ∈ db.unitHeads, head.workUnitJson = unit ∧ head.key = key

instance (db : Db) (unit : String) (key : EntityKey) : Decidable (db.HasUnitHeads unit key) :=
  inferInstanceAs (Decidable (∃ head ∈ db.unitHeads, head.workUnitJson = unit ∧ head.key = key))

/-- `work_unit_mutated_entities`; the entity of the closing mutation comes last. -/
def workUnitMutatedEntities (db : Db) (unit : String) : List EntityKey :=
  ((db.unitEntities.filter fun row =>
      row.workUnitJson = unit ∧ db.HasUnitHeads unit row.key).insertionSort
    fun r s => (if r.closeMarker then "1" else "0") :: r.key.orderKey ≤
      (if s.closeMarker then "1" else "0") :: s.key.orderKey).map (·.key)

/-- One turn of `publication_conflicts`: the conflict of an entity, if it has one. -/
def publicationConflict (db : Db) (unit : String) (key : EntityKey) :
    Except ProviderError (Option WorkUnitConflict) :=
  let baselineHeads := db.workUnitBaseHeads unit key
  let current := db.readEntitySnapshot key
  if db.publishedHeads key = baselineHeads then .ok none
  else
    match db.readWorkUnitSnapshot unit key with
    | none => .error (ProviderError.new "mutated work-unit entity has no staged snapshot")
    | some staged =>
      match db.unitEntity? unit key with
      | none => .error (databaseError "Query returned no rows")
      | some row =>
        match row.conflictPolicyJson with
        | none => .error (ProviderError.new "mutated work-unit entity has no conflict policy")
        | some conflictPolicyJson =>
          .ok (some { key, baselineHeads, staged, current, conflictPolicyJson })

/-- `publication_conflicts`. -/
def publicationConflicts (db : Db) (unit : String) : Except ProviderError (List WorkUnitConflict) := do
  let conflicts ← (db.workUnitMutatedEntities unit).mapM (db.publicationConflict unit)
  return conflicts.filterMap id

/-- `derive_change_kind`. -/
def deriveChangeKind (db : Db) (key : EntityKey) (baseline heads : List String) :
    Except ProviderError StoredChangeKind :=
  if baseline = [] then .ok .created
  else if 1 < heads.length then .ok .conflicted
  else if 1 < baseline.length then .ok .resolved
  else
    match heads with
    | [] => .error (ProviderError.new "a published entity requires at least one head")
    | head :: _ =>
      match db.version? key head with
      | none => .error (databaseError "Query returned no rows")
      | some row =>
        match row.state with
        | .deleted => .ok .deleted
        | .active => .ok .updated

/-- One turn of the loop of `finish_work_unit_publication`. -/
def publishWorkUnitEntity (unit : String) (recordedAt : ℕ) (db : Db) (key : EntityKey) :
    Except ProviderError Db := do
  let previousHeads := db.publishedHeads key
  let heads := db.directWorkUnitHeads unit key
  let db ← db.replacePublishedHeads key heads
  let kind ← db.deriveChangeKind key previousHeads heads
  match db.unitEntity? unit key with
  | some { causalToken := some causalToken, eventMetaJson := some eventMeta,
           writeSessionKeysJson := some sessionKeys, .. } => do
    let (cursor, db) ← db.insertChange key kind heads causalToken eventMeta recordedAt
    let db := db.advanceWriteSessions key.scopeJson sessionKeys cursor
    return db.publishWorkUnitVersions unit key cursor
  | _ => .error (databaseError "Query returned no rows")

/-- The unexpired staged records of a unit become published ones. -/
def publishUnitIdempotency (db : Db) (unit : String) (recordedAt : ℕ) :
    Except ProviderError Db := do
  let staged := (db.unitIdempotency.filter fun row =>
    row.workUnitJson = unit ∧ recordedAt < row.record.expiresAtUnixMs).map (·.record)
  let db ← staged.foldlM insertIdempotency db
  return db.deleteUnitIdempotency unit

/-- `UPDATE patchouli_work_unit SET state = 'committed' …`. -/
def markCommitted (db : Db) (identity : String) (recordedAt : ℕ) : Db :=
  { db with
    workUnits := db.workUnits.map fun row =>
      if row.identityJson = identity then
        { row with state := .committed, closedAtUnixMs := some recordedAt }
      else row }

/-- `finish_work_unit_publication`. -/
def finishWorkUnitPublication (db : Db) (unit : String) (recordedAt : ℕ) :
    Except ProviderError Db := do
  let db ← (db.workUnitMutatedEntities unit).foldlM (publishWorkUnitEntity unit recordedAt) db
  let db ← db.publishUnitIdempotency unit recordedAt
  return db.markCommitted unit recordedAt

/-! ### Commits in a work unit -/

/-- `UPDATE patchouli_work_unit_entity …` with the data of a staged mutation. -/
def recordStagedMutation (db : Db) (commit : WorkUnitCommit) : Db :=
  { db with
    unitEntities := db.unitEntities.map fun row =>
      if row.workUnitJson = commit.workUnit.identityJson ∧ row.key = commit.entity.key then
        { row with
          conflictPolicyJson := some commit.conflictPolicyJson
          causalToken := some commit.entity.causalToken
          eventMetaJson := some commit.entity.eventMetaJson
          writeSessionKeysJson := some commit.entity.writeSessionKeys
          closeMarker := row.closeMarker || commit.close }
      else row }

/-- `UPDATE patchouli_work_unit SET state = 'closing' … AND state = 'open'`. -/
def markClosing (db : Db) (identity : String) : Db :=
  { db with
    workUnits := db.workUnits.map fun row =>
      if row.identityJson = identity ∧ row.state = .opened then { row with state := .closing }
      else row }

/-- `store_work_unit_idempotency`. -/
def storeWorkUnitIdempotency (db : Db) (unit : String) (idempotency : IdempotencyRecord)
    (now : ℕ) : Except ProviderError (IdempotencyReadOutcome × Db) := do
  let db ← db.deleteOverdueIdempotency now
  match db.idempotency? idempotency.identityJson with
  | some record =>
    return (if record.requestJson = idempotency.requestJson then .replayed record.resultJson
      else .conflict, db)
  | none =>
    match db.unitIdempotency? idempotency.identityJson with
    | some staged =>
      return (if staged.workUnitJson = unit ∧ staged.record.requestJson = idempotency.requestJson
        then .replayed staged.record.resultJson else .conflict, db)
    | none => do
      let db ← db.insertWorkUnitIdempotency unit idempotency
      return (.missing, db)

/-- The staged record of a commit; `some outcome` ends the call without a commit. A replay does
not end a closing call. -/
def stageIdempotency (db : Db) (commit : WorkUnitCommit) :
    Except ProviderError (Option WorkUnitCommitOutcome × Db) :=
  match commit.idempotency with
  | none => .ok (none, db)
  | some idempotency => do
    let (outcome, db) ← db.storeWorkUnitIdempotency commit.workUnit.identityJson idempotency
      commit.workUnit.nowUnixMs
    match outcome with
    | .missing => return (none, db)
    | .replayed resultJson =>
      return (if commit.close then none else some (.replayed resultJson), db)
    | .conflict => return (some .idempotencyConflict, db)
    | .unavailable =>
      .error (ProviderError.new "stored work-unit idempotency cannot be unavailable")

/-- The mutation itself: what the commit adds to the unit's private state. -/
def stageMutation (db : Db) (commit : WorkUnitCommit) (recordedAt : ℕ) :
    Except ProviderError Db := do
  let db ← db.insertEntityVersions commit.entity.key commit.entity.newVersions
    (some commit.workUnit.identityJson) recordedAt
  db.replaceWorkUnitHeads commit.workUnit.identityJson commit.entity.key commit.entity.headVersions

end Db

/-- The end of a closing call: publish, or report the conflicts. -/
def publishOrReport (clock : Clock) (closing : WorkUnitCommit) (db : Db) :
    Except ProviderError (Finished WorkUnitCommitOutcome) := do
  let conflicts ← db.publicationConflicts closing.workUnit.identityJson
  if conflicts = [] then do
    let recordedAt ← sqliteTime closing.entity.recordedAtUnixMs
      "recorded timestamp exceeds SQLite integer range"
    let db ← db.finishWorkUnitPublication closing.workUnit.identityJson recordedAt
    commitBeforeDeadline clock.commit closing.workUnit.deadlineUnixMs db .published
  else
    commitBeforeDeadline clock.commit closing.workUnit.deadlineUnixMs db
      (.publicationConflict conflicts)

/-- `commit_entity_in_work_unit` once the unit is open. -/
def commitInOpenWorkUnit (clock : Clock) (staged : WorkUnitCommit) (db : Db) :
    Except ProviderError (Finished WorkUnitCommitOutcome) := do
  let unit := staged.workUnit.identityJson
  let db ← db.captureWorkUnitEntity unit staged.entity.key
  let db := db.recordStagedMutation staged
  let currentHeads := db.workUnitHeads unit staged.entity.key
  if currentHeads ≠ Table.sorted staged.entity.expectedHeads then rollback (.conflict currentHeads)
  else do
    let recordedAt ← sqliteTime staged.entity.recordedAtUnixMs
      "recorded timestamp exceeds SQLite integer range"
    let db ← db.stageMutation staged recordedAt
    match ← db.stageIdempotency staged with
    | (some outcome, _) => rollback outcome
    | (none, db) =>
      if staged.close then publishOrReport clock staged (db.markClosing unit)
      else commitBeforeDeadline clock.commit staged.workUnit.deadlineUnixMs db .staged

/-- `commit_entity_in_work_unit`. A unit that is already closing is only published: the mutation
of the call is not staged. -/
def commitEntityInWorkUnit (db : Db) (clock : Clock) (entity : WorkUnitCommit) :
    Reply WorkUnitCommitOutcome :=
  sweepThen db clock fun db => transaction db (
    if entity.entity.headVersions = [] then
      .error (ProviderError.new "a work-unit entity commit requires at least one new head")
    else do
      let (state, db) ← db.ensureWorkUnit entity.workUnit
      match state with
      | .policyMismatch =>
        commitBeforeDeadline clock.commit entity.workUnit.deadlineUnixMs db .policyMismatch
      | .committed =>
        commitBeforeDeadline clock.commit entity.workUnit.deadlineUnixMs db .committed
      | .expired => commitBeforeDeadline clock.commit entity.workUnit.deadlineUnixMs db .expired
      | .closing =>
        if entity.close then publishOrReport clock entity db
        else commitBeforeDeadline clock.commit entity.workUnit.deadlineUnixMs db .closing
      | .opened => commitInOpenWorkUnit clock entity db)

/-! ### Publication with resolutions -/

/-- The loop of `publish_work_unit` over the conflicts: an inner error is the outcome it returns
early with, without a commit. -/
def applyResolutions (publish : WorkUnitPublish) (all : List WorkUnitConflict) :
    List WorkUnitConflict → Db → Except ProviderError (Except WorkUnitCommitOutcome Db)
  | [], db => .ok (.ok db)
  | conflict :: rest, db =>
    match publish.resolutions.find? (·.entity.key = conflict.key) with
    | none => .ok (.error (.publicationConflict all))
    | some resolution =>
      if Table.sorted resolution.expectedPublishedHeads ≠ conflict.currentHeads then
        .ok (.error (.publicationConflict all))
      else if Table.sorted resolution.entity.expectedHeads ≠ conflict.staged.headVersions then
        .ok (.error (.conflict conflict.staged.headVersions))
      else if resolution.entity.headVersions = [] then
        .error (ProviderError.new
          "a work-unit publication resolution requires at least one head")
      else do
        let recordedAt ← sqliteTime resolution.entity.recordedAtUnixMs
          "resolution timestamp exceeds SQLite integer range"
        let db ← db.insertEntityVersions conflict.key resolution.entity.newVersions
          (some publish.workUnit.identityJson) recordedAt
        let db ← db.replaceWorkUnitHeads publish.workUnit.identityJson conflict.key
          resolution.entity.headVersions
        applyResolutions publish all rest db

/-- `publish_work_unit` once the unit is closing. -/
def publishClosingWorkUnit (publish : WorkUnitPublish) (db : Db) :
    Except ProviderError (Finished WorkUnitCommitOutcome) := do
  let unit := publish.workUnit.identityJson
  let conflicts ← db.publicationConflicts unit
  if conflicts.length ≠ publish.resolutions.length then rollback (.publicationConflict conflicts)
  else do
    match ← applyResolutions publish conflicts conflicts db with
    | .error outcome => rollback outcome
    | .ok db => do
      let recordedAt ← sqliteTime publish.recordedAtUnixMs
        "publication timestamp exceeds SQLite integer range"
      let db ← db.finishWorkUnitPublication unit recordedAt
      commit db .published

/-- The error mapping of `publish_work_unit`, which forgets the reason. -/
def publicationFailed (error : ProviderError) : ProviderError :=
  ProviderError.new ("SQLite work-unit publication failed: " ++ error.message)

/-- `publish_work_unit`. -/
def publishWorkUnit (db : Db) (clock : Clock) (publish : WorkUnitPublish) :
    Reply WorkUnitCommitOutcome :=
  let reply := sweepThen db clock fun db => transaction db (do
    let (state, db) ← db.ensureWorkUnit publish.workUnit
    match state with
    | .policyMismatch => commit db .policyMismatch
    | .committed => commit db .committed
    | .expired => commit db .expired
    | .opened =>
      .error (ProviderError.new
        "an open work unit cannot be published before a close marker")
    | .closing => publishClosingWorkUnit publish db)
  { reply with outcome := reply.outcome.mapError publicationFailed }

end Patchouli
