import Patchouli.Backend.Publication

/-!
# The engine's mutations

`create`, `update` and `delete` of `engine.rs`, cut at their provider calls. A mutation is

* *admitted*: its deadline is checked, its work unit and its read consistency are derived;
* *identified*, if it is idempotent: is there a recorded answer?
* *prepared* from a read of its entity: the commit, the result to answer with, the record to keep;
* committed, and where publication found conflicts, resolved, published and read back.

Every reading of the clock and every random draw of a mutation has its own name, in `Readings` and
`Draw`. The metadata of a request has become its deadline and its `PolicySelection`; a request
for which either cannot be derived never reaches the provider.

## Main definitions

* `admitRequest` — up to the first provider call
* `prepareCreate`, `prepareUpdate`, `prepareDelete` — from a snapshot to a commit
* `mapWorkUnitOutcome`, `activeMutationResult` — from outcomes to answers
-/

namespace Patchouli

open Json (Value)

/-! ### Errors -/

/-- `not_found`. -/
def notFound : BackendError := BackendError.new .notFound "entity was not found"

/-- `idempotency_conflict`. -/
def idempotencyConflict : BackendError :=
  BackendError.new .idempotencyConflict
    "idempotency identity was already used for a different mutation"

/-- `closed_work_unit`. -/
def closedWorkUnit : BackendError :=
  invalidRequest "work unit is already committed; use a new configured identity"

/-- `work_unit_policy_mismatch`. -/
def workUnitPolicyMismatch : BackendError :=
  invalidRequest "work unit identity is already bound to a different configured policy"

/-- `expired_work_unit`. -/
def expiredWorkUnit : BackendError :=
  BackendError.new .workUnitExpired "work unit expired before publication"

/-- What an unavailable frontier is answered with. -/
def unavailableFrontier : BackendError :=
  BackendError.new .overloaded "the requested consistency frontier is not currently available"

/-- `provider_backend_error`. -/
def providerBackendError (error : ProviderError) : BackendError :=
  match error.reason with
  | .deadlineExceeded => BackendError.new .deadlineExceeded error.message
  | _ => BackendError.new .overloaded error.message

/-- `publication_conflict_error`. -/
def publicationConflictError (conflicts : List WorkUnitConflict) : BackendError :=
  BackendError.entityConflicts (conflicts.map fun conflict =>
    { entityRef := ⟨conflict.key.entityType, conflict.key.entityId⟩
      currentVersions := conflict.currentHeads })

/-! ### Requests -/

/-- A mutation request after its metadata was read. -/
structure Request where
  mutation : Mutation
  selection : PolicySelection
  deadlineUnixMs : Option ℕ

/-- The readings of the clock a mutation makes, in order; `resolved i` is taken for the conflict at
position `i`. -/
structure Readings where
  arrived : ℕ
  locked : ℕ
  selected : ℕ
  identified : ℕ
  recorded : ℕ
  accepted : ℕ
  resolved : ℕ → ℕ
  published : ℕ

/-- `RequestDeadline::check`. -/
def checkDeadline (deadline : Option ℕ) (now : ℕ) : Except BackendError Unit :=
  if deadline.any (· ≤ now) then
    .error (BackendError.new .deadlineExceeded "request deadline elapsed before acceptance")
  else .ok ()

/-! ### Consistency -/

/-- Note a causal token a read must not miss. -/
def addMinimum (tokens : List String) (causal : CausalConsistencyPlan) :
    Except BackendError (List String) :=
  match causal.minimum with
  | none => .ok tokens
  | some (.string token) => .ok (if token ∈ tokens then tokens else tokens ++ [token])
  | some _ => .error (invalidRequest "causal tokens must be strings")

/-- Note the guarantees of a session. -/
def addSession (sessions : List (String × Bool × Bool)) (session : SessionConsistencyPlan) :
    List (String × Bool × Bool) :=
  let known := (sessions.lookup session.key).getD (false, false)
  Table.insertEntry session.key
    (known.1 || .monotonicReads ∈ session.guarantees, known.2 || .readYourWrites ∈ session.guarantees)
    sessions

/-- `read_consistency`. Linearization keys are left out: the provider orders every read by its
transaction. -/
def readConsistency (selections : List PolicySelection) (deadline : Option ℕ)
    (authorityOnly : Bool) : Except BackendError ReadConsistency := do
  let minimumTokens ← (selections.flatMap (·.consistency.causal)).foldlM addMinimum []
  let sessions := (selections.flatMap (·.consistency.sessions)).foldl addSession []
  let common := ((selections.map (·.consistency.allowedSources)).headD []).filter fun source =>
    ∀ selection ∈ selections, source ∈ selection.consistency.allowedSources
  let allowedSources := if authorityOnly then common.filter (· = .authority) else common
  if allowedSources = [] then
    .error (BackendError.new .unsupportedCapability
      "the selected entity types have no common consistency source")
  else return {
    allowedSources
    minimumTokens := Table.sorted minimumTokens
    sessions := sessions.map fun (keyJson, monotonicReads, readYourWrites) =>
      { keyJson, monotonicReads, readYourWrites }
    deadlineUnixMs := deadline }

/-- `consistent_value`, without the observation. -/
def consistentValue {α : Type} : ConsistentRead α → Except BackendError α
  | .read value _ => .ok value
  | .unavailable => .error unavailableFrontier

/-- `consistency_meta`. -/
def consistencyMeta (selection : PolicySelection) (causalToken : Option String) : Meta :=
  match causalToken with
  | none => []
  | some token => selection.consistency.causal.foldl
      (fun fields causal => Table.insertEntry causal.field (.string token) fields) []

/-- `write_session_keys`. -/
def writeSessionKeys (selection : PolicySelection) : List String :=
  (selection.consistency.sessions.filter (.readYourWrites ∈ ·.guarantees)).map (·.key)

/-! ### Admission -/

structure SelectedWorkUnit where
  workUnit : WorkUnit
  close : Bool

/-- `selected_work_unit`. -/
def selectedWorkUnit (selection : PolicySelection) (deadline : Option ℕ) (now : ℕ) :
    Except BackendError (Option SelectedWorkUnit) :=
  match selection.publication with
  | .immediate => .ok none
  | .batch _ closeField closeEquals stagingTtlMs =>
    match selection.publicationKey with
    | none => .error (providerCorruption "batch publication has no work-unit key")
    | some identityJson =>
      if 2 ^ 64 ≤ now + stagingTtlMs then
        .error (invalidRequest "work-unit expiry overflows Unix time")
      else .ok (some {
        workUnit := {
          identityJson
          scopeJson := selection.scope
          policyJson := {
            snapshotKey := selection.consistency.snapshotKey
            publication := selection.publication
            linearizationKey := selection.consistency.linearizationKey
            commitOrderingKey := selection.consistency.commitOrderingKey }
          expiryAction := .discard
          nowUnixMs := now
          expiresAtUnixMs := now + stagingTtlMs
          deadlineUnixMs := deadline }
        close := selection.fields.lookup closeField = some closeEquals })

/-- `selected_retrieval_work_unit`: the selections must agree on their work unit. -/
def selectedRetrievalWorkUnit (selections : List PolicySelection) (deadline : Option ℕ)
    (now : ℕ) : Except BackendError (Option SelectedWorkUnit) := do
  let selected ← selections.mapM fun selection => selectedWorkUnit selection deadline now
  let first := selected.headD none
  if ∀ next ∈ selected, next.map (fun s => (s.workUnit.identityJson, s.workUnit.scopeJson,
      s.workUnit.policyJson)) = first.map (fun s => (s.workUnit.identityJson,
      s.workUnit.scopeJson, s.workUnit.policyJson)) then return first
  else .error (invalidRequest "retrieved entity types must select the same transaction behavior")

/-- The key of `prepare_idempotency`. -/
def idempotencyIdentity (selection : PolicySelection) : Except BackendError (Option String) :=
  match selection.idempotency, selection.idempotencyKey with
  | .disabled, _ => .ok none
  | .keyed _, some key => .ok (some key)
  | .keyed _, none =>
    .error (invalidRequest
      "configured keyed idempotency metadata is required for mutations")

/-- What a mutation knows before its first provider call. -/
structure Admitted where
  workUnit : Option SelectedWorkUnit
  consistency : ReadConsistency
  identity : Option String

/-- The head of `create`, `update` and `delete`. -/
def admitRequest (request : Request) (readings : Readings) : Except BackendError Admitted := do
  checkDeadline request.deadlineUnixMs readings.arrived
  checkDeadline request.deadlineUnixMs readings.locked
  let workUnit ← selectedWorkUnit request.selection request.deadlineUnixMs readings.selected
  let consistency ← readConsistency [request.selection] request.deadlineUnixMs true
  let identity ← idempotencyIdentity request.selection
  return { workUnit, consistency, identity }

/-- The validation of a mutation's value. A deletion has none. -/
def validateMutation (config : BackendConfig) : Mutation → Except BackendError Unit
  | .create entityType _ value | .update ⟨entityType, _⟩ value =>
    (config.validateEntityValue entityType value).mapError fun error => invalidRequest error.text
  | .delete _ => .ok ()

/-- `entity_key`. -/
def entityKey (selection : PolicySelection) (entityRef : EntityRef) : EntityKey :=
  ⟨selection.scope, entityRef.entityType, entityRef.id⟩

/-- The entity a mutation is about; a created entity without an identity draws one. -/
def Mutation.target (fresh : Draw → String) : Mutation → EntityRef
  | .create entityType id _ => ⟨entityType, id.getD (fresh .entityId)⟩
  | .update entityRef _ => entityRef
  | .delete entityRef => entityRef

/-! ### Preparation -/

/-- What a mutation is about to commit, and what it answers with if nothing else happens. -/
structure Prepared where
  commit : EntityCommit
  result : MutationResult
  record : Option IdempotencyRecord

/-- `idempotency_record_at`. -/
def idempotencyRecordAt (config : BackendConfig) (identity : String) (mutation : Mutation)
    (result : MutationResult) (now : ℕ) : Except BackendError IdempotencyRecord :=
  if 2 ^ 64 ≤ config.idempotencySeconds * 1000 then
    .error (invalidRequest "idempotency retention overflows")
  else if 2 ^ 64 ≤ now + config.idempotencySeconds * 1000 then
    .error (invalidRequest "idempotency expiry overflows Unix time")
  else .ok {
    identityJson := identity, requestJson := mutation, resultJson := result
    expiresAtUnixMs := now + config.idempotencySeconds * 1000 }

/-- The record of a mutation, if it has an identity. -/
def idempotencyRecord? (config : BackendConfig) (identity : Option String) (mutation : Mutation)
    (result : MutationResult) (now : ℕ) : Except BackendError (Option IdempotencyRecord) :=
  match identity with
  | none => .ok none
  | some identity => do
    let record ← idempotencyRecordAt config identity mutation result now
    return some record

/-- `mutation_change_kind`. -/
def mutationChangeKind (snapshot : EntitySnapshot) (newHeads : List String) (deleted : Bool) :
    StoredChangeKind :=
  if 1 < newHeads.length then .conflicted
  else if 1 < snapshot.headVersions.length then .resolved
  else if deleted then .deleted
  else .updated

/-- A mutation in its preparation: what it draws, when, and for which request. -/
structure Preparation where
  request : Request
  readings : Readings
  identity : Option String
  fresh : Draw → String
  actors : String → String

section Prepare

variable (A : Automerge) (toText : Value → String) (config : BackendConfig)

namespace Preparation

variable (p : Preparation)

def plan : ConflictPlan := p.request.selection.conflict

def entityRef : EntityRef := p.request.mutation.target p.fresh

/-- `mutation_result`, with its consistency metadata. -/
def result (entity : EntityVersion) : MutationResult :=
  { metaFields := consistencyMeta p.request.selection (some entity.version), entity }

/-- The commit of a mutation; its causal token is the version it answers with. -/
def commit (expectedHeads : List String) (newVersions : List StoredEntityVersion)
    (headVersions : List String) (changeKind : StoredChangeKind) (causalToken : String) :
    EntityCommit :=
  { key := entityKey p.request.selection p.entityRef
    expectedHeads, newVersions, headVersions, changeKind, causalToken
    eventMetaJson := p.request.selection.fields
    writeSessionKeys := writeSessionKeys p.request.selection
    recordedAtUnixMs := p.readings.recorded
    deadlineUnixMs := p.request.deadlineUnixMs }

/-- A commit with its result and its record. -/
def prepared (commit : EntityCommit) (entity : EntityVersion) : Except BackendError Prepared := do
  let record ← idempotencyRecord? config p.identity p.request.mutation (p.result entity)
    p.readings.accepted
  return { commit, result := p.result entity, record }

end Preparation

/-- `create`, after its read. -/
def prepareCreate (p : Preparation) (value : Value) (snapshot : Option EntitySnapshot) :
    Except BackendError Prepared :=
  match snapshot with
  | some snapshot => .error (BackendError.headsMoved snapshot.headVersions)
  | none =>
    let version := p.fresh (.version 0)
    let stored := activeStoredVersion version value (initialCrdtFields A p.actors p.plan value)
    p.prepared config (p.commit [] [stored] [version] .created version)
      (.active p.entityRef version value)

/-- The bases and the concurrent heads of an update or a deletion. -/
def concurrentWith (plan : ConflictPlan) (snapshot : EntitySnapshot) :
    Except BackendError (List StoredEntityVersion × List StoredEntityVersion) := do
  let bases ← selectedBases plan snapshot
  rejectUnlessExactHeads plan snapshot bases
  let concurrent ← concurrentHeads snapshot bases
  return (bases, concurrent)

/-- What an update offers: its proposal and the concurrent heads. -/
def updateOffer (p : Preparation) (value : Value) (snapshot : EntitySnapshot) :
    Except BackendError Offer := do
  let (bases, concurrent) ← concurrentWith p.plan snapshot
  if p.plan.strategy = .reject ∧ concurrent ≠ [] then
    .error (BackendError.headsMoved snapshot.headVersions)
  else do
    let proposed ← (prepareCandidate A p.actors p.plan bases value).mapError
      (withCurrentVersions · snapshot.headVersions)
    Offer.addAll A { candidates := [proposed], deleted := [] } concurrent

/-- `update`, after its read. -/
def prepareUpdate (p : Preparation) (value : Value) (snapshot : Option EntitySnapshot) :
    Except BackendError Prepared :=
  match snapshot with
  | none => .error notFound
  | some snapshot => do
    let offer ← updateOffer A p value snapshot
    let resolved ← resolveHeads A toText (.update snapshot.headVersions) p.plan offer.deleted
      offer.candidates
    let kept := keepVariants (fun v => p.fresh (.version v)) offer.deleted resolved.variants
    match kept.newVersions with
    | [] =>
      .error (BackendError.new .overloaded
        "conflict resolution did not produce a candidate version")
    | accepted :: _ =>
      p.prepared config
        (p.commit snapshot.headVersions kept.newVersions kept.headVersions
          (mutationChangeKind snapshot kept.headVersions false) accepted.version)
        (.active p.entityRef accepted.version (accepted.valueJson.getD .null))

/-- `delete`, after its read. -/
def prepareDelete (p : Preparation) (snapshot : Option EntitySnapshot) :
    Except BackendError Prepared :=
  match snapshot with
  | none => .error notFound
  | some snapshot => do
    let (_, concurrent) ← concurrentWith p.plan snapshot
    if concurrent ≠ [] ∧ (p.plan.strategy = .reject ∨ p.plan.otherwise = .reject) then
      .error (BackendError.headsMoved snapshot.headVersions)
    else
      let version := p.fresh (.version 0)
      let headVersions := concurrent.map (·.version) ++ [version]
      let deleted := { version, state := .deleted, valueJson := none, crdtFields := [] }
      p.prepared config
        (p.commit snapshot.headVersions [deleted] headVersions
          (mutationChangeKind snapshot headVersions true) version)
        (.deleted p.entityRef version)

/-- From the read of its entity to the commit of a mutation. -/
def prepare (p : Preparation) (snapshot : Option EntitySnapshot) : Except BackendError Prepared :=
  match p.request.mutation with
  | .create _ _ value => prepareCreate A config p value snapshot
  | .update _ value => prepareUpdate A toText config p value snapshot
  | .delete _ => prepareDelete config p snapshot

end Prepare

/-! ### Outcomes -/

/-- The outcomes of `read_selected` in a work unit. -/
def workUnitValue {α : Type} : WorkUnitOutcome α → Except BackendError α
  | .opened read => consistentValue read
  | .closing => .error closedWorkUnit
  | .policyMismatch => .error workUnitPolicyMismatch
  | .committed => .error closedWorkUnit
  | .expired => .error expiredWorkUnit

/-- `map_work_unit_outcome`. -/
def mapWorkUnitOutcome : WorkUnitCommitOutcome → Except BackendError Unit
  | .staged | .published => .ok ()
  | .conflict currentHeads => .error (BackendError.headsMoved currentHeads)
  | .publicationConflict conflicts => .error (publicationConflictError conflicts)
  | .policyMismatch => .error workUnitPolicyMismatch
  | .closing => .error closedWorkUnit
  | .committed => .error closedWorkUnit
  | .expired => .error expiredWorkUnit
  | .replayed _ =>
    .error (providerCorruption
      "work-unit idempotency was replayed after the controller admitted it")
  | .idempotencyConflict => .error idempotencyConflict

/-- The first active head of a snapshot. -/
def firstActiveHead (snapshot : EntitySnapshot) :
    Except BackendError (Option StoredEntityVersion) := do
  let heads ← snapshot.headVersions.mapM (snapshotVersion snapshot)
  return heads.find? (·.state = .active)

/-- `active_mutation_result`. -/
def activeMutationResult (entityRef : EntityRef) (snapshot : EntitySnapshot) :
    Except BackendError MutationResult := do
  match ← firstActiveHead snapshot with
  | none =>
    .error (providerCorruption "successful active mutation published no active entity head")
  | some stored => do
    let value ← storedValue stored
    return { metaFields := [], entity := .active entityRef stored.version value }

/-- The answer after a publication that was read back. A deletion answers what it prepared. -/
def rereadResult (mutation : Mutation) (entityRef : EntityRef) (result : MutationResult)
    (snapshot : Option EntitySnapshot) : Except BackendError MutationResult :=
  match mutation, snapshot with
  | .delete _, _ => .ok result
  | _, some snapshot => activeMutationResult entityRef snapshot
  | _, none => .ok result

end Patchouli
