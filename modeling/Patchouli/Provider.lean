import Patchouli.Model
import Patchouli.Lib.Fallible
import Patchouli.Lib.Table

/-!
# The provider interface

The types of `crates/provider`: what the engine sends to a database provider and what it gets
back. A column or field that the source keeps as JSON text is typed here by what the text
encodes, where the program decodes it again (`valueJson`, `conflictPolicyJson`, `resultJson`,
`requestJson`, `policyJson`, `eventMetaJson`); the texts that are only ever compared stay
`String` (`scopeJson`, `identityJson`, session keys).

## Main definitions

* `ProviderError`, `EntityKey`, `StoredEntityVersion`, `EntitySnapshot`
* `EntityCommit`, `WorkUnit`, `WorkUnitCommit`, `WorkUnitPublish` — the writes
* `ReadConsistency`, `ConsistentRead` — what a read asks for and gets
-/

namespace Patchouli

open Json (Value)

/-! ### Errors -/

inductive ProviderErrorReason where
  | internal
  | deadlineExceeded
  | unauthenticated
  | unavailable
  deriving DecidableEq

structure ProviderError where
  reason : ProviderErrorReason
  message : String
  deriving DecidableEq

namespace ProviderError

/-- `ProviderError::new`. -/
def new (message : String) : ProviderError := ⟨.internal, message⟩

/-- `ProviderError::deadline_exceeded`. -/
def deadlineElapsed : ProviderError :=
  ⟨.deadlineExceeded, "request deadline elapsed before acceptance"⟩

end ProviderError

/-! ### Entities and versions -/

structure EntityKey where
  scopeJson : String
  entityType : String
  entityId : String
  deriving DecidableEq

inductive StoredVersionState where
  | active
  | deleted
  deriving DecidableEq

structure StoredCrdtChange where
  hash : String
  parents : List String
  bytes : List UInt8
  deriving DecidableEq

structure StoredCrdtField where
  path : String
  heads : List String
  changes : List StoredCrdtChange
  deriving DecidableEq

structure StoredEntityVersion where
  version : String
  state : StoredVersionState
  valueJson : Option Value
  crdtFields : List StoredCrdtField
  deriving DecidableEq

structure EntitySnapshot where
  headVersions : List String
  versions : List StoredEntityVersion
  deriving DecidableEq

/-! ### Changes -/

inductive StoredChangeKind where
  | conflicted
  | created
  | deleted
  | resolved
  | updated
  deriving DecidableEq

structure ChangeQuery where
  scopeJson : String
  entityTypes : Option (List String)
  entityIds : Option (List String)
  afterCursor : ℕ
  limit : ℕ
  retainedAfterUnixMs : ℕ

structure StoredChange where
  cursor : ℕ
  entityType : String
  entityId : String
  kind : StoredChangeKind
  headVersions : List String
  eventMetaJson : Meta
  deriving DecidableEq

structure ChangePage where
  oldestCursor : Option ℕ
  currentCursor : ℕ
  changes : List StoredChange
  deriving DecidableEq

/-! ### Consistency -/

structure SessionConsistency where
  keyJson : String
  monotonicReads : Bool
  readYourWrites : Bool
  deriving DecidableEq

structure ReadConsistency where
  allowedSources : List ConsistencySource
  minimumTokens : List String
  sessions : List SessionConsistency
  deadlineUnixMs : Option ℕ
  deriving DecidableEq

structure ReadObservation where
  source : ConsistencySource
  frontier : ℕ
  causalToken : Option String
  deriving DecidableEq

inductive ConsistentRead (α : Type) where
  | read (value : α) (observation : ReadObservation)
  | unavailable
  deriving DecidableEq

/-! ### Retrieval -/

inductive RetrieveFilterOperator where
  | equal
  | notEqual
  | lessThan
  | lessThanOrEqual
  | greaterThan
  | greaterThanOrEqual
  | contains
  deriving DecidableEq

structure RetrieveFilter where
  pointer : String
  operator : RetrieveFilterOperator
  valueJson : Value
  deriving DecidableEq

inductive RetrieveOrder where
  | relevance
  | newest
  | oldest
  | idAscending
  | idDescending
  deriving DecidableEq

/-- A page position. Scores are finite floats, taken as the rationals they denote. -/
structure RetrieveCursor where
  order : RetrieveOrder
  queryFingerprint : String
  score : ℚ
  recordedAtUnixMs : ℕ
  entityType : String
  entityId : String
  deriving DecidableEq

structure RetrieveQuery where
  scopeJson : String
  entityTypes : Option (List String)
  text : Option String
  entityIds : Option (List String)
  filters : List RetrieveFilter
  order : RetrieveOrder
  fingerprint : String
  after : Option RetrieveCursor
  limit : ℕ

structure RetrievedEntity where
  key : EntityKey
  snapshot : EntitySnapshot
  score : ℚ
  recordedAtUnixMs : ℕ
  deriving DecidableEq

structure RetrievedPage where
  entities : List RetrievedEntity
  nextCursor : Option RetrieveCursor
  deriving DecidableEq

/-! ### Writes -/

structure EntityCommit where
  key : EntityKey
  expectedHeads : List String
  newVersions : List StoredEntityVersion
  headVersions : List String
  changeKind : StoredChangeKind
  causalToken : String
  eventMetaJson : Meta
  writeSessionKeys : List String
  recordedAtUnixMs : ℕ
  deadlineUnixMs : Option ℕ
  deriving DecidableEq

inductive EntityCommitOutcome where
  | committed
  | conflict (currentHeads : List String)
  deriving DecidableEq

inductive WorkUnitExpiryAction where
  | discard
  deriving DecidableEq

structure IdempotencyRecord where
  identityJson : String
  requestJson : Mutation
  resultJson : MutationResult
  expiresAtUnixMs : ℕ
  deriving DecidableEq

inductive IdempotencyReadOutcome where
  | missing
  | replayed (resultJson : MutationResult)
  | conflict
  | unavailable
  deriving DecidableEq

inductive IdempotentCommitOutcome where
  | committed
  | entityConflict (currentHeads : List String)
  | replayed (resultJson : MutationResult)
  | idempotencyConflict
  deriving DecidableEq

structure WorkUnit where
  identityJson : String
  scopeJson : String
  policyJson : WorkUnitPolicy
  expiryAction : WorkUnitExpiryAction
  nowUnixMs : ℕ
  expiresAtUnixMs : ℕ
  deadlineUnixMs : Option ℕ
  deriving DecidableEq

structure WorkUnitCommit where
  workUnit : WorkUnit
  entity : EntityCommit
  conflictPolicyJson : ConflictPlan
  idempotency : Option IdempotencyRecord
  close : Bool
  deriving DecidableEq

structure WorkUnitConflict where
  key : EntityKey
  baselineHeads : List String
  staged : EntitySnapshot
  current : Option EntitySnapshot
  conflictPolicyJson : ConflictPlan
  deriving DecidableEq

/-- The heads a conflict found published; none where the entity is not. -/
def WorkUnitConflict.currentHeads (conflict : WorkUnitConflict) : List String :=
  match conflict.current with
  | some snapshot => snapshot.headVersions
  | none => []

structure WorkUnitResolution where
  expectedPublishedHeads : List String
  entity : EntityCommit
  deriving DecidableEq

structure WorkUnitPublish where
  workUnit : WorkUnit
  resolutions : List WorkUnitResolution
  recordedAtUnixMs : ℕ
  deriving DecidableEq

inductive WorkUnitCommitOutcome where
  | staged
  | published
  | closing
  | conflict (currentHeads : List String)
  | publicationConflict (conflicts : List WorkUnitConflict)
  | policyMismatch
  | committed
  | expired
  | replayed (resultJson : MutationResult)
  | idempotencyConflict
  deriving DecidableEq

/-- What a call on a work unit gets when the unit is not open, or its value when it is. -/
inductive WorkUnitOutcome (α : Type) where
  | opened (read : ConsistentRead α)
  | closing
  | policyMismatch
  | committed
  | expired
  deriving DecidableEq

abbrev WorkUnitReadOutcome := WorkUnitOutcome (Option EntitySnapshot)

abbrev WorkUnitRetrieveOutcome := WorkUnitOutcome RetrievedPage

end Patchouli
