import Patchouli.Lib.Json

/-!
# Requests, results and selected policies

The backend's own data: `model.rs`, `error.rs`, the policy types of `config.rs` and the plans
`controller.rs` derives from a request's metadata.

A control key (scope and configured fields) is used by its JSON text only, as a lock, a work-unit
identity, an idempotency identity or a session: the text is what a `PolicySelection` carries here.

## Main definitions

* `Mutation`, `MutationResult`, `EntityVersion`
* `BackendError`
* `ConflictPlan`, `PolicySelection`
-/

namespace Patchouli

open Json (Value)

/-- Request or response metadata, in key order. -/
abbrev Meta := List (String × Value)

/-! ### Entities and mutations -/

structure EntityRef where
  entityType : String
  id : String
  deriving DecidableEq

inductive EntityVersion where
  | active (entityRef : EntityRef) (version : String) (value : Value)
  | deleted (entityRef : EntityRef) (version : String)
  deriving DecidableEq

namespace EntityVersion

def entityRef : EntityVersion → EntityRef
  | active r _ _ => r
  | deleted r _ => r

def version : EntityVersion → String
  | active _ v _ => v
  | deleted _ v => v

end EntityVersion

/-- The operation of a mutation request with its data: what `IdempotencyRequest` serialises. -/
inductive Mutation where
  | create (entityType : String) (id : Option String) (value : Value)
  | update (entityRef : EntityRef) (value : Value)
  | delete (entityRef : EntityRef)
  deriving DecidableEq

/-- `RpcResult<MutationData>`: response metadata and the entity version. -/
structure MutationResult where
  metaFields : Meta
  entity : EntityVersion
  deriving DecidableEq

inductive ReadState where
  | active
  | conflicted
  | deleted
  deriving DecidableEq

/-! ### Errors -/

structure EntityVersionConflict where
  entityRef : EntityRef
  currentVersions : List String
  deriving DecidableEq

inductive BackendErrorReason where
  | cursorExpired
  | deadlineExceeded
  | idempotencyConflict
  | invalidRequest
  | notFound
  | overloaded
  | unsupportedCapability
  | versionConflict
  | workUnitExpired
  deriving DecidableEq

structure BackendError where
  reason : BackendErrorReason
  message : String
  currentVersions : List String
  conflicts : List EntityVersionConflict
  deriving DecidableEq

namespace BackendError

/-- `BackendError::new`. -/
def new (reason : BackendErrorReason) (message : String) : BackendError :=
  { reason, message, currentVersions := [], conflicts := [] }

/-- `BackendError::version_conflict`. -/
def headsMoved (currentVersions : List String) : BackendError :=
  { reason := .versionConflict
    message := "base_versions do not match the current heads"
    currentVersions
    conflicts := [] }

/-- `BackendError::entity_conflicts`. -/
def entityConflicts (conflicts : List EntityVersionConflict) : BackendError :=
  { reason := .versionConflict
    message := "one or more transaction entities conflict with current heads"
    currentVersions := []
    conflicts }

end BackendError

/-! ### Policies and plans -/

inductive ConflictStrategy where
  | merge
  | mvcc
  | reject
  deriving DecidableEq

inductive ConflictFallback where
  | mvcc
  | reject
  deriving DecidableEq

/-- A merge rule. Its strategy is always Automerge. -/
structure ConflictMergeRule where
  path : String
  groupBy : List String
  deriving DecidableEq

structure ConflictPlan where
  strategy : ConflictStrategy
  baseVersionsField : String
  baseVersions : Option Value
  merge : List ConflictMergeRule
  otherwise : ConflictFallback
  deriving DecidableEq

inductive IdempotencyPolicy where
  | disabled
  | keyed (keyBy : List String)
  deriving DecidableEq

/-- Publication of a mutation: at once, or with its batch, which the request whose metadata
field `closeField` equals `closeEquals` closes. A batch that expires is always discarded. -/
inductive PublicationPolicy where
  | immediate
  | batch (keyBy : List String) (closeField : String) (closeEquals : Value) (stagingTtlMs : ℕ)
  deriving DecidableEq

inductive ConsistencySource where
  | authority
  | replica
  deriving DecidableEq

inductive SessionGuarantee where
  | monotonicReads
  | readYourWrites
  deriving DecidableEq

structure CausalConsistencyPlan where
  field : String
  minimum : Option Value
  deriving DecidableEq

structure SessionConsistencyPlan where
  key : String
  guarantees : List SessionGuarantee
  deriving DecidableEq

structure ConsistencyPlan where
  snapshotKey : Option String
  allowedSources : List ConsistencySource
  causal : List CausalConsistencyPlan
  linearizationKey : Option String
  sessions : List SessionConsistencyPlan
  commitOrderingKey : Option String
  deriving DecidableEq

structure PolicySelection where
  fields : Meta
  scope : String
  consistency : ConsistencyPlan
  conflict : ConflictPlan
  idempotencyKey : Option String
  publicationKey : Option String
  idempotency : IdempotencyPolicy
  publication : PublicationPolicy
  deriving DecidableEq

/-- The policy a work unit is bound to by its first request. -/
structure WorkUnitPolicy where
  snapshotKey : Option String
  publication : PublicationPolicy
  linearizationKey : Option String
  commitOrderingKey : Option String
  deriving DecidableEq

end Patchouli
