import Patchouli.Backend.Config
import Patchouli.Lib.Fallible

/-!
# Accepted configurations

The rest of `config.rs`. A configuration gives each entity type its rules, each rule a behavior, and
a behavior names metadata fields in nine places. `validate` looks at all of them and stops at the
first that is wrong; `LoadedConfig.Accepted` says of each policy what it has to be, without an order.

Reading the file is left out: what `serde` and the schema of the configuration refuse never becomes
a `LoadedConfig`. The maps of the configuration are in key order.

## Main definitions

* `LoadedConfig`, `Behavior` — `BackendConfig` with everything the controller reads
* `LoadedConfig.validate`
* `AcceptedBehavior`, `LoadedConfig.Accepted`

## Main results

* `LoadedConfig.validate_eq_ok` — the check accepts exactly the accepted configurations
-/

namespace Patchouli

open Json (Value)

/-! ### Schemas -/

/-- The schema library. A schema can pass the meta schema and still not be built, where a reference
cannot be resolved. A refused value has the path inside it and a message. -/
structure SchemaLibrary where
  metaValidate : Value → Except String Unit
  build : Value → Except String (Value → Except (String × String) Unit)

/-- `validate_json_schema`. -/
def validateJsonSchema (schemas : SchemaLibrary) (path : String) (schema : Value) :
    Except ConfigError Unit :=
  match schemas.metaValidate schema with
  | .error error => invalid path ("value must be a valid JSON Schema: " ++ error)
  | .ok () =>
    match schemas.build schema with
    | .error error => invalid path ("value schema cannot be resolved: " ++ error)
    | .ok _ => .ok ()

/-- A schema that can be used. -/
def SchemaLibrary.Usable (schemas : SchemaLibrary) (schema : Value) : Prop :=
  schemas.metaValidate schema = .ok () ∧ ∃ validator, schemas.build schema = .ok validator

theorem validateJsonSchema_eq_ok {schemas : SchemaLibrary} {path : String} {schema : Value} :
    validateJsonSchema schemas path schema = .ok () ↔ schemas.Usable schema := by
  unfold validateJsonSchema SchemaLibrary.Usable invalid
  cases schemas.metaValidate schema with
  | error error => simp
  | ok => cases schemas.build schema <;> simp

/-! ### Policies -/

structure MetaField where
  pointer : String
  schema : Value

inductive SnapshotPolicy where
  | request
  | shared (keyBy : List String)
  deriving DecidableEq

inductive AcquireRequirement where
  | causalAfter (token : String) (isOptional : Bool)
  | linearizable (keyBy : List String)
  deriving DecidableEq

structure AcquirePolicy where
  allowSources : List ConsistencySource
  requirements : List AcquireRequirement

structure SessionPolicy where
  keyBy : List String
  guarantees : List SessionGuarantee

inductive CommitOrderingPolicy where
  | none
  | serialize (keyBy : List String)

structure ConsistencyPolicy where
  snapshot : SnapshotPolicy
  acquire : AcquirePolicy
  sessions : List SessionPolicy
  ordering : CommitOrderingPolicy

structure Behavior where
  consistency : ConsistencyPolicy
  idempotency : IdempotencyPolicy
  conflict : ConflictPolicy
  publication : PublicationPolicy

/-- A rule applies where all fields of `when` are present. -/
structure PolicyRule where
  name : String
  allPresent : List String
  behavior : Behavior

/-- `EntityPolicy`. -/
structure EntityRules where
  valueSchema : Value
  rules : List PolicyRule
  fallback : Behavior

/-- `BackendConfig` as it was read, with its maps in key order. -/
structure LoadedConfig where
  version : ℕ
  idempotencySeconds : ℕ
  changesSeconds : ℕ
  metaFields : List (String × MetaField)
  scopeBy : List String
  entityTypes : List (String × EntityRules)
  metaFields_sorted : (metaFields.map (·.1)).Pairwise (· < ·)
  entityTypes_sorted : (entityTypes.map (·.1)).Pairwise (· < ·)

/-- The behaviors of an entity type. -/
def EntityRules.behaviors (policy : EntityRules) : List Behavior :=
  policy.rules.map (·.behavior) ++ [policy.fallback]

/-- The names of the metadata fields. -/
def LoadedConfig.fieldNames (config : LoadedConfig) : List String := config.metaFields.map (·.1)

/-! ### Checks -/

/-- A check that refuses what meets a condition. -/
def refuseIf (refused : Prop) [Decidable refused] (path message : String) :
    Except ConfigError Unit :=
  if refused then invalid path message else .ok ()

@[simp] theorem refuseIf_eq_ok {refused : Prop} [Decidable refused] {path message : String} :
    refuseIf refused path message = .ok () ↔ ¬ refused := by
  unfold refuseIf invalid
  split <;> simp_all

/-- `validate_control_key_aliases`. -/
def validateControlKeyAliases (path : String) (fields scopeBy aliases : List String) :
    Except ConfigError Unit := do
  validateAliases path fields aliases []
  match aliases.find? fun name => scopeBy.contains name with
  | some name => invalid path ("metadata field " ++ name.quote ++
      " is already an implicit scope prefix and must not be repeated")
  | none => .ok ()

section Consistency

variable (root : String) (fields scopeBy : List String)

/-- The snapshot has to fit the publication. -/
def validateSnapshot : SnapshotPolicy → PublicationPolicy → Except ConfigError Unit
  | .request, .immediate => .ok ()
  | .shared snapshotKey, .batch publicationKey _ _ _ => do
    refuseIf (snapshotKey = []) (root ++ ".snapshot.key_by")
      "a shared snapshot requires at least one identity field"
    validateControlKeyAliases (root ++ ".snapshot.key_by") fields scopeBy snapshotKey
    refuseIf (¬ (snapshotKey ⊆ publicationKey ∧ publicationKey ⊆ snapshotKey))
      (root ++ ".snapshot.key_by")
      "shared snapshot and batch publication must use the same key fields"
  | .shared _, .immediate =>
    invalid (root ++ ".snapshot.mode") "a shared snapshot requires batch publication"
  | .request, .batch .. =>
    invalid (root ++ ".snapshot.mode") "batch publication requires a shared snapshot"

/-- The loop over the requirements, from position `index`; it counts the linearizable ones. -/
def validateRequirements : List AcquireRequirement → (index linearizable : ℕ) →
    Except ConfigError ℕ
  | [], _, linearizable => .ok linearizable
  | .causalAfter token _ :: rest, index, linearizable => do
    validateAliases (root ++ ".acquire.requirements[" ++ toString index ++ "].token") fields
      [token] []
    validateRequirements rest (index + 1) linearizable
  | .linearizable keyBy :: rest, index, linearizable => do
    validateControlKeyAliases (root ++ ".acquire.requirements[" ++ toString index ++ "].key_by")
      fields scopeBy keyBy
    validateRequirements rest (index + 1) (linearizable + 1)

/-- The loop over the sessions, from position `index`. -/
def validateSessions : List SessionPolicy → (index : ℕ) → (seen : List (List String)) →
    Except ConfigError Unit
  | [], _, _ => .ok ()
  | session :: rest, index, seen => do
    let sessionRoot := root ++ ".sessions[" ++ toString index ++ "]"
    refuseIf (session.keyBy = []) (sessionRoot ++ ".key_by")
      "a session requires at least one identity field"
    validateControlKeyAliases (sessionRoot ++ ".key_by") fields scopeBy session.keyBy
    refuseIf (Table.sorted session.keyBy ∈ seen) (sessionRoot ++ ".key_by")
      "a session identity may be declared only once; combine its guarantees"
    refuseIf (session.guarantees = []) (sessionRoot ++ ".guarantees")
      "a session requires at least one guarantee"
    refuseIf (¬ session.guarantees.Nodup) (sessionRoot ++ ".guarantees")
      "session guarantees must be unique"
    validateSessions rest (index + 1) (Table.sorted session.keyBy :: seen)

/-- The end of `validate_consistency`. -/
def validateOrdering : CommitOrderingPolicy → Except ConfigError Unit
  | .none => .ok ()
  | .serialize keyBy =>
    validateControlKeyAliases (root ++ ".commit.ordering.key_by") fields scopeBy keyBy

/-- `AcquireRequirement::CausalAfter`. -/
def AcquireRequirement.isCausal : AcquireRequirement → Bool
  | causalAfter .. => true
  | linearizable _ => false

/-- `PublicationPolicy::Batch`. -/
def PublicationPolicy.isBatch : PublicationPolicy → Bool
  | batch .. => true
  | immediate => false

/-- `validate_consistency`. -/
def validateConsistency (consistency : ConsistencyPolicy) (publication : PublicationPolicy) :
    Except ConfigError Unit := do
  validateSnapshot root fields scopeBy consistency.snapshot publication
  let sources := consistency.acquire.allowSources
  refuseIf (sources = []) (root ++ ".acquire.allow_sources")
    "at least one snapshot source is required"
  refuseIf (¬ sources.Nodup) (root ++ ".acquire.allow_sources") "snapshot sources must be unique"
  let linearizable ← validateRequirements root fields scopeBy consistency.acquire.requirements 0 0
  refuseIf (1 < linearizable) (root ++ ".acquire.requirements")
    "only one linearization domain may be configured"
  refuseIf (linearizable = 1 ∧ .authority ∉ sources) (root ++ ".acquire.allow_sources")
    "linearizable acquisition requires authority to be an allowed source"
  validateSessions root fields scopeBy consistency.sessions 0 []
  refuseIf (publication.isBatch ∧ (consistency.sessions ≠ [] ∨
      consistency.acquire.requirements.any (·.isCausal)))
    root "causal/session consistency currently requires immediate publication"
  validateOrdering root fields scopeBy consistency.ordering

/-- The idempotency part of `validate_behavior`. -/
def validateIdempotency : IdempotencyPolicy → Except ConfigError Unit
  | .disabled => .ok ()
  | .keyed keyBy => do
    refuseIf (keyBy = []) (root ++ ".idempotency.key_by")
      "keyed idempotency requires at least one identity field"
    validateControlKeyAliases (root ++ ".idempotency.key_by") fields scopeBy keyBy

/-- The publication part of `validate_behavior`. -/
def validatePublication : PublicationPolicy → Except ConfigError Unit
  | .immediate => .ok ()
  | .batch keyBy closeField _ stagingTtlMs => do
    refuseIf (keyBy = []) (root ++ ".publication.key_by")
      "batch publication requires at least one grouping field"
    validateControlKeyAliases (root ++ ".publication.key_by") fields scopeBy keyBy
    refuseIf (stagingTtlMs = 0) (root ++ ".publication.staging_ttl_ms")
      "staging TTL must be greater than zero"
    validateAliases (root ++ ".publication.close_when.field") fields [closeField] []

/-- `validate_behavior`. -/
def validateBehavior (behavior : Behavior) : Except ConfigError Unit := do
  validateConsistency (root ++ ".consistency") fields scopeBy behavior.consistency
    behavior.publication
  validateIdempotency root fields scopeBy behavior.idempotency
  validateConflict (root ++ ".conflict") behavior.conflict fields
  validatePublication root fields scopeBy behavior.publication

/-- The loop over the rules of an entity type, from position `index`. -/
def validateRules : List PolicyRule → (index : ℕ) → (names : List String) →
    Except ConfigError Unit
  | [], _, _ => .ok ()
  | rule :: rest, index, names => do
    let ruleRoot := root ++ ".rules[" ++ toString index ++ "]"
    refuseIf (rule.name ∈ names) (ruleRoot ++ ".name")
      "rule names must be unique within an entity type"
    refuseIf (rule.allPresent = []) (ruleRoot ++ ".when.all_present")
      "a rule must test at least one metadata field"
    validateAliases (ruleRoot ++ ".when.all_present") fields rule.allPresent []
    validateBehavior (ruleRoot ++ ".behavior") fields scopeBy rule.behavior
    validateRules rest (index + 1) (rule.name :: names)

end Consistency

/-- `DEADLINE_META_FIELD`. -/
def deadlineMetaField : String := "deadline_unix_ms"

/-- The checks of a metadata field. -/
def validateMetaField (schemas : SchemaLibrary) (entry : String × MetaField) :
    Except ConfigError Unit := do
  refuseIf (entry.1 = "") "meta_fields" "field aliases must not be empty"
  refuseIf (validJsonPointer entry.2.pointer = false) ("meta_fields." ++ entry.1 ++ ".pointer")
    "pointer must be a non-root RFC 6901 JSON Pointer relative to meta"
  refuseIf (entry.2.pointer = "/" ++ deadlineMetaField) ("meta_fields." ++ entry.1 ++ ".pointer")
    "the protocol deadline field is reserved and cannot be configured as identity or policy metadata"
  validateJsonSchema schemas ("meta_fields." ++ entry.1 ++ ".schema") entry.2.schema

/-- The checks of an entity type. -/
def validateEntityType (schemas : SchemaLibrary) (fields scopeBy : List String)
    (entry : String × EntityRules) : Except ConfigError Unit := do
  let root := "entity_types." ++ entry.1
  refuseIf (entry.1 = "") "entity_types" "entity type names must not be empty"
  validateJsonSchema schemas (root ++ ".value_schema") entry.2.valueSchema
  validateRules root fields scopeBy entry.2.rules 0 []
  validateBehavior (root ++ ".fallback") fields scopeBy entry.2.fallback

/-- `BackendConfig::validate`. -/
def LoadedConfig.validate (schemas : SchemaLibrary) (config : LoadedConfig) :
    Except ConfigError Unit := do
  refuseIf (config.version ≠ 1) "version" "only configuration version 1 is supported"
  refuseIf (config.metaFields = []) "meta_fields" "at least one metadata field is required"
  refuseIf (config.entityTypes = []) "entity_types" "at least one entity type is required"
  refuseIf (config.idempotencySeconds = 0) "retention.idempotency_seconds"
    "idempotency retention must be greater than zero"
  refuseIf (config.changesSeconds = 0) "retention.changes_seconds"
    "change retention must be greater than zero"
  config.metaFields.forM (validateMetaField schemas)
  validateAliases "entity_identity.scope_by" config.fieldNames config.scopeBy []
  config.entityTypes.forM (validateEntityType schemas config.fieldNames config.scopeBy)

/-! ### Accepted policies -/

/-- Fields of a control key: configured, each named once, and none that the scope has. -/
structure ControlFields (fields scopeBy names : List String) : Prop where
  known : names ⊆ fields
  nodup : names.Nodup
  apart : ∀ name ∈ names, name ∉ scopeBy

/-- A shared snapshot goes with a batch that is keyed by the same fields. -/
def SnapshotFits (fields scopeBy : List String) : SnapshotPolicy → PublicationPolicy → Prop
  | .request, .immediate => True
  | .shared snapshotKey, .batch publicationKey _ _ _ =>
    snapshotKey ≠ [] ∧ ControlFields fields scopeBy snapshotKey ∧
      snapshotKey ⊆ publicationKey ∧ publicationKey ⊆ snapshotKey
  | _, _ => False

/-- The fields a requirement names. -/
def AcceptedRequirement (fields scopeBy : List String) : AcquireRequirement → Prop
  | .causalAfter token _ => token ∈ fields
  | .linearizable keyBy => ControlFields fields scopeBy keyBy

structure AcceptedSession (fields scopeBy : List String) (session : SessionPolicy) : Prop where
  keyed : session.keyBy ≠ []
  control : ControlFields fields scopeBy session.keyBy
  guaranteed : session.guarantees ≠ []
  guarantees : session.guarantees.Nodup

structure AcceptedConsistency (fields scopeBy : List String) (consistency : ConsistencyPolicy)
    (publication : PublicationPolicy) : Prop where
  snapshot : SnapshotFits fields scopeBy consistency.snapshot publication
  sourced : consistency.acquire.allowSources ≠ []
  sources : consistency.acquire.allowSources.Nodup
  requirements : ∀ r ∈ consistency.acquire.requirements, AcceptedRequirement fields scopeBy r
  domain : (consistency.acquire.requirements.filter (!·.isCausal)).length ≤ 1
  authority : consistency.acquire.requirements.any (!·.isCausal) →
    .authority ∈ consistency.acquire.allowSources
  sessions : ∀ session ∈ consistency.sessions, AcceptedSession fields scopeBy session
  sessionKeys : consistency.sessions.Pairwise fun s t => ¬ s.keyBy.Perm t.keyBy
  batch : publication.isBatch → consistency.sessions = [] ∧
    ∀ r ∈ consistency.acquire.requirements, r.isCausal = false
  ordering : ∀ keyBy, consistency.ordering = .serialize keyBy →
    ControlFields fields scopeBy keyBy

structure AcceptedConflict (fields : List String) (conflict : ConflictPolicy) : Prop where
  strategyFrom : conflict.strategyFrom ∈ fields
  baseVersions : conflict.baseVersions ∈ fields
  paths : ∀ rule ∈ conflict.merge, validJsonPointer rule.path = true
  apart : conflict.merge.Pairwise fun r s =>
    nestedJsonPointer r.path s.path = false ∧ nestedJsonPointer s.path r.path = false
  groups : ∀ rule ∈ conflict.merge,
    (∀ pointer ∈ rule.groupBy, validJsonPointer pointer = true) ∧ rule.groupBy.Nodup

structure AcceptedBehavior (fields scopeBy : List String) (behavior : Behavior) : Prop where
  consistency : AcceptedConsistency fields scopeBy behavior.consistency behavior.publication
  idempotency : ∀ keyBy, behavior.idempotency = .keyed keyBy →
    keyBy ≠ [] ∧ ControlFields fields scopeBy keyBy
  conflict : AcceptedConflict fields behavior.conflict
  publication : ∀ keyBy closeField closeEquals ttl,
    behavior.publication = .batch keyBy closeField closeEquals ttl →
      keyBy ≠ [] ∧ ControlFields fields scopeBy keyBy ∧ ttl ≠ 0 ∧ closeField ∈ fields

structure AcceptedRule (fields scopeBy : List String) (rule : PolicyRule) : Prop where
  tests : rule.allPresent ≠ []
  known : rule.allPresent ⊆ fields
  nodup : rule.allPresent.Nodup
  behavior : AcceptedBehavior fields scopeBy rule.behavior

structure AcceptedMetaField (schemas : SchemaLibrary) (entry : String × MetaField) : Prop where
  named : entry.1 ≠ ""
  pointer : validJsonPointer entry.2.pointer = true
  unreserved : entry.2.pointer ≠ "/" ++ deadlineMetaField
  schema : schemas.Usable entry.2.schema

structure AcceptedEntityType (schemas : SchemaLibrary) (fields scopeBy : List String)
    (entry : String × EntityRules) : Prop where
  named : entry.1 ≠ ""
  schema : schemas.Usable entry.2.valueSchema
  ruleNames : (entry.2.rules.map (·.name)).Nodup
  rules : ∀ rule ∈ entry.2.rules, AcceptedRule fields scopeBy rule
  fallback : AcceptedBehavior fields scopeBy entry.2.fallback

/-- What a configuration has to be. -/
structure LoadedConfig.Accepted (schemas : SchemaLibrary) (config : LoadedConfig) : Prop where
  version : config.version = 1
  fielded : config.metaFields ≠ []
  typed : config.entityTypes ≠ []
  idempotency : config.idempotencySeconds ≠ 0
  changes : config.changesSeconds ≠ 0
  metaFields : ∀ entry ∈ config.metaFields, AcceptedMetaField schemas entry
  scope : config.scopeBy ⊆ config.fieldNames
  scopeNodup : config.scopeBy.Nodup
  entityTypes : ∀ entry ∈ config.entityTypes,
    AcceptedEntityType schemas config.fieldNames config.scopeBy entry

/-! ### The check decides it -/

section Decides

variable {path root : String} {fields scopeBy : List String}

theorem validateAliases_eq_ok {names seen : List String} :
    validateAliases path fields names seen = .ok () ↔
      names ⊆ fields ∧ names.Nodup ∧ ∀ name ∈ names, name ∉ seen := by
  induction names generalizing seen with
  | nil => simp [validateAliases]
  | cons name rest ih =>
    unfold validateAliases invalid
    by_cases hknown : name ∈ fields
    · by_cases hseen : name ∈ seen
      · simp [hknown, hseen]
      · have hstep : (if (!fields.contains name) = true then
              Except.error ⟨path, "unknown metadata field " ++ name.quote⟩
            else if seen.contains name = true then
              Except.error ⟨path, "duplicate metadata field " ++ name.quote⟩
            else validateAliases path fields rest (name :: seen)) =
            validateAliases path fields rest (name :: seen) := by
          simp [hknown, hseen]
        rw [hstep, ih, List.cons_subset, List.nodup_cons, List.forall_mem_cons]
        simp only [List.mem_cons, not_or]
        constructor
        · rintro ⟨hrest, hnodup, happart⟩
          exact ⟨⟨hknown, hrest⟩, ⟨fun h => (happart name h).1 rfl, hnodup⟩, hseen,
            fun n hn => (happart n hn).2⟩
        · rintro ⟨⟨-, hrest⟩, ⟨hne, hnodup⟩, -, happart⟩
          exact ⟨hrest, hnodup, fun n hn => ⟨fun h => hne (h ▸ hn), happart n hn⟩⟩
    · simp [hknown]

theorem validateAliases_single {name : String} :
    validateAliases path fields [name] [] = .ok () ↔ name ∈ fields := by
  simp [validateAliases_eq_ok]

theorem validateControlKeyAliases_eq_ok {names : List String} :
    validateControlKeyAliases path fields scopeBy names = .ok () ↔
      ControlFields fields scopeBy names := by
  unfold validateControlKeyAliases
  rw [Except.seq_eq_ok, validateAliases_eq_ok]
  cases hfind : names.find? fun name => scopeBy.contains name with
  | some name =>
    have hin : name ∈ scopeBy := by simpa using List.find?_some hfind
    refine iff_of_false (by simp [invalid]) fun h => ?_
    exact h.apart name (List.mem_of_find?_eq_some hfind) hin
  | none =>
    have hout : ∀ name ∈ names, name ∉ scopeBy := by simpa using List.find?_eq_none.mp hfind
    constructor
    · rintro ⟨⟨hknown, hnodup, -⟩, -⟩
      exact ⟨hknown, hnodup, hout⟩
    · intro h
      exact ⟨⟨h.known, h.nodup, by simp⟩, rfl⟩

theorem validateSnapshot_eq_ok {snapshot : SnapshotPolicy} {publication : PublicationPolicy} :
    validateSnapshot root fields scopeBy snapshot publication = .ok () ↔
      SnapshotFits fields scopeBy snapshot publication := by
  cases snapshot with
  | request => cases publication <;> simp [validateSnapshot, SnapshotFits, invalid]
  | shared snapshotKey =>
    cases publication with
    | immediate => simp [validateSnapshot, SnapshotFits, invalid]
    | batch publicationKey closeField closeEquals ttl =>
      simp only [validateSnapshot, SnapshotFits, Except.seq_eq_ok, refuseIf_eq_ok,
        validateControlKeyAliases_eq_ok, not_not, ne_eq]

/-- The loop over the requirements counts those that are not causal. -/
theorem validateRequirements_eq_ok {requirements : List AcquireRequirement}
    {index linearizable count : ℕ} :
    validateRequirements root fields scopeBy requirements index linearizable = .ok count ↔
      (∀ r ∈ requirements, AcceptedRequirement fields scopeBy r) ∧
        count = linearizable + (requirements.filter (!·.isCausal)).length := by
  induction requirements generalizing index linearizable with
  | nil => simp [validateRequirements, eq_comm]
  | cons requirement rest ih =>
    rw [List.forall_mem_cons, and_assoc]
    cases requirement with
    | causalAfter token isOptional =>
      rw [validateRequirements, Except.seq_eq_ok, validateAliases_single, ih,
        List.filter_cons_of_neg (by simp [AcquireRequirement.isCausal])]
      exact Iff.rfl
    | linearizable keyBy =>
      rw [validateRequirements, Except.seq_eq_ok, validateControlKeyAliases_eq_ok, ih,
        List.filter_cons_of_pos (by simp [AcquireRequirement.isCausal]), List.length_cons,
        Nat.add_right_comm, ← Nat.add_assoc]
      exact Iff.rfl

theorem validateSessions_eq_ok {sessions : List SessionPolicy} {index : ℕ}
    {seen : List (List String)} :
    validateSessions root fields scopeBy sessions index seen = .ok () ↔
      (∀ session ∈ sessions, AcceptedSession fields scopeBy session) ∧
        (sessions.Pairwise fun s t => ¬ s.keyBy.Perm t.keyBy) ∧
        ∀ session ∈ sessions, Table.sorted session.keyBy ∉ seen := by
  induction sessions generalizing index seen with
  | nil => simp [validateSessions]
  | cons session rest ih =>
    rw [List.forall_mem_cons, List.forall_mem_cons, List.pairwise_cons]
    simp only [validateSessions, Except.seq_eq_ok, refuseIf_eq_ok, not_not,
      validateControlKeyAliases_eq_ok, ih, List.mem_cons, not_or, Table.sorted_eq_iff]
    constructor
    · rintro ⟨hkeyed, hcontrol, hseen, hguaranteed, hnodup, hrest, hpair, happart⟩
      exact ⟨⟨⟨hkeyed, hcontrol, hguaranteed, hnodup⟩, hrest⟩,
        ⟨fun t ht hperm => (happart t ht).1 hperm.symm, hpair⟩, hseen,
        fun t ht => (happart t ht).2⟩
    · rintro ⟨⟨⟨hkeyed, hcontrol, hguaranteed, hnodup⟩, hrest⟩, ⟨hfirst, hpair⟩, hseen, happart⟩
      exact ⟨hkeyed, hcontrol, hseen, hguaranteed, hnodup, hrest, hpair,
        fun t ht => ⟨fun hperm => hfirst t ht hperm.symm, happart t ht⟩⟩

/-- `validate_consistency` accepts exactly the accepted consistency policies. -/
theorem validateConsistency_eq_ok {consistency : ConsistencyPolicy}
    {publication : PublicationPolicy} :
    validateConsistency root fields scopeBy consistency publication = .ok () ↔
      AcceptedConsistency fields scopeBy consistency publication := by
  have hany : consistency.acquire.requirements.any (!·.isCausal) = true ↔
      (consistency.acquire.requirements.filter (!·.isCausal)).length ≠ 0 := by
    rw [List.any_eq_true, ne_eq, List.length_eq_zero_iff, List.filter_eq_nil_iff]
    simp
  have hordering : validateOrdering root fields scopeBy consistency.ordering = .ok () ↔
      ∀ keyBy, consistency.ordering = .serialize keyBy → ControlFields fields scopeBy keyBy := by
    cases consistency.ordering with
    | none => simp [validateOrdering]
    | serialize keyBy => simp [validateOrdering, validateControlKeyAliases_eq_ok]
  unfold validateConsistency
  simp only [Except.seq_eq_ok, @Except.bind_eq_ok _ ℕ, refuseIf_eq_ok, validateSnapshot_eq_ok,
    validateRequirements_eq_ok, validateSessions_eq_ok, not_not, Nat.zero_add, hordering]
  constructor
  · rintro ⟨hsnapshot, hsourced, hnodup, count, ⟨hreqs, rfl⟩, hdomain, hauthority,
      ⟨hsessions, hkeys, -⟩, hbatch, horder⟩
    refine ⟨hsnapshot, hsourced, hnodup, hreqs, by omega, fun h => ?_, hsessions, hkeys,
      fun h => ?_, horder⟩
    · by_contra hnot
      have := hany.mp h
      exact hauthority ⟨by omega, hnot⟩
    · simp only [not_and, not_or, List.any_eq_true, not_exists, ne_eq, not_not,
        Bool.not_eq_true] at hbatch
      exact hbatch h
  · intro h
    refine ⟨h.snapshot, h.sourced, h.sources, _, ⟨h.requirements, rfl⟩, by have := h.domain; omega,
      ?_, ⟨h.sessions, h.sessionKeys, by simp⟩, ?_, h.ordering⟩
    · rintro ⟨hone, hnot⟩
      exact hnot (h.authority (hany.mpr (by omega)))
    · rintro ⟨hb, hor⟩
      obtain ⟨hnone, hcausal⟩ := h.batch hb
      rcases hor with hne | hex
      · exact hne hnone
      · obtain ⟨r, hr, htrue⟩ := List.any_eq_true.mp hex
        rw [hcausal r hr] at htrue
        cases htrue

theorem validateGroupBy_eq_ok {pointers seen : List String} :
    validateGroupBy root pointers seen = .ok () ↔
      (∀ pointer ∈ pointers, validJsonPointer pointer = true) ∧ pointers.Nodup ∧
        ∀ pointer ∈ pointers, pointer ∉ seen := by
  induction pointers generalizing seen with
  | nil => simp [validateGroupBy]
  | cons pointer rest ih =>
    unfold validateGroupBy invalid
    rw [List.forall_mem_cons, List.forall_mem_cons, List.nodup_cons]
    by_cases hvalid : validJsonPointer pointer = true
    · by_cases hseen : pointer ∈ seen
      · simp [hvalid, hseen]
      · simp only [hvalid, Bool.not_true, Bool.false_eq_true, if_false, List.contains_eq_mem,
          hseen, decide_false, ih, List.mem_cons, not_or, true_and]
        constructor
        · rintro ⟨hrest, hnodup, happart⟩
          exact ⟨hrest, ⟨fun h => (happart pointer h).1 rfl, hnodup⟩, not_false,
            fun p hp => (happart p hp).2⟩
        · rintro ⟨hrest, ⟨hne, hnodup⟩, -, happart⟩
          exact ⟨hrest, hnodup, fun p hp => ⟨fun h => hne (h ▸ hp), happart p hp⟩⟩
    · simp [hvalid]

theorem validateMergeRules_eq_ok {rules : List ConflictMergeRule} {index : ℕ}
    {paths : List String} :
    validateMergeRules root rules index paths = .ok () ↔
      (∀ r ∈ rules, validJsonPointer r.path = true) ∧
      (rules.Pairwise fun r s =>
        nestedJsonPointer r.path s.path = false ∧ nestedJsonPointer s.path r.path = false) ∧
      (∀ r ∈ rules, (∀ pointer ∈ r.groupBy, validJsonPointer pointer = true) ∧ r.groupBy.Nodup) ∧
      ∀ r ∈ rules, ∀ p ∈ paths,
        nestedJsonPointer p r.path = false ∧ nestedJsonPointer r.path p = false := by
  induction rules generalizing index paths with
  | nil => simp [validateMergeRules]
  | cons rule rest ih =>
    rw [validateMergeRules, List.forall_mem_cons, List.forall_mem_cons, List.forall_mem_cons,
      List.pairwise_cons]
    by_cases hvalid : validJsonPointer rule.path = true
    · by_cases hnested : paths.any fun existing =>
          nestedJsonPointer existing rule.path || nestedJsonPointer rule.path existing
      · refine iff_of_false (by simp [hvalid, hnested, invalid]) ?_
        rintro ⟨-, -, -, hall, -⟩
        obtain ⟨p, hp, hor⟩ := List.any_eq_true.mp hnested
        simp [hall p hp] at hor
      · have hapart : ∀ p ∈ paths, nestedJsonPointer p rule.path = false ∧
            nestedJsonPointer rule.path p = false := by
          simpa using hnested
        simp only [hvalid, Bool.not_true, Bool.false_eq_true, if_false, hnested,
          Except.seq_eq_ok, validateGroupBy_eq_ok, ih, List.forall_mem_cons]
        constructor
        · rintro ⟨⟨hgroups, hnodup, -⟩, hpaths, hpair, hrest, hfar⟩
          exact ⟨⟨trivial, hpaths⟩, ⟨fun s hs => (hfar s hs).1, hpair⟩,
            ⟨⟨hgroups, hnodup⟩, hrest⟩, hapart, fun s hs => (hfar s hs).2⟩
        · rintro ⟨⟨-, hpaths⟩, ⟨hfirst, hpair⟩, ⟨⟨hgroups, hnodup⟩, hrest⟩, -, hfar⟩
          exact ⟨⟨hgroups, hnodup, by simp⟩, hpaths, hpair, hrest,
            fun s hs => ⟨hfirst s hs, hfar s hs⟩⟩
    · refine iff_of_false (by simp [hvalid, invalid]) ?_
      rintro ⟨⟨h, -⟩, -⟩
      exact hvalid h

theorem validateConflict_eq_ok {conflict : ConflictPolicy} :
    validateConflict root conflict fields = .ok () ↔ AcceptedConflict fields conflict := by
  unfold validateConflict
  simp only [Except.seq_eq_ok, validateAliases_single, validateMergeRules_eq_ok]
  constructor
  · rintro ⟨hstrategy, hbases, hpaths, hpair, hgroups, -⟩
    exact ⟨hstrategy, hbases, hpaths, hpair, hgroups⟩
  · intro h
    exact ⟨h.strategyFrom, h.baseVersions, h.paths, h.apart, h.groups, by simp⟩

/-- `validate_behavior` accepts exactly the accepted behaviors. -/
theorem validateBehavior_eq_ok {behavior : Behavior} :
    validateBehavior root fields scopeBy behavior = .ok () ↔
      AcceptedBehavior fields scopeBy behavior := by
  have hidempotency : validateIdempotency root fields scopeBy behavior.idempotency = .ok () ↔
      ∀ keyBy, behavior.idempotency = .keyed keyBy →
        keyBy ≠ [] ∧ ControlFields fields scopeBy keyBy := by
    cases behavior.idempotency with
    | disabled => simp [validateIdempotency]
    | keyed keyBy =>
      simp [validateIdempotency, Except.seq_eq_ok, validateControlKeyAliases_eq_ok]
  have hpublication : validatePublication root fields scopeBy behavior.publication = .ok () ↔
      ∀ keyBy closeField closeEquals ttl,
        behavior.publication = .batch keyBy closeField closeEquals ttl →
          keyBy ≠ [] ∧ ControlFields fields scopeBy keyBy ∧ ttl ≠ 0 ∧ closeField ∈ fields := by
    cases behavior.publication with
    | immediate => simp [validatePublication]
    | batch keyBy closeField closeEquals ttl =>
      simp only [validatePublication, Except.seq_eq_ok, refuseIf_eq_ok,
        validateControlKeyAliases_eq_ok, validateAliases_single, PublicationPolicy.batch.injEq]
      constructor
      · rintro h _ _ _ _ ⟨rfl, rfl, rfl, rfl⟩
        exact h
      · intro h
        exact h _ _ _ _ ⟨rfl, rfl, rfl, rfl⟩
  unfold validateBehavior
  simp only [Except.seq_eq_ok, validateConsistency_eq_ok, hidempotency, validateConflict_eq_ok,
    hpublication]
  constructor
  · rintro ⟨hconsistency, hidem, hconflict, hpub⟩
    exact ⟨hconsistency, hidem, hconflict, hpub⟩
  · rintro ⟨hconsistency, hidem, hconflict, hpub⟩
    exact ⟨hconsistency, hidem, hconflict, hpub⟩

theorem validateRules_eq_ok {rules : List PolicyRule} {index : ℕ} {names : List String} :
    validateRules root fields scopeBy rules index names = .ok () ↔
      (rules.map (·.name)).Nodup ∧ (∀ rule ∈ rules, AcceptedRule fields scopeBy rule) ∧
        ∀ rule ∈ rules, rule.name ∉ names := by
  induction rules generalizing index names with
  | nil => simp [validateRules]
  | cons rule rest ih =>
    rw [List.map_cons, List.nodup_cons, List.forall_mem_cons, List.forall_mem_cons]
    simp only [validateRules, Except.seq_eq_ok, refuseIf_eq_ok, validateAliases_eq_ok,
      validateBehavior_eq_ok, ih, List.mem_cons, not_or, List.mem_map, not_exists, not_and]
    constructor
    · rintro ⟨hname, htests, ⟨hknown, hnodup, -⟩, hbehavior, hnames, hrest, happart⟩
      exact ⟨⟨fun r hr h => (happart r hr).1 h, hnames⟩,
        ⟨⟨htests, hknown, hnodup, hbehavior⟩, hrest⟩, hname, fun r hr => (happart r hr).2⟩
    · rintro ⟨⟨hfirst, hnames⟩, ⟨⟨htests, hknown, hnodup, hbehavior⟩, hrest⟩, hname, happart⟩
      exact ⟨hname, htests, ⟨hknown, hnodup, by simp⟩, hbehavior, hnames, hrest,
        fun r hr => ⟨hfirst r hr, happart r hr⟩⟩

end Decides

theorem validateMetaField_eq_ok {schemas : SchemaLibrary} {entry : String × MetaField} :
    validateMetaField schemas entry = .ok () ↔ AcceptedMetaField schemas entry := by
  unfold validateMetaField
  simp only [Except.seq_eq_ok, refuseIf_eq_ok, validateJsonSchema_eq_ok, Bool.not_eq_false]
  constructor
  · rintro ⟨hnamed, hpointer, hunreserved, hschema⟩
    exact ⟨hnamed, hpointer, hunreserved, hschema⟩
  · rintro ⟨hnamed, hpointer, hunreserved, hschema⟩
    exact ⟨hnamed, hpointer, hunreserved, hschema⟩

theorem validateEntityType_eq_ok {schemas : SchemaLibrary} {fields scopeBy : List String}
    {entry : String × EntityRules} :
    validateEntityType schemas fields scopeBy entry = .ok () ↔
      AcceptedEntityType schemas fields scopeBy entry := by
  unfold validateEntityType
  simp only [Except.seq_eq_ok, refuseIf_eq_ok, validateJsonSchema_eq_ok, validateRules_eq_ok,
    validateBehavior_eq_ok]
  constructor
  · rintro ⟨hnamed, hschema, ⟨hnames, hrules, -⟩, hfallback⟩
    exact ⟨hnamed, hschema, hnames, hrules, hfallback⟩
  · rintro ⟨hnamed, hschema, hnames, hrules, hfallback⟩
    exact ⟨hnamed, hschema, ⟨hnames, hrules, by simp⟩, hfallback⟩

/-- A configuration that passes the check is accepted. -/
theorem LoadedConfig.accepted_of_validate {schemas : SchemaLibrary} {config : LoadedConfig}
    (h : config.validate schemas = .ok ()) : config.Accepted schemas := by
  unfold LoadedConfig.validate at h
  simp only [Except.seq_eq_ok, refuseIf_eq_ok, Except.forM_eq_ok, validateMetaField_eq_ok,
    validateEntityType_eq_ok, validateAliases_eq_ok, not_not, ne_eq] at h
  obtain ⟨hversion, hfielded, htyped, hidem, hchanges, hfields, ⟨hscope, hnodup, -⟩, htypes⟩ := h
  exact ⟨hversion, hfielded, htyped, hidem, hchanges, hfields, hscope, hnodup, htypes⟩

/-- **What `validate` accepts**, whatever it looks at first. -/
theorem LoadedConfig.validate_eq_ok (schemas : SchemaLibrary) (config : LoadedConfig) :
    config.validate schemas = .ok () ↔ config.Accepted schemas := by
  refine ⟨LoadedConfig.accepted_of_validate, fun h => ?_⟩
  unfold LoadedConfig.validate
  simp only [Except.seq_eq_ok, refuseIf_eq_ok, Except.forM_eq_ok, validateMetaField_eq_ok,
    validateEntityType_eq_ok, validateAliases_eq_ok, not_not, ne_eq]
  exact ⟨h.version, h.fielded, h.typed, h.idempotency, h.changes, h.metaFields,
    ⟨h.scope, h.scopeNodup, by simp⟩, h.entityTypes⟩

end Patchouli
