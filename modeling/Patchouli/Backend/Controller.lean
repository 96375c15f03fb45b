import Patchouli.Backend.Capabilities
import Patchouli.Backend.Engine
import Patchouli.Backend.Fingerprint

/-!
# From metadata to a selection

`controller.rs`: what a request gets to ask of the provider is read off its metadata. The configured
fields are picked out and checked, the first rule whose fields are all there gives the behavior, and
the behavior says which fields make up which key.

## Main definitions

* `PolicySelector.select`, `PolicySelector.selectScope`
* `PolicySelector.Selectable` — metadata an entity type can be used with
* `PolicySelector.selected` — what is selected then, without the ways to fail

## Main results

* `selectKey_eq_ok` — a key is a part of the fields
* `PolicySelector.select_eq_ok` — what is selected, and when
-/

namespace Patchouli

open Json (Value FloatText)

/-- The libraries behind the controller. A value that names no strategy has a message. -/
structure PolicyLibraries where
  schemas : SchemaLibrary
  floats : FloatText
  strategyMessage : Value → String

/-! ### Errors -/

inductive PolicyError where
  | unknownEntityType (entityType : String)
  | missingField (entityType field : String)
  | invalidField (field message : String)
  deriving DecidableEq

/-- The `Display` text of a policy error. -/
def PolicyError.text : PolicyError → String
  | unknownEntityType entityType => "entity type " ++ entityType.quote ++ " is not configured"
  | missingField entityType field => "required metadata field " ++ field.quote ++
      " is absent for entity type " ++ entityType.quote
  | invalidField field message =>
    "metadata field " ++ field.quote ++ " is invalid: " ++ message

/-! ### Fields -/

/-- `MetaField::select`. -/
def MetaField.select (field : MetaField) (metadata : Value) : Option Value :=
  metadata.pointer field.pointer

/-- `MetaField::validate_value`. -/
def MetaField.validateValue (schemas : SchemaLibrary) (field : MetaField) (value : Value) :
    Except String Unit :=
  match schemas.build field.schema with
  | .error error => .error error
  | .ok validator => (validator value).mapError (·.2)

/-- The fields that are there, in the order of their names. -/
def LoadedConfig.present (config : LoadedConfig) (metadata : Value) : Meta :=
  config.metaFields.filterMap fun entry => (entry.2.select metadata).map fun value =>
    (entry.1, value)

/-- The check of a field that is there. -/
def validateField (schemas : SchemaLibrary) (metadata : Value) (entry : String × MetaField) :
    Except PolicyError Unit :=
  match entry.2.select metadata with
  | none => .ok ()
  | some value => (entry.2.validateValue schemas value).mapError (.invalidField entry.1)

/-- The head of `select` and `select_scope`. -/
def selectFields (schemas : SchemaLibrary) (config : LoadedConfig) (metadata : Value) :
    Except PolicyError Meta := do
  config.metaFields.forM (validateField schemas metadata)
  return config.present metadata

/-- One field of `select_key`. -/
def selectField (entityType : String) (fields : Meta) (name : String) :
    Except PolicyError (String × Value) :=
  match fields.lookup name with
  | some value => .ok (name, value)
  | none => .error (.missingField entityType name)

/-- `select_key`. -/
def selectKey (entityType : String) (fields : Meta) (names : List String) :
    Except PolicyError Meta := do
  let entries ← names.mapM (selectField entityType fields)
  return entries.foldl (fun key entry => Table.insertEntry entry.1 entry.2 key) []

structure ControlKey where
  scope : Meta
  fields : Meta
  deriving DecidableEq

/-- A control key as it is written. -/
def ControlKey.text (floats : FloatText) (key : ControlKey) : String :=
  jsonText floats (.object [("scope", .object key.scope), ("fields", .object key.fields)])

/-- `control_key`, as it is written. -/
def controlKey (floats : FloatText) (entityType : String) (fields scope : Meta)
    (names : List String) : Except PolicyError String := do
  let selected ← selectKey entityType fields names
  return ControlKey.text floats ⟨scope, selected⟩

/-! ### Plans -/

section Plans

variable (libraries : PolicyLibraries) (entityType : String) (fields scope : Meta)

/-- A strategy by its name. -/
def strategyNamed : String → Option ConflictStrategy
  | "merge" => some .merge
  | "mvcc" => some .mvcc
  | "reject" => some .reject
  | _ => none

/-- A strategy as `serde` reads it: its name, or an object that maps its name to `null`. -/
def strategyOf : Value → Option ConflictStrategy
  | .string name => strategyNamed name
  | .object [(name, .null)] => strategyNamed name
  | _ => none

/-- The strategy of a request, or the default. -/
def selectStrategy (policy : ConflictPolicy) : Except PolicyError ConflictStrategy :=
  match fields.lookup policy.strategyFrom with
  | none => .ok policy.defaultStrategy
  | some value =>
    match strategyOf value with
    | some strategy => .ok strategy
    | none => .error (.invalidField policy.strategyFrom (libraries.strategyMessage value))

/-- `build_conflict_plan`. -/
def buildConflictPlan (policy : ConflictPolicy) : Except PolicyError ConflictPlan := do
  let strategy ← selectStrategy libraries fields policy
  return {
    strategy
    baseVersionsField := policy.baseVersions
    baseVersions := fields.lookup policy.baseVersions
    merge := policy.merge
    otherwise := policy.otherwise }

/-- An optional control key. -/
def optionalKey (names : Option (List String)) : Except PolicyError (Option String) :=
  match names with
  | none => .ok none
  | some names => do
    let key ← controlKey libraries.floats entityType fields scope names
    return some key

/-- The fields a snapshot is shared by. -/
def SnapshotPolicy.keyFields : SnapshotPolicy → Option (List String)
  | request => none
  | shared keyBy => some keyBy

/-- The fields commits are ordered by. -/
def CommitOrderingPolicy.keyFields : CommitOrderingPolicy → Option (List String)
  | none => .none
  | serialize keyBy => some keyBy

/-- The fields a batch is grouped by. -/
def PublicationPolicy.keyFields : PublicationPolicy → Option (List String)
  | immediate => none
  | batch keyBy _ _ _ => some keyBy

/-- What the loop over the requirements collects. -/
structure Acquired where
  allowedSources : List ConsistencySource
  causal : List CausalConsistencyPlan
  linearizationKey : Option String

/-- A turn of the loop over the requirements. -/
def acquire (acquired : Acquired) : AcquireRequirement → Except PolicyError Acquired
  | .causalAfter token isOptional =>
    match fields.lookup token with
    | some value => .ok { acquired with causal := acquired.causal ++ [⟨token, some value⟩] }
    | none =>
      if isOptional then .ok { acquired with causal := acquired.causal ++ [⟨token, none⟩] }
      else .error (.missingField entityType token)
  | .linearizable keyBy => do
    let key ← controlKey libraries.floats entityType fields scope keyBy
    return { acquired with
      allowedSources := acquired.allowedSources.filter (· = .authority)
      linearizationKey := some key }

/-- Collect sources into a set. -/
def sourceSet (sources : List ConsistencySource) : List ConsistencySource :=
  [.authority, .replica].filter (· ∈ sources)

/-- Collect guarantees into a set. -/
def guaranteeSet (guarantees : List SessionGuarantee) : List SessionGuarantee :=
  [.monotonicReads, .readYourWrites].filter (· ∈ guarantees)

/-- The plan of a session. -/
def sessionPlan (session : SessionPolicy) : Except PolicyError SessionConsistencyPlan := do
  let key ← controlKey libraries.floats entityType fields scope session.keyBy
  return { key, guarantees := guaranteeSet session.guarantees }

/-- `build_consistency_plan`. -/
def buildConsistencyPlan (policy : ConsistencyPolicy) : Except PolicyError ConsistencyPlan := do
  let snapshotKey ← optionalKey libraries entityType fields scope policy.snapshot.keyFields
  let acquired ← policy.acquire.requirements.foldlM (acquire libraries entityType fields scope)
    ⟨sourceSet policy.acquire.allowSources, [], none⟩
  let sessions ← policy.sessions.mapM (sessionPlan libraries entityType fields scope)
  let commitOrderingKey ← optionalKey libraries entityType fields scope policy.ordering.keyFields
  return {
    snapshotKey
    allowedSources := acquired.allowedSources
    causal := acquired.causal
    linearizationKey := acquired.linearizationKey
    sessions
    commitOrderingKey }

/-- The fields of an idempotency key, where they are all there. -/
def IdempotencyPolicy.keyFields (fields : Meta) : IdempotencyPolicy → Option (List String)
  | disabled => none
  | keyed keyBy => if ∀ name ∈ keyBy, (fields.lookup name).isSome then some keyBy else none

end Plans

/-! ### Selection -/

/-- The rule that applies, and its behavior. -/
def EntityRules.matched (policy : EntityRules) (fields : Meta) : Option String × Behavior :=
  match policy.rules.find? fun rule => rule.allPresent.all fun name =>
      (fields.lookup name).isSome with
  | some rule => (some rule.name, rule.behavior)
  | none => (none, policy.fallback)

/-- The configuration as the engine uses it. -/
def LoadedConfig.engineConfig (schemas : SchemaLibrary) (config : LoadedConfig) : BackendConfig where
  entityTypes := config.entityTypes.map fun entry => (entry.1, ⟨fun value =>
    match schemas.build entry.2.valueSchema with
    | .ok validator => validator value
    | .error message => .error ("_schema", message)⟩)
  idempotencySeconds := config.idempotencySeconds
  changesSeconds := config.changesSeconds

/-- A selection, with the rule and the behavior it came from. -/
structure Selected where
  rule : Option String
  behavior : Behavior
  selection : PolicySelection

structure PolicySelector where
  libraries : PolicyLibraries
  config : LoadedConfig

namespace PolicySelector

variable (selector : PolicySelector)

/-- `PolicySelector::select`. -/
def select (entityType : String) (metadata : Value) : Except PolicyError Selected :=
  match selector.config.entityTypes.lookup entityType with
  | none => .error (.unknownEntityType entityType)
  | some policy => do
    let fields ← selectFields selector.libraries.schemas selector.config metadata
    let (rule, behavior) := policy.matched fields
    let scope ← selectKey entityType fields selector.config.scopeBy
    let consistency ←
      buildConsistencyPlan selector.libraries entityType fields scope behavior.consistency
    let conflict ← buildConflictPlan selector.libraries fields behavior.conflict
    let idempotencyKey ← optionalKey selector.libraries entityType fields scope
      (behavior.idempotency.keyFields fields)
    let publicationKey ←
      optionalKey selector.libraries entityType fields scope behavior.publication.keyFields
    return {
      rule
      behavior
      selection := {
        fields
        scope := jsonText selector.libraries.floats (.object scope)
        consistency
        conflict
        idempotencyKey
        publicationKey
        idempotency := behavior.idempotency
        publication := behavior.publication } }

/-- `PolicySelector::select_scope`, as it is written. -/
def selectScope (metadata : Value) : Except PolicyError String := do
  let fields ← selectFields selector.libraries.schemas selector.config metadata
  let scope ← selectKey "change subscription" fields selector.config.scopeBy
  return jsonText selector.libraries.floats (.object scope)

end PolicySelector

/-! ### What is selected -/

theorem LoadedConfig.present_sorted (config : LoadedConfig) (metadata : Value) :
    ((config.present metadata).map (·.1)).Pairwise (· < ·) := by
  refine List.Pairwise.sublist ?_ config.metaFields_sorted
  unfold LoadedConfig.present
  induction config.metaFields with
  | nil => exact List.Sublist.slnil
  | cons entry rest ih =>
    rw [List.filterMap_cons]
    cases entry.2.select metadata with
    | none => exact ih.cons _
    | some value => exact ih.cons_cons _

theorem selectFields_eq_ok {schemas : SchemaLibrary} {config : LoadedConfig} {metadata : Value}
    {fields : Meta} :
    selectFields schemas config metadata = .ok fields ↔
      (∀ entry ∈ config.metaFields, ∀ value, entry.2.select metadata = some value →
        entry.2.validateValue schemas value = .ok ()) ∧ fields = config.present metadata := by
  have hfield : ∀ entry, validateField schemas metadata entry = .ok () ↔
      ∀ value, entry.2.select metadata = some value →
        entry.2.validateValue schemas value = .ok () := by
    intro entry
    unfold validateField
    cases entry.2.select metadata with
    | none => simp
    | some value => simp [Except.mapError_eq_ok]
  unfold selectFields
  rw [Except.seq_eq_ok, Except.forM_eq_ok, Except.pure_eq_ok, Except.ok.injEq, eq_comm]
  simp only [hfield]

theorem selectField_eq_ok {entityType : String} {fields : Meta} (name : String)
    (entry : String × Value) :
    selectField entityType fields name = .ok entry ↔
      (fields.lookup name).isSome ∧ entry = (name, (fields.lookup name).getD .null) := by
  unfold selectField
  cases fields.lookup name with
  | none => simp
  | some value =>
    rw [Except.ok.injEq, eq_comm]
    simp

/-- The part of a map with some names. -/
def restrict (fields : Meta) (names : List String) : Meta :=
  fields.filter fun entry => decide (entry.1 ∈ names)

/-- **A key is the part of the fields it names**, whatever the order and the type of the entity. -/
theorem selectKey_eq_ok {entityType : String} {fields key : Meta} {names : List String}
    (hsorted : (fields.map (·.1)).Pairwise (· < ·)) :
    selectKey entityType fields names = .ok key ↔
      (∀ name ∈ names, (fields.lookup name).isSome) ∧ key = restrict fields names := by
  have hpick : (∀ name ∈ names, (fields.lookup name).isSome) →
      (names.map fun name => (name, (fields.lookup name).getD Value.null)).foldl
        (fun key entry => Table.insertEntry entry.1 entry.2 key) [] = restrict fields names := by
    intro hnames
    rw [Table.foldl_insertEntry_eq_filter hsorted]
    · simp only [List.map_map, Function.comp_def, List.map_id', restrict]
    · intro entry hentry
      obtain ⟨name, hname, rfl⟩ := List.mem_map.mp hentry
      obtain ⟨value, hvalue⟩ := Option.isSome_iff_exists.mp (hnames name hname)
      simp [hvalue]
  unfold selectKey
  simp only [Except.bind_eq_ok, Except.mapM_eq_ok_iff selectField_eq_ok, Except.pure_eq_ok,
    Except.ok.injEq]
  constructor
  · rintro ⟨_, ⟨hnames, rfl⟩, rfl⟩
    exact ⟨hnames, hpick hnames⟩
  · rintro ⟨hnames, rfl⟩
    exact ⟨_, ⟨hnames, rfl⟩, hpick hnames⟩

theorem restrict_sorted {fields : Meta} (h : (fields.map (·.1)).Pairwise (· < ·))
    (names : List String) : ((restrict fields names).map (·.1)).Pairwise (· < ·) :=
  Table.pairwise_filter_keys h _

section Selects

variable {libraries : PolicyLibraries} {entityType : String} {fields scope : Meta}

/-- The text of the control key with some fields. -/
def keyText (floats : FloatText) (fields scope : Meta) (names : List String) : String :=
  ControlKey.text floats ⟨scope, restrict fields names⟩

variable (hsorted : (fields.map (·.1)).Pairwise (· < ·))
include hsorted

theorem controlKey_eq_ok {floats : FloatText} {names : List String} {text : String} :
    controlKey floats entityType fields scope names = .ok text ↔
      (∀ name ∈ names, (fields.lookup name).isSome) ∧ text = keyText floats fields scope names := by
  unfold controlKey
  rw [Except.bind_eq_ok]
  constructor
  · rintro ⟨selected, h, htext⟩
    obtain ⟨hnames, rfl⟩ := (selectKey_eq_ok hsorted).mp h
    rw [Except.pure_eq_ok, Except.ok.injEq] at htext
    exact ⟨hnames, htext.symm⟩
  · rintro ⟨hnames, rfl⟩
    exact ⟨_, (selectKey_eq_ok hsorted).mpr ⟨hnames, rfl⟩, rfl⟩

theorem optionalKey_eq_ok {names : Option (List String)} {text : Option String} :
    optionalKey libraries entityType fields scope names = .ok text ↔
      (∀ name ∈ names.getD [], (fields.lookup name).isSome) ∧
        text = names.map (keyText libraries.floats fields scope) := by
  cases names with
  | none =>
    rw [optionalKey, Except.ok.injEq, eq_comm]
    simp
  | some names =>
    unfold optionalKey
    simp only [Except.bind_eq_ok, controlKey_eq_ok hsorted, Except.pure_eq_ok, Except.ok.injEq,
      Option.getD_some, Option.map_some]
    constructor
    · rintro ⟨key, ⟨hnames, rfl⟩, rfl⟩
      exact ⟨hnames, rfl⟩
    · rintro ⟨hnames, rfl⟩
      exact ⟨_, ⟨hnames, rfl⟩, rfl⟩

end Selects

/-! ### What a behavior makes of the fields -/

/-- The fields a requirement cannot do without. -/
def AcquireRequirement.required : AcquireRequirement → List String
  | causalAfter token isOptional => if isOptional then [] else [token]
  | linearizable keyBy => keyBy

/-- The fields a behavior cannot do without. Keyed idempotency is left to the mutations. -/
def Behavior.required (behavior : Behavior) : List String :=
  behavior.consistency.snapshot.keyFields.getD [] ++
    behavior.consistency.acquire.requirements.flatMap (·.required) ++
    behavior.consistency.sessions.flatMap (·.keyBy) ++
    behavior.consistency.ordering.keyFields.getD [] ++ behavior.publication.keyFields.getD []

section Plan

variable (libraries : PolicyLibraries) (fields scope : Meta)

/-- What a requirement adds. -/
def Acquired.add (acquired : Acquired) : AcquireRequirement → Acquired
  | .causalAfter token _ =>
    { acquired with causal := acquired.causal ++ [⟨token, fields.lookup token⟩] }
  | .linearizable keyBy => { acquired with
      allowedSources := acquired.allowedSources.filter (· = .authority)
      linearizationKey := some (keyText libraries.floats fields scope keyBy) }

/-- What the requirements of a policy come to. -/
def AcquirePolicy.acquired (policy : AcquirePolicy) : Acquired :=
  policy.requirements.foldl (Acquired.add libraries fields scope)
    ⟨sourceSet policy.allowSources, [], none⟩

def ConsistencyPolicy.plan (policy : ConsistencyPolicy) : ConsistencyPlan where
  snapshotKey := policy.snapshot.keyFields.map (keyText libraries.floats fields scope)
  allowedSources := (policy.acquire.acquired libraries fields scope).allowedSources
  causal := (policy.acquire.acquired libraries fields scope).causal
  linearizationKey := (policy.acquire.acquired libraries fields scope).linearizationKey
  sessions := policy.sessions.map fun session =>
    ⟨keyText libraries.floats fields scope session.keyBy, guaranteeSet session.guarantees⟩
  commitOrderingKey := policy.ordering.keyFields.map (keyText libraries.floats fields scope)

/-- The strategy of a request, where it can be read. -/
def ConflictPolicy.strategy (policy : ConflictPolicy) : Option ConflictStrategy :=
  match fields.lookup policy.strategyFrom with
  | none => some policy.defaultStrategy
  | some value => strategyOf value

def ConflictPolicy.plan (policy : ConflictPolicy) (strategy : ConflictStrategy) : ConflictPlan where
  strategy
  baseVersionsField := policy.baseVersions
  baseVersions := fields.lookup policy.baseVersions
  merge := policy.merge
  otherwise := policy.otherwise

variable {libraries fields scope} {entityType : String}

theorem buildConflictPlan_eq_ok {policy : ConflictPolicy} {plan : ConflictPlan} :
    buildConflictPlan libraries fields policy = .ok plan ↔
      ∃ strategy, policy.strategy fields = some strategy ∧ plan = policy.plan fields strategy := by
  have hstrategy : ∀ strategy, selectStrategy libraries fields policy = .ok strategy ↔
      policy.strategy fields = some strategy := by
    intro strategy
    unfold selectStrategy ConflictPolicy.strategy
    cases fields.lookup policy.strategyFrom with
    | none => simp
    | some value => cases hnamed : strategyOf value <;> simp [hnamed]
  unfold buildConflictPlan
  simp only [Except.bind_eq_ok, hstrategy, Except.pure_eq_ok, Except.ok.injEq]
  exact exists_congr fun strategy => and_congr_right fun _ => eq_comm

variable (hsorted : (fields.map (·.1)).Pairwise (· < ·))
include hsorted

theorem acquire_eq_ok (acquired : Acquired) (requirement : AcquireRequirement) (next : Acquired) :
    acquire libraries entityType fields scope acquired requirement = .ok next ↔
      (∀ name ∈ requirement.required, (fields.lookup name).isSome) ∧
        next = acquired.add libraries fields scope requirement := by
  cases requirement with
  | causalAfter token isOptional =>
    unfold acquire Acquired.add AcquireRequirement.required
    cases hlookup : fields.lookup token with
    | none => cases isOptional <;> simp [hlookup, @eq_comm Acquired _ next, -List.lookup_isSome_iff]
    | some value =>
      cases isOptional <;> simp [hlookup, @eq_comm Acquired _ next, -List.lookup_isSome_iff]
  | linearizable keyBy =>
    simp only [acquire, Acquired.add, AcquireRequirement.required, Except.bind_eq_ok,
      controlKey_eq_ok hsorted, Except.pure_eq_ok, Except.ok.injEq]
    constructor
    · rintro ⟨_, ⟨hnames, rfl⟩, rfl⟩
      exact ⟨hnames, rfl⟩
    · rintro ⟨hnames, rfl⟩
      exact ⟨_, ⟨hnames, rfl⟩, rfl⟩

theorem sessionPlan_eq_ok (session : SessionPolicy) (plan : SessionConsistencyPlan) :
    sessionPlan libraries entityType fields scope session = .ok plan ↔
      (∀ name ∈ session.keyBy, (fields.lookup name).isSome) ∧
        plan = ⟨keyText libraries.floats fields scope session.keyBy,
          guaranteeSet session.guarantees⟩ := by
  simp only [sessionPlan, Except.bind_eq_ok, controlKey_eq_ok hsorted, Except.pure_eq_ok,
    Except.ok.injEq]
  constructor
  · rintro ⟨_, ⟨hnames, rfl⟩, rfl⟩
    exact ⟨hnames, rfl⟩
  · rintro ⟨hnames, rfl⟩
    exact ⟨_, ⟨hnames, rfl⟩, rfl⟩

theorem buildConsistencyPlan_eq_ok {policy : ConsistencyPolicy} {plan : ConsistencyPlan} :
    buildConsistencyPlan libraries entityType fields scope policy = .ok plan ↔
      (∀ name ∈ policy.snapshot.keyFields.getD [] ++
          policy.acquire.requirements.flatMap (·.required) ++ policy.sessions.flatMap (·.keyBy) ++
          policy.ordering.keyFields.getD [], (fields.lookup name).isSome) ∧
        plan = policy.plan libraries fields scope := by
  simp only [buildConsistencyPlan, Except.bind_eq_ok, optionalKey_eq_ok hsorted,
    Except.foldlM_eq_ok_iff (acquire_eq_ok hsorted),
    Except.mapM_eq_ok_iff (sessionPlan_eq_ok hsorted), Except.pure_eq_ok, Except.ok.injEq,
    List.forall_mem_append, List.forall_mem_flatMap]
  constructor
  · rintro ⟨_, ⟨hsnapshot, rfl⟩, _, ⟨hrequirements, rfl⟩, _, ⟨hsessions, rfl⟩, _, ⟨hordering, rfl⟩,
      rfl⟩
    exact ⟨⟨⟨⟨hsnapshot, hrequirements⟩, hsessions⟩, hordering⟩, rfl⟩
  · rintro ⟨⟨⟨⟨hsnapshot, hrequirements⟩, hsessions⟩, hordering⟩, rfl⟩
    exact ⟨_, ⟨hsnapshot, rfl⟩, _, ⟨hrequirements, rfl⟩, _, ⟨hsessions, rfl⟩, _, ⟨hordering, rfl⟩,
      rfl⟩

end Plan

theorem EntityRules.matched_mem_behaviors (policy : EntityRules) (fields : Meta) :
    (policy.matched fields).2 ∈ policy.behaviors := by
  unfold EntityRules.matched EntityRules.behaviors
  split
  · rename_i rule hfind
    exact List.mem_append_left _ (List.mem_map_of_mem (List.mem_of_find?_eq_some hfind))
  · simp

namespace PolicySelector

variable (selector : PolicySelector)

/-- The behavior of an entity type for some metadata. -/
def behaviorFor (policy : EntityRules) (metadata : Value) : Behavior :=
  (policy.matched (selector.config.present metadata)).2

/-- Metadata an entity type can be used with: the fields that are there are valid, those of the scope
and of the behavior are there, and the strategy can be read. -/
structure Selectable (policy : EntityRules) (metadata : Value) : Prop where
  valid : ∀ entry ∈ selector.config.metaFields, ∀ value, entry.2.select metadata = some value →
    entry.2.validateValue selector.libraries.schemas value = .ok ()
  scope : ∀ name ∈ selector.config.scopeBy,
    ((selector.config.present metadata).lookup name).isSome
  required : ∀ name ∈ (selector.behaviorFor policy metadata).required,
    ((selector.config.present metadata).lookup name).isSome
  strategy : ((selector.behaviorFor policy metadata).conflict.strategy
    (selector.config.present metadata)).isSome

/-- The scope of some metadata. -/
def scopeFor (metadata : Value) : Meta :=
  restrict (selector.config.present metadata) selector.config.scopeBy

/-- What is selected, where something is. -/
def selected (policy : EntityRules) (metadata : Value) : Selected where
  rule := (policy.matched (selector.config.present metadata)).1
  behavior := selector.behaviorFor policy metadata
  selection :=
    let fields := selector.config.present metadata
    let scope := selector.scopeFor metadata
    let behavior := selector.behaviorFor policy metadata
    { fields
      scope := jsonText selector.libraries.floats (.object scope)
      consistency := behavior.consistency.plan selector.libraries fields scope
      conflict := behavior.conflict.plan fields
        ((behavior.conflict.strategy fields).getD behavior.conflict.defaultStrategy)
      idempotencyKey := (behavior.idempotency.keyFields fields).map
        (keyText selector.libraries.floats fields scope)
      publicationKey := behavior.publication.keyFields.map
        (keyText selector.libraries.floats fields scope)
      idempotency := behavior.idempotency
      publication := behavior.publication }

variable {selector} {entityType : String} {metadata : Value} {selected : Selected}

/-- **What `select` computes, and when.** -/
theorem select_eq_ok :
    selector.select entityType metadata = .ok selected ↔
      ∃ policy, selector.config.entityTypes.lookup entityType = some policy ∧
        selector.Selectable policy metadata ∧ selected = selector.selected policy metadata := by
  unfold select
  cases hlookup : selector.config.entityTypes.lookup entityType with
  | none => simp
  | some policy =>
    have hsorted := selector.config.present_sorted metadata
    have hidempotency : ∀ name ∈ ((selector.behaviorFor policy metadata).idempotency.keyFields
        (selector.config.present metadata)).getD [],
        ((selector.config.present metadata).lookup name).isSome := by
      unfold IdempotencyPolicy.keyFields
      cases (selector.behaviorFor policy metadata).idempotency with
      | disabled => simp
      | keyed keyBy =>
        simp only
        split
        · rename_i hall
          exact hall
        · simp
    simp only [Except.bind_eq_ok, selectFields_eq_ok, Option.some.injEq, exists_eq_left']
    constructor
    · rintro ⟨_, ⟨hvalid, rfl⟩, scope, hscope, consistency, hconsistency, conflict, hconflict,
        idempotencyKey, hidem, publicationKey, hpublication, hresult⟩
      obtain ⟨hscoped, rfl⟩ := (selectKey_eq_ok hsorted).mp hscope
      obtain ⟨hrequired, rfl⟩ := (buildConsistencyPlan_eq_ok hsorted).mp hconsistency
      obtain ⟨strategy, hstrategy, rfl⟩ := buildConflictPlan_eq_ok.mp hconflict
      obtain ⟨-, rfl⟩ := (optionalKey_eq_ok hsorted).mp hidem
      obtain ⟨hkey, rfl⟩ := (optionalKey_eq_ok hsorted).mp hpublication
      rw [Except.pure_eq_ok, Except.ok.injEq] at hresult
      subst hresult
      refine ⟨⟨hvalid, hscoped, ?_, by rw [behaviorFor, hstrategy]; rfl⟩, ?_⟩
      · rw [Behavior.required, List.forall_mem_append]
        exact ⟨hrequired, hkey⟩
      · simp only [PolicySelector.selected, behaviorFor, hstrategy, Option.getD_some]
        rfl
    · rintro ⟨⟨hvalid, hscope, hrequired, hstrategy⟩, rfl⟩
      rw [Behavior.required, List.forall_mem_append] at hrequired
      obtain ⟨strategy, hstrategy⟩ := Option.isSome_iff_exists.mp hstrategy
      refine ⟨_, ⟨hvalid, rfl⟩, _, (selectKey_eq_ok hsorted).mpr ⟨hscope, rfl⟩, _,
        (buildConsistencyPlan_eq_ok hsorted).mpr ⟨hrequired.1, rfl⟩, _,
        buildConflictPlan_eq_ok.mpr ⟨strategy, hstrategy, rfl⟩, _,
        (optionalKey_eq_ok hsorted).mpr ⟨hidempotency, rfl⟩, _,
        (optionalKey_eq_ok hsorted).mpr ⟨hrequired.2, rfl⟩, ?_⟩
      simp only [PolicySelector.selected, hstrategy, Option.getD_some]
      rfl

end PolicySelector

/-! ### Requirements -/

section Acquired

variable {libraries : PolicyLibraries} {fields scope : Meta}

theorem Acquired.authority_mem_add {acquired : Acquired} (requirement : AcquireRequirement) :
    .authority ∈ (acquired.add libraries fields scope requirement).allowedSources ↔
      .authority ∈ acquired.allowedSources := by
  cases requirement <;> simp [Acquired.add]

/-- Linearization never takes the authority away. -/
theorem AcquirePolicy.authority_mem_acquired {policy : AcquirePolicy} :
    .authority ∈ (policy.acquired libraries fields scope).allowedSources ↔
      .authority ∈ policy.allowSources := by
  have hfold : ∀ (requirements : List AcquireRequirement) (acquired : Acquired),
      .authority ∈ (requirements.foldl (Acquired.add libraries fields scope)
        acquired).allowedSources ↔ .authority ∈ acquired.allowedSources := by
    intro requirements
    induction requirements with
    | nil => exact fun acquired => Iff.rfl
    | cons requirement rest ih =>
      exact fun acquired => (ih _).trans (Acquired.authority_mem_add requirement)
  unfold AcquirePolicy.acquired
  rw [hfold]
  simp [sourceSet]

/-- The causal part of a plan lists the causal requirements. -/
theorem AcquirePolicy.mem_acquired_causal {policy : AcquirePolicy} {plan : CausalConsistencyPlan} :
    plan ∈ (policy.acquired libraries fields scope).causal ↔
      ∃ token isOptional, .causalAfter token isOptional ∈ policy.requirements ∧
        plan = ⟨token, fields.lookup token⟩ := by
  have hfold : ∀ (requirements : List AcquireRequirement) (acquired : Acquired),
      plan ∈ (requirements.foldl (Acquired.add libraries fields scope) acquired).causal ↔
        plan ∈ acquired.causal ∨ ∃ token isOptional, .causalAfter token isOptional ∈ requirements ∧
          plan = ⟨token, fields.lookup token⟩ := by
    intro requirements
    induction requirements with
    | nil => simp
    | cons requirement rest ih =>
      intro acquired
      rw [List.foldl_cons, ih]
      cases requirement with
      | causalAfter token isOptional =>
        rw [Acquired.add, List.mem_append, List.mem_singleton]
        simp only [List.mem_cons, AcquireRequirement.causalAfter.injEq]
        constructor
        · rintro ((h | h) | ⟨token', isOptional', hin, h⟩)
          · exact Or.inl h
          · exact Or.inr ⟨token, isOptional, Or.inl ⟨rfl, rfl⟩, h⟩
          · exact Or.inr ⟨token', isOptional', Or.inr hin, h⟩
        · rintro (h | ⟨token', isOptional', ⟨rfl, rfl⟩ | hin, h⟩)
          · exact Or.inl (Or.inl h)
          · exact Or.inl (Or.inr h)
          · exact Or.inr ⟨token', isOptional', hin, h⟩
      | linearizable keyBy => simp [Acquired.add]
  unfold AcquirePolicy.acquired
  rw [hfold]
  simp

/-- Causal requirements only add tokens. -/
theorem Acquired.foldl_add_causal {requirements : List AcquireRequirement}
    (h : ∀ r ∈ requirements, r.isCausal = true) (acquired : Acquired) :
    requirements.foldl (Acquired.add libraries fields scope) acquired = { acquired with
      causal := (requirements.foldl (Acquired.add libraries fields scope) acquired).causal } := by
  induction requirements generalizing acquired with
  | nil => rfl
  | cons requirement rest ih =>
    rw [List.forall_mem_cons] at h
    cases requirement with
    | causalAfter token isOptional => exact ih h.2 _
    | linearizable keyBy => cases h.1

/-- A linearization key comes from a requirement. -/
theorem AcquirePolicy.exists_linearizable {policy : AcquirePolicy}
    (h : (policy.acquired libraries fields scope).linearizationKey.isSome) :
    ∃ requirement ∈ policy.requirements, requirement.isCausal = false := by
  by_contra hnot
  have hall : ∀ r ∈ policy.requirements, r.isCausal = true := by simpa using hnot
  unfold AcquirePolicy.acquired at h
  rw [Acquired.foldl_add_causal hall] at h
  cases h

/-- The linearization key is made of the fields of some requirement. -/
theorem AcquirePolicy.linearizationKey_acquired {policy : AcquirePolicy} {key : String}
    (h : (policy.acquired libraries fields scope).linearizationKey = some key) :
    ∃ names, key = keyText libraries.floats fields scope names := by
  have hfold : ∀ (requirements : List AcquireRequirement) (acquired : Acquired),
      (∀ key ∈ acquired.linearizationKey, ∃ names, key = keyText libraries.floats fields scope
        names) → ∀ key ∈ (requirements.foldl (Acquired.add libraries fields scope)
          acquired).linearizationKey, ∃ names, key = keyText libraries.floats fields scope names := by
    intro requirements
    induction requirements with
    | nil => exact fun acquired h => h
    | cons requirement rest ih =>
      refine fun acquired h => ih _ ?_
      cases requirement with
      | causalAfter token isOptional => exact h
      | linearizable keyBy =>
        rintro _ ⟨⟩
        exact ⟨keyBy, rfl⟩
  exact hfold _ _ (by simp) key h

end Acquired

/-! ### Two tenants

Notes of two tenants, which may be written in batches. -/

def tenantSchemas : SchemaLibrary where
  metaValidate _ := .ok ()
  build schema := .ok fun value =>
    if schema = .bool true ∨ value = .string "a" ∨ value = .string "b" then .ok ()
    else .error ("", "no tenant")

def tenantBehavior (snapshot : SnapshotPolicy) (publication : PublicationPolicy) : Behavior where
  consistency :=
    { snapshot, acquire := ⟨[.authority], []⟩, sessions := [], ordering := .none }
  idempotency := .disabled
  conflict :=
    { defaultStrategy := .mvcc, strategyFrom := "strategy", baseVersions := "base", merge := []
      otherwise := .mvcc }
  publication

def tenantNotes : EntityRules where
  valueSchema := .bool true
  rules := [⟨"batched", ["unit"],
    tenantBehavior (.shared ["unit"]) (.batch ["unit"] "close" (.bool true) 1000)⟩]
  fallback := tenantBehavior .request .immediate

def tenantConfig : LoadedConfig where
  version := 1
  idempotencySeconds := 60
  changesSeconds := 60
  metaFields := [("base", ⟨"/base", .bool true⟩), ("close", ⟨"/close", .bool true⟩),
    ("strategy", ⟨"/strategy", .bool true⟩), ("tenant", ⟨"/tenant", .bool false⟩),
    ("unit", ⟨"/unit", .bool true⟩)]
  scopeBy := ["tenant"]
  entityTypes := [("note", tenantNotes)]
  metaFields_sorted := by decide
  entityTypes_sorted := by decide

def tenants (floats : FloatText) : PolicySelector where
  libraries := ⟨tenantSchemas, floats, fun _ => "no strategy"⟩
  config := tenantConfig

/-- The metadata of a request for a tenant, in a batch. -/
def batchMeta (tenant unit : String) : Meta :=
  [("tenant", .string tenant), ("unit", .string unit)]

theorem batchMeta_normal (tenant unit : String) : (Value.object (batchMeta tenant unit)).Normal :=
  ⟨⟨trivial, show List.Pairwise (· < ·) ["tenant", "unit"] by decide⟩, ⟨trivial, trivial⟩,
    ⟨trivial, trivial⟩, trivial⟩

end Patchouli
