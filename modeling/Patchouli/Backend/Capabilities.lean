import Patchouli.Backend.Policies
import Patchouli.Backend.Startup

/-!
# What a configuration asks of its provider

`validate_provider_capabilities` of `engine.rs`, and `intersect_capabilities` of the router, which
answers for all of its providers at once.

## Main results

* `validateProviderCapabilities_eq_ok` — the check passes where every behavior can be served
* `validateProviderCapabilities_intersect` — what the router can serve each of its providers can
-/

namespace Patchouli

structure ProviderCapabilities where
  authority : Bool
  replica : Bool
  changeStream : Bool
  retrieval : Bool
  idempotency : Bool
  workUnits : Bool
  causalReads : Bool
  monotonicReads : Bool
  readYourWrites : Bool
  linearizableReads : Bool
  deriving DecidableEq

/-! ### The check -/

/-- A demand that is not met. -/
def refuseUnless (met : Prop) [Decidable met] (message : String) : Except EngineError Unit :=
  if met then .ok () else .error (.capability message)

@[simp] theorem refuseUnless_eq_ok {met : Prop} [Decidable met] {message : String} :
    refuseUnless met message = .ok () ↔ met := by
  unfold refuseUnless
  split <;> simp_all

section Check

variable (capabilities : ProviderCapabilities) (entityType : String)

/-- The sources of a behavior, once linearization is taken into account. -/
def AcquirePolicy.sources (acquire : AcquirePolicy) : List ConsistencySource :=
  if acquire.requirements.any (!·.isCausal) then acquire.allowSources.filter (· = .authority)
  else acquire.allowSources

/-- The loop over the sessions of a behavior. -/
def validateSession (session : SessionPolicy) : Except EngineError Unit := do
  refuseUnless (.monotonicReads ∈ session.guarantees → capabilities.monotonicReads)
    ("entity type " ++ entityType.quote ++ " requires monotonic reads")
  refuseUnless (.readYourWrites ∈ session.guarantees → capabilities.readYourWrites)
    ("entity type " ++ entityType.quote ++ " requires read-your-writes")

/-- `IdempotencyPolicy::Keyed`. -/
def IdempotencyPolicy.isKeyed : IdempotencyPolicy → Bool
  | keyed _ => true
  | disabled => false

/-- The checks of a behavior. -/
def validateBehaviorCapabilities (behavior : Behavior) : Except EngineError Unit := do
  let acquire := behavior.consistency.acquire
  refuseUnless (.authority ∈ acquire.allowSources)
    ("entity type " ++ entityType.quote ++ " must allow authority reads for mutations")
  refuseUnless (capabilities.authority ∧ .authority ∈ acquire.sources ∨
      capabilities.replica ∧ .replica ∈ acquire.sources)
    ("entity type " ++ entityType.quote ++
      " has no acquisition source supported by the provider")
  refuseUnless (acquire.requirements.any (·.isCausal) → capabilities.causalReads)
    ("entity type " ++ entityType.quote ++ " requires causal reads")
  refuseUnless (acquire.requirements.any (!·.isCausal) → capabilities.linearizableReads)
    ("entity type " ++ entityType.quote ++ " requires linearizable reads")
  behavior.consistency.sessions.forM (validateSession capabilities entityType)
  refuseUnless (behavior.idempotency.isKeyed → capabilities.idempotency)
    ("entity type " ++ entityType.quote ++ " requires keyed idempotency")
  refuseUnless (behavior.publication.isBatch → capabilities.workUnits)
    ("entity type " ++ entityType.quote ++ " requires durable work units")

/-- `validate_provider_capabilities`. -/
def validateProviderCapabilities (config : LoadedConfig) : Except EngineError Unit := do
  refuseUnless capabilities.changeStream "change streams are required"
  refuseUnless capabilities.retrieval "entity retrieval is required"
  refuseUnless capabilities.authority "CRUD mutations require an authority provider"
  config.entityTypes.forM fun entry =>
    entry.2.behaviors.forM (validateBehaviorCapabilities capabilities entry.1)

end Check

/-! ### What it decides -/

/-- A provider that can serve a behavior. -/
structure ProviderCapabilities.Serves (capabilities : ProviderCapabilities) (behavior : Behavior) :
    Prop where
  authority : .authority ∈ behavior.consistency.acquire.allowSources
  causal : (∃ r ∈ behavior.consistency.acquire.requirements, r.isCausal) → capabilities.causalReads
  linearizable : (∃ r ∈ behavior.consistency.acquire.requirements, r.isCausal = false) →
    capabilities.linearizableReads
  monotonic : (∃ session ∈ behavior.consistency.sessions,
    .monotonicReads ∈ session.guarantees) → capabilities.monotonicReads
  readYourWrites : (∃ session ∈ behavior.consistency.sessions,
    .readYourWrites ∈ session.guarantees) → capabilities.readYourWrites
  idempotency : behavior.idempotency.isKeyed → capabilities.idempotency
  workUnits : behavior.publication.isBatch → capabilities.workUnits

/-- A provider that can serve a configuration. -/
structure ProviderCapabilities.ServesAll (capabilities : ProviderCapabilities)
    (config : LoadedConfig) : Prop where
  changeStream : capabilities.changeStream
  retrieval : capabilities.retrieval
  authority : capabilities.authority
  behaviors : ∀ entry ∈ config.entityTypes, ∀ behavior ∈ entry.2.behaviors,
    capabilities.Serves behavior

/-- Where the authority may be asked and can answer, there is always a source. -/
theorem AcquirePolicy.authority_mem_sources {acquire : AcquirePolicy}
    (h : .authority ∈ acquire.allowSources) : .authority ∈ acquire.sources := by
  unfold AcquirePolicy.sources
  split
  · exact List.mem_filter.mpr ⟨h, by simp⟩
  · exact h

theorem validateBehaviorCapabilities_eq_ok {capabilities : ProviderCapabilities}
    (hauthority : capabilities.authority) {entityType : String} {behavior : Behavior} :
    validateBehaviorCapabilities capabilities entityType behavior = .ok () ↔
      capabilities.Serves behavior := by
  unfold validateBehaviorCapabilities validateSession
  simp only [Except.seq_eq_ok, Except.forM_eq_ok, refuseUnless_eq_ok, List.any_eq_true,
    Bool.not_eq_true']
  constructor
  · rintro ⟨hsource, -, hcausal, hlinearizable, hsessions, hidempotency, hunits⟩
    exact {
      authority := hsource
      causal := hcausal
      linearizable := hlinearizable
      monotonic := fun ⟨session, hsession, h⟩ => (hsessions session hsession).1 h
      readYourWrites := fun ⟨session, hsession, h⟩ => (hsessions session hsession).2 h
      idempotency := hidempotency
      workUnits := hunits }
  · intro h
    exact ⟨h.authority, Or.inl ⟨hauthority, AcquirePolicy.authority_mem_sources h.authority⟩,
      h.causal, h.linearizable, fun session hsession =>
        ⟨fun hin => h.monotonic ⟨session, hsession, hin⟩,
          fun hin => h.readYourWrites ⟨session, hsession, hin⟩⟩, h.idempotency, h.workUnits⟩

/-- **What the capability check decides.** -/
theorem validateProviderCapabilities_eq_ok {capabilities : ProviderCapabilities}
    {config : LoadedConfig} :
    validateProviderCapabilities capabilities config = .ok () ↔ capabilities.ServesAll config := by
  unfold validateProviderCapabilities
  simp only [Except.seq_eq_ok, Except.forM_eq_ok, refuseUnless_eq_ok]
  constructor
  · rintro ⟨hstream, hretrieval, hauthority, hall⟩
    exact ⟨hstream, hretrieval, hauthority, fun entry hentry behavior hbehavior =>
      (validateBehaviorCapabilities_eq_ok hauthority).mp (hall entry hentry behavior hbehavior)⟩
  · intro h
    exact ⟨h.changeStream, h.retrieval, h.authority, fun entry hentry behavior hbehavior =>
      (validateBehaviorCapabilities_eq_ok h.authority).mpr
        (h.behaviors entry hentry behavior hbehavior)⟩

/-! ### Many providers -/

namespace ProviderCapabilities

/-- One turn of `intersect_capabilities`. -/
def intersect (result next : ProviderCapabilities) : ProviderCapabilities where
  authority := result.authority && next.authority
  replica := result.replica && next.replica
  changeStream := result.changeStream && next.changeStream
  retrieval := result.retrieval && next.retrieval
  idempotency := result.idempotency && next.idempotency
  workUnits := result.workUnits && next.workUnits
  causalReads := result.causalReads && next.causalReads
  monotonicReads := result.monotonicReads && next.monotonicReads
  readYourWrites := result.readYourWrites && next.readYourWrites
  linearizableReads := result.linearizableReads && next.linearizableReads

/-- `intersect_capabilities`, of a first provider and the others. -/
def intersectAll (first : ProviderCapabilities) (rest : List ProviderCapabilities) :
    ProviderCapabilities :=
  rest.foldl intersect first

variable {config : LoadedConfig} {a b : ProviderCapabilities}

theorem servesAll_intersect :
    (a.intersect b).ServesAll config ↔ a.ServesAll config ∧ b.ServesAll config := by
  constructor
  · intro h
    constructor
    all_goals
      obtain ⟨hstream, hretrieval, hauthority, hall⟩ := h
      simp only [intersect, Bool.and_eq_true] at hstream hretrieval hauthority
    · refine ⟨hstream.1, hretrieval.1, hauthority.1, fun entry hentry behavior hbehavior => ?_⟩
      obtain ⟨hsource, hcausal, hlin, hmono, hryw, hidem, hunits⟩ :=
        hall entry hentry behavior hbehavior
      simp only [intersect, Bool.and_eq_true] at hcausal hlin hmono hryw hidem hunits
      exact ⟨hsource, fun h => (hcausal h).1, fun h => (hlin h).1, fun h => (hmono h).1,
        fun h => (hryw h).1, fun h => (hidem h).1, fun h => (hunits h).1⟩
    · refine ⟨hstream.2, hretrieval.2, hauthority.2, fun entry hentry behavior hbehavior => ?_⟩
      obtain ⟨hsource, hcausal, hlin, hmono, hryw, hidem, hunits⟩ :=
        hall entry hentry behavior hbehavior
      simp only [intersect, Bool.and_eq_true] at hcausal hlin hmono hryw hidem hunits
      exact ⟨hsource, fun h => (hcausal h).2, fun h => (hlin h).2, fun h => (hmono h).2,
        fun h => (hryw h).2, fun h => (hidem h).2, fun h => (hunits h).2⟩
  · rintro ⟨ha, hb⟩
    refine ⟨by simp [intersect, ha.changeStream, hb.changeStream],
      by simp [intersect, ha.retrieval, hb.retrieval],
      by simp [intersect, ha.authority, hb.authority], fun entry hentry behavior hbehavior => ?_⟩
    have ha := ha.behaviors entry hentry behavior hbehavior
    have hb := hb.behaviors entry hentry behavior hbehavior
    exact {
      authority := ha.authority
      causal := fun h => by simp [intersect, ha.causal h, hb.causal h]
      linearizable := fun h => by simp [intersect, ha.linearizable h, hb.linearizable h]
      monotonic := fun h => by simp [intersect, ha.monotonic h, hb.monotonic h]
      readYourWrites := fun h => by simp [intersect, ha.readYourWrites h, hb.readYourWrites h]
      idempotency := fun h => by simp [intersect, ha.idempotency h, hb.idempotency h]
      workUnits := fun h => by simp [intersect, ha.workUnits h, hb.workUnits h] }

theorem servesAll_intersectAll {first : ProviderCapabilities} {rest : List ProviderCapabilities} :
    (intersectAll first rest).ServesAll config ↔ ∀ c ∈ first :: rest, c.ServesAll config := by
  induction rest generalizing first with
  | nil => simp [intersectAll]
  | cons next rest ih =>
    rw [show intersectAll first (next :: rest) = intersectAll (first.intersect next) rest from rfl,
      ih, List.forall_mem_cons, servesAll_intersect, List.forall_mem_cons, List.forall_mem_cons,
      and_assoc]

end ProviderCapabilities

/-- **The router promises what all of its providers can.** -/
theorem validateProviderCapabilities_intersect {config : LoadedConfig}
    {first : ProviderCapabilities} {rest : List ProviderCapabilities} :
    validateProviderCapabilities (.intersectAll first rest) config = .ok () ↔
      ∀ c ∈ first :: rest, validateProviderCapabilities c config = .ok () := by
  simp only [validateProviderCapabilities_eq_ok]
  exact ProviderCapabilities.servesAll_intersectAll

end Patchouli
