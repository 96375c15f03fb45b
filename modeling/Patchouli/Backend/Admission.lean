import Patchouli.Backend.Controller
import Patchouli.Sqlite.Comparison
import Patchouli.Sqlite.TextSearch

/-!
# Taking up a mutation

The head of `create`, `update` and `delete` in `engine.rs`, from the metadata of a request to the
first provider call: its deadline, its selection, its work unit, its consistency and its idempotency
key. Every one of these can fail. `Admissible` says when none does, in terms of the metadata.

## Main definitions

* `admitMutation`
* `Admissible`

## Main results

* `admitMutation_isOk_iff`
-/

namespace Patchouli

open Json (Value)

/-! ### Requests -/

/-- `RequestDeadline::from_meta`. -/
def deadlineFromMeta (metadata : Meta) : Except BackendError (Option ℕ) :=
  match metadata.lookup deadlineMetaField with
  | none => .ok none
  | some (.number n) =>
    match n.asU64 with
    | some deadline => .ok (some deadline)
    | none => .error (invalidRequest ("meta." ++ deadlineMetaField ++
        " must be an unsigned Unix timestamp in milliseconds"))
  | some _ => .error (invalidRequest ("meta." ++ deadlineMetaField ++
      " must be an unsigned Unix timestamp in milliseconds"))

/-- The type of the entity a mutation is about. -/
def Mutation.entityType : Mutation → String
  | create entityType _ _ => entityType
  | update entityRef _ => entityRef.entityType
  | delete entityRef => entityRef.entityType

/-- The head of `create`, `update` and `delete`, up to the first provider call. -/
def admitMutation (selector : PolicySelector) (metadata : Meta) (mutation : Mutation)
    (readings : Readings) : Except BackendError (Request × Admitted) := do
  let deadline ← deadlineFromMeta metadata
  checkDeadline deadline readings.arrived
  let selected ← (selector.select mutation.entityType (.object metadata)).mapError fun error =>
    invalidRequest error.text
  let request : Request :=
    { mutation, selection := selected.selection, deadlineUnixMs := deadline }
  let admitted ← admitRequest request readings
  return (request, admitted)

/-! ### Admission -/

theorem checkDeadline_eq_ok {deadline : Option ℕ} {now : ℕ} :
    checkDeadline deadline now = .ok () ↔ ∀ d ∈ deadline, now < d := by
  unfold checkDeadline
  cases deadline with
  | none => simp
  | some d =>
    by_cases h : d ≤ now
    · simp [h]
    · simp [h, not_le.mp h]

theorem deadlineFromMeta_eq_ok {metadata : Meta} {deadline : Option ℕ} :
    deadlineFromMeta metadata = .ok deadline ↔
      (metadata.lookup deadlineMetaField = none ∧ deadline = none) ∨
        ∃ n : UInt64, metadata.lookup deadlineMetaField = some (.number (.posInt n)) ∧
          deadline = some n.toNat := by
  unfold deadlineFromMeta
  cases metadata.lookup deadlineMetaField with
  | none => simp [@eq_comm _ deadline]
  | some value =>
    cases value with
    | number n => cases n <;> simp [Json.Number.asU64, @eq_comm _ deadline]
    | _ => simp

/-- The tokens a plan asks for are strings. -/
theorem foldlM_addMinimum_isOk {causal : List CausalConsistencyPlan} {tokens : List String} :
    (∃ result, causal.foldlM addMinimum tokens = .ok result) ↔
      ∀ plan ∈ causal, ∀ value ∈ plan.minimum, ∃ token, value = Value.string token := by
  refine Except.foldlM_isOk_iff fun tokens plan _ => ?_
  unfold addMinimum
  cases plan.minimum with
  | none => simp
  | some value => cases value <;> simp

theorem readConsistency_isOk {selection : PolicySelection} {deadline : Option ℕ} :
    (∃ consistency, readConsistency [selection] deadline true = .ok consistency) ↔
      (∀ plan ∈ selection.consistency.causal, ∀ value ∈ plan.minimum,
        ∃ token, value = Value.string token) ∧
        .authority ∈ selection.consistency.allowedSources := by
  have hsources : ((((([selection].map (·.consistency.allowedSources)).headD []).filter
      fun source => ∀ s ∈ [selection], source ∈ s.consistency.allowedSources).filter
        (· = .authority)) = []) ↔ .authority ∉ selection.consistency.allowedSources := by
    simp only [List.map_singleton, List.headD_cons, List.filter_eq_nil_iff, List.mem_filter,
      List.mem_singleton, forall_eq, decide_eq_true_eq]
    exact ⟨fun h hin => h _ ⟨hin, hin⟩ rfl, fun h source hsource heq => h (heq ▸ hsource.1)⟩
  rw [← @foldlM_addMinimum_isOk _ []]
  unfold readConsistency
  simp only [List.flatMap_singleton, if_true, hsources]
  cases hfold : selection.consistency.causal.foldlM addMinimum [] with
  | error error => simp [bind, Except.bind]
  | ok tokens =>
    by_cases hin : .authority ∈ selection.consistency.allowedSources
    · simp [bind, Except.bind, hin]
    · simp [bind, Except.bind, hin]

/-- Consistency is never read of nothing. -/
theorem readConsistency_nonempty {selections : List PolicySelection} {deadline : Option ℕ}
    {authorityOnly : Bool} {consistency : ReadConsistency}
    (h : readConsistency selections deadline authorityOnly = .ok consistency) :
    ∃ selection, selection ∈ selections := by
  cases selections with
  | nil => cases authorityOnly <;> cases h
  | cons selection rest => exact ⟨selection, List.mem_cons_self⟩

theorem admitRequest_isOk {request : Request} {readings : Readings} :
    (∃ admitted, admitRequest request readings = .ok admitted) ↔
      (∀ d ∈ request.deadlineUnixMs, readings.arrived < d) ∧
      (∀ d ∈ request.deadlineUnixMs, readings.locked < d) ∧
      (∃ workUnit, selectedWorkUnit request.selection request.deadlineUnixMs readings.selected =
        .ok workUnit) ∧
      (∃ consistency, readConsistency [request.selection] request.deadlineUnixMs true =
        .ok consistency) ∧
      ∃ identity, idempotencyIdentity request.selection = .ok identity := by
  unfold admitRequest
  simp only [Except.seq_eq_ok, checkDeadline_eq_ok]
  constructor
  · rintro ⟨admitted, harrived, hlocked, h⟩
    obtain ⟨workUnit, hunit, h⟩ := Except.bind_eq_ok.mp h
    obtain ⟨consistency, hconsistency, h⟩ := Except.bind_eq_ok.mp h
    obtain ⟨identity, hidentity, -⟩ := Except.bind_eq_ok.mp h
    exact ⟨harrived, hlocked, ⟨workUnit, hunit⟩, ⟨consistency, hconsistency⟩, ⟨identity, hidentity⟩⟩
  · rintro ⟨harrived, hlocked, ⟨workUnit, hunit⟩, ⟨consistency, hconsistency⟩, ⟨identity, hidentity⟩⟩
    exact ⟨⟨workUnit, consistency, identity⟩, harrived, hlocked, Except.bind_eq_ok.mpr
      ⟨workUnit, hunit, Except.bind_eq_ok.mpr ⟨consistency, hconsistency,
        Except.bind_eq_ok.mpr ⟨identity, hidentity, rfl⟩⟩⟩⟩

/-- A mutation the engine takes up. -/
structure Admissible (selector : PolicySelector) (policy : EntityRules) (metadata : Meta)
    (readings : Readings) : Prop where
  deadline : ∀ value, metadata.lookup deadlineMetaField = some value →
    ∃ n : UInt64, value = .number (.posInt n) ∧ readings.arrived < n.toNat ∧
      readings.locked < n.toNat
  selectable : selector.Selectable policy (.object metadata)
  tokens : ∀ token isOptional, .causalAfter token isOptional ∈
      (selector.behaviorFor policy (.object metadata)).consistency.acquire.requirements →
    ∀ value, (selector.config.present (.object metadata)).lookup token = some value →
      ∃ text, value = .string text
  idempotency : ∀ keyBy,
    (selector.behaviorFor policy (.object metadata)).idempotency = .keyed keyBy →
      ∀ name ∈ keyBy, ((selector.config.present (.object metadata)).lookup name).isSome
  expiry : ∀ keyBy closeField closeEquals ttl,
    (selector.behaviorFor policy (.object metadata)).publication =
      .batch keyBy closeField closeEquals ttl → readings.selected + ttl < 2 ^ 64

section Admits

variable {selector : PolicySelector} {policy : EntityRules} {metadata : Meta}
  {deadline : Option ℕ} {now : ℕ}

theorem selectedWorkUnit_selected_isOk :
    (∃ workUnit, selectedWorkUnit (selector.selected policy (.object metadata)).selection deadline
        now = .ok workUnit) ↔
      ∀ keyBy closeField closeEquals ttl,
        (selector.behaviorFor policy (.object metadata)).publication =
          .batch keyBy closeField closeEquals ttl → now + ttl < 2 ^ 64 := by
  unfold selectedWorkUnit
  simp only [PolicySelector.selected]
  cases (selector.behaviorFor policy (.object metadata)).publication with
  | immediate => simp
  | batch keyBy closeField closeEquals ttl =>
    simp only [PublicationPolicy.keyFields, Option.map_some, PublicationPolicy.batch.injEq]
    split_ifs with h
    · refine iff_of_false (by simp) fun hall => ?_
      exact absurd (hall _ _ _ _ ⟨rfl, rfl, rfl, rfl⟩) (not_lt.mpr h)
    · refine iff_of_true ⟨_, rfl⟩ ?_
      rintro _ _ _ _ ⟨rfl, rfl, rfl, rfl⟩
      exact not_le.mp h

theorem idempotencyIdentity_selected_isOk :
    (∃ identity, idempotencyIdentity (selector.selected policy (.object metadata)).selection =
        .ok identity) ↔
      ∀ keyBy, (selector.behaviorFor policy (.object metadata)).idempotency = .keyed keyBy →
        ∀ name ∈ keyBy, ((selector.config.present (.object metadata)).lookup name).isSome := by
  unfold idempotencyIdentity
  simp only [PolicySelector.selected]
  cases (selector.behaviorFor policy (.object metadata)).idempotency with
  | disabled => simp
  | keyed keyBy =>
    simp only [IdempotencyPolicy.keyFields, IdempotencyPolicy.keyed.injEq, forall_eq']
    split_ifs with h
    · simpa using h
    · simpa using h

/-- **When a mutation is taken up.** With a provider that passed the capability check, only the
request itself can be at fault: the engine never finds a batch without a key, nor an entity type
without a source. -/
theorem admitMutation_isOk_iff (capabilities : ProviderCapabilities)
    (hserves : validateProviderCapabilities capabilities selector.config = .ok ())
    (mutation : Mutation) (readings : Readings) :
    (∃ admitted, admitMutation selector metadata mutation readings = .ok admitted) ↔
      ∃ policy, selector.config.entityTypes.lookup mutation.entityType = some policy ∧
        Admissible selector policy metadata readings := by
  have hservesAll := validateProviderCapabilities_eq_ok.mp hserves
  have hbehavior : ∀ policy, selector.config.entityTypes.lookup mutation.entityType = some policy →
      .authority ∈
        (selector.behaviorFor policy (.object metadata)).consistency.acquire.allowSources := by
    intro policy hpolicy
    exact (hservesAll.behaviors _ (Table.mem_of_lookup hpolicy) _
      (EntityRules.matched_mem_behaviors _ _)).authority
  constructor
  · rintro ⟨admitted, h⟩
    obtain ⟨deadline, hdeadline, h⟩ := Except.bind_eq_ok.mp h
    obtain ⟨-, h⟩ := Except.seq_eq_ok.mp h
    obtain ⟨selected, hselect, h⟩ := Except.bind_eq_ok.mp h
    obtain ⟨admitted, hadmit, -⟩ := Except.bind_eq_ok.mp h
    obtain ⟨policy, hpolicy, hselectable, rfl⟩ :=
      PolicySelector.select_eq_ok.mp (Except.mapError_eq_ok.mp hselect)
    obtain ⟨harrived, hlocked, hunit, hconsistency, hidentity⟩ :=
      admitRequest_isOk.mp ⟨admitted, hadmit⟩
    refine ⟨policy, hpolicy, {
      deadline := ?_
      selectable := hselectable
      tokens := ?_
      idempotency := idempotencyIdentity_selected_isOk.mp hidentity
      expiry := selectedWorkUnit_selected_isOk.mp hunit }⟩
    · intro value hvalue
      rcases deadlineFromMeta_eq_ok.mp hdeadline with ⟨hnone, -⟩ | ⟨n, hn, rfl⟩
      · rw [hnone] at hvalue
        cases hvalue
      · rw [hvalue, Option.some.injEq] at hn
        exact ⟨n, hn, harrived _ rfl, hlocked _ rfl⟩
    · intro token isOptional hrequirement value hvalue
      exact (readConsistency_isOk.mp hconsistency).1 _
        (AcquirePolicy.mem_acquired_causal.mpr ⟨token, isOptional, hrequirement, rfl⟩) value hvalue
  · rintro ⟨policy, hpolicy, hadmissible⟩
    have hdeadline : ∃ deadline, deadlineFromMeta metadata = .ok deadline ∧
        (∀ d ∈ deadline, readings.arrived < d) ∧ ∀ d ∈ deadline, readings.locked < d := by
      cases hlookup : metadata.lookup deadlineMetaField with
      | none => exact ⟨none, deadlineFromMeta_eq_ok.mpr (Or.inl ⟨hlookup, rfl⟩), by simp, by simp⟩
      | some value =>
        obtain ⟨n, rfl, harrived, hlocked⟩ := hadmissible.deadline value hlookup
        exact ⟨some n.toNat, deadlineFromMeta_eq_ok.mpr (Or.inr ⟨n, hlookup, rfl⟩),
          by simpa using harrived, by simpa using hlocked⟩
    obtain ⟨deadline, hdeadline, harrived, hlocked⟩ := hdeadline
    have hconsistency : ∃ consistency, readConsistency
        [(selector.selected policy (.object metadata)).selection] deadline true =
          .ok consistency := by
      refine readConsistency_isOk.mpr ⟨fun plan hplan value hvalue => ?_,
        AcquirePolicy.authority_mem_acquired.mpr (hbehavior policy hpolicy)⟩
      obtain ⟨token, isOptional, hrequirement, rfl⟩ := AcquirePolicy.mem_acquired_causal.mp hplan
      exact hadmissible.tokens token isOptional hrequirement value hvalue
    obtain ⟨admitted, hadmit⟩ := @admitRequest_isOk
      ⟨mutation, (selector.selected policy (.object metadata)).selection, deadline⟩ readings |>.mpr
      ⟨harrived, hlocked, selectedWorkUnit_selected_isOk.mpr hadmissible.expiry, hconsistency,
        idempotencyIdentity_selected_isOk.mpr hadmissible.idempotency⟩
    refine ⟨(_, admitted), Except.bind_eq_ok.mpr ⟨deadline, hdeadline, Except.seq_eq_ok.mpr
      ⟨checkDeadline_eq_ok.mpr harrived, Except.bind_eq_ok.mpr ⟨_, Except.mapError_eq_ok.mpr
        (PolicySelector.select_eq_ok.mpr ⟨policy, hpolicy, hadmissible.selectable, rfl⟩),
        Except.bind_eq_ok.mpr ⟨admitted, hadmit, rfl⟩⟩⟩⟩⟩

/-- A clock that reads five throughout. -/
def atFive : Readings := ⟨5, 5, 5, 5, 5, 5, fun _ => 5, 5⟩

theorem admitMutation_tenants :
    (∃ admitted, admitMutation (tenants noteFloats) (batchMeta "a" "u")
        (.create "note" none (.bool true)) atFive = .ok admitted) ↔
      ∃ policy, tenantConfig.entityTypes.lookup "note" = some policy ∧
        Admissible (tenants noteFloats) policy (batchMeta "a" "u") atFive :=
  admitMutation_isOk_iff ⟨true, true, true, true, true, true, true, true, true, true⟩ rfl
    (.create "note" none (.bool true)) atFive

end Admits

end Patchouli
