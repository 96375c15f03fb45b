import Patchouli.Backend.Controller
import Patchouli.Sqlite.TextSearch

/-!
# Control keys

A control key is only ever used as a JSON text: it names a work unit, an idempotent request, a
session, a lock. Two keys have one text exactly when they have the same scope and the same fields,
however different the behaviors are that they were made for.

## Main results

* `ControlKey.text_eq_iff`
* `PolicySelector.select_sharedKey` — no key is shared across scopes
* `PolicySelector.select_sound` — what selections of an accepted configuration are like
-/

namespace Patchouli

open Json (Value FloatText)

/-! ### Keys as texts -/

/-- A map with numbers as they are read. -/
def NumbersRead (fields : Meta) : Prop := ∀ entry ∈ fields, entry.2.All Value.NumbersNormal

theorem NumbersRead.restrict {fields : Meta} (h : NumbersRead fields) (names : List String) :
    NumbersRead (restrict fields names) :=
  fun entry hentry => h entry (List.mem_of_mem_filter hentry)

/-- **Equal keys, equal texts**, and only these. -/
theorem ControlKey.text_eq_iff {floats : FloatText} {a b : ControlKey} (has : NumbersRead a.scope)
    (haf : NumbersRead a.fields) (hbs : NumbersRead b.scope) (hbf : NumbersRead b.fields) :
    a.text floats = b.text floats ↔ a = b := by
  have hnormal : ∀ key : ControlKey, NumbersRead key.scope → NumbersRead key.fields →
      (Value.object [("scope", .object key.scope), ("fields", .object key.fields)]).All
        Value.NumbersNormal := by
    intro key hscope hfields
    exact ⟨trivial, ⟨trivial, Value.AllFields.iff_forall.mpr hscope⟩,
      ⟨trivial, Value.AllFields.iff_forall.mpr hfields⟩, trivial⟩
  constructor
  · intro h
    have heq := jsonText_injective (hnormal a has haf) (hnormal b hbs hbf) h
    cases a
    cases b
    simpa using heq
  · rintro rfl
    rfl

/-- What is picked out of metadata has numbers as they are read. -/
theorem LoadedConfig.present_numbersRead {config : LoadedConfig} {metadata : Value}
    (h : metadata.All Value.NumbersNormal) : NumbersRead (config.present metadata) := by
  intro entry hentry
  obtain ⟨field, -, hfield⟩ := List.mem_filterMap.mp hentry
  obtain ⟨value, hvalue, rfl⟩ := Option.map_eq_some_iff.mp hfield
  exact h.pointer hvalue

/-- All the control keys of a selection. -/
def PolicySelection.controlKeys (selection : PolicySelection) : List String :=
  selection.consistency.snapshotKey.toList ++ selection.consistency.linearizationKey.toList ++
    selection.consistency.sessions.map (·.key) ++ selection.consistency.commitOrderingKey.toList ++
    selection.idempotencyKey.toList ++ selection.publicationKey.toList

/-- Every control key of a selection is made of its scope and of some of its fields. -/
theorem PolicySelector.selected_controlKeys {selector : PolicySelector} {policy : EntityRules}
    {metadata : Value} {key : String}
    (hkey : key ∈ (selector.selected policy metadata).selection.controlKeys) :
    ∃ names, key = keyText selector.libraries.floats (selector.config.present metadata)
      (selector.scopeFor metadata) names := by
  have hoption : ∀ names : Option (List String),
      key ∈ (names.map (keyText selector.libraries.floats (selector.config.present metadata)
        (selector.scopeFor metadata))).toList → ∃ names, key = keyText selector.libraries.floats
          (selector.config.present metadata) (selector.scopeFor metadata) names := by
    intro names h
    cases names with
    | none => cases h
    | some names => exact ⟨names, by simpa using h⟩
  simp only [PolicySelection.controlKeys, PolicySelector.selected, ConsistencyPolicy.plan,
    List.mem_append] at hkey
  rcases hkey with ((((h | h) | h) | h) | h) | h
  · exact hoption _ h
  · exact AcquirePolicy.linearizationKey_acquired (by simpa using h)
  · simp only [List.map_map, List.mem_map, Function.comp_apply] at h
    obtain ⟨session, -, rfl⟩ := h
    exact ⟨session.keyBy, rfl⟩
  · exact hoption _ h
  · exact hoption _ h
  · exact hoption _ h

/-- The scope of a selection, and how `select_scope` finds it. -/
theorem PolicySelector.select_scope {selector : PolicySelector} {entityType : String}
    {metadata : Value} {selected : Selected}
    (h : selector.select entityType metadata = .ok selected) :
    selected.selection.scope =
        jsonText selector.libraries.floats (.object (selector.scopeFor metadata)) ∧
      selector.selectScope metadata = .ok selected.selection.scope := by
  obtain ⟨policy, -, hselectable, rfl⟩ := select_eq_ok.mp h
  exact ⟨rfl, Except.bind_eq_ok.mpr ⟨_, selectFields_eq_ok.mpr ⟨hselectable.valid, rfl⟩,
    Except.bind_eq_ok.mpr ⟨_, (selectKey_eq_ok (selector.config.present_sorted metadata)).mpr
      ⟨hselectable.scope, rfl⟩, rfl⟩⟩⟩

theorem PolicySelector.selectScope_eq_ok {selector : PolicySelector} {metadata : Value}
    {text : String} (h : selector.selectScope metadata = .ok text) :
    text = jsonText selector.libraries.floats (.object (selector.scopeFor metadata)) := by
  obtain ⟨_, hfields, h⟩ := Except.bind_eq_ok.mp h
  obtain ⟨-, rfl⟩ := selectFields_eq_ok.mp hfields
  obtain ⟨scope, hscope, h⟩ := Except.bind_eq_ok.mp h
  obtain ⟨-, rfl⟩ := (selectKey_eq_ok (selector.config.present_sorted metadata)).mp hscope
  rw [Except.pure_eq_ok, Except.ok.injEq] at h
  exact h.symm

/-- **Requests that share a key share their scope.** Whatever their metadata, their entity types and
their behaviors are: no work unit, idempotency record, session or lock is shared across scopes, and
what a request changes is in the scope it could follow the changes of. -/
theorem PolicySelector.select_sharedKey (selector : PolicySelector) (entityType entityType' : String)
    (metadata metadata' : Value) (selected selected' : Selected) (hread : metadata.Normal)
    (hread' : metadata'.Normal) (h : selector.select entityType metadata = .ok selected)
    (h' : selector.select entityType' metadata' = .ok selected') :
    selector.selectScope metadata = .ok selected.selection.scope ∧
      ((∃ key, key ∈ selected.selection.controlKeys ∧ key ∈ selected'.selection.controlKeys) →
        selected.selection.scope = selected'.selection.scope) := by
  refine ⟨(select_scope h).2, ?_⟩
  rintro ⟨key, hkey, hkey'⟩
  obtain ⟨policy, -, -, rfl⟩ := select_eq_ok.mp h
  obtain ⟨policy', -, -, rfl⟩ := select_eq_ok.mp h'
  have hfields := @LoadedConfig.present_numbersRead selector.config _ (hread.imp fun _ h => h.1)
  have hfields' := @LoadedConfig.present_numbersRead selector.config _ (hread'.imp fun _ h => h.1)
  obtain ⟨names, rfl⟩ := selected_controlKeys hkey
  obtain ⟨names', heq⟩ := selected_controlKeys hkey'
  have hkeys := (ControlKey.text_eq_iff (hfields.restrict _) (hfields.restrict _)
    (hfields'.restrict _) (hfields'.restrict _)).mp heq
  have hscope : selector.scopeFor metadata = selector.scopeFor metadata' :=
    congrArg ControlKey.scope hkeys
  simp only [PolicySelector.selected, hscope]

theorem tenants_sharedKey :
    (tenants noteFloats).selectScope (.object (batchMeta "a" "u")) =
        .ok ((tenants noteFloats).selected tenantNotes (.object (batchMeta "a" "u"))).selection.scope ∧
      ((∃ key,
          key ∈ ((tenants noteFloats).selected tenantNotes
            (.object (batchMeta "a" "u"))).selection.controlKeys ∧
          key ∈ ((tenants noteFloats).selected tenantNotes
            (.object (batchMeta "b" "u"))).selection.controlKeys) →
        ((tenants noteFloats).selected tenantNotes (.object (batchMeta "a" "u"))).selection.scope =
          ((tenants noteFloats).selected tenantNotes
            (.object (batchMeta "b" "u"))).selection.scope) :=
  PolicySelector.select_sharedKey (tenants noteFloats) "note" "note" _ _ _ _
    (batchMeta_normal "a" "u") (batchMeta_normal "b" "u") rfl rfl

/-! ### Selections of an accepted configuration -/

/-- A selection as an accepted configuration makes it: its merge rules are disjoint, a batch reads
the snapshot it publishes, and no two of its sessions are one. -/
structure PolicySelection.Sound (selection : PolicySelection) : Prop where
  plan : AcceptedPlan selection.conflict
  snapshot : selection.consistency.snapshotKey = selection.publicationKey
  batch : selection.publication.isBatch → selection.publicationKey.isSome ∧
    selection.consistency.causal = [] ∧ selection.consistency.sessions = []
  sources : selection.consistency.allowedSources ≠ []
  linearizable : selection.consistency.linearizationKey.isSome →
    selection.consistency.allowedSources = [.authority]
  sessions : (selection.consistency.sessions.map (·.key)).Nodup
  guarantees : ∀ session ∈ selection.consistency.sessions, session.guarantees ≠ []

theorem restrict_congr {fields : Meta} {names names' : List String} (h : names ⊆ names')
    (h' : names' ⊆ names) : restrict fields names = restrict fields names' :=
  List.filter_congr fun entry _ => by
    rw [decide_eq_decide]
    exact ⟨fun hin => h hin, fun hin => h' hin⟩

/-- Names of fields that are there can be read off the part of the fields they pick out. -/
theorem subset_of_restrict_eq {fields : Meta} {names names' : List String}
    (hnames : ∀ name ∈ names, (fields.lookup name).isSome)
    (h : restrict fields names = restrict fields names') : names ⊆ names' := by
  intro name hname
  obtain ⟨value, hvalue⟩ := Option.isSome_iff_exists.mp (hnames name hname)
  have hin : (name, value) ∈ restrict fields names :=
    List.mem_filter.mpr ⟨Table.mem_of_lookup hvalue, by simpa using hname⟩
  rw [h] at hin
  simpa using (List.mem_filter.mp hin).2

/-- **One key, one set of names.** -/
theorem keyText_perm {floats : FloatText} {fields scope : Meta} {names names' : List String}
    (hfields : NumbersRead fields) (hscope : NumbersRead scope)
    (hnames : ∀ name ∈ names, (fields.lookup name).isSome)
    (hnames' : ∀ name ∈ names', (fields.lookup name).isSome) (hnodup : names.Nodup)
    (hnodup' : names'.Nodup)
    (h : keyText floats fields scope names = keyText floats fields scope names') :
    names.Perm names' := by
  have hkey := (ControlKey.text_eq_iff hscope (hfields.restrict names) hscope
    (hfields.restrict names')).mp h
  have hrestrict : restrict fields names = restrict fields names' :=
    congrArg ControlKey.fields hkey
  exact (List.perm_ext_iff_of_nodup hnodup hnodup').mpr fun name =>
    ⟨fun hin => subset_of_restrict_eq hnames hrestrict hin,
      fun hin => subset_of_restrict_eq hnames' hrestrict.symm hin⟩

/-- An entity type of an accepted configuration has accepted behaviors. -/
theorem AcceptedEntityType.behaviors {schemas : SchemaLibrary} {fields scopeBy : List String}
    {entry : String × EntityRules} (h : AcceptedEntityType schemas fields scopeBy entry)
    {behavior : Behavior} (hbehavior : behavior ∈ entry.2.behaviors) :
    AcceptedBehavior fields scopeBy behavior := by
  rcases List.mem_append.mp hbehavior with hmapped | hfallback
  · obtain ⟨rule, hrule, rfl⟩ := List.mem_map.mp hmapped
    exact (h.rules rule hrule).behavior
  · rw [List.mem_singleton.mp hfallback]
    exact h.fallback

section Plan

variable {libraries : PolicyLibraries} {fields scope : Meta} {known scopeBy : List String}

/-- A linearized plan reads from the authority only, if it may. -/
theorem AcquirePolicy.acquired_linearizable {policy : AcquirePolicy}
    (hauthority : .authority ∈ policy.allowSources)
    (h : (policy.acquired libraries fields scope).linearizationKey.isSome) :
    (policy.acquired libraries fields scope).allowedSources = [.authority] := by
  have hfold : ∀ (requirements : List AcquireRequirement) (acquired : Acquired),
      (acquired.linearizationKey.isSome → acquired.allowedSources.filter (· = .authority) =
        acquired.allowedSources) →
      (requirements.foldl (Acquired.add libraries fields scope) acquired).linearizationKey.isSome →
        (requirements.foldl (Acquired.add libraries fields scope) acquired).allowedSources =
          acquired.allowedSources.filter (· = .authority) := by
    intro requirements
    induction requirements with
    | nil => exact fun acquired hacquired h => (hacquired h).symm
    | cons requirement rest ih =>
      intro acquired hacquired h
      cases requirement with
      | causalAfter token isOptional => exact ih _ hacquired h
      | linearizable keyBy =>
        rw [List.foldl_cons, ih _ (fun _ => by simp [Acquired.add]) h]
        simp [Acquired.add]
  unfold AcquirePolicy.acquired at h ⊢
  rw [hfold _ _ (by simp) h]
  simp [sourceSet, hauthority]

theorem AcquirePolicy.acquired_sources_ne_nil {policy : AcquirePolicy}
    (hsources : policy.allowSources ≠ [])
    (hauthority : policy.requirements.any (!·.isCausal) → .authority ∈ policy.allowSources) :
    (policy.acquired libraries fields scope).allowedSources ≠ [] := by
  by_cases hany : policy.requirements.any (!·.isCausal) = true
  · exact List.ne_nil_of_mem (AcquirePolicy.authority_mem_acquired.mpr (hauthority hany))
  · have hall : ∀ r ∈ policy.requirements, r.isCausal = true := by simpa using hany
    unfold AcquirePolicy.acquired
    rw [Acquired.foldl_add_causal hall]
    obtain ⟨source, hsource⟩ := List.exists_mem_of_ne_nil _ hsources
    exact List.ne_nil_of_mem (List.mem_filter.mpr
      ⟨show source ∈ _ by cases source <;> simp, by simpa using hsource⟩)

/-- The consistency plan of an accepted policy. -/
theorem ConsistencyPolicy.plan_sessions_nodup {policy : ConsistencyPolicy}
    {publication : PublicationPolicy} (h : AcceptedConsistency known scopeBy policy publication)
    (hfields : NumbersRead fields) (hscope : NumbersRead scope)
    (hnames : ∀ session ∈ policy.sessions, ∀ name ∈ session.keyBy,
      (fields.lookup name).isSome) :
    ((policy.plan libraries fields scope).sessions.map (·.key)).Nodup := by
  simp only [ConsistencyPolicy.plan, List.map_map, List.Nodup, List.pairwise_map,
    Function.comp_apply]
  exact h.sessionKeys.imp_of_mem fun {s t} hs ht hperm heq => hperm (keyText_perm hfields hscope
    (hnames s hs) (hnames t ht) (h.sessions s hs).control.nodup (h.sessions t ht).control.nodup heq)

end Plan

/-- **Selections of an accepted configuration are sound.** -/
theorem PolicySelector.select_sound {selector : PolicySelector} {entityType : String}
    {metadata : Value} {selected : Selected}
    (hvalid : selector.config.validate selector.libraries.schemas = .ok ())
    (hread : metadata.Normal) (h : selector.select entityType metadata = .ok selected) :
    selected.selection.Sound := by
  obtain ⟨policy, hpolicy, hselectable, rfl⟩ := select_eq_ok.mp h
  have haccepted := LoadedConfig.accepted_of_validate hvalid
  have hbehavior := (haccepted.entityTypes _ (Table.mem_of_lookup hpolicy)).behaviors
    (EntityRules.matched_mem_behaviors policy (selector.config.present metadata))
  have hfields := @LoadedConfig.present_numbersRead selector.config _ (hread.imp fun _ h => h.1)
  have hconsistency := hbehavior.consistency
  have hrequired := hselectable.required
  simp only [Behavior.required, List.forall_mem_append, List.forall_mem_flatMap] at hrequired
  obtain ⟨⟨⟨-, hsessions⟩, -⟩, -⟩ := hrequired
  refine {
    plan := ⟨"", (selector.behaviorFor policy metadata).conflict, _,
      validateConflict_eq_ok.mpr hbehavior.conflict, rfl⟩
    snapshot := ?_
    batch := fun hbatch => ?_
    sources := AcquirePolicy.acquired_sources_ne_nil hconsistency.sourced hconsistency.authority
    linearizable := fun hkey => ?_
    sessions := ConsistencyPolicy.plan_sessions_nodup hconsistency hfields
      (hfields.restrict _) hsessions
    guarantees := ?_ }
  · have hfits := hconsistency.snapshot
    simp only [PolicySelector.selected, ConsistencyPolicy.plan, behaviorFor]
    revert hfits
    generalize (policy.matched (selector.config.present metadata)).2 = behavior
    cases behavior.consistency.snapshot with
    | request =>
      cases behavior.publication with
      | immediate => exact fun _ => rfl
      | batch keyBy closeField closeEquals ttl => exact False.elim
    | shared snapshotKey =>
      cases behavior.publication with
      | immediate => exact False.elim
      | batch keyBy closeField closeEquals ttl =>
        rintro ⟨-, -, hsub, hsup⟩
        simp only [SnapshotPolicy.keyFields, PublicationPolicy.keyFields, Option.map_some,
          keyText, restrict_congr hsub hsup]
  · obtain ⟨hnone, hcausal⟩ := hconsistency.batch hbatch
    refine ⟨?_, ?_, ?_⟩
    · simp only [PolicySelector.selected, behaviorFor] at hbatch ⊢
      revert hbatch
      cases (policy.matched (selector.config.present metadata)).2.publication with
      | immediate => simp [PublicationPolicy.isBatch]
      | batch keyBy closeField closeEquals ttl => exact fun _ => rfl
    · rw [List.eq_nil_iff_forall_not_mem]
      intro plan hplan
      obtain ⟨token, isOptional, hin, -⟩ := AcquirePolicy.mem_acquired_causal.mp hplan
      cases hcausal _ hin
    · simp only [PolicySelector.selected, ConsistencyPolicy.plan, behaviorFor, hnone, List.map_nil]
  · obtain ⟨requirement, hin, hrequirement⟩ := AcquirePolicy.exists_linearizable hkey
    exact AcquirePolicy.acquired_linearizable (hconsistency.authority
      (List.any_eq_true.mpr ⟨requirement, hin, by simpa using hrequirement⟩)) hkey
  · intro session hsession
    obtain ⟨policySession, hin, rfl⟩ := List.mem_map.mp hsession
    obtain ⟨guarantee, hguarantee⟩ :=
      List.exists_mem_of_ne_nil _ (hconsistency.sessions policySession hin).guaranteed
    exact List.ne_nil_of_mem (List.mem_filter.mpr
      ⟨show guarantee ∈ _ by cases guarantee <;> simp, by simpa using hguarantee⟩)

theorem tenants_sound :
    ((tenants noteFloats).selected tenantNotes (.object (batchMeta "a" "u"))).selection.Sound :=
  @PolicySelector.select_sound (tenants noteFloats) "note" _ _ rfl (batchMeta_normal "a" "u") rfl

end Patchouli
